import Rns.Git.Server

/-!
# Pushing

`apply_push` fetches the heads and tags of the bundle over those of the repository and then makes the
updates until git refuses one.  The fetch sets references that no update names, and others before their
update is checked.
-/

namespace Rns.Git

abbrev Refs := Text → Option Text

def objectOf (sha : Text) : Option Text :=
  if sha.all (· = '0') then none else some (Text.toAsciiLowercase sha)

/-- The commands of a push: whether the repository is there or can be initialised, the references of a
bundle that can be fetched, and what `update-ref` refuses besides a wrong old value. -/
structure GitRefs where
  ready : Bool
  bundle : Bytes → Option (List (Text × Text))
  refuses : Refs → Text → Option Text → Bool

namespace GitRefs

variable (git : GitRefs)

variable (refname : Text)

/-- What `+refs/heads/*:refs/heads/*` and `+refs/tags/*:refs/tags/*` match. -/
def isFetched : Bool :=
  "refs/heads/".toList.isPrefixOf refname || "refs/tags/".toList.isPrefixOf refname

def fetch (bundle : List (Text × Text)) (refs : Refs) : Refs := fun refname =>
  if isFetched refname then (bundle.lookup refname).or (refs refname) else refs refname

/-- An old value is given to `update-ref`, and the reference has another. -/
def isOutdated (refs : Refs) (refname : Text) (old : Option Text) (force : Bool) : Bool :=
  !force && old.any fun old => objectOf old ≠ refs refname

/-- `git update-ref`, with or without `-d`. -/
def runUpdateRef (target old : Option Text) (force : Bool) (refs : Refs) :
    Except Error Unit × Refs :=
  if isOutdated refs refname old force || git.refuses refs refname target then
    (.error (.msg "git command failed".toList), refs)
  else (.ok (), Function.update refs refname target)

def updateRef (new : Text) (old : Option Text) (force : Bool) (refs : Refs) :
    Except Error Unit × Refs :=
  git.runUpdateRef refname (objectOf new) old force refs

def deleteRef (old : Option Text) (force : Bool) (refs : Refs) : Except Error Unit × Refs :=
  git.runUpdateRef refname none old force refs

/-- The loop of `apply_push` over the updates. -/
def applyUpdates : List RefUpdate → Refs → Except Error Unit × Refs
  | [], refs => (.ok (), refs)
  | update :: rest, refs =>
    let result := match update.new with
      | some new => git.updateRef update.refname new update.old update.force refs
      | none => git.deleteRef update.refname update.old update.force refs
    match result with
    | (.error e, refs) => (.error e, refs)
    | (.ok (), refs) => applyUpdates rest refs

def applyPush (bundle : Bytes) (updates : List RefUpdate) (refs : Refs) : Except Error Unit × Refs :=
  match validateRefUpdates updates with
  | .error e => (.error e, refs)
  | .ok () =>
    if !git.ready then (.error (.msg "git command failed".toList), refs)
    else match if bundle.isEmpty then some [] else git.bundle bundle with
      | none => (.error (.msg "git command failed".toList), refs)
      | some fetched => git.applyUpdates updates (fetch fetched refs)

end GitRefs

/-! ## Single updates -/

namespace RefUpdate

def target (u : RefUpdate) : Option Text := u.new.bind objectOf

def Outdated (u : RefUpdate) (refs : Refs) : Prop := GitRefs.isOutdated refs u.refname u.old u.force

instance (u : RefUpdate) (refs : Refs) : Decidable (u.Outdated refs) :=
  inferInstanceAs (Decidable (_ = true))

def write (refs : Refs) (u : RefUpdate) : Refs := Function.update refs u.refname u.target

def writeAll (refs : Refs) (updates : List RefUpdate) : Refs := updates.foldl write refs

end RefUpdate

open RefUpdate

variable {bundle : List (Text × Text)} {refs : Refs} {updates : List RefUpdate}
  {done : List RefUpdate}

section Updates

variable {git : GitRefs} {refs : Refs} {u : RefUpdate} {updates : List RefUpdate} {refname : Text}

theorem writeAll_of_not_named (h : ∀ u ∈ updates, u.refname ≠ refname) :
    writeAll refs updates refname = refs refname := by
  induction updates generalizing refs with
  | nil => rfl
  | cons u rest ih =>
    have hrest : writeAll (write refs u) rest refname = write refs u refname :=
      ih fun v hv => h v (List.mem_cons_of_mem _ hv)
    have hne : refname ≠ u.refname := (h u List.mem_cons_self).symm
    exact hrest.trans (Function.update_of_ne hne _ _)

theorem writeAll_last (refs : Refs) (before : List RefUpdate) {after : List RefUpdate}
    (h : ∀ v ∈ after, v.refname ≠ u.refname) :
    writeAll refs (before ++ u :: after) u.refname = u.target := by
  have hsplit : writeAll refs (before ++ u :: after) =
      writeAll (write (writeAll refs before) u) after := List.foldl_append
  rw [hsplit, writeAll_of_not_named h]
  exact Function.update_self ..

theorem exists_last_named (h : ∃ u ∈ updates, u.refname = refname) :
    ∃ before u after, updates = before ++ u :: after ∧ u.refname = refname ∧
      ∀ v ∈ after, v.refname ≠ refname := by
  induction updates with
  | nil => simp at h
  | cons u rest ih =>
    by_cases hrest : ∃ v ∈ rest, v.refname = refname
    · obtain ⟨before, v, after, rfl, hv, hlast⟩ := ih hrest
      exact ⟨u :: before, v, after, rfl, hv, hlast⟩
    · obtain ⟨v, hv, heq⟩ := h
      obtain rfl | hv := List.mem_cons.1 hv
      · exact ⟨[], v, rest, rfl, heq, fun w hw hwr => hrest ⟨w, hw, hwr⟩⟩
      · exact absurd ⟨v, hv, heq⟩ hrest

theorem applyUpdates_cons (u : RefUpdate) (rest : List RefUpdate) (refs : Refs) :
    (git.applyUpdates (u :: rest) refs).2 =
      if u.Outdated refs ∨ git.refuses refs u.refname u.target then refs
      else (git.applyUpdates rest (write refs u)).2 := by
  have hrun : (match u.new with
      | some new => git.updateRef u.refname new u.old u.force refs
      | none => git.deleteRef u.refname u.old u.force refs) =
      git.runUpdateRef u.refname u.target u.old u.force refs := by
    rw [target]
    cases u.new <;> rfl
  rw [GitRefs.applyUpdates]
  simp only [hrun, GitRefs.runUpdateRef, Bool.or_eq_true]
  by_cases hstop : u.Outdated refs ∨ git.refuses refs u.refname u.target
  · rw [if_pos hstop, if_pos (show GitRefs.isOutdated refs u.refname u.old u.force ∨ _ from hstop)]
  · rw [if_neg hstop, if_neg (show ¬(GitRefs.isOutdated refs u.refname u.old u.force ∨ _) from hstop)]
    rfl

def Unrefused (refs : Refs) (updates : List RefUpdate) : Prop :=
  ∀ before u after, updates = before ++ u :: after → ¬u.Outdated (writeAll refs before)

theorem unrefused_nil (refs : Refs) : Unrefused refs [] := by
  intro before u after h
  simp at h

theorem unrefused_cons {rest : List RefUpdate} :
    Unrefused refs (u :: rest) ↔ ¬u.Outdated refs ∧ Unrefused (write refs u) rest := by
  constructor
  · intro h
    exact ⟨h [] u rest rfl, fun before v after hrest => h (u :: before) v after (by rw [hrest]; rfl)⟩
  · rintro ⟨hfirst, hrest⟩ before v after hsplit
    cases before with
    | nil =>
      obtain ⟨rfl, -⟩ := List.cons.inj hsplit
      exact hfirst
    | cons w before =>
      obtain ⟨rfl, htail⟩ := List.cons.inj hsplit
      exact hrest before v after htail

theorem applyUpdates_done (git : GitRefs) (updates : List RefUpdate) (refs : Refs) :
    ∃ done rest, updates = done ++ rest ∧ Unrefused refs done ∧
      (git.applyUpdates updates refs).2 = writeAll refs done := by
  induction updates generalizing refs with
  | nil => exact ⟨[], [], rfl, unrefused_nil refs, rfl⟩
  | cons u rest ih =>
    rw [applyUpdates_cons]
    split_ifs with hstop
    · exact ⟨[], u :: rest, rfl, unrefused_nil refs, rfl⟩
    · obtain ⟨done, left, rfl, hdone, hafter⟩ := ih (write refs u)
      rw [not_or] at hstop
      exact ⟨u :: done, left, rfl, unrefused_cons.2 ⟨hstop.1, hdone⟩, hafter⟩

theorem exists_applyUpdates (ready : Bool) (bundle : Bytes → Option (List (Text × Text)))
    (rest : List RefUpdate) (h : Unrefused refs done) :
    ∃ refuses, (GitRefs.applyUpdates ⟨ready, bundle, refuses⟩ (done ++ rest) refs).2 =
      writeAll refs done := by
  classical
  cases rest with
  | nil =>
    refine ⟨fun _ _ _ => false, ?_⟩
    rw [List.append_nil]
    induction done generalizing refs with
    | nil => rfl
    | cons u done ih =>
      rw [unrefused_cons] at h
      rw [applyUpdates_cons, if_neg (by simpa using h.1), ih h.2]
      rfl
  | cons stop rest =>
    -- git refuses the next update once the references have the values they are to end with
    refine ⟨fun refs' refname target =>
      decide (refs' = writeAll refs done ∧ refname = stop.refname ∧ target = stop.target), ?_⟩
    generalize hend : writeAll refs done = goal
    induction done generalizing refs with
    | nil =>
      obtain rfl : refs = goal := hend
      rw [List.nil_append, applyUpdates_cons, if_pos (.inr (by simp))]
    | cons u done ih =>
      rw [unrefused_cons] at h
      rw [List.cons_append, applyUpdates_cons]
      split_ifs with hstop
      · simp only [h.1, false_or, decide_eq_true_eq] at hstop
        exact hstop.1
      · exact ih h.2 hend

end Updates

/-! ## Pushes that change only what they ask for -/

/-- The references that a push has not asked to change: those that no update names, and those named by
an update with an outdated old value. -/
def Protected (updates : List RefUpdate) (refs : Refs) (refname : Text) : Prop :=
  (∀ u ∈ updates, u.refname ≠ refname) ∨ ∃ u ∈ updates, u.refname = refname ∧ u.Outdated refs

/-- The references after a push differ only where it asked for it. -/
structure OnlyAsked (updates : List RefUpdate) (before after : Refs) : Prop where
  unnamed : ∀ refname, (∀ u ∈ updates, u.refname ≠ refname) → after refname = before refname
  outdated : ∀ u ∈ updates, u.Outdated before → after u.refname = before u.refname

theorem onlyAsked_iff {before after : Refs} :
    OnlyAsked updates before after ↔
      ∀ refname, Protected updates before refname → after refname = before refname := by
  constructor
  · rintro h refname (hunnamed | ⟨u, hu, rfl, houtdated⟩)
    · exact h.unnamed refname hunnamed
    · exact h.outdated u hu houtdated
  · exact fun h => ⟨fun refname hunnamed => h refname (.inl hunnamed),
      fun u hu houtdated => h u.refname (.inr ⟨u, hu, rfl, houtdated⟩)⟩

/-- The condition on a push with these references in its bundle: the repository has every protected
reference of the bundle as it is there, and an update that would change a protected reference comes with
or after one that finds another value than its old value, by then. -/
structure Harmless (bundle : List (Text × Text)) (updates : List RefUpdate) (refs : Refs) : Prop where
  fetches : ∀ refname, Protected updates refs refname → GitRefs.isFetched refname →
    ∀ sha ∈ bundle.lookup refname, refs refname = some sha
  changes : ∀ before u after, updates = before ++ u :: after → Protected updates refs u.refname →
    u.target ≠ refs u.refname → ¬Unrefused (GitRefs.fetch bundle refs) (before ++ [u])

theorem fetch_eq_iff {refname : Text} :
    GitRefs.fetch bundle refs refname = refs refname ↔
      (GitRefs.isFetched refname → ∀ sha ∈ bundle.lookup refname, refs refname = some sha) := by
  rw [GitRefs.fetch]
  by_cases hfetched : GitRefs.isFetched refname
  · rw [if_pos hfetched]
    cases bundle.lookup refname with
    | none => simp
    | some sha => simp [hfetched, eq_comm]
  · simp [hfetched]

theorem Unrefused.append_left (more : List RefUpdate) (h : Unrefused refs (done ++ more)) :
    Unrefused refs done := by
  rintro before u after rfl
  exact h before u (after ++ more) (by simp)

theorem harmless_iff :
    Harmless bundle updates refs ↔ ∀ done rest, updates = done ++ rest →
      Unrefused (GitRefs.fetch bundle refs) done → ∀ refname, Protected updates refs refname →
        writeAll (GitRefs.fetch bundle refs) done refname = refs refname := by
  constructor
  · rintro h done rest hupdates hdone refname hprotected
    by_cases hnamed : ∃ u ∈ done, u.refname = refname
    · obtain ⟨before, u, after, rfl, rfl, hlast⟩ := exists_last_named hnamed
      rw [writeAll_last _ before hlast]
      by_contra hchanges
      refine h.changes before u (after ++ rest) (by simp [hupdates]) hprotected hchanges ?_
      refine Unrefused.append_left after ?_
      simpa using hdone
    · have hsame : ∀ u ∈ done, u.refname ≠ refname := fun u hu heq => hnamed ⟨u, hu, heq⟩
      rw [writeAll_of_not_named hsame, fetch_eq_iff]
      exact h.fetches refname hprotected
  · intro h
    refine ⟨fun refname hprotected => fetch_eq_iff.1 ?_, ?_⟩
    · exact h [] updates rfl (unrefused_nil _) refname hprotected
    · rintro before u after hupdates hprotected hchanges hdone
      have hkept := h (before ++ [u]) after (by simp [hupdates]) hdone u.refname hprotected
      rw [writeAll_last _ before (by simp)] at hkept
      exact hchanges hkept

/-- A push changes only what it asked for, whatever git refuses on its own, exactly if it is turned down
as a whole or is harmless. -/
theorem push_changes_only_asked_iff (ready : Bool) (bundleRefs : Bytes → Option (List (Text × Text)))
    (bundle : Bytes) (updates : List RefUpdate) (refs : Refs) :
    (∀ refuses, OnlyAsked updates refs
        (GitRefs.applyPush ⟨ready, bundleRefs, refuses⟩ bundle updates refs).2) ↔
      ∀ fetched, validateRefUpdates updates = .ok () → ready →
        (if bundle.isEmpty then some [] else bundleRefs bundle) = some fetched →
        Harmless fetched updates refs := by
  simp only [onlyAsked_iff, GitRefs.applyPush]
  cases validateRefUpdates updates with
  | error e => simp
  | ok =>
    cases ready with
    | false => simp
    | true =>
      cases (if bundle.isEmpty then some [] else bundleRefs bundle) with
      | none => simp
      | some fetched =>
        simp only [Bool.not_true, Bool.false_eq_true, if_false, Option.some.injEq, forall_const,
          forall_eq', harmless_iff]
        constructor
        · rintro h done rest rfl hdone refname hprotected
          obtain ⟨refuses, hafter⟩ := exists_applyUpdates true bundleRefs rest hdone
          rw [← hafter]
          exact h refuses refname hprotected
        · intro h refuses refname hprotected
          obtain ⟨done, rest, hupdates, hdone, hafter⟩ :=
            applyUpdates_done ⟨true, bundleRefs, refuses⟩ updates (GitRefs.fetch fetched refs)
          rw [hafter]
          exact h done rest hupdates hdone refname hprotected

/-! ### A bundle with more than was asked for -/

def sampleSha (c : Char) : Text := List.replicate 40 c

def twoBranches : Refs := fun refname =>
  if refname = "refs/heads/main".toList then some (sampleSha 'a')
  else if refname = "refs/heads/other".toList then some (sampleSha 'b')
  else none

/-- The push asks to create a tag and has a bundle with another branch; and it asks to change a branch
from a value that it does not have and that the bundle gives it. -/
theorem bundle_overwrites_branches :
    let git : GitRefs := ⟨true, fun _ => some [("refs/heads/other".toList, sampleSha 'c')], fun _ _ _ => false⟩
    let asTag : RefUpdate := ⟨"refs/tags/v1".toList, none, some (sampleSha 'a'), false⟩
    let outdated : RefUpdate := ⟨"refs/heads/other".toList, some (sampleSha 'd'), some (sampleSha 'e'), false⟩
    (git.applyPush [0] [asTag] twoBranches).2 "refs/heads/other".toList ≠
        twoBranches "refs/heads/other".toList ∧
      outdated.Outdated twoBranches ∧
      (git.applyPush [0] [outdated] twoBranches).2 "refs/heads/other".toList ≠
        twoBranches "refs/heads/other".toList := by
  decide +kernel

end Rns.Git

import Rns.Git.Server

/-!
# Repository names and the root directory

Which accepted names keep the server inside its root.  An accepted name may start with `/`; joined to
the root it then replaces it.
-/

namespace Rns.Git

open FsPath Component Confined List

/-! ## Paths -/

variable {root p name : Text}

theorem Accepted.below_of_relative (h : Accepted name) (hrel : isAbsolute name = false) :
    Below root (join root name) := by
  refine ⟨_, ?_, h.components_join root hrel, by simp⟩
  simpa using h.names_ne_nil

theorem below_allowed (h : Below root p) : Below root (join p ".allowed".toList) := by
  obtain ⟨rest, hne, hrest, hup⟩ := h
  refine ⟨rest ++ [.normal ".allowed".toList], by simp, ?_, by simp [hup]⟩
  rw [components_join_name p (by decide) (by decide), hrest, append_assoc]
  rfl

theorem below_join_name (root : Text) {s : Text} (hsep : '/' ∉ s) (hs : isName s)
    (hup : ofName s ≠ .parentDir) : Below root (join root s) :=
  ⟨[ofName s], by simp, components_join_name root hsep hs, by simpa using Ne.symm hup⟩

section

variable (h : Accepted name)
include h

theorem Accepted.components_suffixed (root : Text) :
    ∃ pre last, FsPath.names name = pre ++ (if last = [] then [] else [last]) ∧
      (last = [] ↔ name.getLast? = some '/') ∧
      ∀ {suffix : Text}, '/' ∉ suffix → 2 < suffix.length →
        components (join root (name ++ suffix)) =
          (if isAbsolute name then [.rootDir] else components root) ++
            (pre.map .normal ++ [.normal (last ++ suffix)]) := by
  have hne : name ≠ [] := by
    rintro rfl
    exact h.names_ne_nil rfl
  obtain ⟨pre, last, hnames, hend, hsuffixed⟩ := h.names_suffixed
  have hpre : ∀ s ∈ pre, Git.componentOk s := fun s hs => h.component_ok (by simp [hnames, hs])
  refine ⟨pre, last, hnames, hend, fun {suffix} hsep hlong => ?_⟩
  have hmap : (FsPath.names (name ++ suffix)).map ofName =
      pre.map .normal ++ [.normal (last ++ suffix)] := by
    rw [hsuffixed hsep hlong, map_append, map_singleton, ofName_append hlong,
      map_congr_left fun s hs => ofName_of_componentOk (hpre s hs)]
  by_cases habs : isAbsolute name
  · have habs' : isAbsolute (name ++ suffix) := by rw [isAbsolute_append hne, habs]
    rw [join_of_isAbsolute root habs', components, start, if_pos habs', if_pos habs, hmap]
  · have hrel : isAbsolute name = false := by simpa using habs
    have hrel' : isAbsolute (name ++ suffix) = false := by rw [isAbsolute_append hne, hrel]
    have hdot : ((name ++ suffix).splitOn '/').head? ≠ some ['.'] := by
      -- the first segment is the first segment of the name, or the whole suffixed name
      rcases Text.not_mem_or_last '/' name with hnot | ⟨before, after, rfl, -⟩
      · rw [splitOn_eq_singleton (by simp [hnot, hsep])]
        intro heq
        have hlen := congrArg length (Option.some.inj heq)
        simp only [length_append, length_singleton] at hlen
        omega
      · have hgroup := h.group_ok hrel
        rw [append_assoc, cons_append, splitOn_append_cons_self,
          head?_append_of_ne_nil _ (splitOn_ne_nil '/' before)]
        rw [group, splitOn_append_cons_self] at hgroup
        cases hs : before.splitOn '/' with
        | nil => exact absurd hs (splitOn_ne_nil '/' before)
        | cons s ss =>
          rw [hs] at hgroup
          intro heq
          rw [head?_cons, Option.some.injEq] at heq
          rw [cons_append, headD_cons, heq] at hgroup
          exact absurd hgroup (by decide)
    rw [FsPath.components_join root hrel' hdot, if_neg habs, hmap]

theorem Accepted.components_sidecar (root : Text) :
    ∃ pre last, FsPath.names name = pre ++ (if last = [] then [] else [last]) ∧
      components (join root (name ++ ".allowed".toList)) =
        (if isAbsolute name then [.rootDir] else components root) ++
          (pre.map .normal ++ [.normal (last ++ ".allowed".toList)]) := by
  obtain ⟨pre, last, hnames, -, hsuffixed⟩ := h.components_suffixed root
  exact ⟨pre, last, hnames, hsuffixed (by decide) (by decide)⟩

theorem Accepted.below_sidecar (hrel : isAbsolute name = false) :
    Below root (join root (name ++ ".allowed".toList)) := by
  obtain ⟨pre, last, -, hcomp⟩ := h.components_sidecar root
  rw [hrel] at hcomp
  exact ⟨_, by simp, hcomp, by simp⟩

theorem Accepted.below_group :
    Below root (join (join root (group name)) "group.allowed".toList) ∧
      Below root (join root (group name ++ ".allowed".toList)) := by
  have hsuffix : Below root (join root (group name ++ ".allowed".toList)) :=
    below_join_name root (by simp [sep_not_mem_group]) (isName_allowed _)
      (by rw [ofName_allowed]; simp)
  refine ⟨?_, hsuffix⟩
  have hgroup : components (join (join root (group name)) "group.allowed".toList) =
      components (join root (group name)) ++ [.normal "group.allowed".toList] :=
    components_join_name _ (by decide) (by decide)
  by_cases habs : isAbsolute name
  · -- joining the empty group adds at most a separator
    have hroot : components (join root []) = components root := by
      simpa using FsPath.components_join root (p := []) rfl (by simp)
    rw [group_of_isAbsolute habs] at hgroup ⊢
    exact ⟨[.normal "group.allowed".toList], by simp, by rw [hgroup, hroot], by simp⟩
  · have hok := h.group_ok (by simpa using habs)
    refine ⟨[.normal (group name), .normal "group.allowed".toList], by simp, ?_, by simp⟩
    rw [hgroup, components_join_name root (sep_not_mem_group name) (isName_of_componentOk hok),
      ofName_of_componentOk hok, append_assoc]
    rfl

theorem Accepted.below_sidecar_absolute (hroot : isAbsolute root) (habs : isAbsolute name)
    (hbelow : Below root name) : Below root (join root (name ++ ".allowed".toList)) := by
  obtain ⟨rest, hne, hrest, -⟩ := hbelow
  obtain ⟨pre, last, hnames, hcomp⟩ := h.components_sidecar root
  rw [if_pos habs] at hcomp
  have hstartRoot : components root = .rootDir :: (FsPath.names root).map ofName := by
    rw [components, start, if_pos hroot]
    rfl
  -- the last segment gives at most one name, so what is before it still covers the root
  have hprefix : (FsPath.names root).map ofName <+: pre.map .normal := by
    rw [h.components_absolute habs, hstartRoot, hnames, map_append,
      cons_append, cons.injEq] at hrest
    have hlen : ((if last = [] then [] else [last]).map normal).length ≤ 1 := by
      split_ifs <;> simp
    have hpos := length_pos_of_ne_nil hne
    have htotal := congrArg length hrest.2
    simp only [length_append] at htotal
    exact prefix_of_prefix_length_le (hrest.2 ▸ prefix_append _ rest)
      (prefix_append _ _) (by omega)
  obtain ⟨mid, hmid⟩ := hprefix
  refine ⟨mid ++ [.normal (last ++ ".allowed".toList)], by simp, ?_, ?_⟩
  · rw [hcomp, ← hmid, hstartRoot]
    simp
  · have hup : parentDir ∉ pre.map normal := by simp
    rw [← hmid] at hup
    simp only [mem_append, not_or] at hup
    simp [hup.2]

end

def PathsInside (root name : Text) : Prop :=
  Below root (join root name) ∧ ∀ p ∈ allowedFiles root name, Below root p

theorem pathsInside_iff (hroot : isAbsolute root) (h : Accepted name) : PathsInside root name ↔
      isAbsolute name = false ∨
        components root <+: components name ∧ components root ≠ components name := by
  by_cases habs : isAbsolute name
  · have hjoin : join root name = name := join_of_isAbsolute root habs
    simp only [habs, Bool.true_eq_false, false_or]
    constructor
    · rintro ⟨⟨rest, hrest, hcomp, -⟩, -⟩
      rw [hjoin] at hcomp
      refine ⟨hcomp ▸ prefix_append _ _, fun heq => hrest ?_⟩
      rw [heq] at hcomp
      simpa using hcomp
    · rintro ⟨⟨rest, hrest⟩, hproper⟩
      have hbelow : Below root name := by
        refine ⟨rest, ?_, hrest.symm, fun hmem => ?_⟩
        · rintro rfl
          exact hproper (by simpa using hrest)
        · have hmem' : parentDir ∈ components name := hrest ▸ mem_append_right _ hmem
          rw [h.components_absolute habs] at hmem'
          simp at hmem'
      refine ⟨hjoin.symm ▸ hbelow, ?_⟩
      simp only [allowedFiles, forall_mem_cons, not_mem_nil, false_implies,
        implies_true, and_true, hjoin]
      exact ⟨below_allowed hbelow, h.below_sidecar_absolute hroot habs hbelow,
        h.below_group⟩
  · have hrel : isAbsolute name = false := by simpa using habs
    simp only [hrel, true_or, iff_true]
    refine ⟨h.below_of_relative hrel, ?_⟩
    simp only [allowedFiles, forall_mem_cons, not_mem_nil, false_implies,
      implies_true, and_true]
    exact ⟨below_allowed (h.below_of_relative hrel), h.below_sidecar hrel, h.below_group⟩

/-! ## Handlers -/

theorem strictlyBelow_of_below (h : Below root p) :
    StrictlyBelow (components root) (components p) := by
  obtain ⟨rest, hne, hrest, -⟩ := h
  refine ⟨hrest ▸ prefix_append _ _, fun heq => hne ?_⟩
  rw [heq] at hrest
  simpa using hrest

section Confined

variable {run : Runner} {git : GitTool} {access : Access} {root : Loc}

theorem anyFileAllows_confined (op : Operation) (identity : Option Id) {paths : List Text}
    (h : ∀ p ∈ paths, StrictlyBelow root (components p)) :
    Confined root (access.anyFileAllows run op identity paths) := by
  induction paths with
  | nil => exact pure false
  | cons path rest ih =>
    have hrest := ih fun p hp => h p (by simp [hp])
    refine (node (h path (by simp))).bind fun node => ?_
    cases node with
    | none => exact hrest
    | some node =>
      refine (ofExcept _).bind fun allowed => ?_
      cases allowed with
      | true => exact pure true
      | false => exact hrest

theorem allows_confined (op : Operation) {repository : Text} (identity : Option Id)
    (h : ∀ p ∈ allowedFiles access.repositoriesDir repository, StrictlyBelow root (components p)) :
    Confined root (access.allows run op repository identity) := by
  have hrepo : ∀ op', Confined root (access.repoAllowed run op' repository identity) :=
    fun op' => anyFileAllows_confined op' identity h
  have hadmin : Confined root (access.adminAllows run op repository identity) := by
    unfold Access.adminAllows
    split_ifs
    · exact pure false
    · refine (hrepo .admin).bind fun allowed => ?_
      cases allowed <;> exact pure _
  refine (ofExcept _).bind fun _ => ?_
  split_ifs
  · exact pure false
  · refine hadmin.bind fun isAdmin => ?_
    cases isAdmin with
    | true => exact pure true
    | false =>
      refine (hrepo op).bind fun allowed => ?_
      cases allowed <;> exact pure _

namespace Server

theorem strictlyBelow_join_name {path s : Text} (h : StrictlyBelow root (components path))
    (hsep : '/' ∉ s) (hs : isName s) : StrictlyBelow root (components (join path s)) := by
  rw [components_join_name path hsep hs]
  exact ConfinedOp.prefix_strictlyBelow h (prefix_append _ _)

theorem isBareRepository_confined {path : Text} (h : StrictlyBelow root (components path)) :
    Confined root (isBareRepository path) :=
  (node (strictlyBelow_join_name h (by decide) (by decide))).bind fun _ =>
    (node (strictlyBelow_join_name h (by decide) (by decide))).bind fun _ =>
      pure _

theorem ensureBareRepository_confined {path : Text} (h : StrictlyBelow root (components path)) :
    Confined root (ensureBareRepository git path) := by
  have hparent : root <+: (components path).dropLast := by
    rcases prefix_or_prefix_of_prefix h.1 (List.dropLast_prefix (components path)) with hp | hp
    · exact hp
    · -- the root is no longer than the parent, so it is not the whole path
      have hlen := hp.length_le
      have hroot := h.1.length_le
      by_cases heq : root.length = (components path).length
      · exact absurd (h.1.eq_of_length heq).symm h.2
      · rw [length_dropLast] at hlen
        rw [hp.eq_of_length (by rw [length_dropLast]; omega)]
  refine (isBareRepository_confined h).bind fun bare => ?_
  cases bare with
  | true => exact pure _
  | false =>
    refine (attempt (ConfinedOp.createDirAll hparent)).bind fun made => ?_
    cases made with
    | false => exact pure _
    | true =>
      cases git.init path with
      | false => exact pure _
      | true =>
        refine (attempt (ConfinedOp.createDirAll h.1)).bind fun done => ?_
        cases done <;> exact pure _

theorem repositoryPath_confined {β : Type} {dir repo : Text} {f : Text → Fs β}
    (hf : Confined root (f (join dir repo))) :
    Confined root (FsM.ofExcept ((repositoryPath dir repo).mapError .error) >>= f) := by
  cases hv : validateRepoName repo with
  | error e =>
    have hpath : repositoryPath dir repo = .error e := by
      rw [repositoryPath, hv]
      rfl
    refine congr (fun t => ?_) (throw (Fault.error e))
    rw [hpath, FsM.exec_bind]
    rfl
  | ok u =>
    refine congr (fun t => ?_) hf
    rw [repositoryPath_of_accepted dir hv, FsM.exec_bind]
    rfl

variable {repo : Text} (remote : Option Id)
  (hpath : StrictlyBelow root (components (join access.repositoriesDir repo)))
  (hfiles : ∀ p ∈ allowedFiles access.repositoriesDir repo, StrictlyBelow root (components p))

include hpath hfiles

theorem handleList_confined : Confined root (handleList run git access repo remote) := by
  refine (allows_confined .read remote hfiles).bind fun allowed => ?_
  cases allowed with
  | false => exact pure _
  | true =>
    refine repositoryPath_confined ((isBareRepository_confined hpath).bind fun bare => ?_)
    cases bare with
    | false => exact pure _
    | true =>
      refine (subtree hpath).bind fun t => ?_
      split
      · exact pure _
      · split_ifs <;> exact pure _

theorem handleFetch_confined (haves : List Text) (refs : List (Text × Text)) :
    Confined root (handleFetch run git access repo haves refs remote) := by
  refine (allows_confined .read remote hfiles).bind fun allowed => ?_
  cases allowed with
  | false => exact pure _
  | true =>
    simp only [Bool.not_true, Bool.false_eq_true, if_false]
    split
    · exact pure _
    · exact pure _
    · refine repositoryPath_confined ((isBareRepository_confined hpath).bind fun bare => ?_)
      cases bare with
      | false => exact pure _
      | true =>
        refine (subtree hpath).bind fun t => ?_
        split
        · exact pure _
        · split_ifs <;> exact pure _

theorem handlePush_confined (bundle : Bytes) (updates : List RefUpdate) :
    Confined root (handlePush run git access repo bundle updates remote) := by
  refine repositoryPath_confined ?_
  split
  · exact pure _
  · exact pure _
  · refine (isBareRepository_confined hpath).bind fun bare => ?_
    refine (allows_confined _ remote hfiles).bind fun allowed => ?_
    cases allowed with
    | false => exact pure _
    | true =>
      have hpush : Confined root (applyPush git (join access.repositoriesDir repo) bundle updates) := by
        refine (ensureBareRepository_confined hpath).bind fun made => ?_
        cases made with
        | error e => exact pure _
        | ok u =>
          refine (within hpath _).bind fun result => ?_
          cases result <;> exact pure _
      refine hpush.bind fun result => ?_
      cases result <;> exact pure _

theorem handleDelete_confined : Confined root (handleDelete run access repo remote) := by
  refine (allows_confined .write remote hfiles).bind fun allowed => ?_
  cases allowed with
  | false => exact pure _
  | true =>
    refine repositoryPath_confined ((node hpath).bind fun node => ?_)
    split_ifs
    · exact pure _
    · refine (attempt (ConfinedOp.removeDirAll hpath)).bind fun done => ?_
      cases done <;> exact pure _

end Server

end Confined

/-! ## Which names stay inside -/

/-- The name keeps the server inside the root: every path built from it leads strictly below the
root without climbing, and listing, fetching, pushing and deleting work strictly below it. -/
structure StaysInside (root name : Text) : Prop where
  repository : ∀ p, repositoryPath root name = .ok p → Below root p
  ruleFiles : ∀ p ∈ allowedFiles root name, Below root p
  list : ∀ run git access remote, access.repositoriesDir = root →
    Confined (components root) (Server.handleList run git access name remote)
  fetch : ∀ run git access haves refs remote, access.repositoriesDir = root →
    Confined (components root) (Server.handleFetch run git access name haves refs remote)
  push : ∀ run git access bundle updates remote, access.repositoriesDir = root →
    Confined (components root) (Server.handlePush run git access name bundle updates remote)
  delete : ∀ run access remote, access.repositoriesDir = root →
    Confined (components root) (Server.handleDelete run access name remote)

/-- An accepted name stays inside an absolute root exactly when it does not start with `/`, or
itself leads strictly below the root. -/
theorem staysInside_iff (root name : Text) (hroot : isAbsolute root) (h : Accepted name) :
    StaysInside root name ↔
      isAbsolute name = false ∨
        components root <+: components name ∧ components root ≠ components name := by
  rw [← pathsInside_iff hroot h]
  constructor
  · intro hin
    exact ⟨hin.repository _ (repositoryPath_of_accepted root h), hin.ruleFiles⟩
  · rintro ⟨hrepo, hrules⟩
    have hpath := strictlyBelow_of_below hrepo
    have hfiles : ∀ p ∈ allowedFiles root name,
        StrictlyBelow (components root) (components p) :=
      fun p hp => strictlyBelow_of_below (hrules p hp)
    refine ⟨fun p hp => ?_, hrules, ?_, ?_, ?_, ?_⟩
    · rw [repositoryPath_of_accepted root h] at hp
      exact Except.ok.inj hp ▸ hrepo
    · rintro run git access remote rfl
      exact Server.handleList_confined remote hpath hfiles
    · rintro run git access haves refs remote rfl
      exact Server.handleFetch_confined remote hpath hfiles haves refs
    · rintro run git access bundle updates remote rfl
      exact Server.handlePush_confined remote hpath hfiles bundle updates
    · rintro run access remote rfl
      exact Server.handleDelete_confined remote hpath hfiles

theorem staysInside_group_repo :
    isAbsolute "/srv".toList = true ∧ Accepted "group/repo".toList ∧
      StaysInside "/srv".toList "group/repo".toList :=
  ⟨by decide, by decide, (staysInside_iff _ _ (by decide) (by decide)).mpr (.inl (by decide))⟩

/-- `/etc` is accepted, and the server takes it for the repository directory itself. -/
theorem etc_escapes :
    Accepted "/etc".toList ∧
      repositoryPath "/srv".toList "/etc".toList = .ok "/etc".toList ∧
      ¬Below "/srv".toList "/etc".toList := by
  refine ⟨by decide, by decide, fun ⟨rest, _, hrest, _⟩ => ?_⟩
  have hetc : components "/etc".toList = [.rootDir, .normal "etc".toList] := by decide
  have hsrv : components "/srv".toList = [.rootDir, .normal "srv".toList] := by decide
  rw [hetc, hsrv] at hrest
  simp at hrest

end Rns.Git

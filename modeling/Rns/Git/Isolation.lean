import Rns.Git.Grants

/-!
# Which repositories a creation leaves alone

The search through the rule files of `B` stops with an error at the first one that is a directory, so
the nodes a creation of `A` adds also go unnoticed behind a directory on the way to the group of `A`.
-/

namespace Rns.Git

open FsPath List
open Access (search answer exec_allows)

/-- The search certainly stops at a directory that was there before, whether or not it stops at
the new directory `repo`. -/
def Blocked (groupDir repo : Loc) : List Loc → Prop
  | [] => False
  | f :: fs => f <+: groupDir ∨ f = repo ∧ Blocked groupDir repo fs

/-- The search through the rule files does not notice the new nodes at `repo` and `sidecar`. -/
def Undisturbed (groupDir repo sidecar : Loc) : List Loc → Prop
  | [] => True
  | f :: fs => f <+: groupDir ∨ f ≠ sidecar ∧
      if f = repo then Blocked groupDir repo fs else Undisturbed groupDir repo sidecar fs

/-! ## The search -/

variable {granted : List Loc} {l : Loc} {before after : List Loc} {fs : List Loc} {name : Text}

section Search

variable {run : Runner} {access : Access} {look look' : Loc → Option (Node FileData)}
  {op : Operation} {identity : Option Id} {f : Text} {fs : List Text}

theorem search_cons_none (h : look (components f) = none) :
    access.search run look op identity (f :: fs) = access.search run look op identity fs := by
  rw [search, h]

theorem search_cons_dir (h : look (components f) = some .dir) :
    access.search run look op identity (f :: fs) = .error (.error .io) := by
  rw [search, h]
  rfl

theorem search_append_none {before : List Text} (h : ∀ f ∈ before, look (components f) = none) :
    access.search run look op identity (before ++ fs) = access.search run look op identity fs := by
  induction before with
  | nil => rfl
  | cons f before ih =>
    rw [cons_append, search_cons_none (h f (by simp))]
    exact ih fun g hg => h g (by simp [hg])

theorem search_none (h : ∀ f ∈ fs, look (components f) = none) :
    access.search run look op identity fs = .ok false := by
  rw [← append_nil fs, search_append_none h, search]

variable {groupDir repo sidecar : Loc}

theorem search_blocked (hgroup : ∀ l, l <+: groupDir → look l = some .dir)
    (hrepo : look repo = none ∨ look repo = some .dir) (h : Blocked groupDir repo (fs.map components)) :
    access.search run look op identity fs = .error (.error .io) := by
  induction fs with
  | nil => exact h.elim
  | cons f fs ih =>
    rcases h with hpre | ⟨hf, hrest⟩
    · exact search_cons_dir (hgroup _ hpre)
    · rw [← hf] at hrepo
      rcases hrepo with hnone | hdir
      · rw [search_cons_none hnone]
        exact ih hrest
      · exact search_cons_dir hdir

theorem search_undisturbed (hgroup : ∀ l, l <+: groupDir → look l = some .dir)
    (hgroup' : ∀ l, l <+: groupDir → look' l = some .dir)
    (hrepo : look repo = none) (hrepo' : look' repo = some .dir)
    (hframe : ∀ l, l ≠ sidecar → l ≠ repo → look' l = look l)
    (h : Undisturbed groupDir repo sidecar (fs.map components)) :
    access.search run look' op identity fs = access.search run look op identity fs := by
  induction fs with
  | nil => rfl
  | cons f fs ih =>
    rcases h with hpre | ⟨hside, hrest⟩
    · rw [search_cons_dir (hgroup _ hpre), search_cons_dir (hgroup' _ hpre)]
    · split_ifs at hrest with hf
      · have hnone : look (components f) = none := by rw [hf, hrepo]
        have hdir : look' (components f) = some .dir := by rw [hf, hrepo']
        rw [search_cons_dir hdir, search_cons_none hnone]
        exact (search_blocked hgroup (.inl hrepo) hrest).symm
      · rw [search, search, hframe _ hside hf, ih hrest]

theorem search_first_dir (hfs : fs.map components = before ++ l :: after)
    (hbefore : ∀ x ∈ before, look x = none) (hl : look l = some .dir) :
    access.search run look op identity fs = .error (.error .io) := by
  obtain ⟨fs₁, fs₂, rfl, rfl, h₂⟩ := map_eq_append_iff.mp hfs
  obtain ⟨f, fs₃, rfl, rfl, -⟩ := map_eq_cons_iff.mp h₂
  rw [search_append_none fun g hg => hbefore _ (mem_map_of_mem hg), search_cons_dir hl]

end Search

/-! ## When the search notices the creation -/

section Notice

variable {groupDir repo sidecar : Loc}

theorem exists_of_not_blocked (h : ¬Blocked groupDir repo fs) :
    (∀ f ∈ fs, f = repo) ∨ ∃ before l after, fs = before ++ l :: after ∧
      (∀ f ∈ before, f = repo) ∧ l ≠ repo ∧ ¬l <+: groupDir := by
  induction fs with
  | nil => exact .inl (by simp)
  | cons f fs ih =>
    rw [Blocked, not_or, not_and] at h
    by_cases hf : f = repo
    · rcases ih (h.2 hf) with hall | ⟨before, l, after, rfl, hbefore, hl⟩
      · exact .inl (by simpa [hf] using hall)
      · exact .inr ⟨f :: before, l, after, rfl, by simpa [hf] using hbefore, hl⟩
    · exact .inr ⟨[], f, fs, rfl, by simp, hf, h.1⟩

theorem exists_of_not_undisturbed (h : ¬Undisturbed groupDir repo sidecar fs) :
    ∃ before l after, fs = before ++ l :: after ∧
      (∀ f ∈ before, ¬f <+: groupDir ∧ f ≠ sidecar ∧ f ≠ repo) ∧
      (l = sidecar ∨ l = repo ∧ ¬Blocked groupDir repo after) := by
  induction fs with
  | nil => exact absurd trivial h
  | cons f fs ih =>
    rw [Undisturbed, not_or, not_and] at h
    by_cases hside : f = sidecar
    · exact ⟨[], f, fs, rfl, by simp, .inl hside⟩
    · have hrest := h.2 hside
      split_ifs at hrest with hf
      · exact ⟨[], f, fs, rfl, by simp, .inr ⟨hf, hrest⟩⟩
      · obtain ⟨before, l, after, rfl, hbefore, hl⟩ := ih hrest
        exact ⟨f :: before, l, after, rfl, by simpa [h.1, hside, hf] using hbefore, hl⟩

end Notice

/-! ## A configuration in which creating is all that is allowed -/

namespace Sample

def creator : Id := Vector.replicate 16 0

/-- Everybody may create and nothing else. -/
def access (root : Text) : Access where
  rules op := if op = .create then .all else .none
  aliases _ := none
  blocked := []
  repositoriesDir := root

/-- The directories on the way to `groupDir`, and rule files of the creator in them. -/
def nodes (groupDir : Loc) (granted : List Loc) (l : Loc) : Option (Node FileData) :=
  if l <+: groupDir then some .dir
  else if l ∈ granted then some (grant creator false)
  else none

def tree (groupDir : Loc) (granted : List Loc)
    (h : ∀ l ∈ granted, l.dropLast <+: groupDir) : Tree where
  node := nodes groupDir granted
  parent := by
    intro l _ hsome
    unfold nodes at hsome ⊢
    split_ifs at hsome with hpre hmem
    · rw [if_pos (l.dropLast_prefix.trans hpre)]
    · rw [if_pos (h l hmem)]
    · cases hsome

theorem fileAllows_grant (root : Text) (op : Operation) (path : Text) (executable : Bool) :
    fileAllows run (access root).aliases op (some creator) path (grant creator executable) =
      .ok (decide (op = .admin)) := by
  have hinput : allowedInput run path (grant creator executable) =
      .ok ("adm:".toList ++ hex creator.toList ++ ['\n']) := by
    cases executable <;> rfl
  have hparse : parseAllowedFile ("adm:".toList ++ hex creator.toList ++ ['\n']) (access root).aliases =
      .ok [(.admin, .identities [creator])] := by
    change parseAllowedFile _ (fun _ => none) = _
    decide +kernel
  simp only [fileAllows, hinput, hparse, bind, Except.bind]
  cases op <;> decide +kernel

section Answers

variable {root : Text} {look : Loc → Option (Node FileData)} {op : Operation} {fs : List Text}

theorem search_first_grant {executable : Bool} (hfs : fs.map components = before ++ l :: after)
    (hbefore : ∀ x ∈ before, look x = none) (hl : look l = some (grant creator executable)) :
    (access root).search run look .admin (some creator) fs = .ok true := by
  obtain ⟨fs₁, fs₂, rfl, rfl, h₂⟩ := map_eq_append_iff.mp hfs
  obtain ⟨f, fs₃, rfl, rfl, -⟩ := map_eq_cons_iff.mp h₂
  rw [search_append_none fun g hg => hbefore _ (mem_map_of_mem hg), search, hl]
  dsimp only
  rw [fileAllows_grant]
  rfl

theorem search_grants
    (h : ∀ l ∈ fs.map components, look l = none ∨ look l = some (grant creator false)) :
    ∃ found, (access root).search run look op (some creator) fs = .ok found := by
  induction fs with
  | nil => exact ⟨false, rfl⟩
  | cons f fs ih =>
    rw [map_cons, forall_mem_cons] at h
    obtain ⟨found, hfound⟩ := ih h.2
    rcases h.1 with hnone | hgrant
    · exact ⟨found, by rw [search_cons_none hnone, hfound]⟩
    · rw [search, hgrant]
      dsimp only
      rw [fileAllows_grant, hfound]
      cases decide (op = .admin) with
      | true => exact ⟨true, rfl⟩
      | false => exact ⟨found, rfl⟩

theorem search_dirs (h : ∀ l ∈ fs.map components, look l = none ∨ look l = some .dir) :
    (access root).search run look op (some creator) fs ≠ .ok true := by
  induction fs with
  | nil => nofun
  | cons f fs ih =>
    rw [map_cons, forall_mem_cons] at h
    rcases h.1 with hnone | hdir
    · rw [search_cons_none hnone]
      exact ih h.2
    · rw [search_cons_dir hdir]
      nofun

variable {repo : Text} (hrepo : Accepted repo)

include hrepo

theorem answer_eq (hop : op ≠ .admin) :
    (access root).answer run look op repo (some creator) =
      match (access root).search run look .admin (some creator) (allowedFiles root repo) with
      | .error e => .error e
      | .ok true => .ok true
      | .ok false =>
        match (access root).search run look op (some creator) (allowedFiles root repo) with
        | .error e => .error e
        | .ok found => .ok (found || decide (op = .create)) := by
  have hrules : ∀ op', ((access root).rules op').allows (some creator) = decide (op' = .create) := by
    intro op'
    cases op' <;> rfl
  rw [answer, show validateRepoName repo = .ok () from hrepo]
  have hblocked : (access root).blocked = [] := rfl
  have hroot : (access root).repositoriesDir = root := rfl
  simp only [hblocked, hroot, Option.any_some, contains_nil, Bool.false_eq_true, if_false,
    Access.decideRules, hop, hrules]
  rcases (access root).search run look .admin (some creator) (allowedFiles root repo)
    with e | found
  · rfl
  · cases found <;> rfl

end Answers

/-! ### The creation succeeds -/

section Creates

variable {root repo groupName name : Text} (h : Creatable repo groupName name) {t : Tree}
  (hdir : t.node (components (join root groupName)) = some .dir)
  (hnone : t.node (components (join root repo)) = none)

include h hdir hnone

section

variable (hside : t.node (components (join root (repo ++ ".allowed".toList))) ≠ some .dir)
include hside

theorem exec_makeAndGrant :
    ∃ t', (Server.makeAndGrant (access root) (Server.ensureBareRepository git) repo (join root repo)
      creator).exec t = (.ok created, t') := by
  have hparent : t.node (components (join root repo)).dropLast = some .dir := by
    rw [h.components_group] at hdir
    rw [h.components_repo, ← hdir, dropLast_append_of_ne_nil (by simp)]
    rfl
  obtain ⟨t₁, ht₁⟩ : ∃ t₁, t.createDirAll (components (join root repo)) = some t₁ := by
    refine ⟨_, dif_pos fun l hl => ?_⟩
    rw [mem_inits] at hl
    by_cases heq : l = components (join root repo)
    · exact .inl (heq ▸ hnone)
    · exact .inr (t.dir_of_prefix hparent (FileTree.prefix_dropLast hl heq))
  have hmade : (Server.ensureBareRepository git (join root repo)).exec t = (.ok (.ok ()), t₁) := by
    rw [Server.ensureBareRepository, FsM.exec_bind, exec_isBareRepository_new hnone]
    simp only [Bool.false_eq_true, if_false]
    rw [Server.makeRepository, FsM.exec_bind, FsM.exec_attempt, createDirAll_self hparent]
    simp only [git, if_true]
    rw [FsM.exec_bind, FsM.exec_attempt, ht₁]
    rfl
  have hnode := createDirAll_new hnone hparent ht₁
  obtain ⟨t₂, ht₂⟩ : ∃ t₂, t₁.write (components (join root (repo ++ ".allowed".toList)))
      ⟨some ("adm:".toList ++ hex creator.toList ++ ['\n']), Server.isExecutable
        (t₁.node (components (join root (repo ++ ".allowed".toList))))⟩ = some t₂ := by
    refine ⟨_, dif_pos ⟨by rw [h.components_sidecar]; simp, ?_, ?_⟩⟩
    · rw [h.components_group] at hdir
      rw [h.components_sidecar, dropLast_append_of_ne_nil (by simp), hnode, h.components_repo]
      exact (if_neg (by simp)).trans hdir
    · have hne : components (join root (repo ++ ".allowed".toList)) ≠ components (join root repo) := by
        rw [h.components_sidecar, h.components_repo]
        simp
      rw [hnode, if_neg hne]
      exact hside
  refine ⟨t₂, ?_⟩
  have hroot : (access root).repositoriesDir = root := rfl
  simp only [Server.makeAndGrant, FsM.exec_bind, hmade, FsM.exec_node, FsM.exec_attempt, hroot, ht₂]
  rfl

theorem exec_handleCreate
    (hfiles : ∀ l ∈ (allowedFiles root repo).map components,
      t.node l = none ∨ t.node l = some (grant creator false)) :
    ∃ t', (Server.handleCreate run git (access root) repo (some creator)).exec t =
      (.ok created, t') := by
  obtain ⟨t', ht'⟩ := exec_makeAndGrant h hdir hnone hside
  refine ⟨t', ?_⟩
  have hsplit : Text.splitOnce '/' repo = some (groupName, name) := by
    rw [h.eq]
    exact Text.splitOnce_append h.group_sep name
  have hsearch : ∀ op, ∃ found, (access root).search run t.node op (some creator)
      (allowedFiles root repo) = .ok found := fun op => search_grants hfiles
  have hanswer : ∀ op, op ≠ .admin → ∃ allowed,
      (access root).answer run t.node op repo (some creator) = .ok allowed ∧
        (op = .create → allowed = true) := by
    intro op hop
    obtain ⟨byAdmin, hadmin⟩ := hsearch .admin
    obtain ⟨found, hfound⟩ := hsearch op
    rw [answer_eq h.accepted hop, hadmin, hfound]
    cases byAdmin with
    | true => exact ⟨true, rfl, fun _ => rfl⟩
    | false => exact ⟨_, rfl, fun hcreate => by simp [hcreate]⟩
  obtain ⟨readAccess, hread, -⟩ := hanswer .read (by decide)
  obtain ⟨createAccess, hcreate, hallowed⟩ := hanswer .create (by decide)
  rw [hallowed rfl] at hcreate
  have hroot : (access root).repositoriesDir = root := rfl
  have hparts : ¬(groupName.isEmpty ∨ name.isEmpty ∨ name.contains '/') := by
    simp [h.group_ne, h.name_ne, h.name_sep]
  simp only [Server.handleCreate, Server.handleNew, hsplit, hparts, if_false, FsM.exec_bind,
    FsM.exec_node, hroot, hdir, ne_eq, not_true_eq_false, exec_allows, hread, hcreate,
    Bool.not_true, Bool.false_eq_true, repositoryPath_of_accepted root h.accepted, Except.mapError,
    FsM.exec_ofExcept, hnone, Option.isSome_none]
  exact ht'

end

end Creates

end Sample

open Sample

/-! ## The rule files of a repository as locations -/

open Component

theorem Accepted.map_components_relative (h : Accepted name) (hrel : isAbsolute name = false)
    (root : Text) :
    ∃ pre last, FsPath.names name = pre ++ (if last = [] then [] else [last]) ∧
      (allowedFiles root name).map components =
        [components root ++ ((FsPath.names name).map normal ++ [normal ".allowed".toList]),
          components root ++ (pre.map normal ++ [normal (last ++ ".allowed".toList)]),
          components root ++ [normal (group name), normal "group.allowed".toList],
          components root ++ [normal (group name ++ ".allowed".toList)]] := by
  obtain ⟨pre, last, hnames, hside⟩ := h.components_sidecar root
  refine ⟨pre, last, hnames, ?_⟩
  have hok := h.group_ok hrel
  rw [hrel] at hside
  simp only [allowedFiles, map_cons, map_nil, hside, Bool.false_eq_true, if_false]
  rw [components_join_name _ (by decide) (by decide), h.components_join root hrel,
    components_join_name _ (by decide) (by decide),
    components_join_name root (sep_not_mem_group name) (isName_of_componentOk hok),
    ofName_of_componentOk hok,
    components_join_name root (by simp [sep_not_mem_group]) (isName_allowed _), ofName_allowed,
    append_assoc, append_assoc]
  rfl

theorem Accepted.map_components_absolute (h : Accepted name) (habs : isAbsolute name)
    (root : Text) :
    ∃ pre last, FsPath.names name = pre ++ (if last = [] then [] else [last]) ∧
      (allowedFiles root name).map components =
        [rootDir :: ((FsPath.names name).map normal ++ [normal ".allowed".toList]),
          rootDir :: (pre.map normal ++ [normal (last ++ ".allowed".toList)]),
          components root ++ [normal "group.allowed".toList],
          components root ++ [normal ".allowed".toList]] := by
  obtain ⟨pre, last, hnames, hside⟩ := h.components_sidecar root
  refine ⟨pre, last, hnames, ?_⟩
  have hroot : components (join root []) = components root := by
    simpa using FsPath.components_join root (p := []) rfl (by simp)
  rw [if_pos habs] at hside
  simp only [allowedFiles, map_cons, map_nil, hside, group_of_isAbsolute habs,
    join_of_isAbsolute root habs]
  rw [components_join_name _ (by decide) (by decide), h.components_absolute habs,
    components_join_name _ (by decide) (by decide), hroot, nil_append,
    components_join_name root (by decide) (by decide)]
  rfl

theorem Creatable.map_components {repo groupName name : Text} (h : Creatable repo groupName name)
    (root : Text) : (allowedFiles root repo).map components =
      [components root ++ [normal groupName, normal name, normal ".allowed".toList],
        components root ++ [normal groupName, normal (name ++ ".allowed".toList)],
        components root ++ [normal groupName, normal "group.allowed".toList],
        components root ++ [normal (groupName ++ ".allowed".toList)]] := by
  obtain ⟨pre, last, -, hmap⟩ := h.accepted.map_components_relative h.relative root
  have hside := hmap
  simp only [allowedFiles, map_cons, map_nil, cons.injEq, h.components_sidecar] at hside
  rw [hmap, ← hside.2.1, h.names_eq, h.group_eq]
  rfl

/-! ## Which repositories a creation leaves alone -/

/-- Whenever creating, forking or mirroring `A` succeeds, every answer for `B` stays as it was. -/
def KeepsAnswers (root A B : Text) : Prop :=
  ∀ run git access source remote (t t' : Tree), access.repositoriesDir = root →
    ((Server.handleCreate run git access A remote).exec t = (.ok created, t') ∨
      (Server.handleRemoteClone run git access A source remote).exec t = (.ok created, t')) →
    ∀ op identity, ((access.allows run op B identity).exec t').1 =
      ((access.allows run op B identity).exec t).1

theorem exists_handleNew {run : Runner} {git : GitTool} {access : Access} {A source : Text}
    {remote : Option Id} {t t' : Tree}
    (h : (Server.handleCreate run git access A remote).exec t = (.ok created, t') ∨
      (Server.handleRemoteClone run git access A source remote).exec t = (.ok created, t')) :
    ∃ make creator, MakesDirectory make ∧
      (Server.handleNew run access make A creator).exec t = (.ok created, t') := by
  cases remote with
  | none => rcases h with h | h <;> cases h
  | some creator =>
    rcases h with h | h
    · exact ⟨_, creator, ensureBareRepository_makesDirectory git, h⟩
    · exact ⟨_, creator, cloneRemoteBare_makesDirectory git source, h⟩

/-- A creation of `A` adds its directory and its rule file. -/
structure Adds (root A : Text) (executable : Bool) (look look' : Loc → Option (Node FileData)) :
    Prop where
  side : look' (components (join root (A ++ ".allowed".toList))) = some (grant creator executable)
  repo : look' (components (join root A)) = some .dir
  frame : ∀ l, l ≠ components (join root (A ++ ".allowed".toList)) → l ≠ components (join root A) →
    look' l = look l

section Keeps

variable {root A B groupName name : Text} (hA : Creatable A groupName name)

include hA

variable (root) in
theorem Creatable.not_prefix_group :
    ¬components (join root A) <+: components (join root groupName) ∧
      ¬components (join root (A ++ ".allowed".toList)) <+: components (join root groupName) := by
  rw [hA.components_repo, hA.components_sidecar, hA.components_group]
  simp [prefix_append_right_inj, cons_prefix_cons]

omit hA in
theorem keepsAnswers_of_undisturbed
    (h : Undisturbed (components (join root (group A))) (components (join root A))
      (components (join root (A ++ ".allowed".toList))) ((allowedFiles root B).map components)) :
    KeepsAnswers root A B := by
  rintro run git access source remote t t' rfl hexec op identity
  obtain ⟨make, creator, hmake, hnew⟩ := exists_handleNew hexec
  obtain ⟨groupName', name', executable, -, hA', hdir, hnone, hnode⟩ := handleNew_created hmake hnew
  rw [hA'.group_eq] at h
  obtain ⟨hrepo, hside⟩ := hA'.not_prefix_group access.repositoriesDir
  have hgroup : ∀ l, l <+: components (join access.repositoriesDir groupName') →
      t.node l = some .dir := fun l hl => t.dir_of_prefix hdir hl
  rw [access.exec_allows, access.exec_allows]
  refine access.answer_congr run (fun op => ?_) op
  refine search_undisturbed hgroup (fun l hl => ?_) hnone ?_ (fun l hl hl' => ?_) h
  · rw [hnode, if_neg, if_neg, hgroup l hl]
    · rintro rfl
      exact hrepo hl
    · rintro rfl
      exact hside hl
  · rw [hnode, if_neg, if_pos rfl]
    rw [hA'.components_repo, hA'.components_sidecar]
    simp
  · rw [hnode, if_neg hl, if_neg hl']

section

variable (hgranted : ∀ l ∈ granted, l.dropLast = components root)
include hgranted

theorem exists_created :
    ∃ (t t' : Tree) (executable : Bool),
      (Server.handleCreate run git (access root) A (some creator)).exec t = (.ok created, t') ∧
      t.node = nodes (components (join root groupName)) granted ∧
      Adds root A executable t.node t'.node := by
  obtain ⟨hrepo, hside⟩ := hA.not_prefix_group root
  have hup : ∀ l ∈ granted, l.dropLast <+: components (join root groupName) := by
    intro l hl
    rw [hgranted l hl, hA.components_group]
    exact prefix_append _ _
  have hnotGranted : ∀ c d, components root ++ [c, d] ∉ granted := by
    intro c d hmem
    have hlen := congrArg length (hgranted _ hmem)
    simp at hlen
  have hnone : ∀ l, ¬l <+: components (join root groupName) → l ∉ granted →
      (tree _ granted hup).node l = none := by
    intro l hpre hmem
    exact (if_neg hpre).trans (if_neg hmem)
  have hfiles : ∀ l ∈ (allowedFiles root A).map components,
      (tree _ granted hup).node l = none ∨
        (tree _ granted hup).node l = some (grant creator false) := by
    intro l hl
    have hpre : ¬l <+: components (join root groupName) := by
      rw [hA.map_components] at hl
      rw [hA.components_group]
      simp only [mem_cons, not_mem_nil, or_false] at hl
      rcases hl with rfl | rfl | rfl | rfl <;>
        simp [prefix_append_right_inj, cons_prefix_cons]
    by_cases hmem : l ∈ granted
    · exact .inr ((if_neg hpre).trans (if_pos hmem))
    · exact .inl (hnone l hpre hmem)
  obtain ⟨t', ht'⟩ := exec_handleCreate hA (t := tree _ granted hup)
    (if_pos prefix_rfl)
    (hnone _ hrepo (by rw [hA.components_repo]; exact hnotGranted _ _))
    (by rw [hnone _ hside (by rw [hA.components_sidecar]; exact hnotGranted _ _)]; nofun) hfiles
  obtain ⟨_, _, executable, -, -, -, -, hnode⟩ :=
    handleNew_created (ensureBareRepository_makesDirectory git) ht'
  have hroot : (access root).repositoriesDir = root := rfl
  simp only [hroot] at hnode
  refine ⟨_, t', executable, ht', rfl, ?_, ?_, fun l hl hl' => ?_⟩
  · rw [hnode, if_pos rfl]
  · rw [hnode, if_neg, if_pos rfl]
    rw [hA.components_repo, hA.components_sidecar]
    simp
  · rw [hnode, if_neg hl, if_neg hl']

theorem not_keepsAnswers
    (h : ∀ (look' : Loc → Option (Node FileData)) (executable : Bool),
      Adds root A executable (nodes (components (join root groupName)) granted) look' →
      (access root).answer run look' .read B (some creator) ≠
        (access root).answer run (nodes (components (join root groupName)) granted) .read B
          (some creator)) :
    ¬KeepsAnswers root A B := by
  obtain ⟨t, t', executable, hexec, hnode, hadds⟩ := exists_created hA hgranted
  intro hkeeps
  have hsame := hkeeps run git (access root) [] _ t t' rfl (.inl hexec)
    .read (some creator)
  rw [exec_allows, exec_allows] at hsame
  exact h t'.node executable (hnode ▸ hadds) (hnode ▸ hsame)

end

variable (hB : Accepted B) {before after : List Loc}
  (hbefore : ∀ l ∈ before, ¬l <+: components (join root groupName) ∧
    l ≠ components (join root (A ++ ".allowed".toList)) ∧ l ≠ components (join root A))

include hB hbefore

theorem not_keepsAnswers_of_sidecar (hfiles : (allowedFiles root B).map components =
      before ++ components (join root (A ++ ".allowed".toList)) :: after) :
    ¬KeepsAnswers root A B := by
  refine not_keepsAnswers hA (show ∀ l ∈ ([] : List Loc), l.dropLast = components root by simp) ?_
  intro look' executable hadds
  have hbefore' : ∀ l ∈ before, look' l = none := by
    intro l hl
    obtain ⟨hpre, hne, hne'⟩ := hbefore l hl
    rw [hadds.frame l hne hne', nodes, if_neg hpre, if_neg (by simp)]
  have hno : ∀ op, (access root).search run (nodes (components (join root groupName)) []) op
      (some creator) (allowedFiles root B) ≠ .ok true := by
    refine fun op => search_dirs fun l _ => ?_
    unfold nodes
    split_ifs <;> simp_all
  rw [answer_eq hB (by decide), answer_eq hB (by decide),
    search_first_grant hfiles hbefore' hadds.side]
  rcases hadmin : (access root).search run (nodes _ []) .admin (some creator)
    (allowedFiles root B) with e | _ | _
  · nofun
  · rcases hread : (access root).search run (nodes _ []) .read (some creator)
      (allowedFiles root B) with e | _ | _
    · nofun
    · nofun
    · exact absurd hread (hno .read)
  · exact absurd hadmin (hno .admin)

theorem not_keepsAnswers_of_repo
    (hfiles : (allowedFiles root B).map components = before ++ components (join root A) :: after)
    (hgranted : ∀ l ∈ granted, l.dropLast = components root)
    (hnotGranted : ∀ l ∈ before, l ∉ granted)
    (hanswers : ∃ allowed, (access root).answer run
      (nodes (components (join root groupName)) granted) .read B (some creator) = .ok allowed) :
    ¬KeepsAnswers root A B := by
  refine not_keepsAnswers hA hgranted ?_
  intro look' executable hadds
  have hbefore' : ∀ l ∈ before, look' l = none := by
    intro l hl
    obtain ⟨hpre, hne, hne'⟩ := hbefore l hl
    rw [hadds.frame l hne hne', nodes, if_neg hpre, if_neg (hnotGranted l hl)]
  obtain ⟨allowed, hallowed⟩ := hanswers
  rw [hallowed, answer_eq hB (by decide), search_first_dir hfiles hbefore' hadds.repo]
  nofun

end Keeps

/-! ## Where the rule files of `B` can meet the new nodes -/

section Collision

variable {root B groupName : Text} (hB : Accepted B)

include hB

section

variable (hrel : isAbsolute B = false)
include hrel

theorem Accepted.names_eq_cons : ∃ rest, FsPath.names B = group B :: rest := by
  obtain ⟨rest, hrest⟩ := head?_eq_some_iff.mp (hB.group_eq hrel)
  exact ⟨rest, hrest⟩

theorem group_eq_of_collision {c : Component}
    (h : components root ++ [.normal groupName, c] ∈ (allowedFiles root B).map components) :
    group B = groupName := by
  obtain ⟨pre, last, hnames, hmap⟩ := hB.map_components_relative hrel root
  obtain ⟨rest, hrest⟩ := hB.names_eq_cons hrel
  rw [hmap] at h
  simp only [mem_cons, not_mem_nil, or_false, append_cancel_left_eq] at h
  rcases h with h | h | h | h
  · simp only [hrest, map_cons, cons_append, cons.injEq, Component.normal.injEq] at h
    exact h.1.symm
  · rcases pre with _ | ⟨head, pre⟩
    · simp at h
    · rw [hrest, cons_append, cons.injEq] at hnames
      simp only [map_cons, cons_append, cons.injEq, Component.normal.injEq] at h
      rw [hnames.1, h.1]
  · simp only [cons.injEq, Component.normal.injEq] at h
    exact h.1.symm
  · simp at h

theorem not_prefix_of_group_eq (hgroup : group B = groupName)
    (hl : l ∈ (allowedFiles root B).map components) :
    ¬l <+: components root ++ [.normal groupName] := by
  obtain ⟨pre, last, hnames, hmap⟩ := hB.map_components_relative hrel root
  obtain ⟨rest, hrest⟩ := hB.names_eq_cons hrel
  rw [hgroup] at hrest hmap
  rw [hmap] at hl
  simp only [mem_cons, not_mem_nil, or_false] at hl
  rcases hl with rfl | rfl | rfl | rfl
  · simp [hrest, prefix_append_right_inj, cons_prefix_cons]
  · rw [prefix_append_right_inj]
    rcases pre with _ | ⟨head, pre⟩
    · rw [hrest, nil_append] at hnames
      split_ifs at hnames with hlast
      obtain rfl : groupName = last := (cons.inj hnames).1
      simp [cons_prefix_cons]
    · simp [cons_prefix_cons]
  · simp [prefix_append_right_inj, cons_prefix_cons]
  · simp [prefix_append_right_inj, cons_prefix_cons]

end

/-- The rule files of an absolute name that follow the new directory and differ from it are
directly in the root, and were not consulted before it. -/
theorem dropLast_eq_of_absolute (habs : isAbsolute B) {c d : Component}
    {before skipped after : List Loc}
    (h : (allowedFiles root B).map components = before ++ (components root ++ [c, d]) :: (skipped ++ l :: after))
    (hskipped : ∀ x ∈ skipped, x = components root ++ [c, d]) (hl : l ≠ components root ++ [c, d]) :
    l.dropLast = components root ∧ l ∉ before := by
  obtain ⟨pre, last, hnames, hmap⟩ := hB.map_components_absolute habs root
  have hshort : ∀ x, components root ++ [c, d] ≠ components root ++ [x] := by simp
  rw [hmap] at h
  rcases before with _ | ⟨b₁, _ | ⟨b₂, before⟩⟩
  · -- the file in the repository is the new directory
    rw [nil_append, cons.injEq] at h
    obtain ⟨hfirst, h⟩ := h
    refine ⟨?_, by simp⟩
    rcases skipped with _ | ⟨s₁, _ | ⟨s₂, skipped⟩⟩
    · rw [nil_append, cons.injEq] at h
      rw [← h.1] at hl ⊢
      have hinit : Component.rootDir :: (FsPath.names B).map .normal = components root ++ [c] := by
        have hdrop := congrArg dropLast hfirst
        rw [← cons_append, dropLast_concat] at hdrop
        rw [hdrop, dropLast_append_of_ne_nil (by simp)]
        rfl
      rw [← cons_append, dropLast_concat]
      split_ifs at hnames with hlast
      · rw [hnames, append_nil] at hfirst
        rw [hlast, nil_append] at hl
        exact absurd hfirst hl
      · have hdrop := congrArg dropLast hinit
        rwa [hnames, map_append, map_singleton, ← cons_append, dropLast_concat,
          dropLast_concat] at hdrop
    · simp only [cons_append, nil_append, cons.injEq] at h
      rw [← h.2.1, dropLast_concat]
    · simp only [cons_append, cons.injEq] at h
      exact absurd ((hskipped s₂ (by simp)).symm.trans h.2.1.symm) (hshort _)
  · -- the file beside the repository is the new directory
    simp only [cons_append, nil_append, cons.injEq] at h
    obtain ⟨hb, hsecond, h⟩ := h
    rcases skipped with _ | ⟨s₁, skipped⟩
    · rw [nil_append, cons.injEq] at h
      rw [← h.1, dropLast_concat, mem_singleton, ← hb, ← cons_append]
      refine ⟨rfl, fun heq => ?_⟩
      have hlast := (append_inj' heq rfl).2
      exact absurd hlast (by decide)
    · rw [cons_append, cons.injEq] at h
      exact absurd ((hskipped s₁ (by simp)).symm.trans h.1.symm) (hshort _)
  · simp only [cons_append, cons.injEq] at h
    have hmem : components root ++ [c, d] ∈ [components root ++ [.normal "group.allowed".toList],
        components root ++ [.normal ".allowed".toList]] := by
      rw [h.2.2]
      simp
    simp at hmem

end Collision

/-! ## The answer -/

theorem keepsAnswers_of_not_accepted {root A B : Text} (hB : ¬Accepted B) :
    KeepsAnswers root A B := by
  intro run git access source remote t t' _ _ op identity
  rw [access.exec_allows, access.exec_allows, answer, answer]
  rcases hv : validateRepoName B with e | u
  · rfl
  · exact absurd hv hB

/-- A creation that the search can notice is noticed by some search. -/
theorem not_keepsAnswers_of_disturbed {root A B groupName name : Text}
    (hA : Creatable A groupName name) (hB : Accepted B)
    (h : ¬Undisturbed (components (join root (group A))) (components (join root A))
      (components (join root (A ++ ".allowed".toList))) ((allowedFiles root B).map components)) :
    ¬KeepsAnswers root A B := by
  rw [hA.group_eq] at h
  obtain ⟨before, l, after, hfiles, hbefore, hl⟩ := exists_of_not_undisturbed h
  rcases hl with rfl | ⟨rfl, hnot⟩
  · exact not_keepsAnswers_of_sidecar hA hB hbefore hfiles
  by_cases habs : isAbsolute B
  · rcases exists_of_not_blocked hnot with hall | ⟨skipped, q, rest, rfl, hskipped, hq, hpre⟩
    · -- the group's own rule files are never the new directory
      obtain ⟨pre, last, -, hmap⟩ := hB.map_components_absolute habs root
      have hlast : ((allowedFiles root B).map components).getLast? =
          some (components root ++ [.normal ".allowed".toList]) := by rw [hmap]; rfl
      have hrepo : components (join root A) ≠ components root ++ [.normal ".allowed".toList] := by
        rw [hA.components_repo]
        simp
      rw [hfiles, getLast?_append_of_ne_nil _ (by simp)] at hlast
      have hmem := mem_of_getLast? hlast
      rcases mem_cons.mp hmem with heq | hmem
      · exact absurd heq.symm hrepo
      · exact absurd (hall _ hmem).symm hrepo
    · have hrepo := hA.components_repo root
      have hdrop : q.dropLast = components root ∧ q ∉ before := by
        rw [hrepo] at hfiles hskipped hq
        exact dropLast_eq_of_absolute hB habs hfiles hskipped hq
      refine not_keepsAnswers_of_repo hA hB hbefore hfiles
        (show ∀ l ∈ [q], l.dropLast = components root by simp [hdrop.1])
        (fun l hl hmem => hdrop.2 (mem_singleton.mp hmem ▸ hl)) ⟨true, ?_⟩
      -- the search finds the creator's rule file before anything else
      have hfiles' : (allowedFiles root B).map components =
          (before ++ components (join root A) :: skipped) ++ q :: rest := by
        rw [hfiles, append_assoc, cons_append]
      have hnone : ∀ x ∈ before ++ components (join root A) :: skipped,
          nodes (components (join root groupName)) [q] x = none := by
        have hmade : nodes (components (join root groupName)) [q] (components (join root A)) = none := by
          rw [nodes, if_neg (hA.not_prefix_group root).1, if_neg (by simpa using hq.symm)]
        simp only [mem_append, mem_cons]
        rintro x (hx | rfl | hx)
        · have hne : x ∉ [q] := fun hmem => hdrop.2 (mem_singleton.mp hmem ▸ hx)
          rw [nodes, if_neg (hbefore x hx).1, if_neg hne]
        · exact hmade
        · rw [hskipped x hx, hmade]
      rw [answer_eq hB (by decide), search_first_grant hfiles' hnone
        (by rw [nodes, if_neg hpre, if_pos (by simp)])]
  · have hrel : isAbsolute B = false := by simpa using habs
    have hgroup : group B = groupName := by
      have hmem : components root ++ [.normal groupName, .normal name] ∈
          (allowedFiles root B).map components := by
        rw [hfiles, hA.components_repo]
        simp
      exact group_eq_of_collision hB hrel hmem
    refine not_keepsAnswers_of_repo hA hB hbefore hfiles
      (show ∀ l ∈ ([] : List Loc), l.dropLast = components root by simp) (by simp) ⟨false, ?_⟩
    have hnone : ∀ f ∈ allowedFiles root B,
        nodes (components (join root groupName)) [] (components f) = none := by
      intro f hf
      have hpre := not_prefix_of_group_eq hB hrel hgroup (mem_map_of_mem hf)
      rw [← hA.components_group] at hpre
      rw [nodes, if_neg hpre]
      rfl
    rw [answer_eq hB (by decide), search_none hnone, search_none hnone]
    rfl

/-- Creating `A` keeps every answer for `B` exactly when `A` is not a name that can be created, or
`B` is not an accepted name, or the search through the rule files of `B` does not notice the new
directory and the new rule file. -/
theorem keepsAnswers_iff (root A B : Text) :
    KeepsAnswers root A B ↔
      (¬∃ groupName name, Creatable A groupName name) ∨ ¬Accepted B ∨
        Undisturbed (components (join root (group A))) (components (join root A))
          (components (join root (A ++ ".allowed".toList)))
          ((allowedFiles root B).map components) := by
  constructor
  · intro hkeeps
    by_contra hnot
    simp only [not_or, not_not] at hnot
    obtain ⟨⟨groupName, name, hA⟩, hB, hdisturbed⟩ := hnot
    exact not_keepsAnswers_of_disturbed hA hB hdisturbed hkeeps
  · rintro (hA | hB | hundisturbed)
    · intro run git access source remote t t' _ hexec
      obtain ⟨make, creator, hmake, hnew⟩ := exists_handleNew hexec
      obtain ⟨groupName, name, -, -, hcreatable, -⟩ := handleNew_created hmake hnew
      exact absurd ⟨groupName, name, hcreatable⟩ hA
    · exact keepsAnswers_of_not_accepted hB
    · exact keepsAnswers_of_undisturbed hundisturbed

/-- Where everybody may create and nothing else, creating `g/group` writes the rule file of the
whole group: its creator becomes administrator of `g/other`. -/
theorem creator_of_group_administers_other :
    let access := Sample.access "/srv".toList
    let before := Sample.tree (components "/srv/g".toList) [] (by simp)
    let request := (Server.handleCreate Sample.run Sample.git access "g/group".toList
      (some Sample.creator)).exec before
    let mayAdminister := access.allows Sample.run .admin "g/other".toList (some Sample.creator)
    request.1 = .ok created ∧
      (mayAdminister.exec before).1 = .ok false ∧ (mayAdminister.exec request.2).1 = .ok true := by
  decide +kernel

end Rns.Git

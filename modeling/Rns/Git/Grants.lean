import Rns.Git.Confinement

/-!
# What creating a repository grants elsewhere

A creation of `A = group/name` adds the directory `root/A` and the rule file `root/A.allowed`.  The
answer for another repository `B` depends on its own rule files only, so it is kept exactly when the
search through them does not notice the two nodes.
-/

namespace Rns.Git

open FsPath FsM Server List

/-! ## The answer of `allows` as a function of the tree -/

variable {identity : Option Id} {repository : Text}

namespace Access

variable (run : Runner) (access : Access)

/-- The search through the rule files of a tree. -/
def search (look : Loc → Option (Node FileData)) (op : Operation) (identity : Option Id) :
    List Text → Except Fault Bool
  | [] => .ok false
  | path :: rest => match look (components path) with
    | none => search look op identity rest
    | some node => match fileAllows run access.aliases op identity path node with
      | .error e => .error e
      | .ok true => .ok true
      | .ok false => search look op identity rest

/-- The answer for an accepted name and an identity that is not blocked. -/
def decideRules (look : Loc → Option (Node FileData)) (op : Operation) (repository : Text)
    (identity : Option Id) : Except Fault Bool :=
  let files := allowedFiles access.repositoriesDir repository
  let own : Except Fault Bool := match access.search run look op identity files with
    | .error e => .error e
    | .ok found => .ok (found || (access.rules op).allows identity)
  if op = .admin then own
  else match access.search run look .admin identity files with
    | .error e => .error e
    | .ok found => if found || (access.rules .admin).allows identity then .ok true else own

def answer (look : Loc → Option (Node FileData)) (op : Operation) (repository : Text)
    (identity : Option Id) : Except Fault Bool :=
  match validateRepoName repository with
  | .error e => .error (.error e)
  | .ok () =>
    if identity.any access.blocked.contains then .ok false
    else access.decideRules run look op repository identity

theorem exec_anyFileAllows (op : Operation) (identity : Option Id) (paths : List Text) (t : Tree) :
    (access.anyFileAllows run op identity paths).exec t =
      (access.search run t.node op identity paths, t) := by
  induction paths with
  | nil => rfl
  | cons path rest ih =>
    rw [anyFileAllows, exec_bind, exec_node, search]
    cases hn : t.node (components path) with
    | none => exact ih
    | some node =>
      dsimp only
      rw [exec_bind, exec_ofExcept]
      rcases fileAllows run access.aliases op identity path node with e | allowed
      · rfl
      · cases allowed with
        | true => rfl
        | false => exact ih

theorem exec_allows (op : Operation) (repository : Text) (identity : Option Id) (t : Tree) :
    (access.allows run op repository identity).exec t =
      (access.answer run t.node op repository identity, t) := by
  have hrepo : ∀ op', (access.repoAllowed run op' repository identity).exec t =
      (access.search run t.node op' identity (allowedFiles access.repositoriesDir repository), t) :=
    fun op' => access.exec_anyFileAllows run op' identity _ t
  have hadmin : (access.adminAllows run op repository identity).exec t =
      (if op = .admin then .ok false
        else match access.search run t.node .admin identity
            (allowedFiles access.repositoriesDir repository) with
          | .error e => .error e
          | .ok found => .ok (found || (access.rules .admin).allows identity), t) := by
    unfold adminAllows
    split_ifs with hop
    · rfl
    · rw [exec_bind, hrepo]
      rcases access.search run t.node .admin identity _ with e | found
      · rfl
      · cases found <;> rfl
  rw [allows, exec_bind, exec_ofExcept, answer]
  rcases validateRepoName repository with e | u
  · rfl
  · dsimp only [Except.mapError]
    split_ifs with hblocked
    · rfl
    · rw [exec_bind, hadmin, decideRules]
      by_cases hop : op = .admin
      · simp only [hop, if_true, Bool.false_eq_true, if_false]
        rw [exec_bind, hrepo]
        rcases access.search run t.node .admin identity _ with e | found
        · rfl
        · cases found <;> rfl
      · simp only [hop, if_false]
        rcases access.search run t.node .admin identity _ with e | found
        · rfl
        · dsimp only
          cases found || (access.rules .admin).allows identity with
          | true => rfl
          | false =>
            simp only [Bool.false_eq_true, if_false]
            rw [exec_bind, hrepo]
            rcases access.search run t.node op identity _ with e | found
            · rfl
            · cases found <;> rfl

theorem accepted_of_answer {look : Loc → Option (Node FileData)} {op : Operation} {allowed : Bool}
    (h : access.answer run look op repository identity = .ok allowed) : Accepted repository := by
  unfold answer at h
  rcases hvalid : validateRepoName repository with e | u
  · rw [hvalid] at h
    cases h
  · exact hvalid

theorem answer_congr {look look' : Loc → Option (Node FileData)}
    (h : ∀ op, access.search run look op identity (allowedFiles access.repositoriesDir repository) =
      access.search run look' op identity (allowedFiles access.repositoriesDir repository))
    (op : Operation) :
    access.answer run look op repository identity = access.answer run look' op repository identity := by
  simp only [answer, decideRules, h]

end Access

/-! ## Names that can be created -/

/-- `repo` is an accepted name made of a group and a name in it. -/
structure Creatable (repo groupName name : Text) : Prop where
  eq : repo = groupName ++ '/' :: name
  group_ne : groupName ≠ []
  group_sep : '/' ∉ groupName
  name_ne : name ≠ []
  name_sep : '/' ∉ name
  accepted : Accepted repo

namespace Creatable

variable {repo groupName name : Text} (h : Creatable repo groupName name)

include h

theorem relative : isAbsolute repo = false := by
  rcases hg : groupName with _ | ⟨c, cs⟩
  · exact absurd hg h.group_ne
  · have hc : c ≠ '/' := fun hc => h.group_sep (by simp [hg, hc])
    simp [h.eq, hg, isAbsolute, hc]

theorem trim : Text.trimMatches '/' repo = repo := by
  have hrel := h.relative
  rw [Text.trimMatches_eq_of_head (by simpa [isAbsolute] using hrel)]
  rcases eq_nil_or_concat name with hn | ⟨init, c, hn⟩
  · exact absurd hn h.name_ne
  · have hc : c ≠ '/' := fun hc => h.name_sep (by simp [hn, hc])
    rw [h.eq, hn, concat_eq_append, ← cons_append, ← append_assoc]
    exact rdropWhile_concat_neg _ _ _ (by simpa using hc)

theorem names_eq : FsPath.names repo = [groupName, name] := by
  rw [h.accepted.names, h.trim, h.eq, splitOn_append_cons_self,
    splitOn_eq_singleton h.group_sep, splitOn_eq_singleton h.name_sep]
  rfl

theorem group_ok : componentOk groupName := h.accepted.component_ok (by simp [h.names_eq])

theorem group_eq : group repo = groupName := by
  have hhead := h.accepted.group_eq h.relative
  rw [h.names_eq] at hhead
  simpa using hhead.symm

variable (root : Text)

theorem components_group :
    components (join root groupName) = components root ++ [.normal groupName] := by
  rw [components_join_name root h.group_sep (isName_of_componentOk h.group_ok),
    ofName_of_componentOk h.group_ok]

theorem components_repo :
    components (join root repo) = components root ++ [.normal groupName, .normal name] := by
  rw [h.accepted.components_join root h.relative, h.names_eq]
  rfl

theorem components_sidecar : components (join root (repo ++ ".allowed".toList)) =
      components root ++ [.normal groupName, .normal (name ++ ".allowed".toList)] := by
  have hrepo : repo ++ ".allowed".toList = groupName ++ '/' :: (name ++ ".allowed".toList) := by
    rw [h.eq, append_assoc, cons_append]
  have hrel : isAbsolute (repo ++ ".allowed".toList) = false := by
    have hne : repo ≠ [] := by simp [h.eq]
    rw [isAbsolute_append hne, h.relative]
  have hsplit : (repo ++ ".allowed".toList).splitOn '/' = [groupName, name ++ ".allowed".toList] := by
    rw [hrepo, splitOn_append_cons_self, splitOn_eq_singleton h.group_sep,
      splitOn_eq_singleton (by simp [h.name_sep])]
    rfl
  have hdot : ((repo ++ ".allowed".toList).splitOn '/').head? ≠ some ['.'] := by
    rw [hsplit, head?_cons]
    intro heq
    have hok := h.group_ok
    rw [Option.some.inj heq] at hok
    exact absurd hok (by decide)
  have hnames : FsPath.names (repo ++ ".allowed".toList) = [groupName, name ++ ".allowed".toList] := by
    rw [FsPath.names, hsplit, filter_eq_self]
    intro s hs
    rcases mem_pair.mp hs with rfl | rfl
    · exact isName_of_componentOk h.group_ok
    · exact isName_allowed name
  rw [FsPath.components_join root hrel hdot, hnames, map_cons, map_singleton,
    ofName_of_componentOk h.group_ok, ofName_allowed]

end Creatable

/-! ## What a successful creation does -/

def MakesDirectory (make : Text → Fs (Except Error Unit)) : Prop :=
  ∀ path (t s : Tree), t.node (components path) = none →
    t.node (components path).dropLast = some .dir → (make path).exec t = (.ok (.ok ()), s) →
    ∀ l, s.node l = if l = components path then some .dir else t.node l

theorem createDirAll_new {t s : Tree} {m : Loc} (hnone : t.node m = none)
    (hparent : t.node m.dropLast = some .dir) (hs : t.createDirAll m = some s) :
    ∀ l, s.node l = if l = m then some .dir else t.node l := by
  obtain ⟨-, hnode⟩ := FileTree.createDirAll_eq_some.mp hs
  intro l
  rw [hnode l]
  by_cases hl : l = m
  · rw [if_pos hl, if_pos ⟨hl ▸ prefix_rfl, hl ▸ hnone⟩]
  · rw [if_neg hl, if_neg]
    rintro ⟨hpre, hln⟩
    rw [t.dir_of_prefix hparent (FileTree.prefix_dropLast hpre hl)] at hln
    cases hln

theorem createDirAll_self {t : Tree} {m : Loc} (hdir : t.node m = some .dir) :
    t.createDirAll m = some t := by
  have hall : ∀ l, l <+: m → t.node l = some .dir := fun l hl => t.dir_of_prefix hdir hl
  refine FileTree.createDirAll_eq_some.mpr ⟨fun l hl => .inr (hall l hl), fun l => ?_⟩
  rw [if_neg]
  rintro ⟨hl, hnone⟩
  simp [hall l hl] at hnone

section Making

variable {git : GitTool} {path : Text} {t : Tree}

theorem exec_isBareRepository_new (hnone : t.node (components path) = none) :
    (isBareRepository path).exec t = (.ok false, t) := by
  have hhead : t.node (components (join path "HEAD".toList)) = none := by
    rw [components_join_name path (by decide) (by decide)]
    by_contra hne
    have hsome := Option.isSome_iff_ne_none.mpr hne
    have hdir := t.parent _ (by simp) hsome
    rw [dropLast_concat, hnone] at hdir
    cases hdir
  simp only [isBareRepository, exec_bind, exec_node, exec_pure, hhead]
  rfl

theorem exec_makeRepository (hnone : t.node (components path) = none)
    (hparent : t.node (components path).dropLast = some .dir) {succeeds : Bool} {s : Tree}
    (hexec : (makeRepository succeeds path).exec t = (.ok (.ok ()), s)) :
    ∀ l, s.node l = if l = components path then some .dir else t.node l := by
  rw [makeRepository, exec_bind, exec_attempt, createDirAll_self hparent] at hexec
  cases succeeds with
  | false => cases hexec
  | true =>
    simp only [if_true] at hexec
    rw [exec_bind, exec_attempt] at hexec
    cases hs : t.createDirAll (components path) with
    | none =>
      rw [hs] at hexec
      cases hexec
    | some s' =>
      rw [hs] at hexec
      obtain ⟨-, rfl⟩ := Prod.mk.inj hexec
      exact createDirAll_new hnone hparent hs

theorem ensureBareRepository_makesDirectory (git : GitTool) :
    MakesDirectory (ensureBareRepository git) := by
  intro path t s hnone hparent hexec
  rw [ensureBareRepository, exec_bind, exec_isBareRepository_new hnone] at hexec
  exact exec_makeRepository hnone hparent hexec

theorem cloneRemoteBare_makesDirectory (git : GitTool) (source : Text) :
    MakesDirectory (cloneRemoteBare git source) := by
  intro path t s hnone hparent hexec
  unfold cloneRemoteBare at hexec
  split_ifs at hexec with hsource
  · cases hexec
  · rw [exec_bind, exec_node, hnone] at hexec
    exact exec_makeRepository hnone hparent hexec

end Making

def created : Response := .of .ok "ok"

def grant (creator : Id) (executable : Bool) : Node FileData :=
  .file ⟨some ("adm:".toList ++ hex creator.toList ++ ['\n']), executable⟩

section Creation

variable {run : Runner} {access : Access} {make : Text → Fs (Except Error Unit)}
  (hmake : MakesDirectory make) {repo : Text} {remote : Id} {t s : Tree}

include hmake

theorem makeAndGrant_created {path : Text} (hnone : t.node (components path) = none)
    (hparent : t.node (components path).dropLast = some .dir)
    (h : (makeAndGrant access make repo path remote).exec t = (.ok created, s)) :
    ∃ executable, executable = isExecutable (t.node
        (components (join access.repositoriesDir (repo ++ ".allowed".toList)))) ∧
      ∀ l, s.node l =
        if l = components (join access.repositoriesDir (repo ++ ".allowed".toList)) then
          some (grant remote executable)
        else if l = components path then some .dir
        else t.node l := by
  obtain ⟨result, t₁, hmade, h⟩ := exec_bind_eq_ok.mp h
  rcases result with e | u
  · obtain ⟨_, t₂, -, h⟩ := exec_bind_eq_ok.mp h
    cases h
  · have hnode := hmake path t t₁ hnone hparent hmade
    dsimp only at h
    rw [exec_bind, exec_node] at h
    dsimp only at h
    rw [exec_bind, exec_attempt] at h
    have hmode : isExecutable (t₁.node
        (components (join access.repositoriesDir (repo ++ ".allowed".toList)))) =
        isExecutable (t.node
          (components (join access.repositoriesDir (repo ++ ".allowed".toList)))) := by
      rw [hnode]
      split_ifs with hpath
      · rw [hpath, hnone]
        rfl
      · rfl
    rw [hmode] at h
    generalize isExecutable _ = executable at h ⊢
    cases hput : t₁.write (components (join access.repositoriesDir (repo ++ ".allowed".toList)))
        ⟨some ("adm:".toList ++ hex remote.toList ++ ['\n']), executable⟩ with
    | none =>
      rw [hput] at h
      obtain ⟨_, t₃, -, h⟩ := exec_bind_eq_ok.mp h
      cases h
    | some t₂ =>
      rw [hput] at h
      obtain ⟨-, rfl⟩ := Prod.mk.inj h
      refine ⟨executable, rfl, fun l => ?_⟩
      rw [(FileTree.put_eq_some.mp hput).2 l, hnode l]
      rfl

/-- A creation that succeeds was asked for a name in an existing group, and adds the repository
directory and its rule file. -/
theorem handleNew_created
    (h : (handleNew run access make repo remote).exec t = (.ok created, s)) :
    ∃ groupName name executable,
      executable = isExecutable (t.node
        (components (join access.repositoriesDir (repo ++ ".allowed".toList)))) ∧
      Creatable repo groupName name ∧
      t.node (components (join access.repositoriesDir groupName)) = some .dir ∧
      t.node (components (join access.repositoriesDir repo)) = none ∧
      ∀ l, s.node l =
        if l = components (join access.repositoriesDir (repo ++ ".allowed".toList)) then
          some (grant remote executable)
        else if l = components (join access.repositoriesDir repo) then some .dir
        else t.node l := by
  unfold handleNew at h
  cases hsplit : Text.splitOnce '/' repo with
  | none =>
    rw [hsplit] at h
    cases h
  | some parts =>
    obtain ⟨groupName, name⟩ := parts
    rw [hsplit] at h
    dsimp only at h
    obtain ⟨hrepo, hgsep⟩ := Text.not_mem_of_splitOnce hsplit
    split_ifs at h with hparts
    · cases h
    simp only [not_or, List.isEmpty_iff, List.contains_iff_mem] at hparts
    rw [exec_bind, exec_node] at h
    dsimp only at h
    split_ifs at h with hdir
    · cases h
    rw [not_not] at hdir
    -- the two questions to the access rules leave the tree alone
    rw [exec_bind, access.exec_allows run] at h
    rcases hread : access.answer run t.node .read repo (some remote) with e | readAccess
    · rw [hread] at h
      cases h
    rw [hread] at h
    dsimp only at h
    rw [exec_bind, access.exec_allows run] at h
    have haccepted : Accepted repo := access.accepted_of_answer run hread
    have hcreatable : Creatable repo groupName name :=
      ⟨hrepo, hparts.1, hgsep, hparts.2.1, hparts.2.2, haccepted⟩
    rcases hcreate : access.answer run t.node .create repo (some remote) with e | createAccess
    · rw [hcreate] at h
      cases h
    rw [hcreate] at h
    cases createAccess with
    | false => cases readAccess <;> cases h
    | true =>
      dsimp only at h
      rw [repositoryPath_of_accepted _ haccepted] at h
      simp only [Bool.not_true, Bool.false_eq_true, if_false, Except.mapError, exec_bind,
        exec_ofExcept, exec_node] at h
      split_ifs at h with hexists hra
      · cases h
      · cases h
      · have hnone : t.node (components (join access.repositoriesDir repo)) = none := by
          simpa using hexists
        have hparent : t.node (components (join access.repositoriesDir repo)).dropLast =
            some .dir := by
          rw [hcreatable.components_group] at hdir
          rw [hcreatable.components_repo, ← hdir, List.dropLast_append_of_ne_nil (by simp)]
          rfl
        obtain ⟨executable, hmode, hs⟩ := makeAndGrant_created hmake hnone hparent h
        exact ⟨groupName, name, executable, hmode, hcreatable, hdir, hnone, hs⟩

end Creation

/-! ## A tool for the examples -/

namespace Sample

def run : Runner := fun data => .output (data.content.getD [])

/-- Everything succeeds. -/
def git : GitTool where
  init _ := true
  clone _ _ := true
  listRefs _ := .ok []
  bundle _ _ _ := .ok []
  applyPush _ _ t := (.ok (), t)

end Sample

end Rns.Git

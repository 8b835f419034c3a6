import Rns.Git.Grants
import Rns.Git.Work

/-!
# Deleting a repository and creating it again

A repository is its directory, a directory of releases, a directory of work documents and a rule file beside
it.  Deleting takes away the directory; what lies beside it is found by the next repository of that name.
-/

namespace Rns.Git

open FsPath Server FsM List

/-! ## What belongs to a repository -/

def releaseSidecarPath (repository : Text) : Text := repository ++ ".releases".toList

def workSidecarPath (repository : Text) : Text := repository ++ ".work".toList

def WorkScope.asStr : WorkScope → Text
  | .active => "active".toList
  | .completed => "completed".toList
  | .proposed => "proposed".toList

/-- `list_releases` has an entry: a directory with a file `META`. -/
def Released (t : Tree) (releases : Text) (tag : Text) : Prop :=
  t.node (components releases) = some .dir ∧ t.node (components releases ++ [.normal tag]) = some .dir ∧
    ∃ data, t.node (components releases ++ [.normal tag, .normal "META".toList]) = some (.file data)

/-- There is a document: a file `root` in the directory of its number. -/
def Documented (t : Tree) (work : Text) (scope : WorkScope) (docId : ℕ) : Prop :=
  ∃ data, t.node (components work ++ [.normal scope.asStr, .normal (toString docId).toList,
    .normal "root".toList]) = some (.file data)

def ownFiles (root repo : Text) : List Text := (allowedFiles root repo).take 2

def Grants (run : Runner) (access : Access) (t : Tree) (path : Text) (op : Operation) (id : Id) : Prop :=
  ∃ node, t.node (components path) = some node ∧
    fileAllows run access.aliases op (some id) path node = .ok true

/-! ## Creating -/

inductive Creation where
  | create (creator : Id)
  | push (bundle : Bytes) (updates : List RefUpdate) (remote : Option Id)

namespace Creation

variable (run : Runner) (git : GitTool) (access : Access) (repo : Text)

def handle : Creation → Fs Response
  | create creator => handleCreate run git access repo (some creator)
  | push bundle updates remote => handlePush run git access repo bundle updates remote

def Writes (path : Text) (op : Operation) (id : Id) : Creation → Prop
  | create creator => fileAllows run access.aliases op (some id) path (grant creator false) = .ok true
  | push .. => False

end Creation

section Recreation

variable (run : Runner) (git : GitTool) (access : Access) (repo : Text) (creation : Creation)

/-- No releases, no documents, and no rights but those that the creation wrote. -/
structure StartsEmpty (t : Tree) : Prop where
  releases : ∀ tag, ¬Released t (releaseSidecarPath (join access.repositoriesDir repo)) tag
  documents : ∀ scope docId, ¬Documented t (workSidecarPath (join access.repositoriesDir repo)) scope docId
  grants : ∀ path ∈ ownFiles access.repositoriesDir repo, ∀ op id, Grants run access t path op id →
    creation.Writes run access path op id

/-- What has to be known before the deletion: nothing lies beside the repository that the next one finds. -/
structure LeavesNothing (t : Tree) : Prop where
  releases : ∀ tag, ¬Released t (releaseSidecarPath (join access.repositoriesDir repo)) tag
  documents : ∀ scope docId, ¬Documented t (workSidecarPath (join access.repositoriesDir repo)) scope docId
  /-- A rule file stays with a push; a creation writes over it and keeps its mode. -/
  grants : ∀ op id,
    let path := join access.repositoriesDir (repo ++ ".allowed".toList)
    match creation with
    | .create creator => isExecutable (t.node (components path)) = true →
      fileAllows run access.aliases op (some id) path (grant creator true) = .ok true →
        creation.Writes run access path op id
    | .push .. => ¬Grants run access t path op id

def GitTool.LeavesNames (git : GitTool) : Prop :=
  ∀ bundle updates (sub : Tree), ∀ name ∈ [".allowed".toList, ".releases".toList, ".work".toList],
    sub.node [.normal name] = none → (git.applyPush bundle updates sub).2.node [.normal name] = none

end Recreation

/-! ## Places -/

section Places

variable {root repo : Text}

theorem join_append (h : repo ≠ []) (root suffix : Text) :
    join root (repo ++ suffix) = join root repo ++ suffix := by
  unfold join
  rw [isAbsolute_append h]
  split_ifs <;> simp

theorem Accepted.components_ne_nil (h : Accepted repo) (root : Text) : components (join root repo) ≠ [] := by
  by_cases habs : isAbsolute repo
  · rw [join_of_isAbsolute root habs, h.components_absolute habs]
    exact cons_ne_nil _ _
  · rw [h.components_join root (by simpa using habs)]
    simp [h.names_ne_nil]

theorem Accepted.places (h : Accepted repo) (root : Text) :
    ∃ pre last, components (join root repo) = pre ++ (if last = [] then [] else [.normal last]) ∧
      (last = [] ↔ repo.getLast? = some '/') ∧
      ∀ {suffix : Text}, '/' ∉ suffix → 2 < suffix.length →
        components (join root repo ++ suffix) = pre ++ [.normal (last ++ suffix)] := by
  have hne : repo ≠ [] := by
    rintro rfl
    exact h.names_ne_nil rfl
  obtain ⟨pre, last, hnames, hend, hsuffixed⟩ := h.components_suffixed root
  refine ⟨(if isAbsolute repo then [.rootDir] else components root) ++ pre.map .normal, last, ?_, hend,
    fun hsep hlong => ?_⟩
  · have hmap : (FsPath.names repo).map Component.normal =
        pre.map .normal ++ (if last = [] then [] else [.normal last]) := by
      rw [hnames]
      split_ifs <;> simp
    by_cases habs : isAbsolute repo
    · rw [join_of_isAbsolute root habs, h.components_absolute habs, hmap, if_pos habs]
      rfl
    · rw [h.components_join root (by simpa using habs), hmap, if_neg habs, append_assoc]
  · rw [← join_append hne, hsuffixed hsep hlong, append_assoc]

theorem not_prefix_beside {pre : Loc} {last suffix : Text} (hsuffix : suffix ≠ []) (rest : Loc) :
    ¬pre ++ [.normal last] <+: pre ++ [.normal (last ++ suffix)] ++ rest := by
  rw [append_assoc, prefix_append_right_inj, singleton_append, cons_prefix_cons]
  rintro ⟨heq, -⟩
  exact hsuffix (self_eq_append_right.1 (Component.normal.inj heq))

theorem beside_ne {pre : Loc} {last suffix suffix' : Text} (hne : suffix ≠ suffix') (rest : Loc) :
    pre ++ [.normal (last ++ suffix)] ++ rest ≠ pre ++ [.normal (last ++ suffix')] := by
  intro heq
  rw [append_assoc, append_cancel_left_eq, singleton_append, cons.injEq] at heq
  exact hne (append_cancel_left (Component.normal.inj heq.1))

end Places

/-! ## Deletion and creation -/

variable {creation : Creation}

section Steps

variable {run : Runner} {git : GitTool} {access : Access} {repo : Text} {t t' : Tree}

def deleted : Response := .of .ok "deleted"

variable {remote : Option Id} {after : Tree} {path : Text}

theorem handleDelete_deleted
    (h : (handleDelete run access repo remote).exec t = (.ok deleted, t')) :
    Accepted repo ∧ t.node (components (join access.repositoriesDir repo)) = some .dir ∧
      ∀ l, t'.node l =
        if components (join access.repositoriesDir repo) <+: l then none else t.node l := by
  unfold handleDelete at h
  rw [exec_bind, access.exec_allows run] at h
  rcases hwrite : access.answer run t.node .write repo remote with e | allowed
  · rw [hwrite] at h
    cases h
  have haccepted : Accepted repo := access.accepted_of_answer run hwrite
  rw [hwrite] at h
  cases allowed with
  | false => cases h
  | true =>
    simp only [Bool.not_true, Bool.false_eq_true, if_false, repositoryPath_of_accepted _ haccepted,
      Except.mapError, exec_bind, exec_ofExcept, exec_node] at h
    split_ifs at h
    · cases h
    · rw [exec_bind, exec_attempt] at h
      cases hremoved : t.removeDirAll (components (join access.repositoriesDir repo)) with
      | none =>
        rw [hremoved] at h
        cases h
      | some rest =>
        rw [hremoved] at h
        obtain ⟨-, rfl⟩ := Prod.mk.inj h
        exact ⟨haccepted, FileTree.removeDirAll_eq_some.mp hremoved⟩

theorem handlePush_created (hgit : git.LeavesNames) {bundle : Bytes} {updates : List RefUpdate}
    {remote : Option Id} (haccepted : Accepted repo)
    (hnone : t.node (components (join access.repositoriesDir repo)) = none)
    (hparent : t.node (components (join access.repositoriesDir repo)).dropLast = some .dir)
    (h : (handlePush run git access repo bundle updates remote).exec t = (.ok created, t')) :
    (∀ l, ¬components (join access.repositoriesDir repo) <+: l → t'.node l = t.node l) ∧
      ∀ name ∈ [".allowed".toList, ".releases".toList, ".work".toList],
        t'.node (components (join access.repositoriesDir repo) ++ [.normal name]) = none := by
  unfold handlePush at h
  simp only [repositoryPath_of_accepted _ haccepted, Except.mapError, exec_bind, exec_ofExcept] at h
  split at h
  · cases h
  · cases h
  rw [exec_bind, exec_isBareRepository_new hnone] at h
  simp only [Bool.false_eq_true, if_false] at h
  rw [exec_bind, access.exec_allows run] at h
  rcases hcreate : access.answer run t.node .create repo remote with e | allowed
  · rw [hcreate] at h
    cases h
  rw [hcreate] at h
  cases allowed with
  | false => cases h
  | true =>
    simp only [Bool.not_true, Bool.false_eq_true, if_false] at h
    obtain ⟨result, t₁, hpush, h⟩ := exec_bind_eq_ok.mp h
    rcases result with e | u
    · cases h
    obtain ⟨-, rfl⟩ := Prod.mk.inj h
    obtain ⟨made, t₂, hmade, hpush⟩ := exec_bind_eq_ok.mp hpush
    rcases made with e | u
    · cases hpush
    have hnode := ensureBareRepository_makesDirectory git _ t t₂ hnone hparent hmade
    obtain ⟨inside, t₃, hinside, hpush⟩ := exec_bind_eq_ok.mp hpush
    rcases inside with - | inside
    · cases hpush
    obtain ⟨-, rfl⟩ := Prod.mk.inj hpush
    rw [exec_within] at hinside
    cases hgraft : t₂.graft (components (join access.repositoriesDir repo)) (git.applyPush bundle updates
        (t₂.subtree (components (join access.repositoriesDir repo)))).2 with
    | none =>
      rw [hgraft] at hinside
      cases hinside
    | some t₄ =>
      rw [hgraft] at hinside
      obtain ⟨-, rfl⟩ := Prod.mk.inj hinside
      have hafter := (FileTree.graft_eq_some.mp hgraft).2
      refine ⟨fun l hl => ?_, fun name hname => ?_⟩
      · rw [hafter, if_neg hl, hnode, if_neg]
        rintro rfl
        exact hl prefix_rfl
      · rw [hafter, if_pos (prefix_append ..), drop_left]
        refine hgit _ _ _ name hname ?_
        have hmissing : t.node (components (join access.repositoriesDir repo) ++ [.normal name]) = none := by
          by_contra hthere
          have hdir := t.parent _ (by simp) (Option.isSome_iff_ne_none.mpr hthere)
          rw [dropLast_concat, hnone] at hdir
          cases hdir
        change t₂.node (components (join access.repositoriesDir repo) ++ [.normal name]) = none
        rw [hnode, if_neg (by simp), hmissing]

/-- What a deletion and a creation after it leave, in terms of what was there before both. -/
structure Remade (creation : Creation) (repository side : Loc) (before after : Tree) : Prop where
  outside : ∀ l, ¬repository <+: l → l ≠ side → after.node l = before.node l
  inside : ∀ name ∈ [".allowed".toList, ".releases".toList, ".work".toList],
    after.node (repository ++ [.normal name]) = none
  rules : ¬repository <+: side → after.node side =
    match creation with
    | .create creator => some (grant creator (isExecutable (before.node side)))
    | .push .. => before.node side

theorem remade {t₁ : Tree} (hgit : git.LeavesNames)
    (hdelete : (handleDelete run access repo remote).exec t = (.ok deleted, t₁))
    (hcreate : (creation.handle run git access repo).exec t₁ = (.ok created, t')) :
    Remade creation (components (join access.repositoriesDir repo))
      (components (join access.repositoriesDir (repo ++ ".allowed".toList))) t t' := by
  obtain ⟨haccepted, hdir, hdeleted⟩ := handleDelete_deleted hdelete
  have hnone : t₁.node (components (join access.repositoriesDir repo)) = none := by
    rw [hdeleted, if_pos prefix_rfl]
  cases creation with
  | create creator =>
    obtain ⟨groupName, name, executable, hmode, hcreatable, -, -, hnode⟩ :=
      handleNew_created (ensureBareRepository_makesDirectory git) hcreate
    have hrepo := hcreatable.components_repo access.repositoriesDir
    have hside := hcreatable.components_sidecar access.repositoriesDir
    refine ⟨fun l hl hne => ?_, fun name' hname' => ?_, fun hbeside => ?_⟩
    · rw [hnode, if_neg hne, if_neg, hdeleted, if_neg hl]
      rintro rfl
      exact hl prefix_rfl
    · rw [hnode, if_neg, if_neg (by simp), hdeleted, if_pos (prefix_append ..)]
      rw [hrepo, hside]
      simp
    · rw [hnode, if_pos rfl, hmode, hdeleted, if_neg hbeside]
  | push bundle updates pusher =>
    have hparent : t₁.node (components (join access.repositoriesDir repo)).dropLast = some .dir := by
      have hne := haccepted.components_ne_nil access.repositoriesDir
      rw [hdeleted, if_neg (FileTree.not_prefix_dropLast hne)]
      exact t.parent _ hne (by rw [hdir]; rfl)
    obtain ⟨houtside, hinside⟩ := handlePush_created hgit haccepted hnone hparent hcreate
    refine ⟨fun l hl _ => ?_, hinside, fun hbeside => ?_⟩
    · rw [houtside l hl, hdeleted, if_neg hl]
    · rw [houtside _ hbeside, hdeleted, if_neg hbeside]

theorem node_eq_none_below {l m : Loc} (hnone : t.node l = none) (h : l <+: m) : t.node m = none := by
  by_contra hthere
  by_cases hlm : l = m
  · exact hthere (hlm ▸ hnone)
  · have hdir := t.node_of_prefix (Option.isSome_iff_ne_none.mpr hthere) h hlm
    rw [hnone] at hdir
    cases hdir

theorem released_congr {releases : Text}
    (h : ∀ rest, after.node (components releases ++ rest) = t.node (components releases ++ rest))
    (tag : Text) : Released after releases tag ↔ Released t releases tag := by
  have hself := h []
  rw [append_nil] at hself
  simp only [Released, hself, h]

theorem documented_congr {work : Text}
    (h : ∀ rest, after.node (components work ++ rest) = t.node (components work ++ rest))
    (scope : WorkScope) (docId : ℕ) : Documented after work scope docId ↔ Documented t work scope docId := by
  simp only [Documented, h]

theorem grants_congr (h : after.node (components path) = t.node (components path)) (op : Operation)
    (id : Id) : Grants run access after path op id ↔ Grants run access t path op id := by
  simp only [Grants, h]

theorem not_grants (h : t.node (components path) = none) (op : Operation) (id : Id) :
    ¬Grants run access t path op id := by
  rintro ⟨node, hnode, -⟩
  rw [h] at hnode
  cases hnode

section

variable (haccepted : Accepted repo)
  (h : Remade creation (components (join access.repositoriesDir repo))
    (components (join access.repositoriesDir (repo ++ ".allowed".toList))) t t')
include haccepted h

theorem startsEmpty_of_inside (hend : repo.getLast? = some '/') :
    StartsEmpty run access repo creation t' := by
  have hne : repo ≠ [] := by
    rintro rfl
    cases hend
  obtain ⟨pre, last, hrepo, hlast, hbeside⟩ := haccepted.places ..
  obtain rfl := hlast.2 hend
  rw [if_pos rfl, append_nil] at hrepo
  -- whatever is put after the name is an entry of the repository
  have hinside : ∀ name ∈ [".allowed".toList, ".releases".toList, ".work".toList],
      t'.node (components (join access.repositoriesDir repo ++ name)) = none := by
    intro name hname
    have hplain : '/' ∉ name ∧ 2 < name.length := by
      revert name
      decide
    rw [hbeside hplain.1 hplain.2, nil_append, ← hrepo]
    exact h.inside name hname
  refine ⟨fun tag hreleased => ?_, fun scope docId hdocument => ?_, fun path hpath op id hgrants => ?_⟩
  · have hnone := hinside ".releases".toList (by simp)
    rw [releaseSidecarPath] at hreleased
    rw [hreleased.1] at hnone
    cases hnone
  · obtain ⟨data, hdata⟩ := hdocument
    unfold workSidecarPath at hdata
    rw [node_eq_none_below (hinside ".work".toList (by simp)) (prefix_append ..)] at hdata
    cases hdata
  · rcases mem_pair.1 hpath with rfl | rfl
    · refine absurd hgrants (not_grants ?_ op id)
      rw [components_join_name _ (by decide) (by decide)]
      exact h.inside ".allowed".toList (by simp)
    · refine absurd hgrants (not_grants ?_ op id)
      rw [join_append hne]
      exact hinside ".allowed".toList (by simp)

/-- With any other name, the new repository finds what lay beside the old one. -/
theorem startsEmpty_iff_of_beside (hend : repo.getLast? ≠ some '/') :
    StartsEmpty run access repo creation t' ↔ LeavesNothing run access repo creation t := by
  have hne : repo ≠ [] := by
    rintro rfl
    exact haccepted.names_ne_nil rfl
  obtain ⟨pre, last, hrepo, hlast, hbeside⟩ := haccepted.places ..
  have hlast' : last ≠ [] := fun hnil => hend (hlast.1 hnil)
  rw [if_neg hlast'] at hrepo
  have hside : components (join access.repositoriesDir (repo ++ ".allowed".toList)) =
      pre ++ [.normal (last ++ ".allowed".toList)] := by
    rw [join_append hne]
    exact hbeside (by decide) (by decide)
  -- releases and documents lie outside of the repository and are not its rule file
  have hkept : ∀ suffix ∈ [".releases".toList, ".work".toList], ∀ rest,
      t'.node (components (join access.repositoriesDir repo ++ suffix) ++ rest) =
        t.node (components (join access.repositoriesDir repo ++ suffix) ++ rest) := by
    intro suffix hsuffix rest
    have hplain : '/' ∉ suffix ∧ 2 < suffix.length ∧ suffix ≠ ".allowed".toList := by
      revert suffix
      decide
    refine h.outside _ ?_ ?_
    · rw [hrepo, hbeside hplain.1 hplain.2.1]
      exact not_prefix_beside (ne_nil_of_length_pos (by omega)) rest
    · rw [hside, hbeside hplain.1 hplain.2.1]
      exact beside_ne hplain.2.2 rest
  have hrules := h.rules (by
    rw [hrepo, hside]
    simp)
  have hreleases := released_congr (hkept ".releases".toList (by simp))
  have hdocuments := documented_congr (hkept ".work".toList (by simp))
  have hinner : ∀ op id,
      ¬Grants run access t' (join (join access.repositoriesDir repo) ".allowed".toList) op id := by
    refine not_grants ?_
    rw [components_join_name _ (by decide) (by decide)]
    exact h.inside ".allowed".toList (by simp)
  constructor
  · intro hempty
    refine ⟨fun tag hreleased => hempty.releases tag ((hreleases tag).2 hreleased),
      fun scope docId hdocument => hempty.documents scope docId ((hdocuments scope docId).2 hdocument),
      fun op id => ?_⟩
    have hown := hempty.grants (join access.repositoriesDir (repo ++ ".allowed".toList))
      (by simp [ownFiles, allowedFiles]) op id
    cases creation with
    | create creator =>
      intro path hmode hallows
      exact hown ⟨_, hrules, by rwa [hmode]⟩
    | push bundle updates pusher => exact fun hgrants => hown ((grants_congr hrules op id).2 hgrants)
  · intro hnothing
    refine ⟨fun tag hreleased => hnothing.releases tag ((hreleases tag).1 hreleased),
      fun scope docId hdocument => hnothing.documents scope docId ((hdocuments scope docId).1 hdocument),
      fun path hpath op id hgrants => ?_⟩
    rcases mem_pair.1 hpath with rfl | rfl
    · exact absurd hgrants (hinner op id)
    have hbefore := hnothing.grants op id
    cases creation with
    | create creator =>
      obtain ⟨node, hnode, hallows⟩ := hgrants
      rw [hrules] at hnode
      obtain rfl := Option.some.inj hnode
      cases hmode : isExecutable (t.node
          (components (join access.repositoriesDir (repo ++ ".allowed".toList)))) with
      | false =>
        rw [hmode] at hallows
        exact hallows
      | true =>
        rw [hmode] at hallows
        exact hbefore hmode hallows
    | push bundle updates pusher => exact absurd ((grants_congr hrules op id).1 hgrants) hbefore

end

end Steps

/-- After a deletion and a creation that both succeed, the repository starts empty exactly when its name ends
in a separator, or nothing lay beside it: no releases, no documents, no rule file that still gives rights. -/
theorem recreated_starts_empty_iff (run : Runner) (git : GitTool) (access : Access) (hgit : git.LeavesNames)
    (repo : Text) (remote : Option Id) (creation : Creation) (t t₁ t₂ : Tree)
    (hdelete : (Server.handleDelete run access repo remote).exec t = (.ok deleted, t₁))
    (hcreate : (creation.handle run git access repo).exec t₁ = (.ok created, t₂)) :
    StartsEmpty run access repo creation t₂ ↔
      repo.getLast? = some '/' ∨ LeavesNothing run access repo creation t := by
  obtain ⟨haccepted, -⟩ := handleDelete_deleted hdelete
  have hremade := remade hgit hdelete hcreate
  by_cases hend : repo.getLast? = some '/'
  · exact iff_of_true (startsEmpty_of_inside haccepted hremade hend) (.inl hend)
  · rw [startsEmpty_iff_of_beside haccepted hremade hend]
    exact ⟨.inr, fun h => h.resolve_left hend⟩

/-! ## A repository with a release -/

namespace Recreation

open Sample

/-- A tree from a list of its nodes. -/
def treeOf (nodes : List (Loc × Node FileData))
    (h : ∀ entry ∈ nodes, entry.1 ≠ [] → nodes.lookup entry.1.dropLast = some .dir) : Tree where
  node l := nodes.lookup l
  parent := by
    intro l hl hsome
    obtain ⟨node, hnode⟩ := Option.isSome_iff_exists.mp hsome
    obtain ⟨before, after, hnodes, -⟩ := lookup_eq_some_iff.mp hnode
    exact h (l, node) (by simp [hnodes]) hl

def root : Text := "r".toList

def repo : Text := "g/a".toList

/-- Everybody may do everything. -/
def access : Access where
  rules _ := .all
  aliases _ := none
  blocked := []
  repositoriesDir := root

def place (names : List String) : Loc := names.map fun name => .normal name.toList

def plain : List (Loc × Node FileData) :=
  [(place [], .dir), (place ["r"], .dir), (place ["r", "g"], .dir), (place ["r", "g", "a"], .dir),
    (place ["r", "g", "a", "HEAD"], .file ⟨some [], false⟩), (place ["r", "g", "a", "objects"], .dir)]

def withRelease : List (Loc × Node FileData) :=
  plain ++ [(place ["r", "g", "a.releases"], .dir), (place ["r", "g", "a.releases", "v1"], .dir),
    (place ["r", "g", "a.releases", "v1", "META"], .file ⟨some [], false⟩)]

def afterDelete (t : Tree) : Tree := ((handleDelete run access repo none).exec t).2

def afterBoth (creation : Creation) (t : Tree) : Tree :=
  ((creation.handle run git access repo).exec (afterDelete t)).2

end Recreation

open Recreation Sample in
/-- The release is still listed when the repository has been created again. -/
theorem release_survives_recreation :
    let t := treeOf withRelease (by decide +kernel)
    let creation := Creation.create (Vector.replicate 16 1)
    (Server.handleDelete run access repo none).exec t = (.ok deleted, afterDelete t) ∧
      (creation.handle run git access repo).exec (afterDelete t) = (.ok created, afterBoth creation t) ∧
      ¬StartsEmpty run access repo creation (afterBoth creation t) := by
  intro t creation
  have hdelete : ((Server.handleDelete run access repo none).exec t).1 = .ok deleted := by decide +kernel
  have hcreate : ((creation.handle run git access repo).exec (afterDelete t)).1 = .ok created := by
    decide +kernel
  refine ⟨Prod.ext hdelete rfl, Prod.ext hcreate rfl, fun hempty => ?_⟩
  exact hempty.releases "v1".toList ⟨by decide +kernel, by decide +kernel, ⟨some [], false⟩, by decide +kernel⟩

open Recreation Sample in
/-- A repository with nothing beside it starts empty after a push. -/
theorem recreated_starts_empty_plain :
    let t := treeOf plain (by decide +kernel)
    let creation := Creation.push [] [] none
    (Server.handleDelete run access repo none).exec t = (.ok deleted, afterDelete t) ∧
      (creation.handle run git access repo).exec (afterDelete t) = (.ok created, afterBoth creation t) ∧
      StartsEmpty run access repo creation (afterBoth creation t) := by
  intro t creation
  have hdelete : ((Server.handleDelete run access repo none).exec t).1 = .ok deleted := by decide +kernel
  have hcreate : ((creation.handle run git access repo).exec (afterDelete t)).1 = .ok created := by
    decide +kernel
  have hgit : git.LeavesNames := fun _ _ _ _ _ h => h
  have hnothing : LeavesNothing run access repo creation t := by
    refine ⟨fun tag hreleased => ?_, fun scope docId hdocument => ?_, fun op id => ?_⟩
    · have hnone : t.node (components (releaseSidecarPath (join root repo))) = none := by decide +kernel
      exact absurd (hnone.symm.trans hreleased.1) (by nofun)
    · have hnone : t.node (components (workSidecarPath (join root repo))) = none := by decide +kernel
      obtain ⟨data, hdata⟩ := hdocument
      exact absurd ((node_eq_none_below hnone (List.prefix_append ..)).symm.trans hdata) (by nofun)
    · exact not_grants (by decide +kernel) op id
  have hdelete' : (Server.handleDelete run access repo none).exec t = (.ok deleted, afterDelete t) :=
    Prod.ext hdelete rfl
  have hcreate' : (creation.handle run git access repo).exec (afterDelete t) =
      (.ok created, afterBoth creation t) := Prod.ext hcreate rfl
  exact ⟨hdelete', hcreate', (recreated_starts_empty_iff run git access hgit repo none creation t _ _ hdelete'
    hcreate').2 (.inr hnothing)⟩

end Rns.Git

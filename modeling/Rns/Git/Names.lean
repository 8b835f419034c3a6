import Rns.Lib.Path

/-!
# Repository names and the paths built from them

`validate_repo_name` checks a copy of the name with the outer slashes trimmed; the paths are built
from the untrimmed name.
-/

namespace Rns.Git

open FsPath List

/-- Errors of the crate: a message, or a failed call of the operating system. -/
inductive Error where
  | msg (text : Text)
  | io
  deriving DecidableEq

/-- The check of one component in `validate_repo_name`. -/
def componentOk (component : Text) : Bool :=
  !(component.isEmpty || component == ".".toList || component == "..".toList ||
    component.contains '\\')

def validateRepoName (name : Text) : Except Error Unit :=
  let trimmed := Text.trimMatches '/' name
  if trimmed.isEmpty ∨ trimmed.utf8Len > 256 then .error (.msg "invalid repository name".toList)
  else if (trimmed.splitOn '/').all componentOk then .ok ()
  else .error (.msg "invalid repository name".toList)

/-- The names `validate_repo_name` lets through. -/
def Accepted (name : Text) : Prop := validateRepoName name = .ok ()

instance (name : Text) : Decidable (Accepted name) :=
  inferInstanceAs (Decidable (validateRepoName name = .ok ()))

def repositoryPath (root repository : Text) : Except Error Text := do
  validateRepoName repository
  return join root repository

/-- `repository.split('/').next()`. -/
def group (repository : Text) : Text := (repository.splitOn '/').headD []

/-- `Access::allowed_files`: the rule files consulted for a repository. -/
def allowedFiles (root repository : Text) : List Text :=
  [join (join root repository) ".allowed".toList,
    join root (repository ++ ".allowed".toList),
    join (join root (group repository)) "group.allowed".toList,
    join root (group repository ++ ".allowed".toList)]

/-! ## What an accepted name is made of -/

theorem accepted_iff (name : Text) :
    Accepted name ↔ Text.trimMatches '/' name ≠ [] ∧ (Text.trimMatches '/' name).utf8Len ≤ 256 ∧
      ∀ s ∈ (Text.trimMatches '/' name).splitOn '/', componentOk s := by
  unfold Accepted validateRepoName
  dsimp only
  split_ifs with hlen hall
  · simp only [List.isEmpty_iff] at hlen
    simp only [false_iff, not_and]
    intro hne hle
    rcases hlen with h | h
    · exact absurd h hne
    · omega
  · simp only [List.isEmpty_iff, not_or] at hlen
    simp only [List.all_eq_true] at hall
    exact iff_of_true rfl ⟨hlen.1, by omega, hall⟩
  · simp only [List.all_eq_true] at hall
    simp only [false_iff, not_and]
    exact fun _ _ => hall

variable (l root : Text) {suffix name s : Text}

theorem repositoryPath_of_accepted (h : Accepted name) :
    repositoryPath root name = .ok (join root name) := by
  rw [repositoryPath, show validateRepoName name = .ok () from h]
  rfl

theorem isName_of_componentOk (h : componentOk s) : isName s := by
  simp only [componentOk, Bool.not_or, Bool.and_eq_true, Bool.not_eq_true', isEmpty_eq_false_iff,
    beq_eq_false_iff_ne] at h
  exact decide_eq_true ⟨h.1.1.1, h.1.1.2⟩

theorem ofName_of_componentOk (h : componentOk s) : Component.ofName s = .normal s := by
  simp only [componentOk, Bool.not_or, Bool.and_eq_true, Bool.not_eq_true',
    beq_eq_false_iff_ne] at h
  exact if_neg h.1.2

theorem Accepted.names (h : Accepted name) :
    names name = (Text.trimMatches '/' name).splitOn '/' := by
  obtain ⟨-, -, hall⟩ := (accepted_iff name).mp h
  obtain ⟨m, n, hname⟩ := Text.exists_trimMatches '/' name
  calc FsPath.names name = FsPath.names (Text.trimMatches '/' name) := by
        conv_lhs => rw [hname]
        rw [names_append_replicate, names_replicate_append]
    _ = (Text.trimMatches '/' name).splitOn '/' :=
        filter_eq_self.mpr fun s hs => isName_of_componentOk (hall s hs)

theorem Accepted.component_ok (h : Accepted name) (hs : s ∈ FsPath.names name) : componentOk s := by
  rw [h.names] at hs
  exact ((accepted_iff name).mp h).2.2 s hs

theorem Accepted.names_ne_nil (h : Accepted name) : FsPath.names name ≠ [] := by
  rw [h.names]
  exact splitOn_ne_nil '/' _

theorem Accepted.map_ofName (h : Accepted name) :
    (FsPath.names name).map Component.ofName = (FsPath.names name).map .normal :=
  map_congr_left fun _ hs => ofName_of_componentOk (h.component_ok hs)

theorem splitOn_head_of_rdropWhile (name : Text) :
    ((name.rdropWhile (· == '/')).splitOn '/').head? = (name.splitOn '/').head? := by
  have hrest : name.rtakeWhile (· == '/') = replicate (name.rtakeWhile (· == '/')).length '/' :=
    eq_replicate_of_mem fun x hx => by simpa using mem_rtakeWhile_imp hx
  have hsplit : name = name.rdropWhile (· == '/') ++ name.rtakeWhile (· == '/') :=
    rdropWhile_append_rtakeWhile.symm
  rcases hk : (name.rtakeWhile (· == '/')).length with _ | k
  · have hnil := eq_nil_of_length_eq_zero hk
    rw [hnil, append_nil] at hsplit
    rw [← hsplit]
  · rw [hk, replicate_succ] at hrest
    rw [hrest] at hsplit
    conv_rhs => rw [hsplit]
    exact (head_splitOn_append (.inr rfl)).symm

theorem Accepted.group_eq (h : Accepted name) (hrel : isAbsolute name = false) :
    (FsPath.names name).head? = some (group name) := by
  have hhead : name.head? ≠ some '/' := by simpa [isAbsolute] using hrel
  have htrim := Text.trimMatches_eq_of_head hhead
  rw [h.names, htrim, splitOn_head_of_rdropWhile, group]
  cases hs : name.splitOn '/' with
  | nil => exact absurd hs (splitOn_ne_nil '/' name)
  | cons s ss => rfl

theorem Accepted.group_ok (h : Accepted name) (hrel : isAbsolute name = false) :
    componentOk (group name) :=
  h.component_ok (mem_of_head? (h.group_eq hrel))

theorem sep_not_mem_group (name : Text) : '/' ∉ group name := by
  unfold group
  cases hs : name.splitOn '/' with
  | nil => simp
  | cons s ss =>
    have hmem : s ∈ name.splitOn '/' := by simp [hs]
    simpa using not_sep_mem_of_mem_splitOn hmem

theorem group_of_isAbsolute (h : isAbsolute name) : group name = [] := by
  simp only [isAbsolute, decide_eq_true_eq] at h
  obtain ⟨rest, rfl⟩ := head?_eq_some_iff.mp h
  simpa [group] using congrArg (·.headD []) (splitOn_append_cons_self [] rest)

/-! ## Where the paths lead -/

theorem Accepted.components_join (h : Accepted name) (root : Text) (hrel : isAbsolute name = false) :
    components (join root name) = components root ++ (FsPath.names name).map .normal := by
  have hdot : (name.splitOn '/').head? ≠ some ['.'] := by
    have hok := h.group_ok hrel
    have hgroup : (name.splitOn '/').head? = some (group name) := by
      unfold group
      cases hs : name.splitOn '/' with
      | nil => exact absurd hs (splitOn_ne_nil '/' name)
      | cons s ss => rfl
    rw [hgroup]
    intro heq
    rw [Option.some.inj heq] at hok
    exact absurd hok (by decide)
  rw [FsPath.components_join root hrel hdot, h.map_ofName]

theorem Accepted.components_absolute (h : Accepted name) (habs : isAbsolute name) :
    components name = .rootDir :: (FsPath.names name).map .normal := by
  rw [components, start, if_pos habs, h.map_ofName]
  rfl

theorem mem_splitOn_replicate {m n : ℕ} {s p : Text}
    (h : s ∈ (replicate m '/' ++ p ++ replicate n '/').splitOn '/') :
    s = [] ∨ s ∈ p.splitOn '/' := by
  induction n with
  | zero =>
    rw [replicate_zero, append_nil] at h
    induction m with
    | zero => exact .inr h
    | succ m ih =>
      rw [replicate_succ, cons_append, ← nil_append ('/' :: _),
        splitOn_append_cons_self, mem_append] at h
      rcases h with h | h
      · exact .inl (by simpa using h)
      · exact ih h
  | succ n ih =>
    rw [replicate_succ', ← append_assoc, splitOn_append_cons_self,
      mem_append] at h
    rcases h with h | h
    · exact ih h
    · exact .inl (by simpa using h)

theorem Accepted.segment_ok (h : Accepted name) (hs : s ∈ name.splitOn '/') :
    s = [] ∨ componentOk s := by
  obtain ⟨m, n, hname⟩ := Text.exists_trimMatches '/' name
  rw [hname] at hs
  exact (mem_splitOn_replicate hs).imp_right (((accepted_iff name).mp h).2.2 s)

theorem isName_append (hlong : 2 < suffix.length) (l : Text) : isName (l ++ suffix) := by
  refine decide_eq_true ⟨fun h => ?_, fun h => ?_⟩
  · have hlen := congrArg length h
    simp only [length_append, length_nil] at hlen
    omega
  · have hlen := congrArg length h
    simp only [length_append, length_singleton] at hlen
    omega

theorem ofName_append (hlong : 2 < suffix.length) (l : Text) :
    Component.ofName (l ++ suffix) = .normal (l ++ suffix) := by
  refine if_neg fun h => ?_
  have hlen := congrArg length h
  simp only [length_append, length_cons, length_nil] at hlen
  omega

/-- An accepted name with a suffix: what stands before the last segment, then one component.  The last
segment is empty when the name ends in a separator. -/
theorem Accepted.names_suffixed (h : Accepted name) :
    ∃ pre last, FsPath.names name = pre ++ (if last = [] then [] else [last]) ∧
      (last = [] ↔ name.getLast? = some '/') ∧
      ∀ {suffix : Text}, '/' ∉ suffix → 2 < suffix.length →
        FsPath.names (name ++ suffix) = pre ++ [last ++ suffix] := by
  have hnames : ∀ {last}, last ∈ name.splitOn '/' →
      FsPath.names last = if last = [] then [] else [last] := by
    intro last hlast
    rw [names_of_not_mem (not_sep_mem_of_mem_splitOn hlast)]
    rcases h.segment_ok hlast with rfl | hok
    · rfl
    · have hne := isName_of_componentOk hok
      rw [if_pos hne, if_neg]
      rintro rfl
      cases hne
  rcases Text.not_mem_or_last '/' name with hnot | ⟨before, last, hcut, hlast⟩
  · have hne : name ≠ [] := by
      rintro rfl
      exact h.names_ne_nil rfl
    refine ⟨[], name, hnames (by simp [splitOn_eq_singleton hnot]), ?_, fun hsep hlong => ?_⟩
    · exact iff_of_false hne fun hend => hnot (mem_of_mem_getLast? hend)
    · exact names_eq_self (by simp [hnot, hsep]) (isName_append hlong name)
  · have hmem : last ∈ name.splitOn '/' := by
      rw [hcut, splitOn_append_cons_self, splitOn_eq_singleton hlast]
      simp
    refine ⟨FsPath.names before, last, ?_, ?_, fun hsep hlong => ?_⟩
    · rw [← hnames hmem, hcut, names_append_sep]
    · rcases eq_nil_or_concat last with rfl | ⟨init, c, rfl⟩
      · simp [hcut]
      · refine iff_of_false (by simp) fun hend => hlast ?_
        rw [hcut, concat_eq_append, ← cons_append, ← append_assoc,
          getLast?_concat] at hend
        simp [Option.some.inj hend]
    · rw [hcut, append_assoc, cons_append, names_append_sep,
        names_eq_self (by simp [hlast, hsep]) (isName_append hlong last)]

theorem isName_allowed : isName (l ++ ".allowed".toList) := isName_append (by decide) l

theorem ofName_allowed :
    Component.ofName (l ++ ".allowed".toList) = .normal (l ++ ".allowed".toList) :=
  ofName_append (by decide) l

theorem isAbsolute_append (h : name ≠ []) (suffix : Text) :
    isAbsolute (name ++ suffix) = isAbsolute name := by
  simp only [isAbsolute, head?_append_of_ne_nil _ h]

end Rns.Git

import Rns.Lib.Text

/-!
# Unix paths

`std::path` on Unix.  A path is its string; `components` is what comparison, prefixes and lookup
see of it.  `names` is the part of it after an optional leading `/` or `.`.
-/

namespace Rns

namespace FsPath

inductive Component where
  | rootDir
  | curDir
  | parentDir
  | normal (name : Text)
  deriving DecidableEq

abbrev Loc := List Component

variable (p : Text)

def isAbsolute : Bool := p.head? = some '/'

def isName (s : Text) : Bool := s ≠ [] ∧ s ≠ ['.']

def names : List Text := (p.splitOn '/').filter isName

def Component.ofName (s : Text) : Component := if s = ['.', '.'] then .parentDir else .normal s

/-- How a path starts: at the root, at an explicit `.`, or at neither. -/
def start : Loc :=
  if isAbsolute p then [.rootDir]
  else if (p.splitOn '/').head? = some ['.'] then [.curDir]
  else []

/-- `Path::components`. -/
def components : Loc := start p ++ (names p).map Component.ofName

/-- `Path::join`: an absolute path replaces the base; otherwise a separator is put in between
unless the base ends in one or is empty. -/
def join (base p : Text) : Text :=
  if isAbsolute p then p
  else if base = [] ∨ base.getLast? = some '/' then base ++ p
  else base ++ '/' :: p

/-- The path `p` leads strictly below `root`, without climbing. -/
def Below (root p : Text) : Prop :=
  ∃ rest, rest ≠ [] ∧ components p = components root ++ rest ∧ .parentDir ∉ rest

/-! ## Names -/

theorem names_append_sep (a b : Text) : names (a ++ '/' :: b) = names a ++ names b := by
  simp only [names, List.splitOn_append_cons_self, List.filter_append]

@[simp] theorem names_nil : names [] = [] := rfl

@[simp] theorem names_sep_cons : names ('/' :: p) = names p := by
  simpa using names_append_sep [] p

@[simp] theorem names_concat_sep : names (p ++ ['/']) = names p := by
  simpa using names_append_sep p []

@[simp] theorem names_replicate_append (n : ℕ) (p : Text) :
    names (List.replicate n '/' ++ p) = names p := by
  induction n with
  | zero => simp
  | succ n ih => rw [List.replicate_succ, List.cons_append, names_sep_cons, ih]

@[simp] theorem names_append_replicate (n : ℕ) : names (p ++ List.replicate n '/') = names p := by
  induction n with
  | zero => simp
  | succ n ih => rw [List.replicate_succ', ← List.append_assoc, names_concat_sep, ih]

variable (base : Text) {p s : Text}

theorem names_of_not_mem (h : '/' ∉ s) : names s = if isName s then [s] else [] := by
  rw [names, List.splitOn_eq_singleton h, List.filter_singleton]
  simp [cond_eq_ite]

theorem names_eq_self (h : '/' ∉ s) (hs : isName s) : names s = [s] := by
  rw [names_of_not_mem h, if_pos hs]

theorem not_sep_mem_of_mem_splitOn (h : s ∈ p.splitOn '/') : '/' ∉ s := by
  induction p generalizing s with
  | nil => simp_all
  | cons c p ih =>
    rw [List.splitOn_cons_eq_if_modifyHead] at h
    split_ifs at h with hc
    · rcases List.mem_cons.mp h with rfl | h
      · simp
      · exact ih h
    · obtain ⟨head, tail, hsplit⟩ := List.exists_cons_of_ne_nil (List.splitOn_ne_nil '/' p)
      rw [hsplit, List.modifyHead_cons] at h
      rw [hsplit] at ih
      rcases List.mem_cons.mp h with rfl | h
      · have hhead : '/' ∉ head := ih (by simp)
        have hne : '/' ≠ c := fun he => hc (by simp [← he])
        simp [hhead, hne]
      · exact ih (by simp [h])

/-! ## Joining -/

theorem join_of_isAbsolute (h : isAbsolute p) : join base p = p := by
  simp [join, h]

theorem names_join (h : isAbsolute p = false) : names (join base p) = names base ++ names p := by
  unfold join
  rw [h, if_neg Bool.false_ne_true]
  split_ifs with hbase
  · rcases hbase with rfl | hlast
    · simp
    · obtain ⟨a, rfl⟩ := List.getLast?_eq_some_iff.mp hlast
      rw [names_concat_sep, List.append_assoc]
      exact names_append_sep a p
  · exact names_append_sep base p

theorem head_splitOn_append {a b : Text} (hb : a.getLast? = some '/' ∨ b.head? = some '/') :
    ((a ++ b).splitOn '/').head? = (a.splitOn '/').head? := by
  have key : ∀ x y : Text, ((x ++ '/' :: y).splitOn '/').head? = (x.splitOn '/').head? := by
    intro x y
    rw [List.splitOn_append_cons_self, List.head?_append_of_ne_nil _ (List.splitOn_ne_nil '/' x)]
  rcases hb with hlast | hhead
  · obtain ⟨x, rfl⟩ := List.getLast?_eq_some_iff.mp hlast
    rw [List.append_assoc, List.singleton_append, key x b, key x []]
  · obtain ⟨y, rfl⟩ := List.head?_eq_some_iff.mp hhead
    exact key a y

theorem start_join {base p : Text} (hbase : base ≠ []) (h : isAbsolute p = false) :
    start (join base p) = start base := by
  have hjoin : ∃ b, join base p = base ++ b ∧ (base.getLast? = some '/' ∨ b.head? = some '/') := by
    unfold join
    rw [h, if_neg Bool.false_ne_true]
    split_ifs with hb
    · exact ⟨p, rfl, .inl (hb.resolve_left hbase)⟩
    · exact ⟨'/' :: p, rfl, .inr rfl⟩
  obtain ⟨b, hb, hsep⟩ := hjoin
  have habs : isAbsolute (base ++ b) = isAbsolute base := by
    simp only [isAbsolute, List.head?_append_of_ne_nil _ hbase]
  rw [hb, start, start, habs, head_splitOn_append hsep]

theorem components_join (habs : isAbsolute p = false) (hdot : (p.splitOn '/').head? ≠ some ['.']) :
    components (join base p) = components base ++ (names p).map Component.ofName := by
  rcases eq_or_ne base [] with rfl | hbase
  · have hstart : start p = [] := by simp [start, habs, hdot]
    have hnil : components [] = [] := rfl
    have hjoin : join [] p = p := by simp [join, habs]
    rw [hjoin, components, hstart, hnil]
  · rw [components, start_join hbase habs, names_join base habs, List.map_append, components,
      List.append_assoc]

theorem components_join_name (hsep : '/' ∉ s) (hs : isName s) :
    components (join base s) = components base ++ [Component.ofName s] := by
  have habs : isAbsolute s = false := by
    cases s with
    | nil => rfl
    | cons c cs => simpa [isAbsolute] using fun h => hsep (by simp [h])
  have hdot : (s.splitOn '/').head? ≠ some ['.'] := by
    rw [List.splitOn_eq_singleton hsep]
    simp only [isName, decide_eq_true_eq] at hs
    simpa using hs.2
  rw [components_join base habs hdot, names_eq_self hsep hs]
  rfl

end FsPath

end Rns

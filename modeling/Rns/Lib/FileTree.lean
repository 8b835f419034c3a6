import Rns.Lib.Path

/-!
# File trees

A directory tree as a partial map from locations to nodes, in which the parent of everything that
exists is a directory.  An operation the operating system refuses gives `none`.
-/

namespace Rns

open FsPath

/-- A directory, or a file with its data. -/
inductive Node (α : Type*) where
  | dir
  | file (data : α)
  deriving DecidableEq

/-- A tree of directories and files. -/
structure FileTree (α : Type*) where
  node : Loc → Option (Node α)
  parent : ∀ l, l ≠ [] → (node l).isSome → node l.dropLast = some .dir

namespace FileTree

variable {α β : Type*} [DecidableEq α]

def isDir (t : FileTree α) (l : Loc) : Bool := t.node l = some .dir

omit [DecidableEq α] in
theorem node_of_prefix (t : FileTree α) {l m : Loc} (hm : (t.node m).isSome) (h : l <+: m)
    (hne : l ≠ m) : t.node l = some .dir := by
  induction m using List.reverseRecOn with
  | nil => exact absurd (List.prefix_nil.mp h) hne
  | append_singleton m c ih =>
    have hdir : t.node m = some .dir := by
      simpa using t.parent (m ++ [c]) (by simp) hm
    rcases List.prefix_concat_iff.mp h with rfl | hpre
    · exact absurd rfl hne
    · by_cases hl : l = m
      · rw [hl, hdir]
      · exact ih (by rw [hdir]; rfl) hpre hl

omit [DecidableEq α] in
theorem dir_of_prefix (t : FileTree α) {l m : Loc} (hm : t.node m = some .dir) (h : l <+: m) :
    t.node l = some .dir := by
  by_cases hl : l = m
  · rw [hl, hm]
  · exact t.node_of_prefix (by rw [hm]; rfl) h hl

theorem prefix_dropLast {l m : Loc} (h : l <+: m) (hne : l ≠ m) : l <+: m.dropLast := by
  obtain ⟨rest, rfl⟩ := h
  have hrest : rest ≠ [] := fun hrest => hne (by simp [hrest])
  rw [List.dropLast_append_of_ne_nil hrest]
  exact List.prefix_append l _

theorem not_prefix_dropLast {m : Loc} (h : m ≠ []) : ¬m <+: m.dropLast := by
  intro hpre
  have hle := hpre.length_le
  have hpos := List.length_pos_of_ne_nil h
  rw [List.length_dropLast] at hle
  omega

/-! ## Operations -/

/-- Set the node at `m`: its parent must be a directory, and `m` must not be one. -/
def put (t : FileTree α) (m : Loc) (n : Node α) : Option (FileTree α) :=
  if h : m ≠ [] ∧ t.node m.dropLast = some .dir ∧ t.node m ≠ some .dir then
    some {
      node := fun l => if l = m then some n else t.node l
      parent := by
        intro l hl hsome
        by_cases hlm : l = m
        · have hne : m.dropLast ≠ m := fun he => not_prefix_dropLast h.1 (by rw [he])
          rw [hlm, if_neg hne]
          exact h.2.1
        · rw [if_neg hlm] at hsome
          have hdir := t.parent l hl hsome
          have hne : l.dropLast ≠ m := fun he => h.2.2 (he ▸ hdir)
          rw [if_neg hne]
          exact hdir }
  else none

/-- `fs::write`. -/
def write (t : FileTree α) (m : Loc) (data : α) : Option (FileTree α) := t.put m (.file data)

/-- `fs::create_dir_all`: make every missing directory on the way to `m`. -/
def createDirAll (t : FileTree α) (m : Loc) : Option (FileTree α) :=
  if h : ∀ l ∈ m.inits, t.node l = none ∨ t.node l = some .dir then
    some {
      node := fun l => if l <+: m ∧ t.node l = none then some .dir else t.node l
      parent := by
        intro l hl hsome
        by_cases hpre : l.dropLast <+: m
        · rcases h l.dropLast ((List.mem_inits _ _).mpr hpre) with hnone | hdir
          · rw [if_pos ⟨hpre, hnone⟩]
          · rw [if_neg (by simp [hdir]), hdir]
        · have hnot : ¬l <+: m := fun hlm => hpre (l.dropLast_prefix.trans hlm)
          rw [if_neg (fun hc => hnot hc.1)] at hsome
          rw [if_neg (fun hc => hpre hc.1)]
          exact t.parent l hl hsome }
  else none

/-- `fs::remove_dir_all`. -/
def removeDirAll (t : FileTree α) (m : Loc) : Option (FileTree α) :=
  if t.isDir m then
    some {
      node := fun l => if m <+: l then none else t.node l
      parent := by
        intro l hl hsome
        by_cases hml : m <+: l
        · rw [if_pos hml] at hsome
          cases hsome
        · rw [if_neg hml] at hsome
          rw [if_neg (fun hc => hml (hc.trans l.dropLast_prefix))]
          exact t.parent l hl hsome }
  else none

/-- The tree below `m`, seen from there. -/
def subtree (t : FileTree α) (m : Loc) : FileTree α where
  node l := t.node (m ++ l)
  parent := by
    intro l hl hsome
    rw [← List.dropLast_append_of_ne_nil hl]
    exact t.parent (m ++ l) (by simp [hl]) hsome

/-- Replace what is below the directory `m`. -/
def graft (t : FileTree α) (m : Loc) (sub : FileTree α) : Option (FileTree α) :=
  if h : t.node m = some .dir ∧ sub.node [] = some .dir then
    some {
      node := fun l => if m <+: l then sub.node (l.drop m.length) else t.node l
      parent := by
        intro l hl hsome
        by_cases hml : m <+: l
        · obtain ⟨r, rfl⟩ := hml
          rw [if_pos (List.prefix_append m r), List.drop_left] at hsome
          rcases eq_or_ne r [] with rfl | hr
          · -- the parent of `m` itself is outside
            simp only [List.append_nil] at hl ⊢
            rw [if_neg (not_prefix_dropLast hl)]
            exact t.parent m hl (by rw [h.1]; rfl)
          · rw [List.dropLast_append_of_ne_nil hr, if_pos (List.prefix_append m _), List.drop_left]
            exact sub.parent r hr hsome
        · rw [if_neg hml] at hsome
          rw [if_neg (fun hc => hml (hc.trans l.dropLast_prefix))]
          exact t.parent l hl hsome }
  else none

end FileTree

end Rns

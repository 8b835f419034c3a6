import Rns.Lib.FileTree

/-!
# Programs over a file tree, and confinement

`FsM` is the monad of programs that read and change a file tree and may stop with a fault.  A program is
*confined* below a directory when it changes nothing that is not strictly below it and everything it
returns or writes depends only on what is strictly below it.
-/

namespace Rns

open FsPath

/-- Programs over a tree with file data `α`, faults `ε` and results `β`. -/
abbrev FsM (α ε β : Type) := ExceptT ε (StateM (FileTree α)) β

namespace FsM

variable {α ε β γ : Type} [DecidableEq α]

def exec (x : FsM α ε β) (t : FileTree α) : Except ε β × FileTree α := StateT.run (ExceptT.run x) t

def node (l : Loc) : FsM α ε (Option (Node α)) := do return (← get).node l

def attempt (op : FileTree α → Option (FileTree α)) : FsM α ε Bool := do
  match op (← get) with
  | some t => set t; return true
  | none => return false

omit [DecidableEq α] in
@[simp] theorem exec_pure (b : β) (t : FileTree α) : (pure b : FsM α ε β).exec t = (.ok b, t) := rfl

omit [DecidableEq α] in
@[simp] theorem exec_node (l : Loc) (t : FileTree α) :
    (node l : FsM α ε _).exec t = (.ok (t.node l), t) := rfl

omit [DecidableEq α] in
theorem exec_bind (x : FsM α ε β) (f : β → FsM α ε γ) (t : FileTree α) :
    (x >>= f).exec t = match x.exec t with
      | (.ok b, t') => (f b).exec t'
      | (.error e, t') => (.error e, t') := by
  change (match (StateT.run (ExceptT.run x) t) with
    | (b, t') => StateT.run (ExceptT.bindCont f b) t') = _
  rcases hx : x.exec t with ⟨_ | b, t'⟩ <;> simp only [exec] at hx <;> simp [hx] <;> rfl

omit [DecidableEq α] in
theorem exec_bind_eq_ok {x : FsM α ε β} {f : β → FsM α ε γ} {t t' : FileTree α} {c : γ} :
    (x >>= f).exec t = (.ok c, t') ↔ ∃ b s, x.exec t = (.ok b, s) ∧ (f b).exec s = (.ok c, t') := by
  rw [exec_bind]
  rcases x.exec t with ⟨e | b, s⟩ <;> simp

omit [DecidableEq α] in
theorem exec_attempt (op : FileTree α → Option (FileTree α)) (t : FileTree α) :
    (attempt op : FsM α ε Bool).exec t =
      match op t with
      | some t' => (.ok true, t')
      | none => (.ok false, t) := by
  change (StateT.run (ExceptT.run (match op t with
    | some t' => (do set t'; return true : FsM α ε Bool)
    | none => return false)) t) = _
  cases op t <;> rfl

/-- `Except` values as programs that touch nothing. -/
def ofExcept (x : Except ε β) : FsM α ε β := match x with
  | .ok b => pure b
  | .error e => throw e

omit [DecidableEq α] in
@[simp] theorem exec_ofExcept (x : Except ε β) (t : FileTree α) :
    (ofExcept x : FsM α ε β).exec t = (x, t) := by
  cases x <;> rfl

end FsM

/-! ## Confinement -/

/-- `l` is strictly below `root`. -/
def StrictlyBelow (root l : Loc) : Prop := root <+: l ∧ l ≠ root

/-- Two trees have the same nodes strictly below `root`. -/
def AgreeBelow {α : Type} (root : Loc) (t t' : FileTree α) : Prop :=
  ∀ l, StrictlyBelow root l → t.node l = t'.node l

/-- A program that works strictly below the directory `root`. -/
structure Confined {α ε β : Type} (root : Loc) (x : FsM α ε β) : Prop where
  /-- Result and writes depend only on what is below. -/
  local' : ∀ {t t' : FileTree α}, t.node root = some .dir → t'.node root = some .dir →
    AgreeBelow root t t' →
    (x.exec t).1 = (x.exec t').1 ∧ AgreeBelow root (x.exec t).2 (x.exec t').2
  /-- Nothing else changes. -/
  frame : ∀ {t : FileTree α}, t.node root = some .dir →
    ∀ l, ¬StrictlyBelow root l → (x.exec t).2.node l = t.node l

variable {t t' : FileTree α} {m : Loc} {l : Loc}

namespace Confined

variable {α ε β γ : Type} {root : Loc}

theorem not_strictlyBelow_self (root : Loc) : ¬StrictlyBelow root root := fun h => h.2 rfl

theorem root_dir {x : FsM α ε β} (hx : Confined root x) {t : FileTree α}
    (h : t.node root = some .dir) : (x.exec t).2.node root = some .dir := by
  rw [hx.frame h root (not_strictlyBelow_self root), h]

theorem of_result {x : FsM α ε β} (r : Except ε β) (hx : ∀ t, x.exec t = (r, t)) :
    Confined root x where
  local' _ _ hagree := by simpa [hx] using hagree
  frame _ l _ := by rw [hx]

theorem pure (b : β) : Confined root (Pure.pure b : FsM α ε β) := of_result (.ok b) fun _ => rfl

theorem throw (e : ε) : Confined root (MonadExcept.throw e : FsM α ε β) :=
  of_result (.error e) fun _ => rfl

theorem ofExcept (x : Except ε β) : Confined root (FsM.ofExcept x : FsM α ε β) :=
  of_result x fun t => FsM.exec_ofExcept x t

theorem bind {x : FsM α ε β} {f : β → FsM α ε γ} (hx : Confined root x)
    (hf : ∀ b, Confined root (f b)) : Confined root (x >>= f) where
  local' := by
    intro t t' hdir hdir' hagree
    obtain ⟨hres, hagree₁⟩ := hx.local' hdir hdir' hagree
    have hd := hx.root_dir hdir
    have hd' := hx.root_dir hdir'
    rw [FsM.exec_bind, FsM.exec_bind]
    rcases h : x.exec t with ⟨r, t₁⟩
    rcases h' : x.exec t' with ⟨r', t₁'⟩
    rw [h] at hres hagree₁ hd
    rw [h'] at hres hagree₁ hd'
    obtain rfl : r = r' := hres
    cases r with
    | error e => exact ⟨rfl, hagree₁⟩
    | ok b => exact (hf b).local' hd hd' hagree₁
  frame := by
    intro t hdir l hl
    have hframe := hx.frame hdir l hl
    have hd := hx.root_dir hdir
    rw [FsM.exec_bind]
    rcases h : x.exec t with ⟨_ | b, t₁⟩
    · rw [h] at hframe
      exact hframe
    · rw [h] at hframe hd
      exact ((hf b).frame hd l hl).trans hframe

theorem congr {x y : FsM α ε β} (h : ∀ t, x.exec t = y.exec t) (hy : Confined root y) :
    Confined root x where
  local' := by
    intro t t' hdir hdir' hagree
    rw [h, h]
    exact hy.local' hdir hdir' hagree
  frame := by
    intro t hdir l hl
    rw [h]
    exact hy.frame hdir l hl

theorem node (h : StrictlyBelow root l) : Confined root (FsM.node l : FsM α ε _) where
  local' _ _ hagree := by simpa [hagree l h] using hagree
  frame _ _ _ := rfl

end Confined

/-- An operation on trees that works strictly below `root`. -/
structure ConfinedOp {α : Type} (root : Loc) (op : FileTree α → Option (FileTree α)) : Prop where
  local' : ∀ {t t' : FileTree α}, t.node root = some .dir → t'.node root = some .dir →
    AgreeBelow root t t' →
    (op t = none ∧ op t' = none) ∨
      ∃ s s', op t = some s ∧ op t' = some s' ∧ AgreeBelow root s s'
  frame : ∀ {t s : FileTree α}, t.node root = some .dir → op t = some s →
    ∀ l, ¬StrictlyBelow root l → s.node l = t.node l

theorem Confined.attempt {α ε : Type} {root : Loc} {op : FileTree α → Option (FileTree α)}
    (h : ConfinedOp root op) : Confined root (FsM.attempt op : FsM α ε Bool) where
  local' := by
    intro t t' hdir hdir' hagree
    rw [FsM.exec_attempt, FsM.exec_attempt]
    rcases h.local' hdir hdir' hagree with ⟨hn, hn'⟩ | ⟨s, s', hs, hs', hss⟩
    · rw [hn, hn']
      exact ⟨rfl, hagree⟩
    · rw [hs, hs']
      exact ⟨rfl, hss⟩
  frame := by
    intro t hdir l hl
    rw [FsM.exec_attempt]
    rcases hs : op t with _ | s
    · rfl
    · exact h.frame hdir hs l hl

/-! ## The operations on trees -/

namespace FileTree

variable {α : Type} [DecidableEq α]

omit [DecidableEq α] in
@[ext] theorem ext (h : ∀ l, t.node l = t'.node l) : t = t' := by
  rcases t with ⟨node, parent⟩
  rcases t' with ⟨node', parent'⟩
  obtain rfl : node = node' := funext h
  rfl

theorem put_eq_some {t s : FileTree α} {n : Node α} :
    t.put m n = some s ↔
      (m ≠ [] ∧ t.node m.dropLast = some .dir ∧ t.node m ≠ some .dir) ∧
        ∀ l, s.node l = if l = m then some n else t.node l := by
  unfold put
  split_ifs with h
  · simp only [Option.some.injEq, ne_eq, h, not_false_eq_true, and_self, true_and]
    exact ⟨fun hs l => hs ▸ rfl, fun hs => ext fun l => (hs l).symm⟩
  · simp only [h, false_and]

theorem createDirAll_eq_some {t s : FileTree α} :
    t.createDirAll m = some s ↔
      (∀ l, l <+: m → t.node l = none ∨ t.node l = some .dir) ∧
        ∀ l, s.node l = if l <+: m ∧ t.node l = none then some .dir else t.node l := by
  unfold createDirAll
  split_ifs with h
  · simp only [List.mem_inits] at h
    simp only [Option.some.injEq]
    exact ⟨fun hs => ⟨h, fun l => hs ▸ rfl⟩, fun hs => ext fun l => (hs.2 l).symm⟩
  · simp only [List.mem_inits] at h
    exact ⟨fun hs => (nomatch hs), fun hs => absurd hs.1 h⟩

theorem removeDirAll_eq_some {t s : FileTree α} :
    t.removeDirAll m = some s ↔
      t.node m = some .dir ∧ ∀ l, s.node l = if m <+: l then none else t.node l := by
  unfold removeDirAll isDir
  simp only [decide_eq_true_eq]
  split_ifs with h
  · simp only [Option.some.injEq, h, true_and]
    exact ⟨fun hs l => hs ▸ rfl, fun hs => ext fun l => (hs l).symm⟩
  · simp only [h, false_and]

theorem graft_eq_some {t s sub : FileTree α} :
    t.graft m sub = some s ↔
      (t.node m = some .dir ∧ sub.node [] = some .dir) ∧
        ∀ l, s.node l = if m <+: l then sub.node (l.drop m.length) else t.node l := by
  unfold graft
  split_ifs with h
  · simp only [Option.some.injEq, h, true_and, and_self]
    exact ⟨fun hs l => hs ▸ rfl, fun hs => ext fun l => (hs l).symm⟩
  · simp only [h, false_and]

end FileTree

namespace ConfinedOp

variable {α : Type} [DecidableEq α] {root m : Loc}

omit [DecidableEq α] in
theorem agree_at (hdir : t.node root = some .dir) (hdir' : t'.node root = some .dir)
    (hagree : AgreeBelow root t t') (h : root <+: l) : t.node l = t'.node l := by
  by_cases hl : l = root
  · rw [hl, hdir, hdir']
  · exact hagree l ⟨h, hl⟩

omit [DecidableEq α] in
theorem of_spec {op : FileTree α → Option (FileTree α)} {pre : FileTree α → Prop}
    {post : FileTree α → Loc → Option (Node α)}
    (hop : ∀ t s, op t = some s ↔ pre t ∧ ∀ l, s.node l = post t l)
    (hsome : ∀ t, pre t → ∃ s, op t = some s)
    (hpre : ∀ {t t'}, t.node root = some .dir → t'.node root = some .dir → AgreeBelow root t t' →
      (pre t → pre t'))
    (hpost : ∀ {t t'}, t.node root = some .dir → t'.node root = some .dir → AgreeBelow root t t' →
      ∀ l, StrictlyBelow root l → post t l = post t' l)
    (hframe : ∀ {t}, t.node root = some .dir → pre t → ∀ l, ¬StrictlyBelow root l →
      post t l = t.node l) : ConfinedOp root op where
  local' := by
    intro t t' hdir hdir' hagree
    have hagree' : AgreeBelow root t' t := fun l hl => (hagree l hl).symm
    by_cases h : pre t
    · obtain ⟨s, hs⟩ := hsome t h
      obtain ⟨s', hs'⟩ := hsome t' (hpre hdir hdir' hagree h)
      refine .inr ⟨s, s', hs, hs', fun l hl => ?_⟩
      rw [((hop t s).mp hs).2 l, ((hop t' s').mp hs').2 l, hpost hdir hdir' hagree l hl]
    · have hnone : ∀ u, ¬pre u → op u = none := fun u hu =>
        Option.eq_none_iff_forall_ne_some.mpr fun s hs => hu ((hop u s).mp hs).1
      exact .inl ⟨hnone t h, hnone t' fun h' => h (hpre hdir' hdir hagree' h')⟩
  frame := by
    intro t s hdir hs l hl
    obtain ⟨hp, hnode⟩ := (hop t s).mp hs
    rw [hnode l, hframe hdir hp l hl]

theorem createDirAll (h : root <+: m) :
    ConfinedOp root (fun t : FileTree α => t.createDirAll m) := by
  -- a location on the way to `m` is at or below the root, or on the way to the root
  have hcases : ∀ l, l <+: m → root <+: l ∨ l <+: root := fun l hl =>
    (List.prefix_or_prefix_of_prefix hl h).symm
  have hup : ∀ {t : FileTree α}, t.node root = some .dir → ∀ l, l <+: root →
      t.node l = some .dir := by
    intro t hdir l hl
    by_cases he : l = root
    · rw [he, hdir]
    · exact t.node_of_prefix (by rw [hdir]; rfl) hl he
  refine of_spec (fun t s => FileTree.createDirAll_eq_some) (fun t hp => ?_) ?_ ?_ ?_
  · rw [FileTree.createDirAll, dif_pos (by simpa only [List.mem_inits] using hp)]
    exact ⟨_, rfl⟩
  · intro t t' hdir hdir' hagree hp l hl
    rcases hcases l hl with hr | hr
    · rw [← agree_at hdir hdir' hagree hr]
      exact hp l hl
    · exact .inr (hup hdir' l hr)
  · intro t t' hdir hdir' hagree l hl
    rw [hagree l hl]
  · intro t hdir hp l hl
    refine if_neg fun ⟨hlm, hnone⟩ => ?_
    rcases hcases l hlm with hr | hr
    · have he : l = root := by_contra fun hne => hl ⟨hr, hne⟩
      simp [he, hdir] at hnone
    · simp [hup hdir l hr] at hnone

theorem prefix_strictlyBelow (h : StrictlyBelow root m) (hl : m <+: l) : StrictlyBelow root l := by
  refine ⟨h.1.trans hl, fun he => h.2 ?_⟩
  exact (h.1.eq_of_length_le (he ▸ hl).length_le).symm

theorem removeDirAll (h : StrictlyBelow root m) :
    ConfinedOp root (fun t : FileTree α => t.removeDirAll m) := by
  refine of_spec (fun t s => FileTree.removeDirAll_eq_some) (fun t hp => ?_) ?_ ?_ ?_
  · rw [FileTree.removeDirAll, if_pos (by simpa [FileTree.isDir] using hp)]
    exact ⟨_, rfl⟩
  · intro t t' _ _ hagree hp
    rw [← hagree m h]
    exact hp
  · intro t t' _ _ hagree l hl
    rw [hagree l hl]
  · intro t _ _ l hl
    exact if_neg fun hm => hl (prefix_strictlyBelow h hm)

end ConfinedOp

namespace FsM

variable {α ε β : Type} [DecidableEq α]

def subtree (m : Loc) : FsM α ε (FileTree α) := do return (← get).subtree m

/-- Let a program that only sees the directory `m` work in it; `none` when `m` is not one. -/
def within (m : Loc) (f : FileTree α → β × FileTree α) : FsM α ε (Option β) := do
  let (b, sub) := f (← subtree m)
  if ← attempt (fun t => t.graft m sub) then return some b else return none

theorem exec_within (m : Loc) (f : FileTree α → β × FileTree α) (t : FileTree α) :
    (within m f : FsM α ε (Option β)).exec t =
      match t.graft m (f (t.subtree m)).2 with
      | some t' => (.ok (some (f (t.subtree m)).1), t')
      | none => (.ok none, t) := by
  have hsub : (subtree m : FsM α ε _).exec t = (.ok (t.subtree m), t) := rfl
  rw [within, exec_bind, hsub]
  dsimp only
  rw [exec_bind, exec_attempt]
  cases t.graft m (f (t.subtree m)).2 <;> rfl

end FsM

namespace Confined

variable {α ε β : Type} [DecidableEq α] {root m : Loc}

omit [DecidableEq α] in
theorem subtree_eq (h : StrictlyBelow root m) (hagree : AgreeBelow root t t') :
    t.subtree m = t'.subtree m :=
  FileTree.ext fun l => hagree (m ++ l) (ConfinedOp.prefix_strictlyBelow h (List.prefix_append m l))

omit [DecidableEq α] in
theorem subtree (h : StrictlyBelow root m) : Confined root (FsM.subtree m : FsM α ε _) where
  local' _ _ hagree := by
    refine ⟨?_, hagree⟩
    exact congrArg Except.ok (subtree_eq h hagree)
  frame _ _ _ := rfl

theorem graft (h : StrictlyBelow root m) (sub : FileTree α) :
    ConfinedOp root (fun t : FileTree α => t.graft m sub) := by
  refine ConfinedOp.of_spec (fun t s => FileTree.graft_eq_some) (fun t hp => ?_) ?_ ?_ ?_
  · rw [FileTree.graft, dif_pos hp]
    exact ⟨_, rfl⟩
  · intro t t' _ _ hagree hp
    rw [← hagree m h]
    exact hp
  · intro t t' _ _ hagree l hl
    rw [hagree l hl]
  · intro t _ _ l hl
    exact if_neg fun hm => hl (ConfinedOp.prefix_strictlyBelow h hm)

theorem within (h : StrictlyBelow root m) (f : FileTree α → β × FileTree α) :
    Confined root (FsM.within m f : FsM α ε _) := by
  refine (subtree h).bind fun t => (Confined.attempt (graft h _)).bind fun done => ?_
  split_ifs
  · exact Confined.pure _
  · exact Confined.pure _

end Confined

end Rns

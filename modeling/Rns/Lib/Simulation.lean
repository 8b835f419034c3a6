import Rns.Lib.Machine

/-!
# One machine followed by another

A machine is followed by a more abstract one if each of its steps amounts to a run of the other.  Runs
are then followed by runs, and conditions, outputs and occurrences carry over.
-/

namespace Rns

namespace Machine

variable {σ ι ο σ' ι' ο' : Type*} (M : Machine σ ι ο)

theorem run_append_snd (s : σ) (es es' : List ι) :
    (M.run s (es ++ es')).2 = (M.run s es).2 ++ (M.run (M.run s es).1 es').2 := by
  induction es generalizing s with
  | nil => rfl
  | cons e es ih =>
    simp only [List.cons_append, run, ih, List.append_assoc]

theorem run_append_eq (s : σ) (es es' : List ι) : M.run s (es ++ es') =
    ((M.run (M.run s es).1 es').1, (M.run s es).2 ++ (M.run (M.run s es).1 es').2) :=
  Prod.ext (run_append ..) (run_append_snd ..)

/-- The machine that takes its events in chunks. -/
def inChunks : Machine σ (List ι) ο where
  step := M.run

theorem run_inChunks (s : σ) (chunks : List (List ι)) :
    M.inChunks.run s chunks = M.run s chunks.flatten := by
  induction chunks generalizing s with
  | nil => rfl
  | cons chunk chunks ih =>
    rw [List.flatten_cons, run, ih, run_append_eq]
    rfl

def Occurs (M : Machine σ ι ο) (p : σ → ι → Prop) (s : σ) : List ι → Prop
  | [] => False
  | e :: es => p s e ∨ Occurs M p (M.step s e).1 es

instance Occurs.decidable (M : Machine σ ι ο) (p : σ → ι → Prop) [∀ s e, Decidable (p s e)] :
    ∀ s es, Decidable (M.Occurs p s es)
  | _, [] => .isFalse id
  | s, e :: es =>
    have := Occurs.decidable M p (M.step s e).1 es
    inferInstanceAs (Decidable (p s e ∨ M.Occurs p (M.step s e).1 es))

theorem occurs_append (p : σ → ι → Prop) (s : σ) (es es' : List ι) :
    M.Occurs p s (es ++ es') ↔ M.Occurs p s es ∨ M.Occurs p (M.run s es).1 es' := by
  induction es generalizing s with
  | nil => simp [Occurs, run]
  | cons e es ih => rw [List.cons_append, Occurs, ih, Occurs, run_cons, or_assoc]

variable (N : Machine σ' ι' ο')

def trace (amounts : σ → ι → List ι') (s : σ) : List ι → List ι'
  | [] => []
  | e :: es => amounts s e ++ trace amounts (M.step s e).1 es

theorem trace_eq_flatMap (f : ι → List ι') (s : σ) (es : List ι) :
    M.trace (fun _ e => f e) s es = es.flatMap f := by
  induction es generalizing s with
  | nil => rfl
  | cons e es ih => rw [trace, ih, List.flatMap_cons]

/-- In the states where the condition holds, a step amounts to a run of the other machine, which
shows its outputs. -/
structure Follows (view : σ → σ') (amounts : σ → ι → List ι') (shows : ο' → ο)
    (ok : σ → ι → Prop) : Prop where
  state : ∀ s e, ok s e → view (M.step s e).1 = (N.run (view s) (amounts s e)).1
  output : ∀ s e, ok s e → ∀ o ∈ (N.run (view s) (amounts s e)).2, shows o ∈ (M.step s e).2

namespace Follows

variable {M N} {view : σ → σ'} {amounts : σ → ι → List ι'} {shows : ο' → ο} {ok : σ → ι → Prop}
  (h : M.Follows N view amounts shows ok) {past : List ι} {s : σ} {es : List ι}

include h

theorem run_state (hes : M.Meets (fun _ s e => ok s e) past s es) :
    view (M.run s es).1 = (N.run (view s) (M.trace amounts s es)).1 := by
  induction es generalizing past s with
  | nil => rfl
  | cons e es ih => rw [run_cons, ih hes.2, h.state s e hes.1, trace, run_append]

theorem run_output (hes : M.Meets (fun _ s e => ok s e) past s es) {o : ο'}
    (ho : o ∈ (N.run (view s) (M.trace amounts s es)).2) : shows o ∈ (M.run s es).2 := by
  induction es generalizing past s with
  | nil => cases ho
  | cons e es ih =>
    rw [trace, run_append_snd, List.mem_append, ← h.state s e hes.1] at ho
    rcases ho with ho | ho
    · exact List.mem_append_left _ (h.output s e hes.1 o ho)
    · exact List.mem_append_right _ (ih hes.2 ho)

theorem occurs {p : σ' → ι' → Prop} (hes : M.Meets (fun _ s e => ok s e) past s es)
    (hp : N.Occurs p (view s) (M.trace amounts s es)) :
    M.Occurs (fun s e => N.Occurs p (view s) (amounts s e)) s es := by
  induction es generalizing past s with
  | nil => exact hp
  | cons e es ih =>
    rw [trace, occurs_append, ← h.state s e hes.1] at hp
    exact hp.imp id (ih hes.2)

theorem meets_trace {good : σ' → ι' → Prop} {past' : List ι'} (hes : M.Meets (fun _ s e => ok s e ∧
      N.Meets (fun _ s e => good s e) [] (view s) (amounts s e)) past s es) :
    N.Meets (fun _ s e => good s e) past' (view s) (M.trace amounts s es) := by
  induction es generalizing past past' s with
  | nil => trivial
  | cons e es ih =>
    rw [trace, meets_append, ← h.state s e hes.1.1]
    exact ⟨hes.1.2.change_past past', ih hes.2⟩

theorem comp {σ'' ι'' ο'' : Type*} {O : Machine σ'' ι'' ο''} {view' : σ' → σ''}
    {amounts' : σ' → ι' → List ι''} {shows' : ο'' → ο'} {ok' : σ' → ι' → Prop}
    (h' : N.Follows O view' amounts' shows' ok') :
    M.Follows O (fun s => view' (view s)) (fun s e => N.trace amounts' (view s) (amounts s e))
      (fun o => shows (shows' o))
      (fun s e => ok s e ∧ N.Meets (fun _ s e => ok' s e) [] (view s) (amounts s e)) where
  state s e hok := by rw [h.state s e hok.1, h'.run_state hok.2]
  output s e hok o ho := h.output s e hok.1 (shows' o) (h'.run_output hok.2 ho)

end Follows

end Machine

end Rns

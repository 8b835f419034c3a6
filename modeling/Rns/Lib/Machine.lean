import Mathlib.Data.List.Basic

/-!
# Machines that react to events

A machine takes one event at a time, changes its state and answers with outputs.  Statements about
whole runs come from one rule: what every admissible step keeps holds after every admissible run.
-/

namespace Rns

/-- A deterministic system with outputs; what the environment decides is part of the event. -/
structure Machine (σ ι ο : Type*) where
  step : σ → ι → σ × List ο

namespace Machine

variable {σ ι ο : Type*} (M : Machine σ ι ο)

def run (s : σ) : List ι → σ × List ο
  | [] => (s, [])
  | e :: es => ((run (M.step s e).1 es).1, (M.step s e).2 ++ (run (M.step s e).1 es).2)

theorem run_cons (s : σ) (e : ι) (es : List ι) :
    (M.run s (e :: es)).1 = (M.run (M.step s e).1 es).1 :=
  rfl

theorem run_append (s : σ) (es es' : List ι) :
    (M.run s (es ++ es')).1 = (M.run (M.run s es).1 es').1 := by
  induction es generalizing s with
  | nil => rfl
  | cons e es ih => exact ih (M.step s e).1

/-- Every step of the run meets a condition on the events before it, the state before it and its
own event. -/
def Meets (ok : List ι → σ → ι → Prop) (past : List ι) (s : σ) : List ι → Prop
  | [] => True
  | e :: es => ok past s e ∧ Meets ok (past ++ [e]) (M.step s e).1 es

instance Meets.decidable (ok : List ι → σ → ι → Prop) [∀ past s e, Decidable (ok past s e)] :
    ∀ past s es, Decidable (M.Meets ok past s es)
  | _, _, [] => .isTrue trivial
  | past, s, e :: es =>
    have := Meets.decidable ok (past ++ [e]) (M.step s e).1 es
    inferInstanceAs (Decidable (ok past s e ∧ M.Meets ok (past ++ [e]) (M.step s e).1 es))

section

variable {M} {ok ok' : List ι → σ → ι → Prop} {past : List ι} {s : σ} {es : List ι}

theorem Meets.imp (h : M.Meets ok past s es) (himp : ∀ past s e, ok past s e → ok' past s e) :
    M.Meets ok' past s es := by
  induction es generalizing past s with
  | nil => trivial
  | cons e es ih => exact ⟨himp past s e h.1, ih h.2⟩

theorem Meets.and (h : M.Meets ok past s es) (h' : M.Meets ok' past s es) :
    M.Meets (fun past s e => ok past s e ∧ ok' past s e) past s es := by
  induction es generalizing past s with
  | nil => trivial
  | cons e es ih => exact ⟨⟨h.1, h'.1⟩, ih h.2 h'.2⟩

theorem Meets.of_forall {ok : ι → Prop} (h : ∀ e ∈ es, ok e) :
    M.Meets (fun _ _ e => ok e) past s es := by
  induction es generalizing past s with
  | nil => trivial
  | cons e es ih => exact ⟨h e (by simp), ih fun e' he' => h e' (by simp [he'])⟩

theorem Meets.change_past {ok : σ → ι → Prop} (h : M.Meets (fun _ s e => ok s e) past s es)
    (past' : List ι) : M.Meets (fun _ s e => ok s e) past' s es := by
  induction es generalizing past past' s with
  | nil => trivial
  | cons e es ih => exact ⟨h.1, ih h.2 _⟩

theorem Meets.of_split {ok : List ι → ι → Prop}
    (h : ∀ pre e post, es = pre ++ e :: post → ok (past ++ pre) e) :
    M.Meets (fun past _ e => ok past e) past s es := by
  induction es generalizing past s with
  | nil => trivial
  | cons e es ih =>
    refine ⟨?_, ih fun pre e' post heq => ?_⟩
    · simpa using h [] e es rfl
    · simpa using h (e :: pre) e' post (by rw [heq]; rfl)

end

variable {ok : List ι → σ → ι → Prop} {past : List ι} {s : σ} {es : List ι}

theorem meets_congr {ok' : List ι → σ → ι → Prop} (h : ∀ past s e, ok past s e ↔ ok' past s e)
    (past : List ι) (s : σ) (es : List ι) : M.Meets ok past s es ↔ M.Meets ok' past s es := by
  induction es generalizing past s with
  | nil => rfl
  | cons e es ih => exact and_congr (h past s e) (ih (past ++ [e]) (M.step s e).1)

theorem meets_append {es' : List ι} : M.Meets ok past s (es ++ es') ↔
      M.Meets ok past s es ∧ M.Meets ok (past ++ es) (M.run s es).1 es' := by
  induction es generalizing past s with
  | nil => simp [Meets, run]
  | cons e es ih =>
    simp only [List.cons_append, Meets, ih, run_cons, and_assoc, List.append_assoc, List.nil_append]

theorem run_invariant {I : List ι → σ → List ο → Prop}
    (hstep : ∀ past s out e, I past s out → ok past s e →
      I (past ++ [e]) (M.step s e).1 (out ++ (M.step s e).2))
    {out : List ο} (h : I past s out) (hes : M.Meets ok past s es) :
    I (past ++ es) (M.run s es).1 (out ++ (M.run s es).2) := by
  induction es generalizing past s out with
  | nil => simpa [run] using h
  | cons e es ih =>
    have hrest := ih (hstep past s out e h hes.1) hes.2
    rwa [List.append_assoc, List.append_assoc] at hrest

theorem run_keeps {I : σ → Prop} (hstep : ∀ past s e, I s → ok past s e → I (M.step s e).1)
    (h : I s) (hes : M.Meets ok past s es) : I (M.run s es).1 := by
  induction es generalizing past s with
  | nil => exact h
  | cons e es ih => exact ih (hstep past s e h hes.1) hes.2

/-- A property of steps that follows from an invariant of admissible runs holds at every step of an
admissible run. -/
theorem Meets.of_invariant {good : List ι → σ → ι → Prop} {I : List ι → σ → Prop}
    (hstep : ∀ past s e, I past s → ok past s e → I (past ++ [e]) (M.step s e).1)
    (hgood : ∀ past s e, I past s → ok past s e → good past s e) (h : I past s)
    (hes : M.Meets ok past s es) : M.Meets good past s es := by
  induction es generalizing past s with
  | nil => trivial
  | cons e es ih => exact ⟨hgood past s e h hes.1, ih (hstep past s e h hes.1) hes.2⟩

/-- Where a condition on each step decides a property of the step in every state of an invariant,
and keeps the invariant, it decides the property along the whole run; what is given at each step may
be used. -/
theorem meets_iff_of_given {given good ok : σ → ι → Prop} {I : σ → Prop}
    (hgood : ∀ s e, I s → given s e → (good s e ↔ ok s e))
    (hkeep : ∀ s e, I s → given s e → ok s e → I (M.step s e).1) (h : I s) (past : List ι)
    (hgiven : M.Meets (fun _ s e => given s e) past s es) :
    M.Meets (fun _ s e => good s e) past s es ↔ M.Meets (fun _ s e => ok s e) past s es := by
  induction es generalizing past s with
  | nil => rfl
  | cons e es ih =>
    refine ⟨fun hall => ?_, fun hall => ?_⟩
    · have hok := (hgood s e h hgiven.1).1 hall.1
      exact ⟨hok, (ih (hkeep s e h hgiven.1 hok) _ hgiven.2).1 hall.2⟩
    · exact ⟨(hgood s e h hgiven.1).2 hall.1,
        (ih (hkeep s e h hgiven.1 hall.1) _ hgiven.2).2 hall.2⟩

theorem meets_iff_of_invariant {good ok : σ → ι → Prop} {I : σ → Prop}
    (hgood : ∀ s e, I s → (good s e ↔ ok s e)) (hkeep : ∀ s e, I s → ok s e → I (M.step s e).1)
    (h : I s) (past : List ι) (es : List ι) :
    M.Meets (fun _ s e => good s e) past s es ↔ M.Meets (fun _ s e => ok s e) past s es := by
  have hgiven : M.Meets (fun _ _ _ => True) past s es := .of_forall fun _ _ => trivial
  exact M.meets_iff_of_given (fun s e hI _ => hgood s e hI) (fun s e hI _ => hkeep s e hI) h past
    hgiven

end Machine

end Rns

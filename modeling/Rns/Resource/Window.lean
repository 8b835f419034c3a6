import Rns.Lib.Machine
import Rns.Resource.Basic

/-!
# Runs of the resource window

The window of a transfer moves between a minimum and a maximum that move with it.  Only the limit of
a very slow link is set without a look at the window.
-/

namespace Rns.WindowState

inductive Op where
  | windowComplete
  | timeout
  | reqRespRate (rate : ℚ)
  | dataRate (rate : ℚ)

def machine : Machine WindowState Op Empty where
  step w
    | .windowComplete => (w.onWindowComplete, [])
    | .timeout => (w.onTimeout, [])
    | .reqRespRate rate => (w.updateReqRespRate rate, [])
    | .dataRate rate => (w.updateDataRate rate, [])

structure InBounds (w : WindowState) : Prop where
  windowMin : w.windowMin ≤ w.window
  window : w.window ≤ w.windowMax
  windowMax : w.windowMax ≤ Resource.windowMax
  pos : 1 ≤ w.window

/-- The sums and differences of an operation fit their words. -/
def Exact (w : WindowState) : Op → Prop
  | .windowComplete => w.window < w.windowMax → w.window + 1 < 2 ^ 63 ∧ w.windowMin + 1 < 2 ^ 63
  | .timeout => w.windowMin < w.window → 1 ≤ w.window ∧ (w.windowMin < w.windowMax → 1 ≤ w.windowMax ∧
      ((w.windowMax - 1 : ℤ) - (w.window - 1) > w.windowFlexibility - 1 → 2 ≤ w.windowMax))
  | .reqRespRate _ | .dataRate _ => w.fastRateRounds + 1 < 2 ^ 64 ∧ w.verySlowRateRounds + 1 < 2 ^ 64

/-- The second very slow round finds a window within the limit it sets. -/
def SlowFits (w : WindowState) : Op → Prop
  | .dataRate rate => rate < 250 → w.fastRateRounds = 0 → w.verySlowRateRounds = 1 → w.window ≤ 4
  | _ => True

structure Regular (w : WindowState) : Prop where
  pos : 1 ≤ w.windowMin
  windowMin : w.windowMin ≤ w.window
  window : w.window ≤ w.windowMax
  windowMax : w.windowMax ≤ Resource.windowMax
  flexibility : w.windowFlexibility = 4
  fast : w.fastRateRounds ≤ 4
  verySlow : w.verySlowRateRounds ≤ 2

variable {w : WindowState}

theorem updateReqRespRate_slow {rate : ℚ} (h : rate < 250) : w.updateReqRespRate rate = w :=
  if_neg fun hfast => absurd (h.trans (by norm_num)) hfast.1.not_gt

theorem Regular.step (h : w.Regular) {op : Op} (hfits : w.SlowFits op) :
    (machine.step w op).1.Regular := by
  obtain ⟨hpos, hmin, hwindow, hmax, hflex, hfast, hslow⟩ := h
  have hlimit : Resource.windowMax = 75 := rfl
  cases op with
  | dataRate rate =>
    by_cases hrate : rate < 250
    · simp only [machine, updateDataRate, updateReqRespRate_slow hrate]
      have := hfits hrate
      split_ifs <;> constructor <;> grind
    · simp only [machine, updateDataRate, hrate, false_and, and_false, if_false, updateReqRespRate]
      split_ifs <;> constructor <;> grind
  | windowComplete | timeout | reqRespRate rate =>
    simp only [machine, onWindowComplete, onTimeout, updateReqRespRate]
    split_ifs <;> constructor <;> grind

theorem Regular.exact (h : w.Regular) (op : Op) : w.Exact op := by
  obtain ⟨-, hmin, hwindow, hmax, hflex, hfast, hslow⟩ := h
  have hmax : w.windowMax ≤ 75 := hmax
  cases op <;> simp only [Exact] <;> omega

/-- Along any run of operations the window stays within its bounds and the arithmetic exact if and
only if no second very slow round finds a larger window than the limit it sets. -/
theorem window_in_bounds_iff (ops : List Op) :
    machine.Meets (fun _ w op => w.Exact op ∧ (machine.step w op).1.InBounds) [] new ops ↔
      machine.Meets (fun _ w op => w.SlowFits op) [] new ops := by
  refine machine.meets_iff_of_invariant (I := Regular) (fun w op h => ⟨fun hgood => ?_, fun hfits => ?_⟩)
    (fun w op h hfits => h.step hfits) (by constructor <;> decide) [] ops
  · cases op with
    | dataRate rate =>
      intro hrate hfast hslow
      simpa [machine, updateDataRate, updateReqRespRate_slow hrate, hrate, hfast, hslow]
        using hgood.2.window
    | windowComplete | timeout | reqRespRate rate => trivial
  · have hstep := h.step hfits
    exact ⟨h.exact op, hstep.windowMin, hstep.window, hstep.windowMax, hstep.pos.trans hstep.windowMin⟩

/-- Six rounds of growth, then two very slow ones. -/
theorem window_exceeds_slow_limit :
    (machine.run new (.replicate 6 .windowComplete ++ .replicate 2 (.dataRate 100))).1 =
      ⟨10, 4, 7, 4, 0, 2⟩ := by
  decide +kernel

end Rns.WindowState

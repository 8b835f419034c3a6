import Rns.Channel.Runs

/-!
# The window of a channel

The window bounds the messages that are not acknowledged.  The lower limit only holds back timeouts: a
faster link raises it over the window, which then grows up to it.
-/

namespace Rns

open UInt16 (le_refl le_trans toNat_sub ofNat)

namespace Channel

/-- The limits of the window, and the messages sent within them. -/
structure Flow (c : Channel) : Prop where
  windowMin_mem : c.windowMin ∈ [1, 2, 5, 16]
  windowMin_le : c.windowMin ≤ c.windowMax
  windowMax_le : c.windowMax ≤ 48
  window_pos : 1 ≤ c.window
  window_le : c.window ≤ c.windowMax
  undelivered : ∀ e ∈ c.txRing, e.delivered = false
  length_le : c.txRing.length ≤ 48

theorem flow_new (initialRtt : ℚ) : (new initialRtt).Flow ∧
    (new initialRtt).windowMin ≤ (new initialRtt).window := by
  unfold new
  split_ifs <;> exact ⟨⟨by simp, by simp, by simp, by simp, by simp, nofun, by simp⟩, by simp⟩

section Step

variable {c c' : Channel}

theorem Flow.windowMin_pos (h : c.Flow) : 1 ≤ c.windowMin := by
  have hmem := h.windowMin_mem
  simp only [List.mem_cons, List.not_mem_nil, or_false] at hmem
  rcases hmem with hmem | hmem | hmem | hmem <;> rw [hmem] <;> decide

theorem Flow.outstanding (h : c.Flow) : c.txRing.filter (!·.delivered) = c.txRing :=
  List.filter_eq_self.mpr fun e he => by simp [h.undelivered e he]

theorem Flow.of_sublist (h : c.Flow) (hring : c'.txRing.Sublist c.txRing)
    (hwindow : c'.window = c.window) (hmax : c'.windowMax = c.windowMax)
    (hmin : c'.windowMin = c.windowMin) : c'.Flow where
  windowMin_mem := hmin ▸ h.windowMin_mem
  windowMin_le := by rw [hmin, hmax]; exact h.windowMin_le
  windowMax_le := hmax ▸ h.windowMax_le
  window_pos := hwindow ▸ h.window_pos
  window_le := by rw [hwindow, hmax]; exact h.window_le
  undelivered e he := h.undelivered e (hring.subset he)
  length_le := hring.length_le.trans h.length_le

theorem Flow.send {msgtype : UInt16} {payload : Bytes} {now : ℚ} {linkMdu : ℕ}
    {actions : List ChannelAction} (h : c.Flow)
    (hsend : c.send msgtype payload now linkMdu = .ok (c', actions)) :
    c'.Flow ∧ c'.windowMin = c.windowMin ∧ c'.window = c.window := by
  unfold Channel.send at hsend
  split_ifs at hsend with hready
  dsimp only at hsend
  split_ifs at hsend
  cases hsend
  have hroom : c.txRing.length < 48 := by
    rw [isReadyToSend, h.outstanding, decide_eq_true_eq, UInt16.lt_iff_toNat_lt,
      UInt16.toNat_ofNat'] at hready
    have hlength := h.length_le
    have hwindow : c.window.toNat ≤ c.windowMax.toNat := h.window_le
    have hmax : c.windowMax.toNat ≤ 48 := h.windowMax_le
    omega
  refine ⟨⟨h.windowMin_mem, h.windowMin_le, h.windowMax_le, h.window_pos, h.window_le, ?_, ?_⟩,
    rfl, rfl⟩
  · intro e he
    rcases List.mem_append.mp he with he | he
    · exact h.undelivered e he
    · rw [List.mem_singleton.mp he]
  · simpa using hroom

section

variable (h : c.Flow)
include h

theorem Flow.grow :
    let grown := if c.window < c.windowMax then { c with window := c.window + 1 } else c
    grown.Flow ∧ grown.windowMin = c.windowMin ∧ c.window ≤ grown.window := by
  dsimp only
  split_ifs with hlt
  · have hlt' : c.window.toNat < c.windowMax.toNat := hlt
    have hmax : c.windowMax.toNat ≤ 48 := h.windowMax_le
    have hadd : (c.window + 1).toNat = (c.window.toNat + 1) % 2 ^ 16 := UInt16.toNat_add _ 1
    refine ⟨⟨h.windowMin_mem, h.windowMin_le, h.windowMax_le, ?_, ?_, h.undelivered, h.length_le⟩,
      rfl, ?_⟩
    · change 1 ≤ (c.window + 1).toNat
      omega
    · change (c.window + 1).toNat ≤ c.windowMax.toNat
      omega
    · change c.window.toNat ≤ (c.window + 1).toNat
      omega
  · exact ⟨h, rfl, le_refl _⟩

theorem Flow.raise (limit floor : UInt16) (hfloor : floor ∈ [1, 2, 5, 16]) (hle : floor ≤ limit)
    (hlimit : limit ≤ 48) (hlt : c.windowMax < limit) (hring : c'.txRing = c.txRing)
    (hwindow : c'.window = c.window) (hmax : c'.windowMax = limit) (hmin : c'.windowMin = floor) :
    c'.Flow where
  windowMin_mem := hmin ▸ hfloor
  windowMin_le := by rw [hmin, hmax]; exact hle
  windowMax_le := hmax ▸ hlimit
  window_pos := hwindow ▸ h.window_pos
  window_le := by
    rw [hwindow, hmax]
    exact UInt16.le_of_lt (UInt16.lt_of_le_of_lt h.window_le hlt)
  undelivered := hring ▸ h.undelivered
  length_le := hring ▸ h.length_le

theorem Flow.windowMin_le_five (hlt : c.windowMax < 12) : c.windowMin ≤ 5 := by
  have hmem := h.windowMin_mem
  have hsmall := UInt16.lt_of_le_of_lt h.windowMin_le hlt
  simp only [List.mem_cons, List.not_mem_nil, or_false] at hmem
  rcases hmem with hmem | hmem | hmem | hmem <;> rw [hmem] at hsmall ⊢
  · decide
  · decide
  · decide
  · exact absurd hsmall (by decide)

theorem Flow.windowMin_le_sixteen : c.windowMin ≤ 16 := by
  have hmem := h.windowMin_mem
  simp only [List.mem_cons, List.not_mem_nil, or_false] at hmem
  rcases hmem with hmem | hmem | hmem | hmem <;> rw [hmem] <;> decide

theorem Flow.adaptWindowOnDelivery :
    c.adaptWindowOnDelivery.Flow ∧ c.adaptWindowOnDelivery.window = c.window ∧
      c.windowMin ≤ c.adaptWindowOnDelivery.windowMin := by
  have hkeep : ∀ {c' : Channel}, c'.txRing = c.txRing → c'.window = c.window →
      c'.windowMax = c.windowMax → c'.windowMin = c.windowMin →
      c'.Flow ∧ c'.window = c.window ∧ c.windowMin ≤ c'.windowMin :=
    fun hring hwindow hmax hmin => ⟨h.of_sublist (hring ▸ List.Sublist.refl _) hwindow hmax hmin,
      hwindow, hmin ▸ le_refl _⟩
  unfold Channel.adaptWindowOnDelivery
  dsimp only
  split_ifs with _ _ _ hmedium hfast
  · exact hkeep rfl rfl rfl rfl
  · exact hkeep rfl rfl rfl rfl
  · exact ⟨h.raise 12 5 (by decide) (by decide) (by decide) hmedium.1 rfl rfl rfl rfl, rfl,
      h.windowMin_le_five hmedium.1⟩
  · exact hkeep rfl rfl rfl rfl
  · exact ⟨h.raise 48 16 (by decide) (by decide) (by decide) hfast.1 rfl rfl rfl rfl, rfl,
      h.windowMin_le_sixteen⟩
  · exact hkeep rfl rfl rfl rfl

theorem Flow.packetDelivered (sequence : UInt16) :
    (c.packetDelivered sequence).Flow ∧ c.window ≤ (c.packetDelivered sequence).window ∧
      c.windowMin ≤ (c.packetDelivered sequence).windowMin := by
  unfold Channel.packetDelivered
  split_ifs
  · have herased : Flow { c with txRing := c.txRing.eraseP (·.sequence = sequence) } :=
      h.of_sublist List.eraseP_sublist rfl rfl rfl
    obtain ⟨hgrown, hmin, hwindow⟩ := herased.grow
    obtain ⟨hadapted, hwindow', hmin'⟩ := hgrown.adaptWindowOnDelivery
    refine ⟨hadapted, ?_, le_trans ?_ hmin'⟩
    · rw [hwindow']
      exact hwindow
    · rw [hmin]
      exact le_refl _
  · exact ⟨h, le_refl _, le_refl _⟩

end

/-- Calls that neither send nor acknowledge: the lower limit stays, and the window does not fall
below it. -/
structure KeepsFloor (c c' : Channel) : Prop where
  flow : c'.Flow
  windowMin : c'.windowMin = c.windowMin
  floor : c.windowMin ≤ c.window → c'.windowMin ≤ c'.window

theorem KeepsFloor.trans {c'' : Channel} (h : c.KeepsFloor c') (h' : c'.KeepsFloor c'') :
    c.KeepsFloor c'' :=
  ⟨h'.flow, h'.windowMin.trans h.windowMin, fun hfloor => h'.floor (h.floor hfloor)⟩

section

variable (h : c.Flow)
include h

theorem Flow.keepsFloor_of_sublist (hring : c'.txRing.Sublist c.txRing)
    (hwindow : c'.window = c.window) (hmax : c'.windowMax = c.windowMax)
    (hmin : c'.windowMin = c.windowMin) : c.KeepsFloor c' :=
  ⟨h.of_sublist hring hwindow hmax hmin, hmin, fun hfloor => by rwa [hmin, hwindow]⟩

theorem Flow.shrink :
    c.KeepsFloor (if c.window > c.windowMin then { c with
        window := c.window - 1
        windowMax := if c.windowMax > c.windowMin + c.windowFlexibility then c.windowMax - 1
          else c.windowMax }
      else c) := by
  have hwindow : c.window.toNat ≤ c.windowMax.toNat := h.window_le
  have hfloor : c.windowMin.toNat ≤ c.windowMax.toNat := h.windowMin_le
  have hlimit : c.windowMax.toNat ≤ 48 := h.windowMax_le
  have hpos : 1 ≤ c.windowMin.toNat := h.windowMin_pos
  have hone : (1 : UInt16).toNat = 1 := rfl
  split_ifs with hshrinks hmax
  · have hshrinks' : c.windowMin.toNat < c.window.toNat := hshrinks
    have hsub : (c.window - 1).toNat = c.window.toNat - 1 := by
      rw [toNat_sub, hone]
      omega
    have hsub' : (c.windowMax - 1).toNat = c.windowMax.toNat - 1 := by
      rw [toNat_sub, hone]
      omega
    refine ⟨⟨h.windowMin_mem, ?_, ?_, ?_, ?_, h.undelivered, h.length_le⟩, rfl, fun _ => ?_⟩
    · change c.windowMin.toNat ≤ (c.windowMax - 1).toNat
      omega
    · change (c.windowMax - 1).toNat ≤ 48
      omega
    · change 1 ≤ (c.window - 1).toNat
      omega
    · change (c.window - 1).toNat ≤ (c.windowMax - 1).toNat
      omega
    · change c.windowMin.toNat ≤ (c.window - 1).toNat
      omega
  · have hshrinks' : c.windowMin.toNat < c.window.toNat := hshrinks
    have hsub : (c.window - 1).toNat = c.window.toNat - 1 := by
      rw [toNat_sub, hone]
      omega
    refine ⟨⟨h.windowMin_mem, h.windowMin_le, h.windowMax_le, ?_, ?_, h.undelivered, h.length_le⟩,
      rfl, fun _ => ?_⟩
    · change 1 ≤ (c.window - 1).toNat
      omega
    · change (c.window - 1).toNat ≤ c.windowMax.toNat
      omega
    · change c.windowMin.toNat ≤ (c.window - 1).toNat
      omega
  · exact ⟨h, rfl, id⟩

theorem Flow.packetTimeout (sequence : UInt16) (now : ℚ) :
    c.KeepsFloor (c.packetTimeout sequence now).1 := by
  unfold Channel.packetTimeout
  cases hfind : c.txRing.find? (·.sequence = sequence) with
  | none => exact h.keepsFloor_of_sublist (.refl _) rfl rfl rfl
  | some envelope =>
    dsimp only
    by_cases hlast : envelope.tries ≥ c.maxTries
    · rw [if_pos hlast]
      exact h.keepsFloor_of_sublist (List.nil_sublist _) rfl rfl rfl
    · -- the message is tried again, then the window shrinks
      rw [if_neg hlast]
      let ring := c.txRing.set (c.txRing.findIdx (·.sequence = sequence))
        { envelope with tries := envelope.tries + 1, sentAt := now }
      have hretried : c.KeepsFloor { c with txRing := ring } := by
        refine ⟨⟨h.windowMin_mem, h.windowMin_le, h.windowMax_le, h.window_pos, h.window_le, ?_, ?_⟩,
          rfl, id⟩
        · intro e he
          rcases List.mem_or_eq_of_mem_set he with he | rfl
          · exact h.undelivered e he
          · exact h.undelivered envelope (List.mem_of_find?_eq_some hfind)
        · exact List.length_set.trans_le h.length_le
      exact hretried.trans hretried.flow.shrink

theorem Flow.timeouts (now : ℚ) (sequences : List UInt16) :
    c.KeepsFloor (c.timeouts now sequences).1 := by
  induction sequences generalizing c with
  | nil => exact h.keepsFloor_of_sublist (.refl _) rfl rfl rfl
  | cons sequence rest ih =>
    have hfirst := h.packetTimeout sequence now
    exact hfirst.trans (ih hfirst.flow)

/-- Every call keeps the limits, and only a delivery that raises the lower limit takes it over the
window. -/
theorem Flow.step (op : Op) : (machine.step c op).1.Flow ∧ (c.windowMin ≤ c.window →
      (machine.step c op).1.windowMin ≤ (machine.step c op).1.window ∨
        (∃ sequence, op = .packetDelivered sequence) ∧
          c.windowMin < (machine.step c op).1.windowMin) := by
  have hkeeps : ∀ {c' : Channel}, c.KeepsFloor c' → c'.Flow ∧ (c.windowMin ≤ c.window →
      c'.windowMin ≤ c'.window ∨ (∃ sequence, op = .packetDelivered sequence) ∧
        c.windowMin < c'.windowMin) := fun hc' => ⟨hc'.flow, fun hfloor => .inl (hc'.floor hfloor)⟩
  cases op with
  | send msgtype payload now linkMdu =>
    simp only [machine]
    cases hsend : c.send msgtype payload now linkMdu with
    | error e => exact hkeeps (h.keepsFloor_of_sublist (.refl _) rfl rfl rfl)
    | ok result =>
      obtain ⟨hflow, hmin, hwindow⟩ := h.send hsend
      exact hkeeps ⟨hflow, hmin, fun hfloor => hmin ▸ hwindow ▸ hfloor⟩
  | receive raw =>
    refine hkeeps ?_
    simp only [machine, Channel.receive]
    split
    · exact h.keepsFloor_of_sublist (.refl _) rfl rfl rfl
    · split_ifs <;> exact h.keepsFloor_of_sublist (.refl _) rfl rfl rfl
  | packetDelivered sequence =>
    obtain ⟨hflow, hwindow, hmin⟩ := h.packetDelivered ..
    refine ⟨hflow, fun hfloor => ?_⟩
    by_cases hraised : c.windowMin < (c.packetDelivered sequence).windowMin
    · exact .inr ⟨⟨sequence, rfl⟩, hraised⟩
    · exact .inl (le_trans (UInt16.not_lt.mp hraised) (le_trans hfloor hwindow))
  | packetTimeout sequence now => exact hkeeps (h.packetTimeout sequence now)
  | tick now => exact hkeeps (h.timeouts now _)
  | setRtt rtt => exact hkeeps (h.keepsFloor_of_sublist (.refl _) rfl rfl rfl)
  | cancelSend sequence =>
    refine hkeeps ?_
    simp only [machine, Channel.cancelSend]
    split_ifs
    · exact h.keepsFloor_of_sublist List.eraseP_sublist rfl rfl rfl
    · exact h.keepsFloor_of_sublist List.eraseP_sublist rfl rfl rfl
    · exact h.keepsFloor_of_sublist (.refl _) rfl rfl rfl
  | flushTx | shutdown => exact hkeeps (h.keepsFloor_of_sublist (List.nil_sublist _) rfl rfl rfl)

end

end Step

theorem window_packetTimeout_of_le {c : Channel} (h : c.window ≤ c.windowMin) (sequence : UInt16)
    (now : ℚ) : (c.packetTimeout sequence now).1.window = c.window ∧
      (c.packetTimeout sequence now).1.windowMax = c.windowMax := by
  unfold Channel.packetTimeout
  split
  · exact ⟨rfl, rfl⟩
  · dsimp only
    split_ifs with _ habove
    · exact ⟨rfl, rfl⟩
    · exact absurd habove (UInt16.not_lt.mpr h)
    · exact absurd habove (UInt16.not_lt.mpr h)
    · exact ⟨rfl, rfl⟩

/-- In every run of a channel, the limits of the window are in order and at most 48, the window is
at least one and within its upper limit, and at most 48 messages are outstanding.  The window is not
below its lower limit at the start, and gets below it only when a delivery raises this limit.  A
timeout at or below the lower limit moves neither the window nor its upper limit. -/
theorem window_within_limits (initialRtt : ℚ) (ops : List Op) :
    let after := (machine.run (new initialRtt) ops).1
    (1 ≤ after.windowMin ∧ after.windowMin ≤ after.windowMax ∧ after.windowMax ≤ 48 ∧
      1 ≤ after.window ∧ after.window ≤ after.windowMax ∧
      (after.txRing.filter (!·.delivered)).length ≤ 48) ∧
    (∀ sequence now, after.window ≤ after.windowMin →
      (after.packetTimeout sequence now).1.window = after.window ∧
        (after.packetTimeout sequence now).1.windowMax = after.windowMax) ∧
    (new initialRtt).windowMin ≤ (new initialRtt).window ∧
    machine.Meets (fun _ c op => c.windowMin ≤ c.window →
      (machine.step c op).1.windowMin ≤ (machine.step c op).1.window ∨
        (∃ sequence, op = .packetDelivered sequence) ∧
          c.windowMin < (machine.step c op).1.windowMin) [] (new initialRtt) ops := by
  obtain ⟨hnew, hfloor⟩ := flow_new ..
  have hany : machine.Meets (fun _ _ _ => True) [] (new initialRtt) ops :=
    .of_forall fun _ _ => trivial
  have hrun : (machine.run (new initialRtt) ops).1.Flow :=
    machine.run_keeps (fun _ _ op h _ => (h.step op).1) hnew hany
  refine ⟨⟨hrun.windowMin_pos, hrun.windowMin_le, hrun.windowMax_le, hrun.window_pos,
    hrun.window_le, ?_⟩, fun sequence now h => window_packetTimeout_of_le h sequence now, hfloor, ?_⟩
  · rw [hrun.outstanding]
    exact hrun.length_le
  · exact Machine.Meets.of_invariant (I := fun _ c => c.Flow) machine
      (fun _ _ op h _ => (h.step op).1) (fun _ _ op h _ => (h.step op).2) hnew hany

section Rounds

def rounds : ℕ → List Op
  | 0 => []
  | n + 1 => rounds n ++ [.send 0 [] 0 500, .packetDelivered (ofNat n)]

def fast : Channel := new (1 / 10)

theorem adaptWindowOnDelivery_fast {c : Channel} (h : c.rtt = 1 / 10) :
    c.adaptWindowOnDelivery.fastRateRounds = c.fastRateRounds + 1 ∧
      c.adaptWindowOnDelivery.rtt = c.rtt := by
  have hzero : ¬c.rtt = 0 := by
    rw [h]
    decide +kernel
  have hfast : ¬c.rtt > rttFast := by
    rw [h]
    decide +kernel
  rw [Channel.adaptWindowOnDelivery, if_neg hzero, if_neg hfast]
  dsimp only
  split_ifs <;> exact ⟨rfl, rfl⟩

/-- The channel after some rounds: nothing is outstanding, and the rounds are counted modulo
65536. -/
theorem rounds_fast (n : ℕ) :
    let c := (machine.run fast (rounds n)).1
    c.Flow ∧ c.txRing = [] ∧ c.nextSequence = ofNat n ∧
      c.fastRateRounds = ofNat n ∧ c.rtt = 1 / 10 := by
  induction n with
  | zero =>
    refine ⟨(flow_new _).1, ?_⟩
    decide +kernel
  | succ n ih =>
    obtain ⟨hflow, hring, hnext, hrounds, hrtt⟩ := ih
    rw [rounds, Machine.run_append]
    generalize (machine.run fast (rounds n)).1 = c at *
    have hready : c.isReadyToSend := by
      rw [isReadyToSend, hring, decide_eq_true_eq]
      exact UInt16.lt_of_lt_of_le (by decide) hflow.window_pos
    have hshort : ¬(packEnvelope 0 c.nextSequence []).length > 500 := by
      rw [length_packEnvelope]
      decide
    let sent : Channel := { c with
      nextSequence := c.nextSequence + 1
      txRing := c.txRing ++ [⟨c.nextSequence, packEnvelope 0 c.nextSequence [], 1, 0, false⟩] }
    have hsend : machine.step c (.send 0 [] 0 500) =
        (sent, [.sendOnLink (packEnvelope 0 c.nextSequence []) c.nextSequence]) := by
      simp only [machine, send, hready, not_true, if_false, if_neg hshort]
      rfl
    have hsent := (hflow.step (.send 0 [] 0 500)).1
    have hdelivered := (hsent.step (.packetDelivered (ofNat n))).1
    rw [hsend] at hsent hdelivered
    have hrun : (machine.run c [.send 0 [] 0 500, .packetDelivered (ofNat n)]).1 =
        sent.packetDelivered (ofNat n) := by
      rw [Machine.run_cons, hsend]
      rfl
    rw [hrun]
    have hany : sent.txRing.any (·.sequence = ofNat n) := by
      simp [sent, hring, hnext]
    have htx := packetDelivered_tx sent (ofNat n)
    have hsucc : ofNat (n + 1) = ofNat n + 1 := by
      rw [UInt16.ofNat_add]
      rfl
    refine ⟨hdelivered, ?_, ?_, ?_⟩
    · rw [htx.2]
      simp [sent, hring, hnext]
    · rw [htx.1, hsucc, ← hnext]
    · rw [packetDelivered, if_pos hany, hsucc, ← hrounds, ← hrtt]
      dsimp only
      split
      · exact adaptWindowOnDelivery_fast hrtt
      · exact adaptWindowOnDelivery_fast hrtt

/-- After ten rounds over a fast link the lower limit is over the window; and the rounds are not
counted beyond 65535. -/
theorem floor_rises_over_window :
    (machine.run fast (rounds 10)).1.window = 5 ∧ (machine.run fast (rounds 10)).1.windowMin = 16 ∧
      (machine.run fast (rounds 65535)).1.fastRateRounds = 65535 ∧
      (machine.run fast (rounds 65536)).1.fastRateRounds = 0 := by
  refine ⟨by decide +kernel, by decide +kernel, ?_, ?_⟩
  · exact (rounds_fast 65535).2.2.2.1
  · exact (rounds_fast 65536).2.2.2.1

end Rounds

end Channel

end Rns

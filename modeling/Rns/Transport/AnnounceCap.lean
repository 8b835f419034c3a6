import Rns.Lib.Machine
import Rns.Transport.AnnounceQueue

/-!
# The announce bandwidth cap

A record carries the time of the next announce, and every announce sent and every request reserved moves
that time past its own airtime.  `process_queues` forgets the time together with a record that has
nothing left to send, and a reservation overwrites it.
-/

namespace Rns.Transport

open InterfaceAnnounceQueue AnnounceQueues Std.ExtTreeMap

/-! ## Airtime -/

variable (timing : InterfaceTiming)

def InterfaceTiming.Timed : Prop :=
  0 < timing.bitrate.getD 0 ∨ timing.airtimeProfile.isSome

instance (timing : InterfaceTiming) : Decidable timing.Timed :=
  inferInstanceAs (Decidable (_ ∨ _))

def InterfaceTiming.airtime (length : ℕ) : ℚ :=
  timeToSend length (timing.bitrate.getD 0) timing.airtimeProfile

/-- The time before which nothing may follow a packet sent at `now`. -/
def InterfaceTiming.clearAt (now : ℚ) (length : ℕ) : ℚ :=
  now + timing.airtime length / timing.announceCap

theorem InterfaceTiming.Timed.timedBitrate {timing : InterfaceTiming} (h : timing.Timed) :
    timedBitrate timing = some (timing.bitrate.getD 0) := by
  obtain ⟨bitrate, profile, cap⟩ := timing
  unfold AnnounceQueues.timedBitrate
  rcases bitrate with _ | bitrate <;> rcases profile with _ | profile <;>
    simp_all [InterfaceTiming.Timed]

section Calculate

variable {timing : InterfaceTiming} (hcap : 0 < timing.announceCap) (now : ℚ) (length : ℕ)

include hcap

theorem clearAt_le_calculateNextAllowed :
    timing.clearAt now length ≤ calculateNextAllowed now length (timing.bitrate.getD 0)
      timing.airtimeProfile timing.announceCap := by
  rw [calculateNextAllowed, if_neg (not_le.mpr hcap)]
  dsimp only
  split_ifs with htime
  · have hneg : timing.airtime length / timing.announceCap ≤ 0 :=
      div_nonpos_of_nonpos_of_nonneg htime hcap.le
    rw [InterfaceTiming.clearAt]
    linarith
  · exact le_rfl

omit hcap in
theorem allowedAfter_eq (htimed : timing.Timed) :
    allowedAfter now length timing = calculateNextAllowed now length
      (timing.bitrate.getD 0) timing.airtimeProfile timing.announceCap :=
  if_pos htimed

theorem clearAt_le_allowedAfter (htimed : timing.Timed) :
    timing.clearAt now length ≤ allowedAfter now length timing := by
  rw [allowedAfter_eq now length htimed]
  exact clearAt_le_calculateNextAllowed hcap ..

theorem allowedAfter_le_iff (htimed : timing.Timed) :
    allowedAfter now length timing ≤ now ↔ timing.airtime length ≤ 0 := by
  rw [allowedAfter_eq now length htimed, calculateNextAllowed, if_neg (not_le.mpr hcap)]
  change (if timing.airtime length ≤ 0 then now
    else now + timing.airtime length / timing.announceCap) ≤ now ↔ _
  split_ifs with htime
  · exact iff_of_true le_rfl htime
  · have hpos : 0 < timing.airtime length / timing.announceCap := div_pos (not_le.mp htime) hcap
    exact iff_of_false (by linarith) htime

end Calculate

/-! ## Sending from a queue -/

namespace AnnounceQueues

theorem drain_of_not_allowed {now : ℚ} {timing : InterfaceTiming} {queue : InterfaceAnnounceQueue}
    (h : ¬queue.isAllowed now) (fuel : ℕ) : drain now timing fuel queue = (queue, []) := by
  cases fuel with
  | zero => rfl
  | succ fuel => rw [drain, if_neg h]

theorem drain_succ (now : ℚ) (timing : InterfaceTiming) (fuel : ℕ) (queue : InterfaceAnnounceQueue) :
    drain now timing (fuel + 1) queue = (queue, []) ∨
      queue.announceAllowedAt ≤ now ∧ ∃ entry entries, queue.entries.Perm (entry :: entries) ∧
        drain now timing (fuel + 1) queue =
          ((drain now timing fuel ⟨entries, allowedAfter now entry.raw.length timing⟩).1,
            entry.raw ::
              (drain now timing fuel ⟨entries, allowedAfter now entry.raw.length timing⟩).2) := by
  rw [drain]
  split_ifs with hallowed
  · rcases queue.selectNext with _ | idx
    · exact .inl rfl
    · dsimp only
      rcases hentry : queue.entries[idx]? with _ | entry
      · exact .inl rfl
      · obtain ⟨hidx, rfl⟩ := List.getElem?_eq_some_iff.mp hentry
        exact .inr ⟨by simpa [isAllowed] using hallowed, _, _,
          (List.getElem_cons_eraseIdx_perm hidx).symm, rfl⟩
  · exact .inl rfl

section Drain

variable {now : ℚ} {timing : InterfaceTiming} (hcap : 0 < timing.announceCap) (htimed : timing.Timed)

theorem allowed_of_drain (fuel : ℕ) (queue : InterfaceAnnounceQueue)
    (h : (drain now timing fuel queue).2 ≠ []) : queue.announceAllowedAt ≤ now := by
  cases fuel with
  | zero => exact absurd rfl h
  | succ fuel =>
    rcases drain_succ .. with hnone | ⟨hallowed, -⟩
    · rw [hnone] at h
      exact absurd rfl h
    · exact hallowed

theorem le_allowedAt_drain (fuel : ℕ) (queue : InterfaceAnnounceQueue) {b : ℚ}
    (h : b ≤ queue.announceAllowedAt) :
    b ≤ (drain now timing fuel queue).1.announceAllowedAt ∨ b ≤ now := by
  cases fuel with
  | zero => exact .inl h
  | succ fuel =>
    rcases drain_succ .. with hnone | ⟨hallowed, -⟩
    · rw [hnone]
      exact .inl h
    · exact .inr (h.trans hallowed)

include hcap htimed

variable (fuel : ℕ) (queue : InterfaceAnnounceQueue)

theorem clearAt_le_drain : ∀ raw ∈ (drain now timing fuel queue).2,
      timing.clearAt now raw.length ≤ (drain now timing fuel queue).1.announceAllowedAt ∨
        timing.clearAt now raw.length ≤ now := by
  induction fuel generalizing queue with
  | zero => nofun
  | succ fuel ih =>
    rcases drain_succ .. with hnone | ⟨-, entry, entries, -, hdrain⟩
    · rw [hnone]
      nofun
    · rw [hdrain]
      intro raw hraw
      rcases List.mem_cons.mp hraw with rfl | hraw
      · exact le_allowedAt_drain fuel _ (clearAt_le_allowedAfter hcap now _ htimed)
      · exact ih _ raw hraw

theorem pairwise_drain :
    (drain now timing fuel queue).2.Pairwise fun raw _ => timing.clearAt now raw.length ≤ now := by
  induction fuel generalizing queue with
  | zero => exact .nil
  | succ fuel ih =>
    rcases drain_succ .. with hnone | ⟨-, entry, entries, -, hdrain⟩
    · rw [hnone]
      exact .nil
    · rw [hdrain]
      refine List.pairwise_cons.mpr ⟨fun raw hraw => ?_, ih _⟩
      have hallowed := allowed_of_drain fuel _ (List.ne_nil_of_mem hraw)
      exact (clearAt_le_allowedAfter hcap now _ htimed).trans hallowed

def takesTime (timing : InterfaceTiming) (entry : AnnounceQueueEntry) : Bool :=
  0 < timing.airtime entry.raw.length

theorem countP_drain : queue.entries.countP (takesTime timing) ≤
      (drain now timing fuel queue).1.entries.countP (takesTime timing) + 1 := by
  induction fuel generalizing queue with
  | zero => exact Nat.le_succ _
  | succ fuel ih =>
    rcases drain_succ .. with hnone | ⟨-, entry, entries, hperm, hdrain⟩
    · rw [hnone]
      exact Nat.le_succ _
    · rw [hdrain, hperm.countP_eq, List.countP_cons]
      by_cases htakes : takesTime timing entry
      · have hstop : ¬isAllowed ⟨entries, allowedAfter now entry.raw.length timing⟩ now := by
          simpa [isAllowed, allowedAfter_le_iff hcap now _ htimed, takesTime] using htakes
        rw [drain_of_not_allowed hstop, if_pos htakes]
      · rw [if_neg htakes, Nat.add_zero]
        exact ih ⟨entries, _⟩

theorem allowedAt_drain_le (hallowed : queue.announceAllowedAt ≤ now)
    (hnone : queue.entries.countP (takesTime timing) = 0) :
    (drain now timing fuel queue).1.announceAllowedAt ≤ now := by
  induction fuel generalizing queue with
  | zero => exact hallowed
  | succ fuel ih =>
    rcases drain_succ .. with hstop | ⟨-, entry, entries, hperm, hdrain⟩
    · rw [hstop]
      exact hallowed
    · rw [hperm.countP_eq, List.countP_cons, Nat.add_eq_zero_iff] at hnone
      have htakes : timing.airtime entry.raw.length ≤ 0 := by
        simpa [takesTime] using hnone.2
      rw [hdrain]
      exact ih _ ((allowedAfter_le_iff hcap now _ htimed).mpr htakes) hnone.1

end Drain

/-! ## Runs -/

inductive Event where
  | gate (interface : InterfaceId) (raw : Bytes) (destHash : Hash16) (hops : UInt8)
    (emitted now : ℚ) (timing : InterfaceTiming)
  | process (now : ℚ) (interfaces : InterfaceId → Option InterfaceTiming)
  | reserve (interface : InterfaceId) (rawLen : ℕ) (now : ℚ) (timing : InterfaceTiming)

def Event.now : Event → ℚ
  | .gate _ _ _ _ _ now _ => now
  | .process now _ => now
  | .reserve _ _ now _ => now

inductive EmissionKind where
  | announce
  | pathRequest
  deriving DecidableEq

/-- An announce that is sent, or a path request that is reserved. -/
structure Emission where
  interface : InterfaceId
  kind : EmissionKind
  time : ℚ
  length : ℕ
  deriving DecidableEq

/-- The queues as a machine whose outputs are the emissions. -/
def machine : Machine AnnounceQueues Event Emission where
  step q
    | .gate interface raw destHash hops emitted now timing =>
      let result := q.gateAnnounce interface raw destHash hops emitted now timing
      (result.1, result.2.toList.map fun sent => ⟨sent.interface, .announce, now, sent.raw.length⟩)
    | .process now interfaces =>
      let result := q.processQueues now interfaces
      (result.1, result.2.map fun sent => ⟨sent.interface, .announce, now, sent.raw.length⟩)
    | .reserve interface rawLen now timing =>
      (q.reserveRecursivePathRequest interface rawLen now timing,
        [⟨interface, .pathRequest, now, rawLen⟩])

section Cap

variable (i : InterfaceId) (timing : InterfaceTiming) (ids : Finset InterfaceId)

def Event.Fixed : Event → Prop
  | .gate interface _ _ _ _ _ timing' => interface ∈ ids ∧ (interface = i → timing' = timing)
  | .process _ interfaces => interfaces i = some timing
  | .reserve interface _ _ timing' => interface ∈ ids ∧ (interface = i → timing' = timing)

/-- The step does not lose a time that is still to come: a reservation is made only when the
interface is free, and sending from the queues does not use up its record too early. -/
def KeepsTime (q : AnnounceQueues) : Event → Prop
  | .gate .. => True
  | .process now _ => ∀ queue ∈ q.queues[i]?,
      if queue.isAllowed now then (queue.removeStale now).entries.countP (takesTime timing) ≠ 1
      else (queue.removeStale now).entries ≠ []
  | .reserve interface _ now _ => interface = i → ∀ queue ∈ q.queues[i]?, queue.isAllowed now

/-- What a step of a run may be. -/
structure StepOk (past : List Event) (q : AnnounceQueues) (e : Event) : Prop where
  time : ∀ p ∈ past, p.now ≤ e.now
  fixed : e.Fixed i timing ids
  keepsTime : KeepsTime i timing q e

instance : ∀ e : Event, Decidable (e.Fixed i timing ids)
  | .gate .. => inferInstanceAs (Decidable (_ ∧ _))
  | .process _ interfaces => inferInstanceAs (Decidable (interfaces i = some timing))
  | .reserve .. => inferInstanceAs (Decidable (_ ∧ _))

instance (q : AnnounceQueues) : ∀ e, Decidable (KeepsTime i timing q e)
  | .gate .. => inferInstanceAs (Decidable True)
  | .process now _ => inferInstanceAs (Decidable (∀ queue ∈ q.queues[i]?,
      if queue.isAllowed now then (queue.removeStale now).entries.countP (takesTime timing) ≠ 1
      else (queue.removeStale now).entries ≠ []))
  | .reserve interface _ now _ =>
    inferInstanceAs (Decidable (interface = i → ∀ queue ∈ q.queues[i]?, queue.isAllowed now))

instance (past : List Event) (q : AnnounceQueues) (e : Event) :
    Decidable (StepOk i timing ids past q e) :=
  decidable_of_iff ((∀ p ∈ past, p.now ≤ e.now) ∧ e.Fixed i timing ids ∧ KeepsTime i timing q e)
    ⟨fun h => ⟨h.1, h.2.1, h.2.2⟩, fun h => ⟨h.time, h.fixed, h.keepsTime⟩⟩

def Spaced (earlier later : Emission) : Prop :=
  earlier.interface = i → later.interface = i → later.kind = .announce →
    timing.clearAt earlier.time earlier.length ≤ later.time

def Covers (past : List Event) (q : AnnounceQueues) (b : ℚ) : Prop :=
  (∃ queue, q.queues[i]? = some queue ∧ b ≤ queue.announceAllowedAt) ∨ ∃ p ∈ past, b ≤ p.now

/-- What holds between the steps of a run. -/
structure Inv (past : List Event) (q : AnnounceQueues) (out : List Emission) : Prop where
  room : ids.card ≤ q.maxInterfaces
  known : ∀ k ∈ q.queues, k ∈ ids
  covered : ∀ o ∈ out, o.interface = i → Covers i past q (timing.clearAt o.time o.length)
  spaced : out.Pairwise (Spaced i timing)

variable {i timing ids} {past : List Event} {q : AnnounceQueues} {out : List Emission}

theorem Covers.le_now {e : Event} (htime : ∀ p ∈ past, p.now ≤ e.now)
    (hfree : ∀ queue ∈ q.queues[i]?, queue.announceAllowedAt ≤ e.now) {b : ℚ}
    (h : Covers i past q b) : b ≤ e.now := by
  rcases h with ⟨queue, hqueue, hb⟩ | ⟨p, hp, hb⟩
  · exact hb.trans (hfree queue hqueue)
  · exact hb.trans (htime p hp)

theorem Covers.of_le_now {e : Event} {q' : AnnounceQueues} {b : ℚ} (h : b ≤ e.now) :
    Covers i (past ++ [e]) q' b :=
  .inr ⟨e, by simp, h⟩

theorem Inv.extend (h : Inv i timing ids past q out) {e : Event} {q' : AnnounceQueues}
    {outs : List Emission} (hmax : q'.maxInterfaces = q.maxInterfaces)
    (hknown : ∀ k ∈ q'.queues, k ∈ q.queues ∨ k ∈ ids)
    (hcovers : ∀ b, Covers i past q b → Covers i (past ++ [e]) q' b)
    (hnew : ∀ o ∈ outs, o.interface = i →
      Covers i (past ++ [e]) q' (timing.clearAt o.time o.length))
    (hspaced : outs.Pairwise (Spaced i timing))
    (hafter : ∀ o ∈ outs, o.interface = i → o.kind = .announce →
      ∀ b, Covers i past q b → b ≤ o.time) : Inv i timing ids (past ++ [e]) q' (out ++ outs) where
  room := hmax ▸ h.room
  known k hk := (hknown k hk).elim (h.known k) id
  covered o ho hi := by
    rcases List.mem_append.mp ho with ho | ho
    · exact hcovers _ (h.covered o ho hi)
    · exact hnew o ho hi
  spaced := by
    refine List.pairwise_append.mpr ⟨h.spaced, hspaced, fun earlier hearlier later hlater => ?_⟩
    intro hi hi' hkind
    exact hafter later hlater hi' hkind _ (h.covered earlier hearlier hi)

theorem Inv.not_full (h : Inv i timing ids past q out) {j : InterfaceId} (hj : j ∈ ids) :
    q.isFull j = false := by
  by_contra hfull
  simp only [isFull, Bool.not_eq_eq_eq_not, Bool.not_true, ge_iff_le, Bool.decide_and,
    Bool.not_eq_false, Bool.and_eq_true, decide_eq_true_eq] at hfull
  obtain ⟨hnot, hsize⟩ := hfull
  have hsub : q.queues.keys.toFinset ⊆ ids.erase j := by
    intro k hk
    have hmem : k ∈ q.queues := by simpa using hk
    refine Finset.mem_erase.mpr ⟨?_, h.known k hmem⟩
    rintro rfl
    rw [mem_iff_contains, hnot] at hmem
    cases hmem
  have hcard := Finset.card_le_card hsub
  rw [List.toFinset_card_of_nodup nodup_keys, length_keys,
    Finset.card_erase_of_mem hj] at hcard
  have hpos := Finset.card_pos.mpr ⟨j, hj⟩
  have hroom := h.room
  omega

theorem getElem?_insert_queue (q : AnnounceQueues) (j : InterfaceId)
    (queue : InterfaceAnnounceQueue) :
    (q.queues.insert j queue)[i]? = if j = i then some queue else q.queues[i]? := by
  rw [getElem?_insert]
  simp only [Std.compare_eq_iff_eq]

theorem mem_insert_queue {q : AnnounceQueues} {j k : InterfaceId} {queue : InterfaceAnnounceQueue}
    (hj : j ∈ ids) (h : k ∈ q.queues.insert j queue) : k ∈ q.queues ∨ k ∈ ids := by
  rw [mem_insert, Std.compare_eq_iff_eq] at h
  rcases h with rfl | h
  · exact .inr hj
  · exact .inl h

theorem Inv.other (h : Inv i timing ids past q out) {e : Event} {q' : AnnounceQueues}
    {outs : List Emission} (hmax : q'.maxInterfaces = q.maxInterfaces)
    (hknown : ∀ k ∈ q'.queues, k ∈ q.queues ∨ k ∈ ids)
    (hsame : q'.queues[i]? = q.queues[i]?) (houts : ∀ o ∈ outs, o.interface ≠ i) :
    Inv i timing ids (past ++ [e]) q' (out ++ outs) := by
  refine h.extend hmax hknown (fun b hb => ?_) (fun o ho hi => absurd hi (houts o ho)) ?_
    (fun o ho hi => absurd hi (houts o ho))
  · rcases hb with ⟨queue, hqueue, hb⟩ | ⟨p, hp, hb⟩
    · exact .inl ⟨queue, hsame.trans hqueue, hb⟩
    · exact .inr ⟨p, by simp [hp], hb⟩
  · exact List.pairwise_of_forall_mem_list fun a ha _ _ hi => absurd hi (houts a ha)

variable (hcap : 0 < timing.announceCap) (htimed : timing.Timed)

include hcap htimed

theorem Inv.gate (h : Inv i timing ids past q out) {j : InterfaceId} {raw : Bytes}
    {destHash : Hash16} {hops : UInt8} {emitted now : ℚ} {timing' : InterfaceTiming}
    (hok : StepOk i timing ids past q (.gate j raw destHash hops emitted now timing')) :
    Inv i timing ids (past ++ [.gate j raw destHash hops emitted now timing'])
      (machine.step q (.gate j raw destHash hops emitted now timing')).1
      (out ++ (machine.step q (.gate j raw destHash hops emitted now timing')).2) := by
  obtain ⟨htime, ⟨hj, htiming⟩, -⟩ := hok
  simp only [machine, gateAnnounce]
  by_cases hji : j = i
  · obtain rfl := hji
    obtain rfl := htiming rfl
    rw [htimed.timedBitrate]
    simp only [h.not_full hj, Bool.false_eq_true, if_false, getD_eq_getD_getElem?]
    split_ifs with hallowed
    · -- sent now: every earlier time is over
      have hfree : ∀ queue ∈ q.queues[j]?, queue.announceAllowedAt ≤ now := by
        intro queue hqueue
        simpa [Option.mem_def.mp hqueue, isAllowed] using hallowed
      have hover : ∀ b, Covers j past q b → b ≤ now := fun b hb => hb.le_now htime hfree
      refine h.extend rfl (fun k hk => mem_insert_queue hj hk) (fun b hb => .of_le_now (hover b hb))
        ?_ (by simp) ?_
      · simp only [Option.toList_some, List.map_singleton, List.mem_singleton, forall_eq]
        intro _
        exact .inl ⟨_, (getElem?_insert_queue q j _).trans (if_pos rfl),
          clearAt_le_calculateNextAllowed hcap ..⟩
      · simp only [Option.toList_some, List.map_singleton, List.mem_singleton, forall_eq]
        exact fun _ _ => hover
    · -- queued: the time of the record stays
      refine h.extend rfl (fun k hk => mem_insert_queue hj hk) (fun b hb => ?_) (by simp) (by simp)
        (by simp)
      rcases hb with ⟨queue, hqueue, hb⟩ | ⟨p, hp, hb⟩
      · refine .inl ⟨_, (getElem?_insert_queue q j _).trans (if_pos rfl), ?_⟩
        rw [hqueue, announceAllowedAt_insert]
        exact hb
      · exact .inr ⟨p, by simp [hp], hb⟩
  · rcases timedBitrate timing' with _ | bitrate
    · exact h.other rfl (fun k hk => .inl hk) rfl (by simpa using hji)
    · simp only [h.not_full hj, Bool.false_eq_true, if_false]
      split_ifs
      · exact h.other rfl (fun k hk => mem_insert_queue hj hk)
          ((getElem?_insert_queue q j _).trans (if_neg hji)) (by simpa using hji)
      · exact h.other rfl (fun k hk => mem_insert_queue hj hk)
          ((getElem?_insert_queue q j _).trans (if_neg hji)) (by simp)

omit hcap htimed in
theorem getElem?_processQueues (now : ℚ) (interfaces : InterfaceId → Option InterfaceTiming) :
    (q.processQueues now interfaces).1.queues[i]? = q.queues[i]?.bind fun queue =>
      if (processQueue now interfaces i queue).1.entries.isEmpty then none
      else some (processQueue now interfaces i queue).1 := by
  rw [processQueues, getElem?_filterMap']

theorem allowedAt_of_emptied {now : ℚ} {queue : InterfaceAnnounceQueue}
    (hkeeps : if queue.isAllowed now then
        (queue.removeStale now).entries.countP (takesTime timing) ≠ 1
      else (queue.removeStale now).entries ≠ []) {fuel : ℕ}
    (hempty : (drain now timing fuel (queue.removeStale now)).1.entries = []) :
    (drain now timing fuel (queue.removeStale now)).1.announceAllowedAt ≤ now := by
  split_ifs at hkeeps with hallowed
  · have hcount : (queue.removeStale now).entries.countP (takesTime timing) ≤
        (drain now timing fuel (queue.removeStale now)).1.entries.countP (takesTime timing) + 1 :=
      countP_drain hcap htimed fuel _
    rw [hempty, List.countP_nil] at hcount
    refine allowedAt_drain_le hcap htimed fuel _ ?_ (by omega)
    simpa [isAllowed] using hallowed
  · have hstop : ¬(queue.removeStale now).isAllowed now := hallowed
    rw [drain_of_not_allowed hstop] at hempty
    exact absurd hempty hkeeps

omit hcap htimed in
theorem mem_sent {now : ℚ} {interfaces : InterfaceId → Option InterfaceTiming} {o : Emission}
    (ho : o ∈ (machine.step q (.process now interfaces)).2) (hi : o.interface = i) :
    ∃ queue ∈ q.queues[i]?, ∃ raw ∈ (processQueue now interfaces i queue).2,
      o = ⟨i, .announce, now, raw.length⟩ := by
  simp only [machine, processQueues, List.mem_map, List.mem_flatMap, Prod.exists,
    mem_toList_iff_getElem?_eq_some] at ho
  obtain ⟨-, ⟨k, queue, hqueue, raw, hraw, rfl⟩, rfl⟩ := ho
  obtain rfl : k = i := hi
  exact ⟨queue, hqueue, raw, hraw, rfl⟩

theorem pairwise_sent {now : ℚ} {interfaces : InterfaceId → Option InterfaceTiming}
    (hfixed : interfaces i = some timing) :
    (machine.step q (.process now interfaces)).2.Pairwise (Spaced i timing) := by
  simp only [machine, processQueues, List.pairwise_map, List.pairwise_flatMap]
  refine ⟨fun ⟨k, queue⟩ _ => ?_, distinct_keys_toList.imp ?_⟩
  · by_cases hk : k = i
    · obtain rfl := hk
      rw [processQueue, hfixed]
      exact (pairwise_drain hcap htimed _ _).imp fun hclear _ _ _ => hclear
    · exact List.pairwise_of_forall fun _ _ hi => absurd hi hk
  · intro a b hne x hx y hy hi hi'
    obtain ⟨_, _, rfl⟩ := List.mem_map.mp hx
    obtain ⟨_, _, rfl⟩ := List.mem_map.mp hy
    exact absurd (Std.compare_eq_iff_eq.mpr (hi.trans hi'.symm)) hne

theorem Inv.process (h : Inv i timing ids past q out) {now : ℚ}
    {interfaces : InterfaceId → Option InterfaceTiming}
    (hok : StepOk i timing ids past q (.process now interfaces)) :
    Inv i timing ids (past ++ [.process now interfaces])
      (machine.step q (.process now interfaces)).1
      (out ++ (machine.step q (.process now interfaces)).2) := by
  obtain ⟨htime, hfixed, hkeeps⟩ := hok
  have hdrain : ∀ queue, processQueue now interfaces i queue =
      drain now timing (queue.removeStale now).entries.length (queue.removeStale now) := by
    intro queue
    rw [processQueue, show interfaces i = some timing from hfixed]
    rfl
  -- what the processed record keeps is kept by what is left of it
  have hcovers : ∀ queue ∈ q.queues[i]?, ∀ b,
      b ≤ (processQueue now interfaces i queue).1.announceAllowedAt ∨ b ≤ now →
        Covers i (past ++ [.process now interfaces]) (q.processQueues now interfaces).1 b := by
    intro queue hqueue b hb
    rcases hb with hb | hb
    · by_cases hempty : (processQueue now interfaces i queue).1.entries = []
      · rw [hdrain] at hb hempty
        exact .of_le_now (hb.trans (allowedAt_of_emptied hcap htimed (hkeeps queue hqueue) hempty))
      · refine .inl ⟨_, ?_, hb⟩
        rw [getElem?_processQueues, Option.mem_def.mp hqueue, Option.bind_some, if_neg]
        simpa using hempty
    · exact .of_le_now hb
  refine h.extend rfl (fun k hk => .inl (mem_filterMap.mp hk).1) (fun b hb => ?_)
    (fun o ho hi => ?_) (pairwise_sent hcap htimed hfixed) (fun o ho hi _ b hb => ?_)
  · rcases hb with ⟨queue, hqueue, hb⟩ | ⟨p, hp, hb⟩
    · refine hcovers queue hqueue b ?_
      rw [hdrain]
      exact le_allowedAt_drain _ _ hb
    · exact .inr ⟨p, by simp [hp], hb⟩
  · obtain ⟨queue, hqueue, raw, hraw, rfl⟩ := mem_sent ho hi
    refine hcovers queue hqueue _ ?_
    rw [hdrain] at hraw ⊢
    exact clearAt_le_drain hcap htimed _ _ raw hraw
  · obtain ⟨queue, hqueue, raw, hraw, rfl⟩ := mem_sent ho hi
    rw [hdrain] at hraw
    have hfree := allowed_of_drain _ _ (List.ne_nil_of_mem hraw)
    refine hb.le_now htime fun queue' hqueue' => ?_
    rw [Option.mem_unique hqueue' hqueue]
    exact hfree

theorem Inv.reserve (h : Inv i timing ids past q out) {j : InterfaceId} {rawLen : ℕ} {now : ℚ}
    {timing' : InterfaceTiming} (hok : StepOk i timing ids past q (.reserve j rawLen now timing')) :
    Inv i timing ids (past ++ [.reserve j rawLen now timing'])
      (machine.step q (.reserve j rawLen now timing')).1
      (out ++ (machine.step q (.reserve j rawLen now timing')).2) := by
  obtain ⟨htime, ⟨hj, htiming⟩, hkeeps⟩ := hok
  simp only [machine, reserveRecursivePathRequest]
  by_cases hji : j = i
  · obtain rfl := hji
    obtain rfl := htiming rfl
    rw [htimed.timedBitrate]
    simp only [h.not_full hj, Bool.false_eq_true, if_false]
    have hfree : ∀ queue ∈ q.queues[j]?, queue.announceAllowedAt ≤ now := by
      intro queue hqueue
      simpa [isAllowed] using hkeeps rfl queue hqueue
    refine h.extend rfl (fun k hk => mem_insert_queue hj hk)
      (fun b hb => .of_le_now (hb.le_now htime hfree)) ?_ (by simp) (by simp)
    simp only [List.mem_singleton, forall_eq]
    intro _
    exact .inl ⟨_, (getElem?_insert_queue q j _).trans (if_pos rfl),
      clearAt_le_calculateNextAllowed hcap ..⟩
  · rcases timedBitrate timing' with _ | bitrate
    · exact h.other rfl (fun k hk => .inl hk) rfl (by simpa using hji)
    · simp only [h.not_full hj, Bool.false_eq_true, if_false]
      exact h.other rfl (fun k hk => mem_insert_queue hj hk)
        ((getElem?_insert_queue q j _).trans (if_neg hji)) (by simpa using hji)

end Cap

/-- In every run from new queues at non-decreasing times, on at most `maxInterfaces` interfaces, in
which no step loses a time that is still to come, every announce on a timed and capped interface
comes at least the airtime of an earlier emission there, divided by the cap, after it. -/
theorem announces_spaced (i : InterfaceId) (timing : InterfaceTiming) (ids : Finset InterfaceId)
    (maxInterfaces : ℕ) (events : List Event) (hcap : 0 < timing.announceCap)
    (htimed : timing.Timed) (hids : ids.card ≤ maxInterfaces)
    (hrun : machine.Meets (StepOk i timing ids) [] (new maxInterfaces) events) :
    (machine.run (new maxInterfaces) events).2.Pairwise fun earlier later =>
      earlier.interface = i → later.interface = i → later.kind = .announce →
        earlier.time + timing.airtime earlier.length / timing.announceCap ≤ later.time := by
  have hstart : Inv i timing ids [] (new maxInterfaces) [] :=
    ⟨hids, fun k hk => absurd hk Std.ExtTreeMap.not_mem_empty, nofun, .nil⟩
  have hinv := machine.run_invariant (I := Inv i timing ids) (fun past q out e h hok => ?_) hstart hrun
  · exact hinv.spaced
  · cases e with
    | gate => exact h.gate hcap htimed hok
    | process => exact h.process hcap htimed hok
    | reserve => exact h.reserve hcap htimed hok

def sampleTiming : InterfaceTiming := ⟨some 1000, none, 1 / 50⟩

def sampleAnnounce (dest : UInt8) (now : ℚ) : Event :=
  .gate 1 (List.replicate 100 0) (Vector.replicate 16 dest) 1 0 now sampleTiming

/-- Two announces wait while the first one is on the air; one of them follows in time. -/
theorem announces_spaced_sample :
    let events := [sampleAnnounce 0 0, sampleAnnounce 1 10, sampleAnnounce 2 11,
      .process 40 fun _ => some sampleTiming]
    0 < sampleTiming.announceCap ∧ sampleTiming.Timed ∧
      machine.Meets (StepOk 1 sampleTiming {1}) [] (new 1) events ∧
      (machine.run (new 1) events).2 = [⟨1, .announce, 0, 100⟩, ⟨1, .announce, 40, 100⟩] ∧
      (machine.run (new 1) events).2.Pairwise fun earlier later =>
        earlier.interface = 1 → later.interface = 1 → later.kind = .announce →
          earlier.time + sampleTiming.airtime earlier.length / sampleTiming.announceCap ≤
            later.time :=
  ⟨by decide +kernel, by decide +kernel, by decide +kernel, by decide +kernel,
    announces_spaced 1 sampleTiming {1} 1 _ (by decide +kernel) (by decide +kernel) (by decide)
      (by decide +kernel)⟩

/-- A round of `process_queues` with nothing to send removes the record: the next announce follows
after 2 seconds instead of 40. -/
theorem announce_follows_too_early :
    (machine.run (new 1) [sampleAnnounce 0 0, .process 1 fun _ => some sampleTiming,
        sampleAnnounce 1 2]).2 = [⟨1, .announce, 0, 100⟩, ⟨1, .announce, 2, 100⟩] ∧
      0 + sampleTiming.airtime 100 / sampleTiming.announceCap = 40 := by
  decide +kernel

end AnnounceQueues

end Rns.Transport

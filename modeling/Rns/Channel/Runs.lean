import Rns.Channel.Rings

/-!
# Runs of a channel

A channel that is called in any order with any arguments.  The receive ring stays sorted by the
distance from the next sequence number, and what is handed on is numbered without gaps.
-/

namespace Rns

open List
open UInt16 (lt_iff_toNat_lt ofNat ofNat_add)

namespace Channel

def setRtt (c : Channel) (rtt : ℚ) : Channel := { c with rtt }

inductive Op where
  | send (msgtype : UInt16) (payload : Bytes) (now : ℚ) (linkMdu : ℕ)
  | receive (raw : Bytes)
  | packetDelivered (sequence : UInt16)
  | packetTimeout (sequence : UInt16) (now : ℚ)
  | tick (now : ℚ)
  | setRtt (rtt : ℚ)
  | cancelSend (sequence : UInt16)
  | flushTx
  | shutdown
  deriving DecidableEq

/-- The channel as a machine; a message that is not accepted changes nothing. -/
def machine : Machine Channel Op ChannelAction where
  step c
    | .send msgtype payload now linkMdu =>
      ((c.send msgtype payload now linkMdu).toOption).getD (c, [])
    | .receive raw => c.receive raw
    | .packetDelivered sequence => (c.packetDelivered sequence, [])
    | .packetTimeout sequence now => c.packetTimeout sequence now
    | .tick now => c.tick now
    | .setRtt rtt => (c.setRtt rtt, [])
    | .cancelSend sequence => (c.cancelSend sequence, [])
    | .flushTx => (c.flushTx, [])
    | .shutdown => (c.shutdown, [])

def delivered (actions : List ChannelAction) : List UInt16 :=
  actions.filterMap fun
    | .messageReceived _ _ sequence => some sequence
    | _ => none

theorem delivered_append (a b : List ChannelAction) :
    delivered (a ++ b) = delivered a ++ delivered b :=
  filterMap_append

/-! ## The receive ring -/

def Sorted (next : UInt16) (ring : List Envelope) : Prop :=
  ring.Pairwise fun a b => a.sequence - next < b.sequence - next

def Opens (e : Envelope) : Prop :=
  ∃ msgtype payload, unpackEnvelope e.raw = .ok (msgtype, e.sequence, payload)

/-! ### Distances -/

theorem toNat_distance (s next : UInt16) :
    (s - next).toNat = (2 ^ 16 - next.toNat + s.toNat) % 2 ^ 16 :=
  UInt16.toNat_sub s next

theorem distance_lt_of_not_lt {a b next : UInt16} (hne : a ≠ b) (h : ¬a - next < b - next) :
    b - next < a - next := by
  have hne' : a.toNat ≠ b.toNat := fun heq => hne (UInt16.toNat_inj.mp heq)
  have ha := a.toNat_lt
  have hb := b.toNat_lt
  have hn := next.toNat_lt
  rw [lt_iff_toNat_lt, toNat_distance, toNat_distance] at h ⊢
  omega

theorem distance_lt_succ {a b next : UInt16} (ha : next - next < a - next) (h : a - next < b - next) :
    a - (next + 1) < b - (next + 1) := by
  have ha' := a.toNat_lt
  have hb' := b.toNat_lt
  have hn := next.toNat_lt
  have hsucc : (next + 1).toNat = (next.toNat + 1) % 2 ^ 16 := UInt16.toNat_add next 1
  rw [lt_iff_toNat_lt, toNat_distance, toNat_distance] at ha h
  rw [lt_iff_toNat_lt, toNat_distance, toNat_distance, hsucc]
  omega

section Ring

variable {next : UInt16} {envelope e : Envelope} {ring : List Envelope}

theorem Sorted.nodup (h : Sorted next ring) : (ring.map Envelope.sequence).Nodup := by
  refine pairwise_map.mpr (h.imp ?_)
  intro a b hlt heq
  rw [heq] at hlt
  exact UInt16.lt_irrefl _ hlt

theorem Sorted.emplace (h : Sorted next ring)
    (hnew : envelope.sequence ∉ ring.map Envelope.sequence) :
    Sorted next (emplaceRx next envelope ring) := by
  induction ring with
  | nil => exact pairwise_singleton _ _
  | cons existing ring ih =>
    obtain ⟨hfirst, hrest⟩ := pairwise_cons.mp h
    rw [map_cons, mem_cons, not_or] at hnew
    rw [emplaceRx, if_neg hnew.1]
    split_ifs with hbefore
    · refine pairwise_cons.mpr ⟨?_, h⟩
      intro e he
      rcases mem_cons.mp he with rfl | he
      · exact hbefore
      · exact UInt16.lt_trans hbefore (hfirst e he)
    · have hafter := distance_lt_of_not_lt hnew.1 hbefore
      refine pairwise_cons.mpr ⟨?_, ih hrest hnew.2⟩
      intro e he
      rcases mem_cons.mp ((emplaceRx_perm hnew.2).mem_iff.mp he) with rfl | he
      · exact hafter
      · exact hfirst e he

theorem Sorted.tail (h : Sorted e.sequence (e :: ring)) : Sorted (e.sequence + 1) ring := by
  obtain ⟨hfirst, hrest⟩ := pairwise_cons.mp h
  refine hrest.imp_of_mem ?_
  intro a b ha _ hlt
  exact distance_lt_succ (hfirst a ha) hlt

theorem Sorted.next_not_mem (h : Sorted next (e :: ring)) (hne : e.sequence ≠ next) :
    next ∉ (e :: ring).map Envelope.sequence := by
  obtain ⟨hfirst, -⟩ := pairwise_cons.mp h
  rw [map_cons, mem_cons, not_or]
  refine ⟨hne.symm, fun hmem => ?_⟩
  obtain ⟨e', he', rfl⟩ := mem_map.mp hmem
  have hlt := hfirst e' he'
  rw [UInt16.sub_self] at hlt
  exact UInt16.not_lt_zero hlt

/-- Collecting hands on a stretch of sequence numbers; the ring that is left is in order and does
not have the next one. -/
theorem collect_sorted (h : Sorted next ring) (hopens : ∀ e ∈ ring, Opens e) :
    ∃ k : ℕ, (collect next ring).1 = next + ofNat k ∧
      delivered (collect next ring).2.2 = (range k).map (fun i => next + ofNat i) ∧
      Sorted (collect next ring).1 (collect next ring).2.1 ∧
      (collect next ring).1 ∉ (collect next ring).2.1.map Envelope.sequence ∧
      (collect next ring).2.1 ⊆ ring := by
  induction ring generalizing next with
  | nil => exact ⟨0, by simp [collect], rfl, .nil, not_mem_nil, nil_subset _⟩
  | cons e ring ih =>
    by_cases hnext : e.sequence = next
    · subst hnext
      obtain ⟨msgtype, payload, hopen⟩ := hopens e mem_cons_self
      obtain ⟨k, hafter, hdelivered, hsorted, hgone, hsub⟩ :=
        ih h.tail fun e' he' => hopens e' (mem_cons_of_mem e he')
      have hshift : ∀ i : ℕ, e.sequence + 1 + ofNat i = e.sequence + ofNat (i + 1) := by
        intro i
        rw [ofNat_add, UInt16.add_assoc, UInt16.add_comm 1]
        rfl
      rw [collect, if_pos rfl, hopen]
      refine ⟨k + 1, hafter.trans (hshift k), ?_, hsorted, hgone,
        fun e' he' => mem_cons_of_mem e (hsub he')⟩
      have hcons : delivered (.messageReceived msgtype payload e.sequence ::
          (collect (e.sequence + 1) ring).2.2) =
            e.sequence :: delivered (collect (e.sequence + 1) ring).2.2 := rfl
      rw [hcons, hdelivered, range_succ_eq_map, map_cons, map_map]
      congr 1
      · simp
      · exact map_congr_left fun i _ => hshift i
    · rw [collect, if_neg hnext]
      exact ⟨0, by simp, rfl, h, h.next_not_mem hnext, Subset.refl _⟩

end Ring

/-- The receive ring is in order, has no message that is next, and all of it opens. -/
structure RxOk (c : Channel) : Prop where
  sorted : Sorted c.nextRxSequence c.rxRing
  next_not_mem : c.nextRxSequence ∉ c.rxRing.map Envelope.sequence
  opens : ∀ e ∈ c.rxRing, Opens e

/-- Nothing is handed on, and the receive ring is kept or emptied. -/
structure HandsOnNothing (c c' : Channel) (actions : List ChannelAction) : Prop where
  nextRxSequence : c'.nextRxSequence = c.nextRxSequence
  rxRing : c'.rxRing = c.rxRing ∨ c'.rxRing = []
  delivered : delivered actions = []

section Step

variable {c c' c'' : Channel} {actions more : List ChannelAction}

theorem SameRx.handsOnNothing (h : c.SameRx c') : c.HandsOnNothing c' [] :=
  ⟨h.nextRxSequence, .inl h.rxRing, rfl⟩

theorem HandsOnNothing.trans (h : c.HandsOnNothing c' actions) (h' : c'.HandsOnNothing c'' more) :
    c.HandsOnNothing c'' (actions ++ more) where
  nextRxSequence := h'.nextRxSequence.trans h.nextRxSequence
  rxRing := by
    rcases h'.rxRing with hsame | hnil
    · rw [hsame]
      exact h.rxRing
    · exact .inr hnil
  delivered := by rw [delivered_append, h.delivered, h'.delivered, nil_append]

theorem HandsOnNothing.rxOk (h : c.HandsOnNothing c' actions) (hok : c.RxOk) : c'.RxOk := by
  rcases h.rxRing with hsame | hnil
  · refine ⟨?_, ?_, ?_⟩
    · rw [h.nextRxSequence, hsame]
      exact hok.sorted
    · rw [h.nextRxSequence, hsame]
      exact hok.next_not_mem
    · rw [hsame]
      exact hok.opens
  · refine ⟨?_, ?_, ?_⟩ <;> rw [hnil]
    · exact .nil
    · exact not_mem_nil
    · exact nofun

theorem handsOnNothing_packetTimeout (c : Channel) (sequence : UInt16) (now : ℚ) :
    c.HandsOnNothing (c.packetTimeout sequence now).1 (c.packetTimeout sequence now).2 := by
  unfold packetTimeout
  split
  · exact (SameRx.refl c).handsOnNothing
  · split_ifs
    · exact ⟨rfl, .inr rfl, rfl⟩
    · refine ⟨?_, .inl ?_, rfl⟩ <;> (dsimp only; split_ifs <;> rfl)

theorem handsOnNothing_timeouts (c : Channel) (now : ℚ) (sequences : List UInt16) :
    c.HandsOnNothing (c.timeouts now sequences).1 (c.timeouts now sequences).2 := by
  induction sequences generalizing c with
  | nil => exact (SameRx.refl c).handsOnNothing
  | cons sequence rest ih => exact (handsOnNothing_packetTimeout ..).trans (ih _)

theorem handsOnNothing_step (c : Channel) {op : Op} (hop : ∀ raw, op ≠ .receive raw) :
    c.HandsOnNothing (machine.step c op).1 (machine.step c op).2 := by
  cases op with
  | receive raw => exact absurd rfl (hop raw)
  | send msgtype payload now linkMdu =>
    simp only [machine]
    cases hsend : c.send msgtype payload now linkMdu with
    | error e => exact (SameRx.refl c).handsOnNothing
    | ok result =>
      obtain ⟨c', actions⟩ := result
      have hactions := (send_ok hsend).1
      have hrx := sameRx_send hsend
      refine ⟨hrx.nextRxSequence, .inl hrx.rxRing, ?_⟩
      change delivered actions = []
      rw [hactions]
      rfl
  | packetDelivered sequence => exact (sameRx_packetDelivered ..).handsOnNothing
  | packetTimeout sequence now => exact handsOnNothing_packetTimeout ..
  | tick now => exact handsOnNothing_timeouts c now _
  | setRtt rtt => exact ⟨rfl, .inl rfl, rfl⟩
  | cancelSend sequence => exact (sameRx_cancelSend ..).handsOnNothing
  | flushTx => exact ⟨rfl, .inl rfl, rfl⟩
  | shutdown => exact ⟨rfl, .inr rfl, rfl⟩

theorem RxOk.receive (h : c.RxOk) (raw : Bytes) : (c.receive raw).1.RxOk ∧ ∃ k : ℕ,
      (c.receive raw).1.nextRxSequence = c.nextRxSequence + ofNat k ∧
      delivered (c.receive raw).2 = (range k).map (fun i => c.nextRxSequence + ofNat i) := by
  have hsame : c.RxOk ∧ ∃ k : ℕ, c.nextRxSequence = c.nextRxSequence + ofNat k ∧
      delivered [] = (range k).map (fun i => c.nextRxSequence + ofNat i) :=
    ⟨h, 0, by simp, rfl⟩
  unfold Channel.receive
  cases hopen : unpackEnvelope raw with
  | error e => exact hsame
  | ok result =>
    obtain ⟨msgtype, sequence, payload⟩ := result
    dsimp only
    split_ifs with hbehind hknown
    · exact hsame
    · exact hsame
    · have hnew : sequence ∉ c.rxRing.map Envelope.sequence := by simpa using hknown
      let envelope : Envelope := ⟨sequence, raw, 0, 0, false⟩
      have hopens : ∀ e ∈ emplaceRx c.nextRxSequence envelope c.rxRing, Opens e := by
        intro e he
        rcases mem_cons.mp ((emplaceRx_perm hnew).mem_iff.mp he) with rfl | he
        · exact ⟨msgtype, payload, hopen⟩
        · exact h.opens e he
      obtain ⟨k, hnext, hdelivered, hsorted, hgone, hsub⟩ :=
        collect_sorted (h.sorted.emplace hnew) hopens
      exact ⟨⟨hsorted, hgone, fun e he => hopens e (hsub he)⟩, k, hnext, hdelivered⟩

end Step

/-- What was handed on are the sequence numbers from zero up to the next one. -/
structure Numbered (c : Channel) (out : List ChannelAction) : Prop where
  rxOk : c.RxOk
  next : c.nextRxSequence = ofNat (delivered out).length
  delivered : delivered out = (range (delivered out).length).map ofNat

theorem Numbered.step {c : Channel} {out : List ChannelAction} (h : c.Numbered out) (op : Op) :
    (machine.step c op).1.Numbered (out ++ (machine.step c op).2) := by
  by_cases hop : ∃ raw, op = .receive raw
  · obtain ⟨raw, rfl⟩ := hop
    obtain ⟨hok, k, hnext, hdelivered⟩ := h.rxOk.receive raw
    have hlength : (Channel.delivered (out ++ (c.receive raw).2)).length =
        (Channel.delivered out).length + k := by
      rw [delivered_append, length_append, hdelivered, length_map, length_range]
    have hstep : machine.step c (.receive raw) = c.receive raw := rfl
    rw [hstep]
    refine ⟨hok, ?_, ?_⟩
    · rw [hlength, hnext, h.next, ofNat_add]
    · rw [hlength, delivered_append, hdelivered, h.next, range_add, map_append,
        ← h.delivered, map_map]
      congr 1
      exact map_congr_left fun i _ => (ofNat_add _ i).symm
  · have hnothing := handsOnNothing_step c fun raw heq => hop ⟨raw, heq⟩
    have hsame : Channel.delivered (out ++ (machine.step c op).2) = Channel.delivered out := by
      rw [delivered_append, hnothing.delivered, append_nil]
    refine ⟨hnothing.rxOk h.rxOk, ?_, ?_⟩
    · rw [hsame, hnothing.nextRxSequence, h.next]
    · rw [hsame]
      exact h.delivered

theorem numbered_new (initialRtt : ℚ) : (new initialRtt).Numbered [] where
  rxOk := by
    have hring : (new initialRtt).rxRing = [] := by
      unfold new
      split_ifs <;> rfl
    refine ⟨?_, ?_, ?_⟩ <;> rw [hring]
    · exact .nil
    · exact not_mem_nil
    · exact nofun
  next := by
    unfold new
    split_ifs <;> rfl
  delivered := rfl

/-- In every run of a channel, the receive ring has no sequence number twice, is sorted by the
distance from the next one, and does not have the next one; the messages handed on are numbered
0, 1, 2, … modulo 65536. -/
theorem receive_ring_ordered (initialRtt : ℚ) (ops : List Op) :
    let after := machine.run (new initialRtt) ops
    (after.1.rxRing.map Envelope.sequence).Nodup ∧
      after.1.rxRing.Pairwise (fun a b =>
        a.sequence - after.1.nextRxSequence < b.sequence - after.1.nextRxSequence) ∧
      after.1.nextRxSequence ∉ after.1.rxRing.map Envelope.sequence ∧
      delivered after.2 = (List.range (delivered after.2).length).map ofNat := by
  have hany : machine.Meets (fun _ _ _ => True) [] (new initialRtt) ops :=
    .of_forall fun _ _ => trivial
  have hrun := machine.run_invariant (I := fun _ c out => c.Numbered out)
    (fun _ _ _ op h _ => h.step op) (numbered_new ..) hany
  rw [List.nil_append] at hrun
  exact ⟨hrun.rxOk.sorted.nodup, hrun.rxOk.sorted, hrun.rxOk.next_not_mem, hrun.delivered⟩

end Channel

end Rns

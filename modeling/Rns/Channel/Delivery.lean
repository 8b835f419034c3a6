import Rns.Channel.Basic
import Rns.Lib.Machine

/-!
# Delivery over a channel

A sender and a receiver joined by a network that may lose, repeat, delay and reorder envelopes.  What
the receiver hands on is a prefix of what the sender accepted as long as every copy that it does not
discard belongs to a message it is still waiting for.
-/

namespace Rns

open ChannelAction Channel List
open UInt16 (ofNat toNat ofNat_add)

abbrev Message := UInt16 × Bytes

namespace ChannelAction

def envelopes (actions : List ChannelAction) : List Bytes :=
  actions.filterMap fun
    | .sendOnLink raw _ => some raw
    | _ => none

def messages (actions : List ChannelAction) : List Message :=
  actions.filterMap fun
    | .messageReceived msgtype payload _ => some (msgtype, payload)
    | _ => none

end ChannelAction

/-! ## Collecting what is contiguous -/

variable {ring : List Envelope} {envelope : Envelope}

namespace Channel

/-- The envelope is that of the message with index `i`. -/
def Carries (accepted : List Message) (i : ℕ) (sequence : UInt16) (raw : Bytes) : Prop :=
  ∃ m ∈ accepted[i]?, sequence = ofNat i ∧ raw = packEnvelope m.1 (ofNat i) m.2

instance (accepted : List Message) (i : ℕ) (sequence : UInt16) (raw : Bytes) :
    Decidable (Carries accepted i sequence raw) :=
  inferInstanceAs (Decidable (∃ m ∈ accepted[i]?, _ ∧ _))

/-- Every envelope in the ring is one of the next 65536 messages after the first `d`, and no two
have one sequence number. -/
structure RingOk (accepted : List Message) (d : ℕ) (ring : List Envelope) : Prop where
  carries : ∀ e ∈ ring, ∃ i, d ≤ i ∧ i < d + 65536 ∧ Carries accepted i e.sequence e.raw
  nodup : (ring.map Envelope.sequence).Nodup

variable {accepted : List Message} {d : ℕ}

theorem ofNat_inj_of_lt {i : ℕ} (hge : d ≤ i) (hlt : i < d + 65536)
    (h : ofNat i = ofNat d) : i = d := by
  have hmod := congrArg toNat h
  simp only [UInt16.toNat_ofNat'] at hmod
  omega

theorem emplaceRx_perm {nextRxSequence : UInt16}
    (h : envelope.sequence ∉ ring.map Envelope.sequence) :
    (emplaceRx nextRxSequence envelope ring).Perm (envelope :: ring) := by
  induction ring with
  | nil => exact .refl _
  | cons existing ring ih =>
    rw [map_cons, mem_cons, not_or] at h
    rw [emplaceRx, if_neg h.1]
    split_ifs
    · exact .refl _
    · exact ((ih h.2).cons existing).trans (.swap ..)

theorem RingOk.emplace {i : ℕ} (h : RingOk accepted d ring) (envelope : Envelope) (hge : d ≤ i)
    (hlt : i < d + 65536) (hcarries : Carries accepted i envelope.sequence envelope.raw)
    (hnew : envelope.sequence ∉ ring.map Envelope.sequence) (nextRxSequence : UInt16) :
    RingOk accepted d (emplaceRx nextRxSequence envelope ring) := by
  have hperm : (emplaceRx nextRxSequence envelope ring).Perm (envelope :: ring) :=
    emplaceRx_perm hnew
  refine ⟨fun e he => ?_, ?_⟩
  · rcases mem_cons.mp (hperm.mem_iff.mp he) with rfl | he
    · exact ⟨i, hge, hlt, hcarries⟩
    · exact h.carries e he
  · rw [(hperm.map _).nodup_iff]
    exact nodup_cons.mpr ⟨hnew, h.nodup⟩

theorem RingOk.append (h : RingOk accepted d ring) (m : Message) :
    RingOk (accepted ++ [m]) d ring := by
  refine ⟨fun e he => ?_, h.nodup⟩
  obtain ⟨i, hge, hlt, m', hm', hrest⟩ := h.carries e he
  have hin : i < accepted.length := (List.getElem?_eq_some_iff.mp hm').1
  exact ⟨i, hge, hlt, m', by rwa [getElem?_append_left hin], hrest⟩

theorem RingOk.tail {e : Envelope} (h : RingOk accepted d (e :: ring))
    (hseq : e.sequence = ofNat d) : RingOk accepted (d + 1) ring := by
  obtain ⟨hnot, hnodup⟩ := nodup_cons.mp h.nodup
  refine ⟨fun e' he' => ?_, hnodup⟩
  obtain ⟨i, hge, hlt, hcarries⟩ := h.carries e' (mem_cons_of_mem e he')
  have hne : i ≠ d := by
    rintro rfl
    obtain ⟨m, -, hseq', -⟩ := hcarries
    exact hnot (hseq ▸ hseq' ▸ mem_map_of_mem he')
  exact ⟨i, by omega, by omega, hcarries⟩

theorem collect_spec (hshort : ∀ m ∈ accepted, m.2.length < 65536) (h : RingOk accepted d ring)
    (hd : d ≤ accepted.length) :
    ∃ d', d ≤ d' ∧ d' ≤ accepted.length ∧ (collect (ofNat d) ring).1 = ofNat d' ∧
      RingOk accepted d' (collect (ofNat d) ring).2.1 ∧
      messages (collect (ofNat d) ring).2.2 = (accepted.drop d).take (d' - d) ∧
      ∀ e ∈ ring, ∀ i, d ≤ i → i < d + 65536 → e.sequence = ofNat i →
        i < d' ∨ e ∈ (collect (ofNat d) ring).2.1 := by
  -- the ring shrinks from its front, one message at a time
  induction ring generalizing d with
  | nil => exact ⟨d, le_rfl, hd, rfl, h, by simp [collect, messages], nofun⟩
  | cons e ring ih =>
    by_cases hseq : e.sequence = ofNat d
    · obtain ⟨i, hge, hlt, m, hm, hi, hraw⟩ := h.carries e mem_cons_self
      obtain rfl : i = d := ofNat_inj_of_lt hge hlt (hi ▸ hseq)
      obtain ⟨hin, rfl⟩ := List.getElem?_eq_some_iff.mp hm
      have hopen : unpackEnvelope e.raw = .ok (accepted[i].1, ofNat i, accepted[i].2) := by
        rw [hraw, unpackEnvelope_packEnvelope,
          Nat.mod_eq_of_lt (hshort _ (getElem_mem hin)), take_length]
      obtain ⟨d', hle, hle', hnext, hring, hmessages, hrest⟩ := ih (h.tail hseq) hin
      have hsucc : ofNat i + 1 = ofNat (i + 1) := by
        rw [ofNat_add]
        rfl
      refine ⟨d', by omega, hle', ?_⟩
      rw [collect, if_pos hseq, hopen, hsucc]
      refine ⟨hnext, hring, ?_, fun e' he' k hk hk' hseq' => ?_⟩
      · have hcount : d' - i = (d' - (i + 1)) + 1 := by omega
        rw [drop_eq_getElem_cons hin, hcount, take_succ_cons, ← hmessages]
        rfl
      · by_cases hki : k = i
        · exact .inl (by omega)
        · rcases mem_cons.mp he' with rfl | he'
          · exact absurd (ofNat_inj_of_lt hk hk' (hseq' ▸ hseq)) hki
          · exact hrest e' he' k (by omega) (by omega) hseq'
    · refine ⟨d, le_rfl, hd, ?_⟩
      rw [collect, if_neg hseq]
      exact ⟨rfl, h, by simp [messages], fun e' he' _ _ _ _ => .inr he'⟩

/-! ## What a receiver has -/

/-- The receiver has handed on a prefix of the accepted messages, and its ring waits for the next. -/
structure Received (accepted delivered : List Message) (c : Channel) : Prop where
  sofar : delivered <+: accepted
  next : c.nextRxSequence = ofNat delivered.length
  ring : RingOk accepted delivered.length c.rxRing

/-- The message with index `i` has been handed on, or is in the ring. -/
def Holds (delivered : List Message) (c : Channel) (i : ℕ) : Prop :=
  i < delivered.length ∨ i < delivered.length + 65536 ∧ ∃ e ∈ c.rxRing, e.sequence = ofNat i

variable {delivered : List Message} {c : Channel} {i : ℕ} {raw : Bytes}

theorem Received.emplace (h : Received accepted delivered c) (hshort : ∀ m ∈ accepted, m.2.length < 65536)
    (envelope : Envelope) (hge : delivered.length ≤ i) (hlt : i < delivered.length + 65536)
    (hcarries : Carries accepted i envelope.sequence envelope.raw)
    (hnew : envelope.sequence ∉ c.rxRing.map Envelope.sequence) :
    let collected := collect c.nextRxSequence (emplaceRx c.nextRxSequence envelope c.rxRing)
    let after := { c with nextRxSequence := collected.1, rxRing := collected.2.1 }
    let handed := delivered ++ messages collected.2.2
    Received accepted handed after ∧ Holds handed after i ∧
      ∀ j, Holds delivered c j → Holds handed after j := by
  have hring := h.ring.emplace envelope hge hlt hcarries hnew c.nextRxSequence
  have hperm : (emplaceRx c.nextRxSequence envelope c.rxRing).Perm (envelope :: c.rxRing) :=
    emplaceRx_perm hnew
  obtain ⟨d', hle, hle', hnext, hring', hmessages, hkept⟩ :=
    collect_spec hshort hring h.sofar.length_le
  rw [← h.next] at hnext hring' hmessages hkept
  have hcount : (delivered ++ (accepted.drop delivered.length).take (d' - delivered.length)).length =
      d' := by
    simp only [length_append, length_take, length_drop]
    omega
  have hsofar : delivered ++ (accepted.drop delivered.length).take (d' - delivered.length) =
      accepted.take d' := by
    nth_rewrite 1 [prefix_iff_eq_take.mp h.sofar]
    rw [← take_add, Nat.add_sub_cancel' hle]
  have hholds : ∀ e, e = envelope ∨ e ∈ c.rxRing → ∀ j, delivered.length ≤ j →
      j < delivered.length + 65536 → e.sequence = ofNat j →
      j < d' ∨ j < d' + 65536 ∧ ∃ e ∈ (collect c.nextRxSequence
        (emplaceRx c.nextRxSequence envelope c.rxRing)).2.1, e.sequence = ofNat j := by
    intro e he j hj hj' hseq
    have he' : e ∈ emplaceRx c.nextRxSequence envelope c.rxRing :=
      hperm.mem_iff.mpr (mem_cons.mpr he)
    rcases hkept e he' j hj hj' hseq with hdone | hstays
    · exact .inl hdone
    · exact .inr ⟨by omega, e, hstays, hseq⟩
  dsimp only
  rw [hmessages]
  unfold Holds
  rw [hcount]
  refine ⟨⟨hsofar ▸ take_prefix d' accepted, by rw [hcount]; exact hnext,
    by rw [hcount]; exact hring'⟩, ?_, fun j hj => ?_⟩
  · obtain ⟨_, -, hseq, -⟩ := hcarries
    exact hholds envelope (.inl rfl) i hge hlt hseq
  · rcases hj with hj | ⟨hlt', e, he, hseq⟩
    · exact .inl (by omega)
    · by_cases hge' : delivered.length ≤ j
      · exact hholds e (.inr he) j hge' hlt' hseq
      · exact .inl (by omega)

end Channel

/-! ## A sender and a receiver -/

/-- The two channels, every envelope ever put on the link, and the messages that were accepted for
sending and handed on so far. -/
structure ChannelPair where
  sender : Channel
  receiver : Channel
  emitted : List Bytes
  accepted : List Message
  delivered : List Message
  deriving DecidableEq

namespace ChannelPair

inductive Event where
  | send (msgtype : UInt16) (payload : Bytes) (now : ℚ) (linkMdu : ℕ)
  | packetDelivered (sequence : UInt16)
  | packetTimeout (sequence : UInt16) (now : ℚ)
  | setRtt (rtt : ℚ)
  /-- One of the envelopes put on the link arrives. -/
  | receive (copy : ℕ)
  deriving DecidableEq

def machine : Machine ChannelPair Event ChannelAction where
  step s
    | .send msgtype payload now linkMdu =>
      match s.sender.send msgtype payload now linkMdu with
      | .error _ => (s, [])
      | .ok (sender, actions) =>
        ({ s with
          sender
          emitted := s.emitted ++ envelopes actions
          accepted := s.accepted ++ [(msgtype, payload)] }, actions)
    | .packetDelivered sequence => ({ s with sender := s.sender.packetDelivered sequence }, [])
    | .packetTimeout sequence now =>
      let (sender, actions) := s.sender.packetTimeout sequence now
      ({ s with sender, emitted := s.emitted ++ envelopes actions }, actions)
    | .setRtt rtt => ({ s with sender := { s.sender with rtt } }, [])
    | .receive copy =>
      match s.emitted[copy]? with
      | none => (s, [])
      | some raw =>
        let (receiver, actions) := s.receiver.receive raw
        ({ s with receiver, delivered := s.delivered ++ messages actions }, actions)

def new (senderRtt receiverRtt : ℚ) : ChannelPair :=
  ⟨.new senderRtt, .new receiverRtt, [], [], []⟩

def Discards (s : ChannelPair) (sequence : UInt16) : Prop :=
  s.receiver.isBehindRxWindow sequence ∨ s.receiver.rxRing.any (·.sequence = sequence)

def Awaited (s : ChannelPair) (sequence : UInt16) (raw : Bytes) : Prop :=
  ∃ i < s.accepted.length, s.delivered.length ≤ i ∧ i < s.delivered.length + 65536 ∧
    Carries s.accepted i sequence raw

/-- The condition on a step: no payload of more than 65535 bytes is let through by the size of the
link, and a copy that arrives is discarded or awaited. -/
def Timely (s : ChannelPair) : Event → Prop
  | .send _ payload _ linkMdu => payload.length < 65536 ∨ linkMdu < 65542
  | .receive copy => ∀ raw ∈ s.emitted[copy]?, ∀ opened ∈ (unpackEnvelope raw).toOption,
      s.Discards opened.2.1 ∨ s.Awaited opened.2.1 raw
  | _ => True

/-! ## The invariant -/

structure Invariant (s : ChannelPair) : Prop where
  delivered : s.delivered <+: s.accepted
  short : ∀ m ∈ s.accepted, m.2.length < 65536
  next : s.receiver.nextRxSequence = ofNat s.delivered.length
  ring : RingOk s.accepted s.delivered.length s.receiver.rxRing

theorem invariant_new (senderRtt receiverRtt : ℚ) : (new senderRtt receiverRtt).Invariant :=
  ⟨List.nil_prefix, nofun, rfl, nofun, nodup_nil⟩

variable {s : ChannelPair}

theorem Invariant.send (h : s.Invariant) {msgtype : UInt16} {payload : Bytes} {now : ℚ}
    {linkMdu : ℕ} (hok : s.Timely (.send msgtype payload now linkMdu)) :
    (machine.step s (.send msgtype payload now linkMdu)).1.Invariant := by
  simp only [machine]
  split
  · exact h
  · next sender actions hsend =>
    have hshort : payload.length < 65536 := by
      rcases hok with hshort | hmdu
      · exact hshort
      · simp only [Channel.send, length_packEnvelope, channelEnvelopeOverhead] at hsend
        split_ifs at hsend with hready hbig
        omega
    refine ⟨h.delivered.trans (prefix_append _ _), fun m hm => ?_, h.next, h.ring.append _⟩
    rcases mem_append.mp hm with hm | hm
    · exact h.short m hm
    · rw [mem_singleton.mp hm]
      exact hshort

theorem Invariant.receive (h : s.Invariant) {copy : ℕ} (hok : s.Timely (.receive copy)) :
    (machine.step s (.receive copy)).1.Invariant := by
  simp only [machine]
  split
  · exact h
  · next raw hraw =>
    have hok := hok raw hraw
    unfold Channel.receive
    split
    · simpa [messages] using h
    · next msgtype sequence payload hopen =>
      have hok := hok (msgtype, sequence, payload) (by rw [hopen]; rfl)
      split_ifs with hbehind hduplicate
      · simpa [messages] using h
      · simpa [messages] using h
      · rcases hok with (hdiscard | hdiscard) | ⟨i, hi, hge, hlt, hcarries⟩
        · exact absurd hdiscard hbehind
        · exact absurd hdiscard hduplicate
        · have hnew : sequence ∉ s.receiver.rxRing.map Envelope.sequence := by
            simpa using hduplicate
          have hrx : Received s.accepted s.delivered s.receiver := ⟨h.delivered, h.next, h.ring⟩
          obtain ⟨hrx', -⟩ := hrx.emplace h.short ⟨sequence, raw, 0, 0, false⟩ hge hlt hcarries hnew
          exact ⟨hrx'.sofar, h.short, hrx'.next, hrx'.ring⟩

theorem Invariant.step (h : s.Invariant) {e : Event} (hok : s.Timely e) :
    (machine.step s e).1.Invariant := by
  cases e with
  | send msgtype payload now linkMdu => exact h.send hok
  | packetDelivered _ | packetTimeout _ _ | setRtt _ => exact ⟨h.delivered, h.short, h.next, h.ring⟩
  | receive copy => exact h.receive hok

/-- In every run of timely steps the messages handed on are a prefix of the messages accepted. -/
theorem delivered_prefix_accepted (senderRtt receiverRtt : ℚ) (events : List Event)
    (hok : machine.Meets (fun _ s e => s.Timely e) [] (new senderRtt receiverRtt) events) :
    let after := (machine.run (new senderRtt receiverRtt) events).1
    after.delivered <+: after.accepted := by
  exact (machine.run_keeps (I := Invariant) (fun _ _ _ h hok => h.step hok)
    (invariant_new ..) hok).delivered

instance (s : ChannelPair) (e : Event) : Decidable (s.Timely e) :=
  match e with
  | .send _ _ _ _ => inferInstanceAs (Decidable (_ ∨ _))
  | .receive copy => inferInstanceAs (Decidable (∀ raw ∈ s.emitted[copy]?,
      ∀ opened ∈ (unpackEnvelope raw).toOption, (_ ∨ _) ∨ ∃ i < s.accepted.length, _ ∧ _ ∧ _))
  | .packetDelivered _ => .isTrue trivial
  | .packetTimeout _ _ => .isTrue trivial
  | .setRtt _ => .isTrue trivial

/-- Two messages in the wrong order, a retransmission that comes as a duplicate, and an
acknowledgement. -/
def sampleEvents : List Event :=
  [.send 1 [10] 0 500, .send 2 [20] 0 500, .receive 1, .packetTimeout 0 5, .receive 0, .receive 2,
    .packetDelivered 1]

theorem delivered_prefix_accepted_sample :
    let after := (machine.run (new 1 1) sampleEvents).1
    after.delivered = [(1, [10]), (2, [20])] ∧ after.delivered <+: after.accepted :=
  ⟨by decide +kernel, delivered_prefix_accepted 1 1 sampleEvents (by decide +kernel)⟩

/-! ## A duplicate at the wrap

The copy of message 65535 that arrives when the receiver already waits for sequence number 0 again
is not behind its window: 65535 is not below 0.  It stays in the ring as a message to come and is
handed on one whole round of sequence numbers later. -/

def round (k : ℕ) : List Event :=
  [.send 0 [] 0 500, .receive k, .packetDelivered (ofNat k)]

def rounds (first count : ℕ) : List Event :=
  (range' first count).flatMap round

/-- After `n` rounds nothing is under way, but for what the receiver holds back. -/
structure Settled (n : ℕ) (held : List Envelope) (s : ChannelPair) : Prop where
  txRing : s.sender.txRing = []
  window : 0 < s.sender.window
  nextSequence : s.sender.nextSequence = ofNat n
  rxRing : s.receiver.rxRing = held
  nextRxSequence : s.receiver.nextRxSequence = ofNat n
  emitted : s.emitted = (range n).map fun k => packEnvelope 0 (ofNat k) []
  accepted : s.accepted.length = n
  delivered : s.delivered.length = n

theorem adaptWindowOnDelivery_frame (c : Channel) : c.adaptWindowOnDelivery.txRing = c.txRing ∧
      c.adaptWindowOnDelivery.nextSequence = c.nextSequence ∧
      c.adaptWindowOnDelivery.window = c.window := by
  unfold adaptWindowOnDelivery
  dsimp only
  split_ifs <;> exact ⟨rfl, rfl, rfl⟩

theorem unpackEnvelope_empty (sequence : UInt16) :
    unpackEnvelope (packEnvelope 0 sequence []) = .ok (0, sequence, []) := by
  rw [unpackEnvelope_packEnvelope, take_nil]

variable {n : ℕ} {held : List Envelope}

theorem Settled.send (h : s.Settled n held) :
    let after := (machine.step s (.send 0 [] 0 500)).1
    after.sender = { s.sender with
      nextSequence := ofNat (n + 1)
      txRing := [⟨ofNat n, packEnvelope 0 (ofNat n) [], 1, 0, false⟩] } ∧
      after.receiver = s.receiver ∧
      after.emitted = (range (n + 1)).map (fun k => packEnvelope 0 (ofNat k) []) ∧
      after.accepted.length = n + 1 ∧ after.delivered.length = n := by
  have hready : s.sender.isReadyToSend = true := by
    simpa [Channel.isReadyToSend, h.txRing] using h.window
  have hsize : ¬(packEnvelope 0 (ofNat n) []).length > 500 := by
    simp [length_packEnvelope, channelEnvelopeOverhead]
  have hsucc : ofNat n + 1 = ofNat (n + 1) := by
    rw [ofNat_add]
    rfl
  simp only [machine, Channel.send, hready, not_true_eq_false, if_false, h.nextSequence, hsize,
    hsucc, h.txRing, nil_append]
  refine ⟨trivial, trivial, ?_, ?_, h.delivered⟩
  · rw [h.emitted, range_succ, map_append]
    rfl
  · rw [length_append, h.accepted]
    rfl

theorem receive_next (c : Channel) (hhead : ∀ e ∈ c.rxRing, e.sequence ≠ c.nextRxSequence) :
    c.receive (packEnvelope 0 c.nextRxSequence []) =
      let (next, ring, actions) := collect (c.nextRxSequence + 1) c.rxRing
      ({ c with nextRxSequence := next, rxRing := ring },
        .messageReceived 0 [] c.nextRxSequence :: actions) := by
  have hbehind : c.isBehindRxWindow c.nextRxSequence = false := by
    simp [isBehindRxWindow]
  have hnew : c.rxRing.any (·.sequence = c.nextRxSequence) = false := by
    simpa using hhead
  have hfront : ∀ envelope : Envelope, envelope.sequence = c.nextRxSequence →
      emplaceRx c.nextRxSequence envelope c.rxRing = envelope :: c.rxRing := by
    intro envelope hseq
    cases hring : c.rxRing with
    | nil => rfl
    | cons e ring =>
      have hne : e.sequence ≠ c.nextRxSequence := hhead e (hring ▸ mem_cons_self)
      have hpos : (0 : UInt16) < e.sequence - c.nextRxSequence :=
        UInt16.pos_iff_ne_zero.mpr fun h => hne (by grind)
      rw [emplaceRx, hseq, if_neg hne.symm, UInt16.sub_self, if_pos hpos]
  simp only [receive, unpackEnvelope_empty, hbehind, hnew, hfront, collect,
    Bool.false_eq_true, if_false, if_true]

theorem step_receive_next {raw : Bytes} (hraw : s.emitted[n]? = some raw)
    (hopen : raw = packEnvelope 0 s.receiver.nextRxSequence [])
    (hheld : ∀ e ∈ s.receiver.rxRing, e.sequence ≠ s.receiver.nextRxSequence) :
    (machine.step s (.receive n)).1 =
      let (next, ring, actions) :=
        collect (s.receiver.nextRxSequence + 1) s.receiver.rxRing
      { s with
        receiver := { s.receiver with nextRxSequence := next, rxRing := ring }
        delivered := s.delivered ++ (0, []) :: messages actions } := by
  simp only [machine, hraw, hopen, receive_next s.receiver hheld]
  rfl

theorem packetDelivered_only {c : Channel} (hring : c.txRing = [envelope])
    (hwindow : 0 < c.window) :
    let after := c.packetDelivered envelope.sequence
    after.txRing = [] ∧ after.nextSequence = c.nextSequence ∧ 0 < after.window := by
  have hgrown : ∀ bound : UInt16, c.window < bound → 0 < c.window + 1 := by
    intro bound hbound
    grind
  simp only [packetDelivered, hring, any_cons, decide_true, Bool.true_or, if_true,
    adaptWindowOnDelivery_frame]
  by_cases hmax : c.window < c.windowMax
  · simp [hmax, hgrown c.windowMax hmax]
  · simp [hmax, hwindow]

theorem collect_of_ne {next : UInt16} (h : ∀ e ∈ ring, e.sequence ≠ next) :
    collect next ring = (next, ring, []) := by
  cases ring with
  | nil => rfl
  | cons e ring => rw [collect, if_neg (h e mem_cons_self)]

theorem Settled.round (h : s.Settled n held)
    (hheld : ∀ e ∈ held, e.sequence ≠ ofNat n ∧ e.sequence ≠ ofNat (n + 1)) :
    (machine.run s (round n)).1.Settled (n + 1) held := by
  obtain ⟨hsender, hreceiver, hemitted, haccepted, hdelivered⟩ := h.send
  change (machine.step (machine.step (machine.step s (.send 0 [] 0 500)).1 (.receive n)).1
    (.packetDelivered (ofNat n))).1.Settled (n + 1) held
  generalize (machine.step s (.send 0 [] 0 500)).1 = sent at *
  have hnext : sent.receiver.nextRxSequence = ofNat n := hreceiver ▸ h.nextRxSequence
  have hring : sent.receiver.rxRing = held := hreceiver ▸ h.rxRing
  have hsucc : ofNat n + 1 = ofNat (n + 1) := by
    rw [ofNat_add]
    rfl
  have hraw : sent.emitted[n]? = some (packEnvelope 0 sent.receiver.nextRxSequence []) := by
    rw [hemitted, hnext]
    simp
  rw [step_receive_next hraw rfl (hring ▸ hnext ▸ fun e he => (hheld e he).1), hnext, hring, hsucc,
    collect_of_ne fun e he => (hheld e he).2]
  obtain ⟨htx, hseq, hwindow⟩ := packetDelivered_only (c := sent.sender) (congrArg _ hsender)
    (hsender ▸ h.window)
  exact ⟨htx, hwindow, hseq.trans (hsender ▸ rfl), rfl, rfl, hemitted, haccepted, by
    simp [messages, hdelivered, machine]⟩

theorem Settled.rounds (h : s.Settled n held) (count : ℕ)
    (hheld : ∀ e ∈ held, ∀ k, n ≤ k → k ≤ n + count → e.sequence ≠ ofNat k) :
    (machine.run s (rounds n count)).1.Settled (n + count) held := by
  induction count generalizing s n with
  | zero => exact h
  | succ count ih =>
    have hfirst := h.round fun e he =>
      ⟨hheld e he n le_rfl (by omega), hheld e he (n + 1) (by omega) (by omega)⟩
    have hrest := ih hfirst fun e he k hle hle' => hheld e he k (by omega) (by omega)
    rw [Nat.add_right_comm] at hrest
    rw [rounds, range'_succ, flatMap_cons, machine.run_append]
    exact hrest

def duplicate : Envelope :=
  ⟨65535, packEnvelope 0 65535 [], 0, 0, false⟩

theorem Settled.keep_duplicate (h : s.Settled 65536 []) :
    (machine.step s (.receive 65535)).1.Settled 65536 [duplicate] := by
  have hraw : s.emitted[65535]? = some (packEnvelope 0 65535 []) := by
    rw [h.emitted]
    simp
  have hnext : s.receiver.nextRxSequence = 0 := h.nextRxSequence
  have hkeep : s.receiver.receive (packEnvelope 0 65535 []) =
      ({ s.receiver with nextRxSequence := 0, rxRing := [duplicate] }, []) := by
    simp only [receive, unpackEnvelope_empty, isBehindRxWindow, hnext, h.rxRing]
    rfl
  simp only [machine, hraw, hkeep]
  exact { h with
    rxRing := rfl
    nextRxSequence := rfl
    delivered := by simpa [messages] using h.delivered }

/-- It is handed on once the messages up to sequence number 65534 are, and before the message that
has its number was sent. -/
theorem Settled.deliver_duplicate (h : s.Settled 131070 [duplicate]) :
    let after := (machine.run s [.send 0 [] 0 500, .receive 131070]).1
    after.accepted.length = 131071 ∧ after.delivered.length = 131072 := by
  obtain ⟨-, hreceiver, hemitted, haccepted, hdelivered⟩ := h.send
  change (machine.step (machine.step s (.send 0 [] 0 500)).1 (.receive 131070)).1.accepted.length =
    131071 ∧
    (machine.step (machine.step s (.send 0 [] 0 500)).1 (.receive 131070)).1.delivered.length =
    131072
  generalize (machine.step s (.send 0 [] 0 500)).1 = sent at *
  have hnext : sent.receiver.nextRxSequence = 65534 := hreceiver ▸ h.nextRxSequence
  have hring : sent.receiver.rxRing = [duplicate] := hreceiver ▸ h.rxRing
  have hraw : sent.emitted[131070]? = some (packEnvelope 0 sent.receiver.nextRxSequence []) := by
    rw [hemitted, hnext]
    simp
  have hheld : ∀ e ∈ sent.receiver.rxRing, e.sequence ≠ sent.receiver.nextRxSequence := by
    rw [hring, hnext]
    decide
  have hcollect : collect (65534 + 1) [duplicate] =
      (0, [], [.messageReceived 0 [] 65535]) := by
    decide
  rw [step_receive_next hraw rfl hheld, hnext, hring, hcollect]
  exact ⟨haccepted, by simp [messages, hdelivered]⟩

theorem settled_new : (new 1 1).Settled 0 [] :=
  ⟨rfl, by decide +kernel, rfl, rfl, rfl, rfl, rfl, rfl⟩

theorem duplicate_sequence_ne {k : ℕ} (hle : 65536 ≤ k) (hle' : k ≤ 131070) :
    duplicate.sequence ≠ ofNat k := by
  intro hseq
  have hmod := congrArg toNat hseq
  rw [UInt16.toNat_ofNat', show duplicate.sequence.toNat = 65535 from rfl] at hmod
  omega

variable {events : List Event}

theorem not_prefix_of_settled (h : (machine.run s events).1.Settled 131070 [duplicate]) :
    let after := (machine.run s (events ++ [.send 0 [] 0 500, .receive 131070])).1
    ¬after.delivered <+: after.accepted := by
  obtain ⟨haccepted, hdelivered⟩ := h.deliver_duplicate
  rw [machine.run_append]
  intro after hle
  have hlength := hle.length_le
  rw [haccepted, hdelivered] at hlength
  omega

theorem settled_kept (h : (machine.run s events).1.Settled 65536 []) :
    (machine.run s (events ++ [.receive 65535])).1.Settled 65536 [duplicate] := by
  rw [machine.run_append]
  exact h.keep_duplicate

theorem settled_after {total : ℕ} (h : (machine.run s events).1.Settled n held) (count : ℕ)
    (htotal : n + count = total)
    (hheld : ∀ e ∈ held, ∀ k, n ≤ k → k ≤ total → e.sequence ≠ ofNat k) :
    (machine.run s (events ++ rounds n count)).1.Settled total held := by
  subst htotal
  rw [machine.run_append]
  exact h.rounds count hheld

theorem duplicate_delivered_again :
    let after := (machine.run (new 1 1)
      (rounds 0 65536 ++ [.receive 65535] ++ rounds 65536 65534 ++
        [.send 0 [] 0 500, .receive 131070])).1
    ¬after.delivered <+: after.accepted := by
  have hwrapped := settled_new.rounds 65536 nofun
  rw [Nat.zero_add] at hwrapped
  refine not_prefix_of_settled (settled_after (settled_kept hwrapped) 65534 (by omega)
    fun e he k hle hle' => ?_)
  rw [List.mem_singleton.mp he]
  exact duplicate_sequence_ne hle hle'

end ChannelPair

end Rns

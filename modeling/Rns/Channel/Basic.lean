import Mathlib
import Rns.Lib.Bytes

/-!
# Channels

Reliable messages over a link.  Sequence numbers are 16-bit words, so that all arithmetic on them wraps.
-/

namespace Rns

open Bytes

/-! ## Envelopes -/

inductive ChannelError where
  | notReady
  | messageTooBig
  | invalidEnvelope
  deriving Repr, DecidableEq

def ChannelError.display : ChannelError → String
  | .notReady => "Channel is not ready to send"
  | .messageTooBig => "Message too big for packet"
  | .invalidEnvelope => "Invalid envelope data"

def channelEnvelopeOverhead : ℕ := 6

/-- `pack_envelope`: the length is cut to 16 bits. -/
def packEnvelope (msgtype sequence : UInt16) (payload : Bytes) : Bytes :=
  be16 msgtype.toNat ++ be16 sequence.toNat ++ be16 payload.length ++ payload

def unpackEnvelope (raw : Bytes) : Except ChannelError (UInt16 × UInt16 × Bytes) :=
  if raw.length < channelEnvelopeOverhead then .error .invalidEnvelope
  else
    let msgtype := UInt16.ofNat (readBe16 raw 0)
    let sequence := UInt16.ofNat (readBe16 raw 2)
    let length := readBe16 raw 4
    let payload := raw.drop channelEnvelopeOverhead
    if payload.length < length then .error .invalidEnvelope
    else .ok (msgtype, sequence, payload.take length)

theorem length_packEnvelope (msgtype sequence : UInt16) (payload : Bytes) :
    (packEnvelope msgtype sequence payload).length = channelEnvelopeOverhead + payload.length := by
  simp [packEnvelope, channelEnvelopeOverhead]
  omega

/-- An envelope opens to its type, its sequence number and as much of the payload as its length
field says. -/
theorem unpackEnvelope_packEnvelope (msgtype sequence : UInt16) (payload : Bytes) :
    unpackEnvelope (packEnvelope msgtype sequence payload) =
      .ok (msgtype, sequence, payload.take (payload.length % 65536)) := by
  have hshort : ¬(packEnvelope msgtype sequence payload).length < channelEnvelopeOverhead := by
    rw [length_packEnvelope]
    omega
  have htype : readBe16 (packEnvelope msgtype sequence payload) 0 = msgtype.toNat := by
    simp only [packEnvelope, List.append_assoc]
    rw [readBe16_be16, Nat.mod_eq_of_lt msgtype.toNat_lt]
  have hseq : readBe16 (packEnvelope msgtype sequence payload) 2 = sequence.toNat := by
    have hread := readBe16_append (be16 msgtype.toNat)
      (be16 sequence.toNat ++ (be16 payload.length ++ payload))
    rw [readBe16_be16, Nat.mod_eq_of_lt sequence.toNat_lt] at hread
    simpa [packEnvelope] using hread
  have hlen : readBe16 (packEnvelope msgtype sequence payload) 4 = payload.length % 65536 := by
    have hread := readBe16_append (be16 msgtype.toNat ++ be16 sequence.toNat)
      (be16 payload.length ++ payload)
    rw [readBe16_be16] at hread
    simpa [packEnvelope] using hread
  have hdrop : (packEnvelope msgtype sequence payload).drop channelEnvelopeOverhead = payload :=
    List.drop_left' (by simp [channelEnvelopeOverhead])
  have hle : ¬payload.length < payload.length % 65536 := Nat.not_lt.mpr (Nat.mod_le _ _)
  simp only [unpackEnvelope, hshort, htype, hseq, hlen, hdrop, hle, if_false, UInt16.ofNat_toNat]

/-! ## The channel -/

structure Envelope where
  sequence : UInt16
  raw : Bytes
  tries : UInt8
  sentAt : ℚ
  delivered : Bool
  deriving DecidableEq

inductive ChannelAction where
  | sendOnLink (raw : Bytes) (sequence : UInt16)
  | messageReceived (msgtype : UInt16) (payload : Bytes) (sequence : UInt16)
  | teardownLink
  deriving DecidableEq

structure Channel where
  txRing : List Envelope
  rxRing : List Envelope
  nextSequence : UInt16
  nextRxSequence : UInt16
  window : UInt16
  windowMax : UInt16
  windowMin : UInt16
  windowFlexibility : UInt16
  fastRateRounds : UInt16
  mediumRateRounds : UInt16
  maxTries : UInt8
  rtt : ℚ
  deriving DecidableEq

namespace Channel

def rttFast : ℚ := 18 / 100

def rttMedium : ℚ := 75 / 100

def rttSlow : ℚ := 145 / 100

def windowMaxMedium : UInt16 := 12

def windowMaxFast : UInt16 := 48

/-- `CHANNEL_FAST_RATE_THRESHOLD`. -/
def fastRateThreshold : UInt16 := 10

def new (initialRtt : ℚ) : Channel :=
  let (window, windowMax, windowMin, windowFlexibility) :=
    if initialRtt > rttSlow then (1, 1, 1, 1) else (2, 5, 2, 4)
  { txRing := []
    rxRing := []
    nextSequence := 0
    nextRxSequence := 0
    window
    windowMax
    windowMin
    windowFlexibility
    fastRateRounds := 0
    mediumRateRounds := 0
    maxTries := 5
    rtt := initialRtt }

variable (c : Channel) (sequence : UInt16) (now : ℚ)

def isReadyToSend : Bool :=
  UInt16.ofNat (c.txRing.filter (!·.delivered)).length < c.window

def send (msgtype : UInt16) (payload : Bytes) (now : ℚ) (linkMdu : ℕ) :
    Except ChannelError (Channel × List ChannelAction) :=
  if ¬c.isReadyToSend then .error .notReady
  else
    let sequence := c.nextSequence
    let raw := packEnvelope msgtype sequence payload
    if raw.length > linkMdu then .error .messageTooBig
    else .ok ({ c with
      nextSequence := c.nextSequence + 1
      txRing := c.txRing ++ [⟨sequence, raw, 1, now, false⟩] }, [.sendOnLink raw sequence])

/-- `is_behind_rx_window`: below the next sequence number, and not so far below that it counts as
ahead across the wrap. -/
def isBehindRxWindow : Bool :=
  if sequence < c.nextRxSequence then
    let overflow := c.nextRxSequence + windowMaxFast
    if overflow < c.nextRxSequence then sequence > overflow else true
  else false

/-- `emplace_rx`: in the order of the distance from the next sequence number. -/
def emplaceRx (nextRxSequence : UInt16) (envelope : Envelope) : List Envelope → List Envelope
  | [] => [envelope]
  | existing :: ring =>
    if envelope.sequence = existing.sequence then existing :: ring
    else if envelope.sequence - nextRxSequence < existing.sequence - nextRxSequence then
      envelope :: existing :: ring
    else existing :: emplaceRx nextRxSequence envelope ring

/-- The loop of `collect_contiguous`: the next sequence number, the ring and the actions. -/
def collect (nextRxSequence : UInt16) : List Envelope → UInt16 × List Envelope × List ChannelAction
  | [] => (nextRxSequence, [], [])
  | envelope :: ring =>
    if envelope.sequence = nextRxSequence then
      let (next, ring, actions) := collect (nextRxSequence + 1) ring
      match unpackEnvelope envelope.raw with
      | .ok (msgtype, _, payload) =>
        (next, ring, .messageReceived msgtype payload envelope.sequence :: actions)
      | .error _ => (next, ring, actions)
    else (nextRxSequence, envelope :: ring, [])

def receive (raw : Bytes) : Channel × List ChannelAction :=
  match unpackEnvelope raw with
  | .error _ => (c, [])
  | .ok (_, sequence, _) =>
    if c.isBehindRxWindow sequence then (c, [])
    else if c.rxRing.any (·.sequence = sequence) then (c, [])
    else
      let ring := emplaceRx c.nextRxSequence ⟨sequence, raw, 0, 0, false⟩ c.rxRing
      let (nextRxSequence, rxRing, actions) := collect c.nextRxSequence ring
      ({ c with nextRxSequence, rxRing }, actions)

def adaptWindowOnDelivery : Channel :=
  if c.rtt = 0 then c
  else if c.rtt > rttFast then
    if c.rtt > rttMedium then { c with fastRateRounds := 0, mediumRateRounds := 0 }
    else
      let rounds := c.mediumRateRounds + 1
      if c.windowMax < windowMaxMedium ∧ rounds = fastRateThreshold then
        { c with
          fastRateRounds := 0, mediumRateRounds := rounds, windowMax := windowMaxMedium
          windowMin := 5 }
      else { c with fastRateRounds := 0, mediumRateRounds := rounds }
  else
    let rounds := c.fastRateRounds + 1
    if c.windowMax < windowMaxFast ∧ rounds = fastRateThreshold then
      { c with fastRateRounds := rounds, windowMax := windowMaxFast, windowMin := 16 }
    else { c with fastRateRounds := rounds }

def packetDelivered : Channel :=
  if c.txRing.any (·.sequence = sequence) then
    let c := { c with txRing := c.txRing.eraseP (·.sequence = sequence) }
    let c := if c.window < c.windowMax then { c with window := c.window + 1 } else c
    c.adaptWindowOnDelivery
  else c

/-- `packet_timeout`: one more try, or the end of the link. -/
def packetTimeout : Channel × List ChannelAction :=
  match c.txRing.find? (·.sequence = sequence) with
  | none => (c, [])
  | some envelope =>
    if envelope.tries ≥ c.maxTries then ({ c with txRing := [], rxRing := [] }, [.teardownLink])
    else
      let retried : Envelope := { envelope with tries := envelope.tries + 1, sentAt := now }
      let txRing := c.txRing.set (c.txRing.findIdx (·.sequence = sequence)) retried
      let c : Channel := { c with txRing }
      let c : Channel := if c.window > c.windowMin then
          let windowMax := if c.windowMax > c.windowMin + c.windowFlexibility then c.windowMax - 1
            else c.windowMax
          { c with window := c.window - 1, windowMax }
        else c
      (c, [.sendOnLink envelope.raw sequence])

def getPacketTimeout (tries : UInt8) : ℚ :=
  (3 / 2 : ℚ) ^ ((tries.toNat : ℤ) - 1) * max (c.rtt * (5 / 2)) (1 / 40) * (c.txRing.length + 3 / 2)

/-- The messages that `tick` finds overdue. -/
def timedOut : List UInt16 :=
  (c.txRing.filter fun e => !e.delivered ∧ now - e.sentAt ≥ c.getPacketTimeout e.tries).map (·.sequence)

/-- The loop of `tick`. -/
def timeouts (c : Channel) (now : ℚ) : List UInt16 → Channel × List ChannelAction
  | [] => (c, [])
  | sequence :: rest =>
    let (c, actions) := c.packetTimeout sequence now
    let (c, more) := c.timeouts now rest
    (c, actions ++ more)

def tick : Channel × List ChannelAction := c.timeouts now (c.timedOut now)

/-- `cancel_send`: the sequence number is used again if it was the last one. -/
def cancelSend : Channel :=
  if c.txRing.any (·.sequence = sequence) then
    let c := { c with txRing := c.txRing.eraseP (·.sequence = sequence) }
    if c.nextSequence = sequence + 1 then { c with nextSequence := sequence } else c
  else c

def flushTx : Channel := { c with txRing := [] }

def shutdown : Channel := { c with txRing := [], rxRing := [] }

end Channel

end Rns

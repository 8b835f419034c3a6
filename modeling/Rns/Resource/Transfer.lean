import Rns.Lib.Machine
import Rns.Resource.Progress

/-!
# A resource transfer

Whatever requests reach the sender, and in whatever order and however often its parts and hashmap
updates reach the receiver, a receiver that has counted all parts delivers the data of the sender.
-/

namespace Rns

open Resource ResourceAction ResourceSender ResourceReceiver

/-- The two ends of a transfer, the requests issued and neither handled nor lost yet, and the hashmap
updates sent so far. -/
structure Transfer where
  sender : ResourceSender
  receiver : ResourceReceiver
  requests : List Bytes
  hmus : List Bytes

inductive TransferEvent where
  | accept (now : ℚ)
  /-- The sender handles some request, whoever made it. -/
  | request (data : Bytes) (now : ℚ)
  /-- The sender handles the next request in the order of issue after some that are lost. -/
  | deliver (lost : ℕ) (now : ℚ)
  /-- The receiver gets a part of the sender; the same part may come again. -/
  | part (i : ℕ) (now : ℚ)
  /-- The receiver gets an update the sender has sent, in any order and again and again. -/
  | hmu (i : ℕ) (now : ℚ)
  | senderTick (now : ℚ)
  | receiverTick (now : ℚ)
  deriving DecidableEq

namespace ResourceAction

def request? : ResourceAction → Option Bytes
  | .sendRequest data => some data
  | _ => none

def hmu? : ResourceAction → Option Bytes
  | .sendHmu data => some data
  | _ => none

theorem mem_filterMap_hmu? {actions : List ResourceAction} {hmu : Bytes} :
    hmu ∈ actions.filterMap hmu? ↔ .sendHmu hmu ∈ actions := by
  rw [List.mem_filterMap]
  constructor
  · rintro ⟨action, hmem, haction⟩
    cases action <;> cases haction
    exact hmem
  · exact fun hmem => ⟨_, hmem, rfl⟩

def part? : ResourceAction → Option Bytes
  | .sendPart data => some data
  | _ => none

end ResourceAction

namespace Transfer

def start (s : ResourceSender) (r : ResourceReceiver) : Transfer := ⟨s, r, [], []⟩

def sent (t : Transfer) (out : ResourceSender × List ResourceAction) :
    Transfer × List ResourceAction :=
  ({ t with sender := out.1, hmus := t.hmus ++ out.2.filterMap hmu? }, out.2)

def received (t : Transfer) (out : ResourceReceiver × List ResourceAction) :
    Transfer × List ResourceAction :=
  ({ t with receiver := out.1, requests := t.requests ++ out.2.filterMap request? },
    out.2)

variable (P : Primitives) (decrypt : Bytes → Option Bytes) (compressor : Compressor)

def step (t : Transfer) : TransferEvent → Transfer × List ResourceAction
  | .accept now => t.received (t.receiver.accept now)
  | .request data now => t.sent (t.sender.handleRequest data now)
  | .deliver lost now => match t.requests.drop lost with
    | [] => ({ t with requests := [] }, [])
    | data :: rest => { t with requests := rest }.sent (t.sender.handleRequest data now)
  | .part i now => match t.sender.parts[i]? with
    | some part => t.received (t.receiver.receivePart P part now)
    | none => (t, [])
  | .hmu i now => match t.hmus[i]? with
    | some hmu => t.received (t.receiver.handleHashmapUpdate hmu now)
    | none => (t, [])
  | .senderTick now => t.sent (t.sender.tick now)
  | .receiverTick now => t.received (t.receiver.tick P now decrypt compressor)

def machine : Machine Transfer TransferEvent ResourceAction := ⟨step P decrypt compressor⟩

/-! ## The invariant -/

/-- The sender is still that of the resource, all updates are those of its segments, and the
receiver follows it. -/
structure Consistent (s : ResourceSender) (t : Transfer) : Prop where
  sender : s.SameResource t.sender
  minHeight_le : t.sender.receiverMinConsecutiveHeight ≤ s.totalParts
  hmus : ∀ hmu ∈ t.hmus, ∃ segment, segment * hashmapMaxLen ≤ s.totalParts ∧ hmu = s.hmu segment
  receiver : t.receiver.Follows s

variable {P decrypt compressor} {s : ResourceSender} {t : Transfer}

theorem Consistent.received (h : t.Consistent s) {out : ResourceReceiver × List ResourceAction}
    (hout : out.1.Follows s) : (t.received out).1.Consistent s :=
  { h with receiver := hout }

theorem Consistent.handleRequest (h : t.Consistent s) (requests : List Bytes) (data : Bytes) (now : ℚ) :
    (({ t with requests } : Transfer).sent (t.sender.handleRequest data now)).1.Consistent s := by
  have hsame := h.sender.trans (sameResource_handleRequest t.sender data now)
  have htotal : t.sender.totalParts = s.totalParts := congrArg List.length h.sender.parts
  have hindex : t.sender.partIndexAfter (Bytes.fixed 4 data 1) ≤ s.totalParts := by
    rw [← htotal]
    exact partIndexAfter_le (htotal ▸ h.minHeight_le) _
  have hmin := h.minHeight_le
  rcases handleRequest_cases t.sender data now with
    ⟨hheight, hnone⟩ | ⟨-, hheight, hsegment⟩
  · refine ⟨hsame, hheight ▸ hmin, fun hmu hmem => ?_, h.receiver⟩
    rcases List.mem_append.1 hmem with hold | hnew
    · exact h.hmus hmu hold
    · exact absurd (mem_filterMap_hmu?.1 hnew) (hnone hmu)
  · refine ⟨hsame, ?_, fun hmu hmem => ?_, h.receiver⟩
    · have hle : minHeightAfter (t.sender.partIndexAfter (Bytes.fixed 4 data 1)) ≤
          t.sender.partIndexAfter (Bytes.fixed 4 data 1) := by
        unfold minHeightAfter
        split_ifs <;> omega
      exact hheight ▸ hle.trans hindex
    · rcases List.mem_append.1 hmem with hold | hnew
      · exact h.hmus hmu hold
      · obtain ⟨segment, hsegment, rfl⟩ := hsegment hmu (mem_filterMap_hmu?.1 hnew)
        exact ⟨segment, hsegment ▸ hindex, h.sender.hmu segment⟩

theorem Consistent.senderTick (h : t.Consistent s) (now : ℚ) :
    (t.sent (t.sender.tick now)).1.Consistent s := by
  refine ⟨h.sender.trans (sameResource_tick ..),
    (minHeight_tick ..).trans_le h.minHeight_le, fun hmu hmem => ?_, h.receiver⟩
  rcases List.mem_append.1 hmem with hold | hnew
  · exact h.hmus hmu hold
  · exact absurd (mem_filterMap_hmu?.1 hnew) (sendHmu_notMem_tick t.sender now hmu)

theorem Consistent.step (h : t.Consistent s) (hs : s.Hashed P) (htotal : s.totalParts < 2 ^ 64)
    (e : TransferEvent) : (t.step P decrypt compressor e).1.Consistent s := by
  cases e with
  | accept now => exact h.received (h.receiver.same (sameProgress_accept _ now))
  | request data now => exact h.handleRequest ..
  | deliver lost now =>
    unfold Transfer.step
    dsimp only
    split
    · exact { h with }
    · exact h.handleRequest _ _ now
  | part i now =>
    unfold Transfer.step
    dsimp only
    split
    · next part hpart =>
      rw [h.sender.parts] at hpart
      exact h.received (h.receiver.receivePart hs hpart now)
    · exact h
  | hmu i now =>
    unfold Transfer.step
    dsimp only
    split
    · next hmu hsent =>
      obtain ⟨segment, hsegment, rfl⟩ := h.hmus hmu (List.mem_of_getElem? hsent)
      have hlt : segment < 2 ^ 64 := by
        simp only [hashmapMaxLen] at hsegment
        omega
      exact h.received (h.receiver.handleHashmapUpdate (hs.length_partHashes ▸ htotal) hlt now)
    · exact h
  | senderTick now => exact h.senderTick now
  | receiverTick now =>
    exact h.received (h.receiver.same (sameProgress_tick _ P now decrypt compressor))

theorem step_status (t : Transfer) {e : TransferEvent} (halive : t.sender.status ≠ .failed)
    (he : ∀ now, e ≠ .senderTick now) : (t.step P decrypt compressor e).1.sender.status ≠ .failed := by
  have hrequest := handleRequest_status halive
  cases e with
  | accept now => exact halive
  | request data now => exact hrequest data now
  | deliver lost now =>
    unfold step
    dsimp only
    split
    · exact halive
    · exact hrequest _ now
  | part | hmu =>
    unfold step
    dsimp only
    split <;> exact halive
  | senderTick now => exact absurd rfl (he now)
  | receiverTick now => exact halive

theorem run_status {t : Transfer} {events : List TransferEvent} (halive : t.sender.status ≠ .failed)
    (hevents : ∀ now, .senderTick now ∉ events) :
    ((machine P decrypt compressor).run t events).1.sender.status ≠ .failed := by
  induction events generalizing t with
  | nil => exact halive
  | cons e events ih =>
    rw [Machine.run_cons]
    refine ih (step_status t halive ?_) ?_
    · rintro now rfl
      exact hevents now (by simp)
    · exact fun now hmem => hevents now (by simp [hmem])

theorem run_consistent (hs : s.Hashed P) (htotal : s.totalParts < 2 ^ 64) (h : t.Consistent s)
    (events : List TransferEvent) :
    ((machine P decrypt compressor).run t events).1.Consistent s := by
  induction events generalizing t with
  | nil => exact h
  | cons e events ih => exact ih (h.step hs htotal e)

theorem consistent_start (hs : s.Advertisable) (advertised : ℚ) {r : ResourceReceiver}
    {sdu : ℕ} {linkRtt now : ℚ} {previousWindow : Option ℕ} {previousEifr : Option ℚ}
    (hreceiver : fromAdvertisement (s.getAdvertisement 0) sdu linkRtt now
      previousWindow previousEifr = .ok r) : (start (s.advertise advertised).1 r).Consistent s := by
  refine ⟨?_, ?_, by simp [start], follows_of_advertisement hs hreceiver⟩
  · constructor <;> rfl
  · exact hs.minHeight.trans_le (Nat.zero_le _)

/-- In every run with the receiver of an advertised resource, once all parts are counted, `assemble`
delivers the original data and metadata, and the proof it sends completes a sender that has not timed
out. -/
theorem transfer_delivers {i : ResourceSender.Input} {s : ResourceSender} {r : ResourceReceiver}
    {sdu : ℕ} {linkRtt now : ℚ} {previousWindow : Option ℕ} {previousEifr : Option ℚ}
    (hnew : ResourceSender.new P i = .ok s) (hsdu : 0 < i.sdu)
    (hmetadata : ∀ metadata, i.metadata = some metadata →
      metadata.length < 2 ^ 24 ∧ i.segmentIndex = 1)
    (hrequestId : ∀ id, i.requestId = some id → id.length < 2 ^ 32)
    (hdecrypt : ∀ data, decrypt (i.encrypt data) = some data) (hcompressor : i.compressor.Inverts)
    (hnodup : s.partHashes.Nodup) (hsize : s.transferSize ≤ autoCompressMaxSize)
    (hreceiver : ResourceReceiver.fromAdvertisement (s.getAdvertisement 0) sdu linkRtt now
      previousWindow previousEifr = .ok r)
    (advertised : ℚ) (events : List TransferEvent) :
    let t := ((machine P decrypt i.compressor).run (start (s.advertise advertised).1 r) events).1
    t.receiver.receivedCount = t.receiver.totalParts →
      ∃ proof, (t.receiver.assemble P decrypt i.compressor).2 =
          [.sendProof proof, .dataReceived i.data i.metadata, .completed] ∧
        (t.sender.status ≠ .failed → (t.sender.handleProof proof).2 = [.completed]) ∧
        (t.sender.status = .failed → ∃ now, .senderTick now ∈ events) := by
  intro t hall
  obtain ⟨k, rfl⟩ := ResourceSender.eq_of_new hnew
  have hhashed := ResourceSender.hashed_ofRandom hnodup
  have hadvertisable := ResourceSender.advertisable_ofRandom hsdu hsize hrequestId
  have hstart := consistent_start hadvertisable advertised hreceiver
  have hend : t.Consistent _ := run_consistent hhashed hadvertisable.totalParts hstart events
  refine ⟨_, ResourceReceiver.assemble_of_follows hend.receiver hall hsdu hdecrypt hcompressor
    hmetadata, fun halive => ?_, fun hfailed => ?_⟩
  · rw [ResourceSender.handleProof, if_neg halive, hend.sender.expectedProof,
      validateProof_buildProofData]
  · by_contra hnone
    refine run_status ?_ (not_exists.1 hnone) hfailed
    simp [start, ResourceSender.advertise]

/-- A resource of three parts, sent without encryption. -/
def sampleInput : Input where
  data := [1, 2]
  metadata := some [5]
  sdu := 4
  encrypt := id
  compressor := .noop
  random n := if n = 0 then #v[9, 9, 9, 9] else #v[7, 7, 7, 7]
  now := 0
  autoCompress := true
  isResponse := false
  requestId := none
  segmentIndex := 1
  totalSegments := 1
  originalHash := none
  linkRtt := 1
  trafficTimeoutFactor := 6

def sampleSender : ResourceSender := .ofRandom .sample sampleInput [7, 7, 7, 7]

def sampleReceiver : ResourceReceiver :=
  .ofAdvertisement sampleSender.advertisement (sampleSender.getAdvertisement 0) 4 1 0 none none

def sampleRun : List TransferEvent :=
  [.accept 1, .deliver 0 2, .part 2 3, .part 0 3, .part 2 3, .part 1 4]

theorem new_sampleInput : new .sample sampleInput = .ok sampleSender := rfl

theorem fromAdvertisement_sampleSender : fromAdvertisement
    (sampleSender.getAdvertisement 0) 4 1 0 none none = .ok sampleReceiver := by
  decide +kernel

theorem transfer_delivers_sample :
    let t := ((machine .sample some sampleInput.compressor).run
      (start (sampleSender.advertise 0).1 sampleReceiver) sampleRun).1
    ∃ proof, (t.receiver.assemble .sample some sampleInput.compressor).2 =
        [.sendProof proof, .dataReceived [1, 2] (some [5]), .completed] ∧
      (t.sender.status ≠ .failed → (t.sender.handleProof proof).2 = [.completed]) ∧
      (t.sender.status = .failed → ∃ now, .senderTick now ∈ sampleRun) := by
  have hmetadata : ∀ metadata, sampleInput.metadata = some metadata →
      metadata.length < 2 ^ 24 ∧ sampleInput.segmentIndex = 1 := by
    simp [sampleInput]
  exact transfer_delivers new_sampleInput (by decide) hmetadata (by simp [sampleInput])
    (fun _ => rfl) (fun _ _ _ h => nomatch h) (by decide +kernel) (by decide +kernel)
    fromAdvertisement_sampleSender 0 sampleRun (by decide +kernel)

end Transfer

end Rns

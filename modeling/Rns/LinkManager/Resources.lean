import Rns.LinkManager.Basic

/-!
# The link manager: resources

How a link starts a resource, in segments if it is large, and what it does with the packets of a
transfer.  A packet is offered to the transfers one after the other, until one answers.
-/

namespace Rns

open Resource ResourceSender

/-- The transfers that are not skipped are offered a packet until one answers with an action; the
position of that one, its state before and its actions. -/
def offer {α : Type*} (skip : α → Bool) (handle : α → α × List ResourceAction) :
    List α → List α × Option (ℕ × α × List ResourceAction)
  | [] => ([], none)
  | transfer :: rest =>
    let (transfer', actions) := if skip transfer then (transfer, []) else handle transfer
    if actions = [] then
      let (rest, answer) := offer skip handle rest
      (transfer' :: rest, answer.map fun (i, before, actions) => (i + 1, before, actions))
    else (transfer' :: rest, some (0, transfer, actions))

def ResourceSender.waitsForTurn (s : ResourceSender) : Bool := s.flags.split ∧ s.status = .queued

def ResourceReceiver.ended (r : ResourceReceiver) : Bool :=
  r.status.code ≥ ResourceStatus.complete.code

def splitProgressParts (segmentIndex totalSegments : UInt64) (currentDone currentTotal sdu : ℕ) :
    ℕ × ℕ :=
  let maxParts := (resourceMaxEfficientSize + max sdu 1 - 1) / max sdu 1
  let total := totalSegments.toNat * maxParts
  let completed := (segmentIndex.toNat - 1) * maxParts
  let current :=
    if currentTotal = 0 then 0
    else if currentTotal < maxParts then currentDone * maxParts / currentTotal
    else currentDone
  (min (completed + current) total, total)

def IncomingSplitTransfer.progress (split : IncomingSplitTransfer) (sdu : ℕ) : ℕ × ℕ :=
  splitProgressParts split.currentSegmentIndex split.totalSegments split.currentReceivedParts
    split.currentTotalParts sdu

/-- A split transfer with the data of one more segment. -/
def IncomingSplitTransfer.add (split : IncomingSplitTransfer) (r : ResourceReceiver) (data : Bytes)
    (metadata : Option Bytes) : IncomingSplitTransfer :=
  { split with
    data := split.data ++ data
    metadata := if metadata.isSome then metadata else split.metadata
    completedSegments := r.segmentIndex
    currentSegmentIndex := r.segmentIndex
    currentReceivedParts := r.totalParts
    currentTotalParts := r.totalParts }

def OutgoingSplitTransfer.progress (split : OutgoingSplitTransfer) (sdu : ℕ) : ℕ × ℕ :=
  splitProgressParts split.currentSegmentIndex split.totalSegments split.currentSentParts
    split.currentTotalParts sdu

def resourceHashKey (hash : Bytes) : Option Hash32 :=
  if hash.length = 32 then some (Bytes.fixed 32 hash 0) else none

/-- The request id and the data of a response that came in a packet. -/
def packetResponse (plaintext : Bytes) : Option (Hash16 × Bytes) :=
  match Msgpack.unpackExact plaintext with
  | .ok (.array (.bin requestId :: value :: _)) =>
    if requestId.length = 16 then some (Bytes.fixed 16 requestId 0, Msgpack.pack value) else none
  | _ => none

/-- `handle_response`: what is not in the form of a packet response answers the request that its
resource names. -/
def handleResponse (linkId : LinkId) (plaintext : Bytes) (metadata : Option Bytes)
    (resourceRequestId : Option Hash16) : List LinkManagerAction :=
  match packetResponse plaintext with
  | some (requestId, data) => [.responseReceived linkId requestId data metadata]
  | none => match resourceRequestId with
    | some requestId =>
      [.responseReceived linkId requestId (Msgpack.pack (.bin plaintext)) metadata]
    | none => []

def responseRequestId (requestId : Option Bytes) : Option Hash16 :=
  requestId.bind fun bytes => if bytes.length = 16 then some (Bytes.fixed 16 bytes 0) else none

variable (P : Primitives) (E : LinkEnv)

namespace ManagedLink

/-! ## Sending -/

variable (l : ManagedLink) (linkId : LinkId) (plaintext : Bytes) (receiver : ResourceReceiver)
  (rng : Entropy)

/-- What the sender of a segment is made from. -/
def senderInput (data : Bytes) (metadata : Option Bytes) (autoCompress isResponse : Bool)
    (requestId : Option Bytes) (segmentIndex totalSegments : ℕ) (originalHash : Option Hash32)
    (rng : Entropy) (now : ℚ) : Input where
  data
  metadata
  sdu := l.resourceSduForLink
  encrypt plaintext := (l.encrypt E (rng.resourceIv segmentIndex) plaintext).getD plaintext
  compressor := E.compressor
  random := rng.resourceRandom segmentIndex
  now
  autoCompress
  isResponse
  requestId
  segmentIndex := .ofNat segmentIndex
  totalSegments := .ofNat totalSegments
  originalHash
  linkRtt := l.engine.rtt.getD 1
  trafficTimeoutFactor := 6

/-- The loop of `build_resource_senders`: the segments after the first. -/
def buildFurtherSenders (l : ManagedLink) (autoCompress isResponse : Bool) (requestId : Option Bytes)
    (totalSegments logicalSize : ℕ) (hasMetadata : Bool) (originalHash : Hash32) (rng : Entropy)
    (now : ℚ) : ℕ → List Bytes → Except ResourceError (List ResourceSender)
  | _, [] => .ok []
  | segmentIndex, data :: rest => do
    let sender ← new P (l.senderInput E data none autoCompress isResponse requestId
      segmentIndex totalSegments (some originalHash) rng now)
    let sender := { sender with
      dataSize := logicalSize
      flags := { sender.flags with hasMetadata } }
    let senders ← buildFurtherSenders l autoCompress isResponse requestId totalSegments logicalSize
      hasMetadata originalHash rng now (segmentIndex + 1) rest
    return sender :: senders

def chunks (size : ℕ) (data : Bytes) : List Bytes :=
  (List.range ((data.length + size - 1) / size)).map fun i => (data.drop (i * size)).take size

def buildResourceSenders (data : Bytes) (metadata : Option Bytes) (autoCompress isResponse : Bool)
    (requestId : Option Bytes) (rng : Entropy) (now : ℚ) :
    Except ResourceError (List ResourceSender) :=
  let metadataOverhead := (metadata.map fun m => 3 + m.length).getD 0
  let logicalSize := metadataOverhead + data.length
  if logicalSize ≤ resourceMaxEfficientSize then do
    let sender ← new P (l.senderInput E data metadata autoCompress isResponse requestId
      1 1 none rng now)
    return [sender]
  else if metadataOverhead > resourceMaxEfficientSize then .error .tooLarge
  else do
    let firstPayloadLen := min data.length (resourceMaxEfficientSize - metadataOverhead)
    let rest := chunks resourceMaxEfficientSize (data.drop firstPayloadLen)
    let totalSegments := 1 + rest.length
    let first ← new P (l.senderInput E (data.take firstPayloadLen) metadata autoCompress
      isResponse requestId 1 totalSegments none rng now)
    let senders ← l.buildFurtherSenders P E autoCompress isResponse requestId totalSegments logicalSize
      metadata.isSome first.originalHash rng now 2 rest
    return { first with dataSize := logicalSize } :: senders

/-- `start_resource_senders`: the first segment is advertised, the others wait. -/
def startResourceSenders (senders : List ResourceSender) (now : ℚ) :
    ManagedLink × List ResourceAction :=
  match senders with
  | [] => (l, [])
  | first :: rest =>
    let (first, actions) := first.advertise now
    let split : OutgoingSplitTransfer :=
      ⟨first.totalSegments, 0, first.segmentIndex, 0, first.totalParts⟩
    ({ l with
        outgoingSplits := if first.totalSegments > 1 then l.outgoingSplits.insert first.originalHash split
          else l.outgoingSplits
        outgoingResources := l.outgoingResources ++ first :: rest },
      actions)

def sendResourceWithAutoCompress (data : Bytes) (metadata : Option Bytes) (autoCompress : Bool)
    (rng : Entropy) (now : ℚ) : ManagedLink × List LinkManagerAction :=
  if l.engine.state ≠ .active then (l, [])
  else match l.buildResourceSenders P E data metadata autoCompress false none rng now with
    | .error _ => (l, [])
    | .ok senders =>
      let (l, actions) := l.startResourceSenders senders now
      l.processResourceActions P E linkId rng actions

/-! ## Receiving -/

def acceptReceiver (now : ℚ) : ManagedLink × List LinkManagerAction :=
  let (receiver, actions) := receiver.accept now
  { l with incomingResources := l.incomingResources ++ [receiver] }.processResourceActions P E linkId rng
    actions

def rejectReceiver : ManagedLink × List LinkManagerAction :=
  l.processResourceActions P E linkId rng receiver.reject.2

/-- The state of a split transfer before its first segment. -/
def newSplit (r : ResourceReceiver) : IncomingSplitTransfer where
  totalSegments := r.totalSegments
  completedSegments := 0
  currentSegmentIndex := r.segmentIndex
  currentReceivedParts := 0
  currentTotalParts := r.totalParts
  data := []
  metadata := none
  isResponse := r.flags.isResponse

def openSplit (originalHash : Hash32) (r : ResourceReceiver) : ManagedLink :=
  if r.flags.split then
    { l with incomingSplits := l.incomingSplits.insert originalHash (newSplit r) }
  else l

/-- `handle_resource_adv`, for the receiver it makes: a further segment is accepted in its turn, a
response always, and anything else by the strategy of the link. -/
def admitReceiver (originalHash : Hash32) (rng : Entropy) (now : ℚ) :
    ManagedLink × List LinkManagerAction :=
  if receiver.flags.split ∧ receiver.segmentIndex > 1 then
    match l.incomingSplits[originalHash]? with
    | some split =>
      if split.completedSegments + 1 = receiver.segmentIndex ∧
          split.totalSegments = receiver.totalSegments then
        let split := { split with
          currentSegmentIndex := receiver.segmentIndex
          currentReceivedParts := 0
          currentTotalParts := receiver.totalParts }
        { l with incomingSplits := l.incomingSplits.insert originalHash split }.acceptReceiver P E linkId
          receiver rng now
      else l.rejectReceiver P E linkId receiver rng
    | none => l.rejectReceiver P E linkId receiver rng
  else if receiver.flags.isResponse then
    (l.openSplit originalHash receiver).acceptReceiver P E linkId receiver rng now
  else match l.resourceStrategy with
    | .acceptNone => l.rejectReceiver P E linkId receiver rng
    | .acceptAll => (l.openSplit originalHash receiver).acceptReceiver P E linkId receiver rng now
    | .acceptApp => ({ l with incomingResources := l.incomingResources ++ [receiver] },
        [.resourceAcceptQuery linkId receiver.resourceHash receiver.transferSize receiver.hasMetadata])

def handleResourceAdv (advPlaintext : Bytes) (rng : Entropy) (now : ℚ) :
    ManagedLink × List LinkManagerAction :=
  match ResourceReceiver.fromAdvertisement advPlaintext l.resourceSduForLink (l.engine.rtt.getD 1) now
      none none with
  | .error _ => (l, [])
  | .ok receiver => match resourceHashKey receiver.originalHash with
    | none => (l, [])
    | some originalHash => l.admitReceiver P E linkId receiver originalHash rng now

/-- The progress of a sender that has just sent parts for the first time. -/
def reportSent (before sender : ResourceSender) : ManagedLink × Option (ℕ × ℕ) :=
  if sender.sentParts = before.sentParts then (l, none)
  else if sender.flags.split then match l.outgoingSplits[sender.originalHash]? with
    | some split =>
      let split := { split with
        currentSegmentIndex := sender.segmentIndex
        currentSentParts := sender.sentParts
        currentTotalParts := sender.totalParts }
      ({ l with outgoingSplits := l.outgoingSplits.insert sender.originalHash split },
        some (split.progress sender.sdu))
    | none => (l, none)
  else (l, some (sender.sentParts, sender.totalParts))

def handleResourceReq (now : ℚ) : ManagedLink × List LinkManagerAction :=
  let (senders, answer) := offer waitsForTurn
    (fun s => s.handleRequest plaintext now) l.outgoingResources
  let l := { l with outgoingResources := senders }
  match answer with
  | none => (l, [])
  | some (i, before, actions) =>
    let (l, progress) := l.reportSent before (senders.getD i before)
    let (l, out) := l.processResourceActions P E linkId rng actions
    (l, out ++ progress.toList.map fun (sent, total) => .resourceProgress linkId sent total)

def handleResourceHmu (now : ℚ) : ManagedLink × List LinkManagerAction :=
  let (receivers, answer) := offer (fun _ => false)
    (fun r => r.handleHashmapUpdate plaintext now) l.incomingResources
  let l := { l with incomingResources := receivers }
  match answer with
  | none => (l, [])
  | some (_, _, actions) => l.processResourceActions P E linkId rng actions

/-! ## Parts -/

/-- The progress of a split transfer replaces that of its segment. -/
def reportReceived (r : ResourceReceiver) (actions : List ResourceAction) :
    ManagedLink × List ResourceAction :=
  match if r.flags.split then resourceHashKey r.originalHash else none with
  | none => (l, actions)
  | some key => match l.incomingSplits[key]? with
    | none => (l, actions)
    | some split =>
      let split := { split with
        currentSegmentIndex := r.segmentIndex
        currentReceivedParts := r.receivedCount
        currentTotalParts := r.totalParts }
      let (received, total) := split.progress l.resourceSduForLink
      ({ l with incomingSplits := l.incomingSplits.insert key split },
        actions.map fun
          | .progressUpdate _ _ => .progressUpdate received total
          | other => other)

/-- The data of a segment is added to its split transfer; the last one closes it.  With the actions,
whether the transfer was a response. -/
def addSegment (key : Hash32) (r : ResourceReceiver) (data : Bytes) (metadata : Option Bytes) :
    ManagedLink × List ResourceAction × Bool :=
  match l.incomingSplits[key]? with
  | none => (l, [], r.flags.isResponse)
  | some split =>
    let extended := split.add r data metadata
    if r.segmentIndex = r.totalSegments then
      ({ l with incomingSplits := l.incomingSplits.erase key },
        [.dataReceived extended.data extended.metadata, .completed], split.isResponse)
    else
      ({ l with incomingSplits := l.incomingSplits.insert key extended }, [], r.flags.isResponse)

def delivered : List ResourceAction → Option (Bytes × Option Bytes)
  | [] => none
  | .dataReceived data metadata :: rest => some ((delivered rest).getD (data, metadata))
  | _ :: rest => delivered rest

/-- What is left of the actions of an assembly when its data goes to a split transfer. -/
def withoutDelivery (actions : List ResourceAction) : List ResourceAction :=
  actions.filter fun
    | .dataReceived _ _ => false
    | .completed => false
    | _ => true

/-- A complete receiver is assembled.  With the actions, whether it was a response and which request
it names. -/
def assembleReceiver (i : ℕ) (r : ResourceReceiver) :
    ManagedLink × List ResourceAction × Bool × Option Hash16 :=
  let (r', actions) := r.assemble P (l.decrypt E) E.compressor
  let l := { l with incomingResources := l.incomingResources.set i r' }
  let requestId := responseRequestId r.requestId
  match if r.flags.split then resourceHashKey r.originalHash else none with
  | none => (l, actions, r.flags.isResponse, requestId)
  | some key => match delivered actions with
    | none => (l, withoutDelivery actions, r.flags.isResponse, requestId)
    | some (data, metadata) =>
      let (l, more, isResponse) := l.addSegment key r data metadata
      (l, withoutDelivery actions ++ more, isResponse, requestId)

/-- What answers a request is handed on as a response. -/
def asResponse (requestId : Option Hash16) (out : List LinkManagerAction) :
    List LinkManagerAction :=
  out.flatMap fun
    | .resourceReceived _ data metadata => handleResponse linkId data metadata requestId
    | .resourceAcceptQuery _ _ _ _ => []
    | other => [other]

/-- `handle_resource_part`, once a receiver has answered. -/
def finishPart (i : ℕ) (r : ResourceReceiver) (actions : List ResourceAction) (rng : Entropy) :
    ManagedLink × List LinkManagerAction :=
  let (l, actions) := l.reportReceived r actions
  if r.receivedCount = r.totalParts then
    let (l, more, isResponse, requestId) := l.assembleReceiver P E i r
    let (l, out) := l.processResourceActions P E linkId rng (actions ++ more)
    (l, if isResponse ∨ requestId.isSome then asResponse linkId requestId out else out)
  else l.processResourceActions P E linkId rng actions

def handleResourcePart (rawData : Bytes) (rng : Entropy) (now : ℚ) :
    ManagedLink × List LinkManagerAction :=
  let (receivers, answer) := offer ResourceReceiver.ended
    (fun r => r.receivePart P rawData now) l.incomingResources
  let l := { l with incomingResources := receivers }
  match answer with
  | none => (l, [])
  | some (i, before, actions) => l.finishPart P E linkId i (receivers.getD i before) actions rng

/-! ## Proofs and cancellation -/

def unfinishedSenders (senders : List ResourceSender) : List ResourceSender :=
  senders.filter fun s => s.status.code < ResourceStatus.complete.code

/-- The segment after a completed one is advertised. -/
def advertiseNext (sender : ResourceSender) (now : ℚ) : ManagedLink × List ResourceAction :=
  match l.outgoingSplits[sender.originalHash]? with
  | none => (l, [])
  | some split =>
    let next := l.outgoingResources.findIdx? fun s => s.flags.split ∧
      s.originalHash = sender.originalHash ∧ s.segmentIndex = sender.segmentIndex + 1
    match next.bind fun i => l.outgoingResources[i]?.map fun s => (i, s) with
    | none =>
      let split := { split with
        completedSegments := sender.segmentIndex
        currentSegmentIndex := sender.segmentIndex
        currentSentParts := sender.totalParts
        currentTotalParts := sender.totalParts }
      ({ l with outgoingSplits := l.outgoingSplits.insert sender.originalHash split }, [])
    | some (i, s) =>
      let split := { split with
        completedSegments := sender.segmentIndex
        currentSegmentIndex := s.segmentIndex
        currentSentParts := 0
        currentTotalParts := s.totalParts }
      let (s, actions) := s.advertise now
      ({ l with
          outgoingSplits := l.outgoingSplits.insert sender.originalHash split
          outgoingResources := l.outgoingResources.set i s },
        actions)

/-- The result of a proof, for the sender that answered it. -/
def settleProof (l : ManagedLink) (linkId : LinkId) (sender : ResourceSender) (now : ℚ) :
    List ResourceAction → ManagedLink × List LinkManagerAction × List ResourceAction
  | [] => (l, [], [])
  | .completed :: rest =>
    if sender.totalSegments > 1 ∧ sender.segmentIndex < sender.totalSegments then
      let (l, next) := l.advertiseNext sender now
      let (l, out, more) := l.settleProof linkId sender now rest
      (l, out, next ++ more)
    else
      let (l, out, more) := { l with
        outgoingSplits := l.outgoingSplits.erase sender.originalHash }.settleProof linkId sender now rest
      (l, .resourceCompleted linkId :: out, more)
  | .failed error :: rest =>
    let l := if sender.flags.split then
        { l with outgoingSplits := l.outgoingSplits.erase sender.originalHash }
      else l
    let (l, out, more) := l.settleProof linkId sender now rest
    (l, .resourceFailed linkId error.display :: out, more)
  | _ :: rest => l.settleProof linkId sender now rest

/-- `handle_resource_prf`: only the sender whose hash the proof carries is asked. -/
def handleResourcePrf (now : ℚ) : ManagedLink × List LinkManagerAction :=
  let (senders, answer) := offer
    (fun s => plaintext.length ≥ 32 ∧ plaintext.take 32 ≠ s.resourceHash.toList)
    (fun s => s.handleProof plaintext) l.outgoingResources
  let l := { l with outgoingResources := senders }
  match answer with
  | none => ({ l with outgoingResources := unfinishedSenders l.outgoingResources }, [])
  | some (_, sender, actions) =>
    let (l, out, next) := l.settleProof linkId sender now actions
    let l := { l with outgoingResources := unfinishedSenders l.outgoingResources }
    let (l, more) := l.processResourceActions P E linkId rng next
    (l, out ++ more)

def failures (actions : List ResourceAction) : List LinkManagerAction :=
  actions.flatMap fun
    | .failed error => [.resourceFailed linkId error.display]
    | _ => []

/-- `handle_resource_icl`: every incoming transfer is cancelled. -/
def handleResourceIcl : ManagedLink × List LinkManagerAction :=
  let cancelled := l.incomingResources.map ResourceReceiver.handleCancel
  ({ l with
      incomingResources := (cancelled.map Prod.fst).filter fun r =>
        r.status.code < ResourceStatus.complete.code
      incomingSplits := ∅ },
    failures linkId (cancelled.flatMap Prod.snd))

/-- `handle_resource_rcl`: every outgoing transfer is rejected. -/
def handleResourceRcl : ManagedLink × List LinkManagerAction :=
  let rejected := l.outgoingResources.map handleReject
  ({ l with
      outgoingResources := unfinishedSenders (rejected.map Prod.fst)
      outgoingSplits := ∅ },
    failures linkId (rejected.flatMap Prod.snd))

end ManagedLink

end Rns

import Rns.Transport.Types

/-!
# Announce queues

Announces that travel on are held back per interface: `gate_announce` sends or queues, `process_queues`
sends what was queued, and `reserve_recursive_path_request` books the time of a path request.
-/

namespace Rns.Transport

/-! ## One interface -/

structure AnnounceQueueEntry where
  destinationHash : Hash16
  time : ℚ
  hops : UInt8
  emitted : ℚ
  raw : Bytes
  deriving DecidableEq

/-- The announces waiting for an interface, and the earliest time of the next one. -/
structure InterfaceAnnounceQueue where
  entries : List AnnounceQueueEntry
  announceAllowedAt : ℚ
  deriving DecidableEq

def maxQueuedAnnounces : ℕ := 16384

def queuedAnnounceLife : ℚ := 86400

namespace InterfaceAnnounceQueue

def new : InterfaceAnnounceQueue := ⟨[], 0⟩

variable (queue : InterfaceAnnounceQueue) (now : ℚ)

/-- `insert`: one entry per destination; the better of two stays in its place, and a full queue
drops its oldest entry. -/
def insert (entry : AnnounceQueueEntry) : InterfaceAnnounceQueue :=
  match queue.entries.findIdx? (·.destinationHash = entry.destinationHash) with
  | some pos => match queue.entries[pos]? with
    | some existing =>
      if entry.hops < existing.hops ∨ entry.hops = existing.hops ∧ entry.emitted > existing.emitted then
        { queue with entries := queue.entries.set pos entry }
      else queue
    | none => queue
  | none =>
    let kept := if queue.entries.length ≥ maxQueuedAnnounces then queue.entries.tail else queue.entries
    { queue with entries := kept ++ [entry] }

@[simp] theorem announceAllowedAt_insert (entry : AnnounceQueueEntry) :
    (queue.insert entry).announceAllowedAt = queue.announceAllowedAt := by
  unfold insert
  split
  · split
    · split_ifs <;> rfl
    · rfl
  · rfl

def removeStale : InterfaceAnnounceQueue :=
  { queue with entries := queue.entries.filter (now - ·.time < queuedAnnounceLife) }

@[simp] theorem announceAllowedAt_removeStale :
    (queue.removeStale now).announceAllowedAt = queue.announceAllowedAt := rfl

/-- The scan of `select_next`: the best index so far, with its hops and time. -/
def selectFrom (best : ℕ) (hops : UInt8) (time : ℚ) : ℕ → List AnnounceQueueEntry → ℕ
  | _, [] => best
  | i, entry :: rest =>
    if entry.hops < hops ∨ entry.hops = hops ∧ entry.time < time then
      selectFrom i entry.hops entry.time (i + 1) rest
    else selectFrom best hops time (i + 1) rest

/-- `select_next`: fewest hops, then oldest. -/
def selectNext : Option ℕ :=
  match queue.entries with
  | [] => none
  | entry :: rest => some (selectFrom 0 entry.hops entry.time 1 rest)

def isAllowed : Bool := now ≥ queue.announceAllowedAt

def timeToSend (rawLen bitrate : ℕ) (airtimeProfile : Option AirtimeProfile) : ℚ :=
  match airtimeProfile with
  | some profile => profile.transmitTimeSecs rawLen
  | none => if bitrate = 0 then 0 else (rawLen * 8 : ℕ) / bitrate

def calculateNextAllowed (rawLen bitrate : ℕ) (airtimeProfile : Option AirtimeProfile)
    (announceCap : ℚ) : ℚ :=
  if announceCap ≤ 0 then now
  else
    let time := timeToSend rawLen bitrate airtimeProfile
    if time ≤ 0 then now else now + time / announceCap

end InterfaceAnnounceQueue

/-! ## All interfaces -/

/-- The part of an interface's description that the queues read. -/
structure InterfaceTiming where
  bitrate : Option ℕ
  airtimeProfile : Option AirtimeProfile
  announceCap : ℚ
  deriving DecidableEq

def announceCapDefault : ℚ := 2 / 100

structure AnnounceQueues where
  queues : Std.ExtTreeMap InterfaceId InterfaceAnnounceQueue
  maxInterfaces : ℕ
  interfaceCapDrops : ℕ

structure SendOnInterface where
  interface : InterfaceId
  raw : Bytes
  deriving DecidableEq

namespace AnnounceQueues

open InterfaceAnnounceQueue

def new (maxInterfaces : ℕ) : AnnounceQueues := ⟨∅, maxInterfaces, 0⟩

/-- The bit rate that counts, when there is a model of the time a packet takes at all. -/
def timedBitrate (timing : InterfaceTiming) : Option ℕ :=
  match timing.bitrate with
  | some bitrate =>
    if 0 < bitrate then some bitrate else if timing.airtimeProfile.isNone then none else some 0
  | none => if timing.airtimeProfile.isNone then none else some 0

variable (q : AnnounceQueues) (interface : InterfaceId) (now : ℚ)

def isFull : Bool :=
  !q.queues.contains interface ∧ q.queues.size ≥ q.maxInterfaces

/-- `saturating_add(1)` on the counter of dropped announces. -/
def countDrop : AnnounceQueues :=
  { q with interfaceCapDrops := min (q.interfaceCapDrops + 1) (2 ^ 64 - 1) }

def gateAnnounce (raw : Bytes) (destHash : Hash16) (hops : UInt8) (emitted now : ℚ)
    (timing : InterfaceTiming) : AnnounceQueues × Option SendOnInterface :=
  match timedBitrate timing with
  | none => (q, some ⟨interface, raw⟩)
  | some bitrate =>
    if q.isFull interface then (q.countDrop, none)
    else
      let queue := q.queues.getD interface .new
      if queue.isAllowed now then
        let allowedAt := calculateNextAllowed now raw.length bitrate timing.airtimeProfile
          timing.announceCap
        let queue := { queue with announceAllowedAt := allowedAt }
        ({ q with queues := q.queues.insert interface queue }, some ⟨interface, raw⟩)
      else
        let queue := queue.insert ⟨destHash, now, hops, emitted, raw⟩
        ({ q with queues := q.queues.insert interface queue }, none)

/-- The time after which the next announce may follow one sent from the queue. -/
def allowedAfter (rawLen : ℕ) (timing : InterfaceTiming) : ℚ :=
  let bitrate := timing.bitrate.getD 0
  if bitrate > 0 ∨ timing.airtimeProfile.isSome then
    calculateNextAllowed now rawLen bitrate timing.airtimeProfile timing.announceCap
  else now

/-- The inner loop of `process_queues`, for at most `fuel` announces: the queue afterwards and what
is sent.  Every round takes one entry out, so the number of entries is fuel enough. -/
def drain (now : ℚ) (timing : InterfaceTiming) :
    ℕ → InterfaceAnnounceQueue → InterfaceAnnounceQueue × List Bytes
  | 0, queue => (queue, [])
  | fuel + 1, queue =>
    if queue.isAllowed now then match queue.selectNext with
      | none => (queue, [])
      | some idx => match queue.entries[idx]? with
        | none => (queue, [])
        | some entry =>
          let rest := drain now timing fuel
            ⟨queue.entries.eraseIdx idx, allowedAfter now entry.raw.length timing⟩
          (rest.1, entry.raw :: rest.2)
    else (queue, [])

/-- What `process_queues` does with the queue of one interface. -/
def processQueue (interfaces : InterfaceId → Option InterfaceTiming) (interface : InterfaceId)
    (queue : InterfaceAnnounceQueue) : InterfaceAnnounceQueue × List Bytes :=
  let queue := queue.removeStale now
  drain now ((interfaces interface).getD ⟨none, none, announceCapDefault⟩) queue.entries.length queue

/-- `process_queues`: records with nothing left to send are removed. -/
def processQueues (interfaces : InterfaceId → Option InterfaceTiming) :
    AnnounceQueues × List SendOnInterface :=
  let kept := q.queues.filterMap fun interface queue =>
    let queue := (processQueue now interfaces interface queue).1
    if queue.entries.isEmpty then none else some queue
  let sent := q.queues.toList.flatMap fun (interface, queue) =>
    (processQueue now interfaces interface queue).2.map (⟨interface, ·⟩)
  ({ q with queues := kept }, sent)

def reserveRecursivePathRequest (rawLen : ℕ) (now : ℚ) (timing : InterfaceTiming) :
    AnnounceQueues :=
  match timedBitrate timing with
  | none => q
  | some bitrate =>
    if q.isFull interface then q.countDrop
    else
      let queue := q.queues.getD interface .new
      let allowedAt := calculateNextAllowed now rawLen bitrate timing.airtimeProfile timing.announceCap
      { q with queues := q.queues.insert interface { queue with announceAllowedAt := allowedAt } }

end AnnounceQueues

end Rns.Transport

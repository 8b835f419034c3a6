import Rns.Transport.Pathfinder

/-!
# The tables of the transport engine

Routes of links and proofs, announce rates, the hashes of packets seen, the signatures already verified,
and the announces held back during bursts.
-/

namespace Rns.Transport

open Std

structure ReverseEntry where
  receivingInterface : InterfaceId
  outboundInterface : InterfaceId
  timestamp : ℚ
  deriving DecidableEq

structure LinkEntry where
  timestamp : ℚ
  nextHopTransportId : Hash16
  nextHopInterface : InterfaceId
  remainingHops : UInt8
  receivedInterface : InterfaceId
  takenHops : UInt8
  destinationHash : Hash16
  validated : Bool
  proofTimeout : ℚ
  deriving DecidableEq

structure DiscoveryPathRequest where
  timestamp : ℚ
  requestingInterface : InterfaceId
  deriving DecidableEq

/-- A blackholed identity; an expiry of zero means never. -/
structure BlackholeEntry where
  created : ℚ
  expires : ℚ
  deriving DecidableEq

/-! ## Announce rates -/

structure RateEntry where
  last : ℚ
  rateViolations : UInt32
  blockedUntil : ℚ
  timestamps : List ℚ
  deriving DecidableEq

abbrev AnnounceRateLimiter := ExtTreeMap Hash16 RateEntry

def maxRateTimestamps : ℕ := 16

/-- `check_and_update`: whether the announce is over its rate. -/
def AnnounceRateLimiter.checkAndUpdate (limiter : AnnounceRateLimiter) (destHash : Hash16) (now : ℚ)
    (rateTarget : Option ℚ) (rateGrace : UInt32) (ratePenalty : ℚ) : AnnounceRateLimiter × Bool :=
  match rateTarget with
  | none => (limiter, false)
  | some rateTarget => match limiter[destHash]? with
    | none => (limiter.insert destHash ⟨now, 0, 0, [now]⟩, false)
    | some entry =>
      let timestamps := entry.timestamps ++ [now]
      let timestamps := timestamps.drop (timestamps.length - maxRateTimestamps)
      if now > entry.blockedUntil then
        let rateViolations := if now - entry.last < rateTarget then entry.rateViolations + 1
          else if entry.rateViolations = 0 then 0 else entry.rateViolations - 1
        if rateViolations > rateGrace then
          (limiter.insert destHash { entry with
            timestamps, rateViolations, blockedUntil := entry.last + rateTarget + ratePenalty },
            true)
        else (limiter.insert destHash { entry with timestamps, rateViolations, last := now }, false)
      else (limiter.insert destHash { entry with timestamps }, true)

/-! ## Packets seen -/

/-- The packet hashes seen last, the oldest first. -/
structure PacketHashlist where
  maxSize : ℕ
  hashes : List Hash32
  deriving DecidableEq

namespace PacketHashlist

def new (maxSize : ℕ) : PacketHashlist := ⟨maxSize, []⟩

def isDuplicate (list : PacketHashlist) (hash : Hash32) : Bool := hash ∈ list.hashes

/-- `add`: the oldest makes room; a hash that is there keeps its place. -/
def add (list : PacketHashlist) (hash : Hash32) : PacketHashlist :=
  if list.maxSize = 0 ∨ list.isDuplicate hash then list
  else if list.hashes.length = list.maxSize then
    { list with hashes := list.hashes.tail ++ [hash] }
  else { list with hashes := list.hashes ++ [hash] }

end PacketHashlist

/-! ## Signatures verified -/

/-- Hashes of the destination and signature of announces that were verified; no entries at all when
the limit is zero. -/
structure AnnounceSignatureCache where
  entries : ExtTreeMap Hash32 ℚ
  insertionOrder : List Hash32
  maxEntries : ℕ
  ttlSecs : ℚ

namespace AnnounceSignatureCache

def new (maxEntries : ℕ) (ttlSecs : ℚ) : AnnounceSignatureCache := ⟨∅, [], maxEntries, ttlSecs⟩

def contains (cache : AnnounceSignatureCache) (key : Hash32) : Bool :=
  if cache.maxEntries = 0 then false else cache.entries.contains key

/-- The loop of `insert` that makes room, over the order of insertion. -/
def evict (maxEntries : ℕ) : List Hash32 → ExtTreeMap Hash32 ℚ →
    List Hash32 × ExtTreeMap Hash32 ℚ
  | [], entries => ([], entries)
  | oldest :: order, entries =>
    if entries.size ≥ maxEntries then evict maxEntries order (entries.erase oldest)
    else (oldest :: order, entries)

def insert (cache : AnnounceSignatureCache) (key : Hash32) (now : ℚ) : AnnounceSignatureCache :=
  if cache.maxEntries = 0 then cache
  else if cache.entries.contains key then cache
  else
    let (order, entries) := evict cache.maxEntries cache.insertionOrder cache.entries
    { cache with entries := entries.insert key now, insertionOrder := order ++ [key] }

def cull (cache : AnnounceSignatureCache) (now : ℚ) : AnnounceSignatureCache :=
  if cache.maxEntries = 0 then cache
  else
    let entries := cache.entries.filter fun _ time => time > now - cache.ttlSecs
    { cache with entries, insertionOrder := cache.insertionOrder.filter entries.contains }

variable {cache : AnnounceSignatureCache} {key : Hash32}

theorem insert_of_contains (h : cache.contains key) (now : ℚ) : cache.insert key now = cache := by
  unfold contains at h
  split_ifs at h with hzero
  rw [insert, if_neg hzero, if_pos h]

theorem insert_eq_self_iff (cache : AnnounceSignatureCache) (key : Hash32) (now : ℚ) :
    cache.insert key now = cache ↔ cache.contains key ∨ cache.maxEntries = 0 := by
  unfold insert contains
  by_cases hzero : cache.maxEntries = 0
  · simp [hzero]
  · rw [if_neg hzero, if_neg hzero]
    by_cases hthere : cache.entries.contains key
    · simp [hthere]
    · rw [if_neg hthere]
      refine iff_of_false (fun heq => hthere ?_) (by simp [hthere, hzero])
      rw [← heq]
      simp

theorem contains_of_evict {maxEntries : ℕ} {key : Hash32} {order : List Hash32}
    {entries : ExtTreeMap Hash32 ℚ} (h : key ∈ (evict maxEntries order entries).2) :
    key ∈ entries := by
  induction order generalizing entries with
  | nil => exact h
  | cons oldest order ih =>
    rw [evict] at h
    split_ifs at h
    · exact (ExtTreeMap.mem_erase.mp (ih h)).2
    · exact h

theorem contains_insert {key' : Hash32} {now : ℚ} (h : (cache.insert key now).contains key') :
    cache.contains key' ∨ key' = key := by
  unfold insert at h
  split_ifs at h with hzero hthere
  · exact .inl h
  · exact .inl h
  · have hmem : key' ∈
        (evict cache.maxEntries cache.insertionOrder cache.entries).2.insert key now := by
      simpa [contains, hzero] using h
    rcases ExtTreeMap.mem_insert.mp hmem with heq | hmem
    · exact .inr (Std.compare_eq_iff_eq.mp heq).symm
    · exact .inl (by simpa [contains, hzero] using contains_of_evict hmem)

theorem contains_cull {now : ℚ} (h : (cache.cull now).contains key) : cache.contains key := by
  unfold cull at h
  split_ifs at h with hzero
  · exact h
  · have hmem : key ∈ cache.entries.filter fun _ time => time > now - cache.ttlSecs := by
      simpa [contains, hzero] using h
    simpa [contains, hzero] using ExtTreeMap.mem_of_mem_filter hmem

end AnnounceSignatureCache

/-! ## Bursts of announces -/

structure IngressControlConfig where
  enabled : Bool
  maxHeldAnnounces : ℕ
  burstFreqNew : ℚ
  burstFreq : ℚ
  newTime : ℚ
  burstHold : ℚ
  burstPenalty : ℚ
  deriving DecidableEq

structure HeldAnnounce where
  raw : Bytes
  hops : UInt8
  receivingInterface : InterfaceId
  rx : RxMetadata
  timestamp : ℚ
  deriving DecidableEq

structure IngressControlState where
  burstActive : Bool
  burstActivated : ℚ
  heldRelease : ℚ
  heldAnnounces : ExtTreeMap Hash16 HeldAnnounce

def IngressControlState.new : IngressControlState := ⟨false, 0, 0, ∅⟩

abbrev IngressControl := ExtTreeMap InterfaceId IngressControlState

namespace IngressControl

def shouldIngressLimit (control : IngressControl) (interface : InterfaceId)
    (config : IngressControlConfig) (iaFreq interfaceStarted now : ℚ) : IngressControl × Bool :=
  if ¬config.enabled then (control, false)
  else
    let state := control[interface]?.getD .new
    let threshold := if now - interfaceStarted < config.newTime then config.burstFreqNew
      else config.burstFreq
    if state.burstActive then
      if iaFreq < threshold ∧ now > state.burstActivated + config.burstHold then
        (control.insert interface { state with burstActive := false }, false)
      else (control.insert interface state, true)
    else if iaFreq > threshold then
      (control.insert interface { state with
        burstActive := true
        burstActivated := now
        heldRelease := now + config.burstPenalty }, true)
    else (control.insert interface state, false)

/-- `hold_announce`: at the limit a new destination is dropped. -/
def holdAnnounce (control : IngressControl) (interface : InterfaceId)
    (config : IngressControlConfig) (destHash : Hash16) (held : HeldAnnounce) : IngressControl :=
  let state := control[interface]?.getD .new
  let heldAnnounces :=
    if state.heldAnnounces.contains destHash ∨
        state.heldAnnounces.size < config.maxHeldAnnounces then
      state.heldAnnounces.insert destHash held
    else state.heldAnnounces
  control.insert interface { state with heldAnnounces }

end IngressControl

end Rns.Transport

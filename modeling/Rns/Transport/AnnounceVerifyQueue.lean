import Rns.Lib.Machine
import Rns.Lib.Ranked
import Rns.Transport.Types

/-!
# The queue of announces waiting for verification

The driver enqueues announces, a verifier thread takes them out and leaves them as in flight, and the
driver completes an entry once it was checked.  Of two announces with one key the one with fewer hops
stays.
-/

namespace Rns.Transport

open Std.ExtTreeMap

structure AnnounceVerifyKey where
  destinationHash : Hash16
  randomBlob : Vector UInt8 10
  receivedFrom : Hash16
  deriving DecidableEq

namespace AnnounceVerifyKey

instance : Ord AnnounceVerifyKey where
  compare := compareLex (compareOn destinationHash)
    (compareLex (compareOn randomBlob) (compareOn receivedFrom))

instance : Std.TransOrd AnnounceVerifyKey :=
  inferInstanceAs (Std.TransCmp (compareLex (compareOn destinationHash)
    (compareLex (compareOn randomBlob) (compareOn receivedFrom))))

instance : Std.LawfulEqOrd AnnounceVerifyKey where
  eq_of_compare {a b} h := by
    change compareLex _ _ a b = .eq at h
    rw [compareLex_eq_eq, compareLex_eq_eq] at h
    obtain ⟨h₁, h₂, h₃⟩ := h
    obtain ⟨a₁, a₂, a₃⟩ := a
    obtain ⟨b₁, b₂, b₃⟩ := b
    obtain rfl : a₁ = b₁ := Std.compare_eq_iff_eq.mp h₁
    obtain rfl : a₂ = b₂ := Std.compare_eq_iff_eq.mp h₂
    obtain rfl : a₃ = b₃ := Std.compare_eq_iff_eq.mp h₃
    rfl

end AnnounceVerifyKey

structure PendingAnnounce where
  originalRaw : Bytes
  packet : RawPacket
  interface : InterfaceId
  receivedFrom : Hash16
  queuedAt : ℚ
  bestHops : UInt8
  emissionTs : ℕ
  randomBlob : Vector UInt8 10
  deriving DecidableEq

inductive QueueEntry where
  | pending (announce : PendingAnnounce)
  | inFlight (announce : PendingAnnounce)
  deriving DecidableEq

inductive OverflowPolicy where
  | dropNewest
  | dropOldest
  | dropWorst
  deriving Repr, DecidableEq

/-- `pending_of`. -/
def QueueEntry.announce : QueueEntry → PendingAnnounce
  | .pending announce => announce
  | .inFlight announce => announce

def QueueEntry.replace (announce : PendingAnnounce) : QueueEntry → QueueEntry
  | .pending _ => .pending announce
  | .inFlight _ => .inFlight announce

/-- `pending_bytes`. -/
def PendingAnnounce.bytes (entry : PendingAnnounce) : ℕ :=
  entry.originalRaw.length + entry.packet.data.length + if entry.packet.transportId.isSome then 16 else 0

structure AnnounceVerifyQueue where
  entries : Std.ExtTreeMap AnnounceVerifyKey QueueEntry
  maxEntries : ℕ
  maxBytes : ℕ
  maxStaleSecs : ℚ
  overflowPolicy : OverflowPolicy
  queuedBytes : ℕ

variable {entry : PendingAnnounce} {announce : PendingAnnounce}

namespace AnnounceVerifyQueue

def withLimits (maxEntries maxBytes : ℕ) (maxStaleSecs : ℚ) (overflowPolicy : OverflowPolicy) :
    AnnounceVerifyQueue :=
  ⟨∅, max maxEntries 1, max maxBytes 1, max maxStaleSecs (1 / 1000), overflowPolicy, 0⟩

def new (maxEntries : ℕ) : AnnounceVerifyQueue := withLimits maxEntries (256 * 1024) 30 .dropWorst

/-- `saturating_add` of sizes. -/
def addBytes (a b : ℕ) : ℕ := min (a + b) (2 ^ 64 - 1)

variable (queue : AnnounceVerifyQueue) (key : AnnounceVerifyKey)

def removeEntry : AnnounceVerifyQueue :=
  match queue.entries[key]? with
  | none => queue
  | some removed => { queue with
      entries := queue.entries.erase key
      queuedBytes := queue.queuedBytes - removed.announce.bytes }

def oldest (entries : List (AnnounceVerifyKey × QueueEntry)) : Option (AnnounceVerifyKey × QueueEntry) :=
  minBy (fun a b => a.2.announce.queuedAt < b.2.announce.queuedAt) entries

def worst (entries : List (AnnounceVerifyKey × QueueEntry)) : Option (AnnounceVerifyKey × QueueEntry) :=
  maxBy (fun a b => a.2.announce.bestHops < b.2.announce.bestHops ∨
    a.2.announce.bestHops = b.2.announce.bestHops ∧
      a.2.announce.queuedAt < b.2.announce.queuedAt) entries

def selectEvictionCandidate (incoming : PendingAnnounce) : Option AnnounceVerifyKey :=
  match queue.overflowPolicy with
  | .dropNewest => none
  | .dropOldest => (oldest queue.entries.toList).map Prod.fst
  | .dropWorst => match worst queue.entries.toList with
    | none => none
    | some (key, candidate) =>
      if incoming.bestHops ≥ candidate.announce.bestHops then none else some key

def isFull (entryBytes : ℕ) : Bool :=
  queue.entries.size ≥ queue.maxEntries ∨ addBytes queue.queuedBytes entryBytes > queue.maxBytes

/-- The loop of `enqueue` that makes room: the queue afterwards, and whether there is room.  Every
round takes an entry out and an empty queue has no candidate, so one more round than there are
entries is fuel enough. -/
def makeRoom (incoming : PendingAnnounce) : ℕ → AnnounceVerifyQueue → AnnounceVerifyQueue × Bool
  | 0, queue => (queue, false)
  | fuel + 1, queue =>
    if queue.isFull incoming.bytes then match queue.selectEvictionCandidate incoming with
      | none => (queue, false)
      | some evicted => makeRoom incoming fuel (queue.removeEntry evicted)
    else (queue, true)

def enqueue (entry : PendingAnnounce) : AnnounceVerifyQueue × Bool :=
  match queue.entries[key]? with
  | some existing =>
    if entry.bestHops < existing.announce.bestHops then
      ({ queue with
        entries := queue.entries.insert key (existing.replace entry)
        queuedBytes := addBytes (queue.queuedBytes - existing.announce.bytes) entry.bytes }, true)
    else (queue, false)
  | none =>
    if entry.bytes > queue.maxBytes then (queue, false)
    else match makeRoom entry (queue.entries.size + 1) queue with
      | (queue, false) => (queue, false)
      | (queue, true) => ({ queue with
          entries := queue.entries.insert key (.pending entry)
          queuedBytes := addBytes queue.queuedBytes entry.bytes }, true)

/-- The first half of `take_pending`: entries that waited too long are removed. -/
def removeStale (now : ℚ) : AnnounceVerifyQueue :=
  let stale := queue.entries.toList.filter fun (_, entry) =>
    entry.announce.queuedAt < now - queue.maxStaleSecs
  stale.foldl (fun queue (key, _) => queue.removeEntry key) queue

/-- `take_pending`: the announces handed out stay in the queue as in flight. -/
def takePending (now : ℚ) : AnnounceVerifyQueue × List (AnnounceVerifyKey × PendingAnnounce) :=
  let queue := queue.removeStale now
  let drained := queue.entries.toList.filterMap fun (key, entry) => match entry with
    | .pending announce => some (key, announce)
    | .inFlight _ => none
  let entries := queue.entries.map fun _ entry => QueueEntry.inFlight entry.announce
  ({ queue with entries }, drained)

def completeSuccess : AnnounceVerifyQueue × Option PendingAnnounce :=
  (queue.removeEntry key, queue.entries[key]?.map QueueEntry.announce)

def completeFailure : AnnounceVerifyQueue × Bool :=
  (queue.removeEntry key, queue.entries.contains key)

def clear : AnnounceVerifyQueue :=
  { queue with entries := ∅, queuedBytes := 0 }

/-! ## What can happen to an entry -/

theorem getElem?_removeEntry (key' : AnnounceVerifyKey) :
    (queue.removeEntry key').entries[key]? = if key' = key then none else queue.entries[key]? := by
  unfold removeEntry
  split
  · next hnone =>
    split_ifs with heq
    · rw [← heq, hnone]
    · rfl
  · rw [getElem?_erase]
    simp only [Std.compare_eq_iff_eq]

theorem getElem?_makeRoom (incoming : PendingAnnounce) (fuel : ℕ) :
    (makeRoom incoming fuel queue).1.entries[key]? = none ∨
      (makeRoom incoming fuel queue).1.entries[key]? = queue.entries[key]? := by
  induction fuel generalizing queue with
  | zero => exact .inr rfl
  | succ fuel ih =>
    rw [makeRoom]
    split_ifs
    · split
      · exact .inr rfl
      · next evicted _ =>
        rcases ih (queue.removeEntry evicted) with h | h
        · exact .inl h
        · rw [h, getElem?_removeEntry]
          split_ifs
          · exact .inl rfl
          · exact .inr rfl
    · exact .inr rfl

theorem enqueue_taken (h : (queue.enqueue key entry).2) :
    ∃ found : QueueEntry, (queue.enqueue key entry).1.entries[key]? = some found ∧
      found.announce = entry ∧ queue.entries[key]? ≠ some found := by
  unfold enqueue at h ⊢
  cases hexisting : queue.entries[key]? with
  | some existing =>
    simp only [hexisting] at h ⊢
    split_ifs at h ⊢ with hfewer
    have hannounce : (existing.replace entry).announce = entry := by cases existing <;> rfl
    refine ⟨_, getElem?_insert_self, hannounce, fun heq => ?_⟩
    rw [Option.some.inj heq, hannounce] at hfewer
    exact UInt8.lt_irrefl _ hfewer
  | none =>
    simp only [hexisting] at h ⊢
    by_cases hbig : entry.bytes > queue.maxBytes
    · simp [if_pos hbig] at h
    · rw [if_neg hbig] at h ⊢
      rcases hroom : makeRoom entry .. with ⟨queue', _ | _⟩
      · simp [hroom] at h
      · exact ⟨.pending entry, getElem?_insert_self, rfl, nofun⟩

theorem enqueue_refused (h : ¬(queue.enqueue key entry).2) :
    (queue.enqueue key entry).1.entries[key]? = queue.entries[key]? := by
  unfold enqueue at h ⊢
  cases hexisting : queue.entries[key]? with
  | some existing =>
    simp only [hexisting] at h ⊢
    split_ifs at h ⊢ with hfewer
    · exact absurd rfl h
    · exact hexisting
  | none =>
    simp only [hexisting] at h ⊢
    by_cases hbig : entry.bytes > queue.maxBytes
    · rw [if_pos hbig]
      exact hexisting
    · rw [if_neg hbig] at h ⊢
      have hkey := getElem?_makeRoom queue key entry (queue.entries.size + 1)
      rcases hroom : makeRoom entry .. with ⟨queue', _ | _⟩
      · rw [hroom, hexisting, or_self] at hkey
        exact hkey
      · simp [hroom] at h

theorem getElem?_foldl_removeEntry (stale : List (AnnounceVerifyKey × QueueEntry)) :
    (stale.foldl (fun queue (key, _) => queue.removeEntry key) queue).entries[key]? = none ∨
      (stale.foldl (fun queue (key, _) => queue.removeEntry key) queue).entries[key]? =
        queue.entries[key]? := by
  induction stale generalizing queue with
  | nil => exact .inr rfl
  | cons entry stale ih =>
    rw [List.foldl_cons]
    rcases ih (queue.removeEntry entry.1) with h | h
    · exact .inl h
    · rw [h, getElem?_removeEntry]
      split_ifs
      · exact .inl rfl
      · exact .inr rfl

theorem getElem?_takePending (now : ℚ) : (queue.takePending now).1.entries[key]? =
      (queue.removeStale now).entries[key]?.map fun entry => .inFlight entry.announce := by
  rw [takePending, getElem?_map]

theorem mem_takePending {now : ℚ} {key : AnnounceVerifyKey}
    (h : (key, announce) ∈ (queue.takePending now).2) :
    (queue.takePending now).1.entries[key]? = some (.inFlight announce) := by
  simp only [takePending, List.mem_filterMap, Prod.exists,
    mem_toList_iff_getElem?_eq_some] at h
  obtain ⟨key', entry, hentry, h⟩ := h
  cases entry with
  | inFlight => cases h
  | pending announce' =>
    cases h
    rw [getElem?_takePending, hentry]
    rfl

def All (Q : PendingAnnounce → Prop) (queue : AnnounceVerifyQueue) : Prop :=
  ∀ (key : AnnounceVerifyKey) (entry : QueueEntry),
    queue.entries[key]? = some entry → Q entry.announce

namespace All

variable {Q : PendingAnnounce → Prop} {queue queue' : AnnounceVerifyQueue}

section

variable (h : queue.All Q)
include h

theorem of_fewer
    (hfewer : ∀ key : AnnounceVerifyKey,
      queue'.entries[key]? = none ∨ queue'.entries[key]? = queue.entries[key]?) :
    queue'.All Q := by
  intro key entry hentry
  rcases hfewer key with hnone | hsame
  · rw [hnone] at hentry
    cases hentry
  · exact h key entry (hsame ▸ hentry)

theorem removeEntry (key : AnnounceVerifyKey) : (queue.removeEntry key).All Q := by
  refine h.of_fewer fun key' => ?_
  rw [getElem?_removeEntry]
  split_ifs
  · exact .inl rfl
  · exact .inr rfl

theorem insert {key : AnnounceVerifyKey} (entry : QueueEntry) (hentry : Q entry.announce)
    (hqueue' : queue'.entries = queue.entries.insert key entry) : queue'.All Q := by
  intro key' entry' hentry'
  rw [hqueue', getElem?_insert] at hentry'
  split_ifs at hentry'
  · obtain rfl := Option.some.inj hentry'
    exact hentry
  · exact h key' entry' hentry'

theorem enqueue (key : AnnounceVerifyKey) (hentry : Q entry) :
    (queue.enqueue key entry).1.All Q := by
  unfold AnnounceVerifyQueue.enqueue
  split
  · next existing _ =>
    split_ifs
    · refine h.insert (existing.replace entry) ?_ rfl
      cases existing <;> exact hentry
    · exact h
  · split_ifs
    · exact h
    · have hroom := h.of_fewer fun key' =>
        getElem?_makeRoom queue key' entry (queue.entries.size + 1)
      split
      · next hmade => rwa [hmade] at hroom
      · next hmade =>
        rw [hmade] at hroom
        exact hroom.insert (.pending entry) hentry rfl

theorem removeStale (now : ℚ) : (queue.removeStale now).All Q :=
  h.of_fewer fun _ => getElem?_foldl_removeEntry ..

theorem takePending (now : ℚ) : (queue.takePending now).1.All Q := by
  intro key entry hentry
  rw [getElem?_takePending] at hentry
  obtain ⟨old, hold, rfl⟩ := Option.map_eq_some_iff.mp hentry
  exact h.removeStale now key old hold

theorem taken {now : ℚ} {key : AnnounceVerifyKey}
    (htaken : (key, announce) ∈ (queue.takePending now).2) : Q announce :=
  h.takePending now key _ (mem_takePending queue htaken)

end

end All

/-! ## Runs -/

/-- The operations of the driver and the verifier. -/
inductive Event where
  | enqueue (key : AnnounceVerifyKey) (entry : PendingAnnounce)
  | takePending (now : ℚ)
  | completeSuccess (key : AnnounceVerifyKey)
  | completeFailure (key : AnnounceVerifyKey)
  | clear

/-- What the operations report: accepted announces, announces handed to the verifier, and announces
handed on after a successful verification. -/
inductive Report where
  | accepted (key : AnnounceVerifyKey) (entry : PendingAnnounce)
  | taken (key : AnnounceVerifyKey) (entry : PendingAnnounce)
  | completed (key : AnnounceVerifyKey) (entry : PendingAnnounce)
  deriving DecidableEq

def machine : Machine AnnounceVerifyQueue Event Report where
  step queue
    | .enqueue key entry =>
      let result := queue.enqueue key entry
      (result.1, if result.2 then [.accepted key entry] else [])
    | .takePending now =>
      let result := queue.takePending now
      (result.1, result.2.map fun (key, entry) => .taken key entry)
    | .completeSuccess key =>
      let result := queue.completeSuccess key
      (result.1, result.2.toList.map (.completed key))
    | .completeFailure key => ((queue.completeFailure key).1, [])
    | .clear => (queue.clear, [])

def acceptedFor (key : AnnounceVerifyKey) (reports : List Report) : List PendingAnnounce :=
  reports.filterMap fun
    | .accepted key' entry => if key' = key then some entry else none
    | _ => none

theorem acceptedFor_append (key : AnnounceVerifyKey) (a b : List Report) :
    acceptedFor key (a ++ b) = acceptedFor key a ++ acceptedFor key b :=
  List.filterMap_append

section Step

variable {queue : AnnounceVerifyQueue} {key : AnnounceVerifyKey} {announce : PendingAnnounce}

theorem getElem?_enqueue_of_ne {key' : AnnounceVerifyKey} (hkey : key' ≠ key)
    (entry : PendingAnnounce) : (queue.enqueue key' entry).1.entries[key]? = none ∨
      (queue.enqueue key' entry).1.entries[key]? = queue.entries[key]? := by
  have hinsert : ∀ (q : AnnounceVerifyQueue) (x : QueueEntry),
      (q.entries.insert key' x)[key]? = q.entries[key]? := by
    intro q x
    rw [getElem?_insert, if_neg]
    rwa [Std.compare_eq_iff_eq]
  unfold enqueue
  rcases queue.entries[key']? with _ | existing
  · dsimp only
    split_ifs with hbig
    · exact .inr rfl
    · have hroom := getElem?_makeRoom queue key entry (queue.entries.size + 1)
      rcases hmade : makeRoom entry .. with ⟨q', _ | _⟩
      · rw [hmade] at hroom
        exact hroom
      · rw [hmade] at hroom
        dsimp only
        rw [hinsert]
        exact hroom
  · dsimp only
    split_ifs
    · exact .inr (hinsert queue _)
    · exact .inr rfl

theorem bestHops_lt_of_enqueue {old : QueueEntry} (h : (queue.enqueue key entry).2)
    (hold : queue.entries[key]? = some old) : entry.bestHops < old.announce.bestHops := by
  unfold enqueue at h
  simp only [hold] at h
  split_ifs at h with hfewer
  exact hfewer

variable (queue key) in
/-- The announce that completing the key hands on. -/
def announceFor : Option PendingAnnounce := queue.entries[key]?.map QueueEntry.announce

/-- A step accepts no announce for the key and takes out at most the one that is there, or it
accepts one, which has fewer hops than the one there. -/
theorem step_announceFor (queue : AnnounceVerifyQueue) (key : AnnounceVerifyKey) (e : Event) :
    acceptedFor key (machine.step queue e).2 = [] ∧
        ((machine.step queue e).1.announceFor key = none ∨
          (machine.step queue e).1.announceFor key = queue.announceFor key) ∨
      ∃ entry, e = .enqueue key entry ∧ acceptedFor key (machine.step queue e).2 = [entry] ∧
        (machine.step queue e).1.announceFor key = some entry ∧
        ∀ old, queue.entries[key]? = some old → entry.bestHops < old.announce.bestHops := by
  have hkept : ∀ {q : AnnounceVerifyQueue},
      q.entries[key]? = none ∨ q.entries[key]? = queue.entries[key]? →
      q.announceFor key = none ∨ q.announceFor key = queue.announceFor key :=
    Or.imp (by simp [announceFor]) (congrArg (Option.map _))
  have hremove : ∀ key', (queue.removeEntry key').entries[key]? = none ∨
      (queue.removeEntry key').entries[key]? = queue.entries[key]? := by
    intro key'
    rw [getElem?_removeEntry]
    split_ifs
    · exact .inl rfl
    · exact .inr rfl
  cases e with
  | enqueue key' entry =>
    by_cases hkey : key' = key
    · obtain rfl := hkey
      by_cases hok : (queue.enqueue key' entry).2
      · obtain ⟨found, hfound, hannounce, -⟩ := queue.enqueue_taken key' hok
        refine .inr ⟨entry, rfl, by simp [machine, hok, acceptedFor], ?_,
          fun old => bestHops_lt_of_enqueue hok⟩
        simp [machine, announceFor, hfound, hannounce]
      · exact .inl ⟨by simp [machine, hok, acceptedFor], hkept (.inr (queue.enqueue_refused key' hok))⟩
    · refine .inl ⟨?_, hkept (getElem?_enqueue_of_ne hkey entry)⟩
      simp only [machine]
      split_ifs <;> simp [acceptedFor, hkey]
  | takePending now =>
    refine .inl ⟨by simp [machine, acceptedFor, List.filterMap_map], ?_⟩
    simp only [machine, announceFor, getElem?_takePending, Option.map_map]
    exact hkept (q := queue.removeStale now) (getElem?_foldl_removeEntry ..)
  | completeSuccess key' =>
    exact .inl ⟨by simp [machine, acceptedFor, List.filterMap_map], hkept (hremove key')⟩
  | completeFailure key' => exact .inl ⟨rfl, hkept (hremove key')⟩
  | clear => exact .inl ⟨rfl, .inl rfl⟩

variable (queue key) in
/-- What is enqueued for the key finds an announce there with no more hops. -/
def outranks : Event → Bool
  | .enqueue key' entry =>
    key' ≠ key || queue.entries[key]?.any (·.announce.bestHops ≤ entry.bestHops)
  | _ => true

theorem announceFor_step_of_outranks {e : Event}
    (h : ∀ found ∈ queue.announceFor key, found = announce) (houtranks : queue.outranks key e) :
    ∀ found ∈ (machine.step queue e).1.announceFor key, found = announce := by
  rcases step_announceFor queue key e with ⟨-, hnone | hsame⟩ | ⟨entry, rfl, -, -, hfewer⟩
  · simp [hnone]
  · rwa [hsame]
  · cases hold : queue.entries[key]? with
    | none => simp [outranks, hold] at houtranks
    | some old =>
      have hle : old.announce.bestHops ≤ entry.bestHops := by simpa [outranks, hold] using houtranks
      exact absurd (hfewer old hold) (UInt8.not_lt.mpr hle)

/-- The announce for the key is the last one accepted since `taken` was handed out, and the hops
only went down. -/
structure Follows (key : AnnounceVerifyKey) (taken : PendingAnnounce) (queue : AnnounceVerifyQueue)
    (reports : List Report) : Prop where
  announce : queue.announceFor key = some ((acceptedFor key reports).getLast?.getD taken)
  hops_le : ((acceptedFor key reports).getLast?.getD taken).bestHops ≤ taken.bestHops
  fewer : ∀ entry ∈ acceptedFor key reports, entry.bestHops < taken.bestHops

theorem Follows.step {taken : PendingAnnounce} {reports : List Report} {e : Event}
    (h : Follows key taken queue reports) (hstays : key ∈ (machine.step queue e).1.entries) :
    Follows key taken (machine.step queue e).1 (reports ++ (machine.step queue e).2) := by
  rcases step_announceFor queue key e with ⟨hnone, hthere⟩ | ⟨entry, -, hone, hnew, hfewer⟩
  · have haccepted : acceptedFor key (reports ++ (machine.step queue e).2) =
        acceptedFor key reports := by
      rw [acceptedFor_append, hnone, List.append_nil]
    have hsame := hthere.resolve_left fun hgone => by
      rw [announceFor, Option.map_eq_none_iff] at hgone
      simp [mem_iff_isSome_getElem?, hgone] at hstays
    exact ⟨haccepted ▸ hsame.trans h.announce, haccepted ▸ h.hops_le, haccepted ▸ h.fewer⟩
  · have haccepted : acceptedFor key (reports ++ (machine.step queue e).2) =
        acceptedFor key reports ++ [entry] := by
      rw [acceptedFor_append, hone]
    obtain ⟨old, hold, hannounce⟩ := Option.map_eq_some_iff.mp h.announce
    have hlt : entry.bestHops < taken.bestHops :=
      UInt8.lt_of_lt_of_le (hfewer old hold) (hannounce ▸ h.hops_le)
    refine ⟨?_, ?_, ?_⟩ <;> rw [haccepted]
    · rw [List.getLast?_concat]
      exact hnew
    · rw [List.getLast?_concat]
      exact UInt8.le_of_lt hlt
    · intro entry' hmem
      rcases List.mem_append.mp hmem with hmem | hmem
      · exact h.fewer entry' hmem
      · rw [List.mem_singleton.mp hmem]
        exact hlt

end Step

/-- From the moment an announce is handed to the verifier: as long as nothing with fewer hops is
enqueued for its key, completing the key returns this announce or nothing.  As long as its entry stays
in the queue, completing the key returns the last announce that was accepted for the key since then,
which has fewer hops, and the announce handed to the verifier when none was. -/
theorem completeSuccess_eq_last_accepted (queue : AnnounceVerifyQueue) (now : ℚ)
    (key : AnnounceVerifyKey) (taken : PendingAnnounce) (events : List Event)
    (htaken : (key, taken) ∈ (queue.takePending now).2) :
    let start := (queue.takePending now).1
    let after := machine.run start events
    (machine.Meets (fun _ q e => q.outranks key e) [] start events →
      ∀ announce ∈ (after.1.completeSuccess key).2, announce = taken) ∧
    (machine.Meets (fun _ q e => key ∈ (machine.step q e).1.entries) [] start events →
      (after.1.completeSuccess key).2 = some ((acceptedFor key after.2).getLast?.getD taken) ∧
        ∀ entry ∈ acceptedFor key after.2, entry.bestHops < taken.bestHops) := by
  intro start after
  have hstart : start.announceFor key = some taken := by
    rw [announceFor, mem_takePending queue htaken]
    rfl
  refine ⟨fun houtranks => ?_, fun hstays => ?_⟩
  · exact machine.run_keeps
      (I := fun (q : AnnounceVerifyQueue) => ∀ announce ∈ q.announceFor key, announce = taken)
      (fun _ _ _ h hok => announceFor_step_of_outranks h hok) (by simp [hstart]) houtranks
  · have hfollows : Follows key taken start [] := ⟨hstart, UInt8.le_refl _, nofun⟩
    have hafter := machine.run_invariant (I := fun _ q out => Follows key taken q out)
      (fun _ _ _ _ h hok => h.step hok) hfollows hstays
    rw [List.nil_append] at hafter
    exact ⟨hafter.announce, hafter.fewer⟩

/-! ## An announce replaced in flight -/

/-- A packet of an announce with some data. -/
def samplePacket (hops fill : UInt8) : RawPacket where
  flags := ⟨0, 0, 0, 0, PacketType.announce⟩
  hops := hops
  transportId := none
  destinationHash := Vector.replicate 16 1
  context := 0
  data := [fill]
  raw := [fill]
  packetHash := Vector.replicate 32 fill
  rx := ⟨none, none⟩

def sampleKey : AnnounceVerifyKey := ⟨Vector.replicate 16 1, Vector.replicate 10 2, Vector.replicate 16 3⟩

def sampleAnnounce (hops fill : UInt8) : PendingAnnounce :=
  ⟨[fill], samplePacket hops fill, 1, Vector.replicate 16 3, 0, hops, 0, Vector.replicate 10 2⟩

def sampleQueue : AnnounceVerifyQueue := ((new 8).enqueue sampleKey (sampleAnnounce 5 7)).1

theorem completeSuccess_eq_last_accepted_sample :
    let start := (sampleQueue.takePending 1).1
    let refused := [.enqueue sampleKey (sampleAnnounce 6 8), .takePending 2]
    let after := machine.run start (refused ++ [.enqueue sampleKey (sampleAnnounce 3 9)])
    (sampleKey, sampleAnnounce 5 7) ∈ (sampleQueue.takePending 1).2 ∧
      (∀ announce ∈ ((machine.run start refused).1.completeSuccess sampleKey).2,
        announce = sampleAnnounce 5 7) ∧
      (after.1.completeSuccess sampleKey).2 =
        some ((acceptedFor sampleKey after.2).getLast?.getD (sampleAnnounce 5 7)) ∧
      ∀ entry ∈ acceptedFor sampleKey after.2, entry.bestHops < (sampleAnnounce 5 7).bestHops :=
  have htaken : (sampleKey, sampleAnnounce 5 7) ∈ (sampleQueue.takePending 1).2 := by decide +kernel
  ⟨htaken,
    (completeSuccess_eq_last_accepted sampleQueue 1 sampleKey _ _ htaken).1 (by decide +kernel),
    (completeSuccess_eq_last_accepted sampleQueue 1 sampleKey _ _ htaken).2 (by decide +kernel)⟩

/-- An announce with fewer hops and other data replaces the one being verified, and completing the
verification returns it. -/
theorem completes_unverified_replacement :
    (sampleQueue.takePending 1).2 = [(sampleKey, sampleAnnounce 5 7)] ∧
      ((((sampleQueue.takePending 1).1.enqueue sampleKey (sampleAnnounce 3 9)).1).completeSuccess
        sampleKey).2 = some (sampleAnnounce 3 9) ∧
      (sampleAnnounce 3 9).packet.data ≠ (sampleAnnounce 5 7).packet.data := by
  decide +kernel

end AnnounceVerifyQueue

end Rns.Transport

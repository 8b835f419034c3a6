import Rns.Lib.Total
import Rns.Transport.AnnounceVerifyQueue

/-!
# Room in the verification queue

The count of bytes is exact in every run, but a replacement is not held against the limit.  The loop that
makes room may take out every entry that is worse than the newcomer and refuse it nevertheless.
-/

namespace Rns.Transport.AnnounceVerifyQueue

open Std.ExtTreeMap

def entryBytes (entries : Std.ExtTreeMap AnnounceVerifyKey QueueEntry) : ℕ :=
  total (fun entry => entry.announce.bytes) entries

/-- The counter is the sum of the entries, and both limits are kept. -/
structure Accounted (queue : AnnounceVerifyQueue) : Prop where
  bytes : queue.queuedBytes = entryBytes queue.entries
  entries_le : queue.entries.size ≤ queue.maxEntries
  bytes_le : queue.queuedBytes ≤ queue.maxBytes

/-- An announce that replaces another leaves the bytes within the limit. -/
def ReplacementFits (queue : AnnounceVerifyQueue) : Event → Prop
  | .enqueue key entry => ∀ existing ∈ queue.entries[key]?,
      entry.bestHops < existing.announce.bestHops →
        queue.queuedBytes - existing.announce.bytes + entry.bytes ≤ queue.maxBytes
  | _ => True

instance (queue : AnnounceVerifyQueue) : ∀ event, Decidable (queue.ReplacementFits event)
  | .enqueue key entry => inferInstanceAs (Decidable (∀ existing ∈ queue.entries[key]?,
      entry.bestHops < existing.announce.bestHops →
        queue.queuedBytes - existing.announce.bytes + entry.bytes ≤ queue.maxBytes))
  | .takePending _ | .completeSuccess _ | .completeFailure _ | .clear => .isTrue trivial

def InMemory (queue : AnnounceVerifyQueue) : Event → Prop
  | .enqueue _ entry => entryBytes queue.entries + entry.bytes < 2 ^ 64
  | _ => True

instance (queue : AnnounceVerifyQueue) : ∀ event, Decidable (queue.InMemory event)
  | .enqueue _ entry => inferInstanceAs (Decidable (entryBytes queue.entries + entry.bytes < 2 ^ 64))
  | .takePending _ | .completeSuccess _ | .completeFailure _ | .clear => .isTrue trivial

variable {key : AnnounceVerifyKey} {entry : PendingAnnounce}

section Removal

variable {queue : AnnounceVerifyQueue}

theorem contains_of_getElem? {entry : QueueEntry} (h : queue.entries[key]? = some entry) :
    queue.entries.contains key := by
  rw [contains_eq_isSome_getElem?, h]
  rfl

theorem entryBytes_removeEntry (queue : AnnounceVerifyQueue) (key : AnnounceVerifyKey) :
    entryBytes (queue.removeEntry key).entries ≤ entryBytes queue.entries := by
  unfold removeEntry
  split
  · exact le_refl _
  · exact total_erase_le _ _ key

theorem Accounted.removeEntry (h : queue.Accounted) (key : AnnounceVerifyKey) :
    (queue.removeEntry key).Accounted := by
  unfold AnnounceVerifyQueue.removeEntry
  cases hentry : queue.entries[key]? with
  | none => exact h
  | some removed =>
    have htotal : queue.queuedBytes =
        removed.announce.bytes + entryBytes (queue.entries.erase key) :=
      h.bytes.trans (total_erase _ _ hentry)
    refine ⟨?_, ?_, (Nat.sub_le _ _).trans h.bytes_le⟩
    · dsimp only
      rw [htotal, Nat.add_sub_cancel_left]
    · exact size_erase_le.trans h.entries_le

theorem Accounted.makeRoom (h : queue.Accounted) (incoming : PendingAnnounce) (fuel : ℕ) :
    (makeRoom incoming fuel queue).1.Accounted ∧
      entryBytes (makeRoom incoming fuel queue).1.entries ≤ entryBytes queue.entries := by
  induction fuel generalizing queue with
  | zero => exact ⟨h, le_refl _⟩
  | succ fuel ih =>
    rw [AnnounceVerifyQueue.makeRoom]
    split_ifs
    · split
      · exact ⟨h, le_refl _⟩
      · next evicted _ =>
        have hrest := ih (h.removeEntry evicted)
        exact ⟨hrest.1, hrest.2.trans (entryBytes_removeEntry ..)⟩
    · exact ⟨h, le_refl _⟩

theorem isFull_makeRoom (queue : AnnounceVerifyQueue) (incoming : PendingAnnounce) (fuel : ℕ)
    (h : (makeRoom incoming fuel queue).2) :
    ¬(makeRoom incoming fuel queue).1.isFull incoming.bytes := by
  induction fuel generalizing queue with
  | zero => cases h
  | succ fuel ih =>
    rw [makeRoom] at h ⊢
    split_ifs at h ⊢ with hfull
    · cases hevicted : queue.selectEvictionCandidate incoming with
      | none =>
        rw [hevicted] at h
        cases h
      | some evicted =>
        rw [hevicted] at h
        exact ih _ h
    · exact hfull

theorem Accounted.removeStale (h : queue.Accounted) (now : ℚ) :
    (queue.removeStale now).Accounted := by
  unfold AnnounceVerifyQueue.removeStale
  generalize queue.entries.toList.filter _ = stale
  induction stale generalizing queue with
  | nil => exact h
  | cons entry stale ih =>
    rw [List.foldl_cons]
    exact ih (h.removeEntry entry.1)

theorem Accounted.takePending (h : queue.Accounted) (now : ℚ) :
    (queue.takePending now).1.Accounted := by
  have hstale := h.removeStale now
  refine ⟨?_, ?_, hstale.bytes_le⟩
  · have hmap := total_map (fun entry : QueueEntry => entry.announce.bytes)
      (fun (_ : AnnounceVerifyKey) (entry : QueueEntry) => QueueEntry.inFlight entry.announce)
      (queue.removeStale now).entries (fun entry => entry.announce.bytes) fun _ _ => rfl
    exact hstale.bytes.trans hmap.symm
  · exact size_map.trans_le hstale.entries_le

end Removal

/-! ## The count of bytes along a run -/

section Accounting

variable {queue : AnnounceVerifyQueue}

theorem accounted_replace (h : queue.Accounted) {existing : QueueEntry}
    (hexisting : queue.entries[key]? = some existing)
    (hmemory : entryBytes queue.entries + entry.bytes < 2 ^ 64) :
    Accounted { queue with
      entries := queue.entries.insert key (existing.replace entry)
      queuedBytes := addBytes (queue.queuedBytes - existing.announce.bytes) entry.bytes } ↔
    queue.queuedBytes - existing.announce.bytes + entry.bytes ≤ queue.maxBytes := by
  have hannounce : (existing.replace entry).announce = entry := by cases existing <;> rfl
  have hrest : queue.queuedBytes - existing.announce.bytes =
      entryBytes (queue.entries.erase key) := by
    have htotal := total_erase (fun entry : QueueEntry => entry.announce.bytes) _ hexisting
    rw [h.bytes, entryBytes, htotal, Nat.add_sub_cancel_left, entryBytes]
  have hinsert : entryBytes (queue.entries.insert key (existing.replace entry)) =
      entry.bytes + (queue.queuedBytes - existing.announce.bytes) := by
    rw [hrest, entryBytes, total_insert, hannounce, entryBytes]
  have hsize : (queue.entries.insert key (existing.replace entry)).size = queue.entries.size := by
    rw [size_insert, if_pos (contains_of_getElem? hexisting)]
  have hadd : addBytes (queue.queuedBytes - existing.announce.bytes) entry.bytes =
      queue.queuedBytes - existing.announce.bytes + entry.bytes := by
    rw [← h.bytes] at hmemory
    unfold addBytes
    omega
  constructor
  · intro hafter
    exact hadd.symm.trans_le hafter.bytes_le
  · intro hfits
    refine ⟨?_, hsize.trans_le h.entries_le, hadd.trans_le hfits⟩
    rw [hinsert]
    exact hadd.trans (Nat.add_comm _ _)

theorem Accounted.insert (h : queue.Accounted) (hnew : queue.entries[key]? = none)
    (hmemory : entryBytes queue.entries + entry.bytes < 2 ^ 64)
    (hroom : ¬queue.isFull entry.bytes) :
    Accounted { queue with
      entries := queue.entries.insert key (.pending entry)
      queuedBytes := addBytes queue.queuedBytes entry.bytes } := by
  simp only [isFull, decide_eq_true_eq, not_or, ge_iff_le, gt_iff_lt, not_le, not_lt] at hroom
  obtain ⟨hentries, hbytes⟩ := hroom
  have hadd : addBytes queue.queuedBytes entry.bytes = queue.queuedBytes + entry.bytes := by
    rw [← h.bytes] at hmemory
    unfold addBytes
    omega
  refine ⟨?_, ?_, hbytes⟩
  · dsimp only
    rw [hadd, entryBytes, total_insert_of_none _ _ hnew, h.bytes, Nat.add_comm]
    rfl
  · refine size_insert_le.trans ?_
    exact hentries

theorem accounted_step (h : queue.Accounted) {event : Event} (hmemory : queue.InMemory event) :
    (machine.step queue event).1.Accounted ↔ queue.ReplacementFits event := by
  cases event with
  | enqueue key entry =>
    simp only [machine, enqueue, ReplacementFits]
    cases hexisting : queue.entries[key]? with
    | some existing =>
      simp only [Option.mem_some_iff, forall_eq']
      by_cases hfewer : entry.bestHops < existing.announce.bestHops
      · rw [if_pos hfewer, accounted_replace h hexisting hmemory]
        exact ⟨fun hfits _ => hfits, fun hfits => hfits hfewer⟩
      · rw [if_neg hfewer]
        exact iff_of_true h fun hfewer' => absurd hfewer' hfewer
    | none =>
      refine iff_of_true ?_ (by simp)
      by_cases hbig : entry.bytes > queue.maxBytes
      · simp only [if_pos hbig]
        exact h
      · simp only [if_neg hbig]
        have hroom := h.makeRoom entry (queue.entries.size + 1)
        have hkey := getElem?_makeRoom queue key entry (queue.entries.size + 1)
        rw [hexisting, or_self] at hkey
        rcases hmade : makeRoom entry .. with ⟨queue', _ | _⟩
        · rw [hmade] at hroom
          exact hroom.1
        · have hfree := isFull_makeRoom queue entry (queue.entries.size + 1) (by rw [hmade])
          rw [hmade] at hroom hkey hfree
          exact hroom.1.insert hkey (lt_of_le_of_lt (Nat.add_le_add_right hroom.2 _) hmemory) hfree
  | takePending now => exact iff_of_true (h.takePending now) trivial
  | completeSuccess key | completeFailure key => exact iff_of_true (h.removeEntry key) trivial
  | clear => exact iff_of_true ⟨(total_empty _).symm, Nat.zero_le _, Nat.zero_le _⟩ trivial

theorem accounted_withLimits (maxEntries maxBytes : ℕ) (maxStaleSecs : ℚ) (policy : OverflowPolicy) :
    (withLimits maxEntries maxBytes maxStaleSecs policy).Accounted :=
  ⟨(total_empty _).symm, Nat.zero_le _, Nat.zero_le _⟩

end Accounting

/-- Along every run the counter is the sum of the bytes in the queue and the limits are kept,
exactly if no replacement takes the bytes over their limit. -/
theorem accounted_iff_replacements_fit (maxEntries maxBytes : ℕ) (maxStaleSecs : ℚ)
    (policy : OverflowPolicy) (events : List Event)
    (hmemory : machine.Meets (fun _ queue event => queue.InMemory event) []
      (withLimits maxEntries maxBytes maxStaleSecs policy) events) :
    machine.Meets (fun _ queue event => queue.Accounted ∧ (machine.step queue event).1.Accounted) []
        (withLimits maxEntries maxBytes maxStaleSecs policy) events ↔
      machine.Meets (fun _ queue event => queue.ReplacementFits event) []
        (withLimits maxEntries maxBytes maxStaleSecs policy) events := by
  refine machine.meets_iff_of_given (I := Accounted) (fun queue event h hmemory => ?_)
    (fun queue event h hmemory hfits => (accounted_step h hmemory).mpr hfits)
    (accounted_withLimits ..) [] hmemory
  rw [accounted_step h hmemory]
  exact and_iff_right h

section Example

def wideAnnounce (hops : UInt8) (bytes : ℕ) : PendingAnnounce :=
  { sampleAnnounce hops 7 with originalRaw := List.replicate bytes 0 }

def replacing (bytes : ℕ) : List Event :=
  [.enqueue sampleKey (wideAnnounce 5 3), .enqueue sampleKey (wideAnnounce 3 bytes)]

def narrowQueue : AnnounceVerifyQueue := withLimits 8 5 30 .dropWorst

theorem accounted_iff_replacements_fit_sample :
    machine.Meets (fun _ queue event => queue.Accounted ∧ (machine.step queue event).1.Accounted) []
      narrowQueue (replacing 4) :=
  (accounted_iff_replacements_fit 8 5 30 .dropWorst (replacing 4) (by decide +kernel)).mpr
    (by decide +kernel)

/-- The replacement is longer than the queue may be. -/
theorem replacement_exceeds_maxBytes :
    (machine.run narrowQueue (replacing 6)).1.maxBytes <
      (machine.run narrowQueue (replacing 6)).1.queuedBytes := by
  decide +kernel

end Example

/-! ## What is evicted for a newcomer -/

/-- The entries that `select_eviction_candidate` may choose. -/
def evictable (policy : OverflowPolicy) (incoming : PendingAnnounce) (entry : QueueEntry) : Bool :=
  match policy with
  | .dropNewest => false
  | .dropOldest => true
  | .dropWorst => incoming.bestHops < entry.announce.bestHops

/-- The queue when every entry that may be evicted is gone. -/
def withoutEvictable (queue : AnnounceVerifyQueue) (incoming : PendingAnnounce) :
    AnnounceVerifyQueue :=
  { queue with
    entries := queue.entries.filter fun _ entry => !evictable queue.overflowPolicy incoming entry
    queuedBytes := queue.queuedBytes -
      entryBytes (queue.entries.filter fun _ entry => evictable queue.overflowPolicy incoming entry) }

section Eviction

variable {queue : AnnounceVerifyQueue} {incoming : PendingAnnounce}

theorem evictable_of_no_candidate (h : queue.selectEvictionCandidate incoming = none)
    {entry : QueueEntry} (hentry : queue.entries[key]? = some entry) :
    evictable queue.overflowPolicy incoming entry = false := by
  have hmem := mem_toList_iff_getElem?_eq_some.mpr hentry
  have hne : queue.entries.toList ≠ [] := List.ne_nil_of_mem hmem
  unfold selectEvictionCandidate at h
  unfold evictable
  cases hpolicy : queue.overflowPolicy with
  | dropNewest => rfl
  | dropOldest =>
    obtain ⟨m, -, hm⟩ := minBy_mem
      (fun a b : AnnounceVerifyKey × QueueEntry => a.2.announce.queuedAt < b.2.announce.queuedAt) hne
    simp [hpolicy, oldest, hm] at h
  | dropWorst =>
    obtain ⟨m, -, hm⟩ := maxBy_mem (fun a b : AnnounceVerifyKey × QueueEntry =>
      a.2.announce.bestHops < b.2.announce.bestHops ∨
        a.2.announce.bestHops = b.2.announce.bestHops ∧
          a.2.announce.queuedAt < b.2.announce.queuedAt) hne
    have hworst : worst queue.entries.toList = some m := hm
    simp only [hpolicy, hworst, ite_eq_left_iff, reduceCtorEq, imp_false, not_not] at h
    have hle : entry.announce.bestHops.toNat ≤ m.2.announce.bestHops.toNat := by
      refine le_of_maxBy_eq_some _
        (fun p : AnnounceVerifyKey × QueueEntry => p.2.announce.bestHops.toNat)
        (fun a b hab => ?_) (fun a b hab => ?_) hm _ hmem
      · rcases of_decide_eq_true hab with hlt | ⟨heq, -⟩
        · exact Nat.le_of_lt hlt
        · exact heq ▸ Nat.le_refl _
      · have hnot : ¬(a.2.announce.bestHops < b.2.announce.bestHops) := fun hlt =>
          hab (decide_eq_true (.inl hlt))
        exact UInt8.not_lt.mp hnot
    exact decide_eq_false (UInt8.not_lt.mpr (UInt8.le_trans hle h))

variable {key : AnnounceVerifyKey} {entry : QueueEntry}

theorem evictable_of_candidate (h : queue.selectEvictionCandidate incoming = some key) :
    ∃ entry : QueueEntry, queue.entries[key]? = some entry ∧
      evictable queue.overflowPolicy incoming entry := by
  have hne : ∀ {m : AnnounceVerifyKey × QueueEntry}, m ∈ queue.entries.toList →
      queue.entries[m.1]? = some m.2 := fun hmem =>
    mem_toList_iff_getElem?_eq_some.mp hmem
  unfold selectEvictionCandidate at h
  unfold evictable
  cases hpolicy : queue.overflowPolicy with
  | dropNewest => simp [hpolicy] at h
  | dropOldest =>
    rw [hpolicy] at h
    obtain ⟨m, hm, rfl⟩ := Option.map_eq_some_iff.mp h
    have hmem : queue.entries.toList ≠ [] := by
      rintro hnil
      rw [hnil] at hm
      cases hm
    obtain ⟨m', hmem', hm'⟩ := minBy_mem
      (fun a b : AnnounceVerifyKey × QueueEntry => a.2.announce.queuedAt < b.2.announce.queuedAt)
      hmem
    obtain rfl : m' = m := Option.some.inj (hm'.symm.trans hm)
    exact ⟨m'.2, hne hmem', rfl⟩
  | dropWorst =>
    rw [hpolicy] at h
    dsimp only at h
    split at h
    · cases h
    · next key' candidate hm =>
      split_ifs at h with hhops
      obtain rfl := Option.some.inj h
      have hmem : queue.entries.toList ≠ [] := by
        rintro hnil
        rw [hnil] at hm
        cases hm
      obtain ⟨m', hmem', hm'⟩ := maxBy_mem (fun a b : AnnounceVerifyKey × QueueEntry =>
        a.2.announce.bestHops < b.2.announce.bestHops ∨
          a.2.announce.bestHops = b.2.announce.bestHops ∧
            a.2.announce.queuedAt < b.2.announce.queuedAt) hmem
      obtain rfl : m' = (key', candidate) := Option.some.inj (hm'.symm.trans hm)
      exact ⟨candidate, hne hmem', decide_eq_true (UInt8.not_le.mp hhops)⟩

theorem withoutEvictable_removeEntry (hentry : queue.entries[key]? = some entry)
    (hevictable : evictable queue.overflowPolicy incoming entry) :
    (queue.removeEntry key).withoutEvictable incoming = queue.withoutEvictable incoming := by
  have hfilter : (queue.entries.filter fun _ entry =>
      evictable queue.overflowPolicy incoming entry)[key]? = some entry := by
    rw [getElem?_filter', hentry, Option.filter_some, if_pos hevictable]
  have htotal := total_erase (fun entry : QueueEntry => entry.announce.bytes) _ hfilter
  rw [erase_filter] at htotal
  have hkept : (queue.entries.erase key).filter (fun _ entry =>
      !evictable queue.overflowPolicy incoming entry) = queue.entries.filter fun _ entry =>
      !evictable queue.overflowPolicy incoming entry := by
    rw [← erase_filter]
    apply erase_eq_self
    rw [getElem?_filter', hentry, Option.filter_some, hevictable]
    rfl
  simp only [removeEntry, hentry, withoutEvictable, hkept, entryBytes, htotal, Nat.sub_sub]

theorem withoutEvictable_of_no_candidate (h : queue.selectEvictionCandidate incoming = none) :
    queue.withoutEvictable incoming = queue := by
  have hkept : queue.entries.filter (fun _ entry =>
      !evictable queue.overflowPolicy incoming entry) = queue.entries := by
    apply ext_getElem?
    intro key
    rw [getElem?_filter']
    cases hentry : queue.entries[key]? with
    | none => rfl
    | some entry => simp [evictable_of_no_candidate h hentry]
  have hnone : queue.entries.filter (fun _ entry =>
      evictable queue.overflowPolicy incoming entry) = ∅ := by
    apply ext_getElem?
    intro key
    rw [getElem?_filter']
    cases hentry : queue.entries[key]? with
    | none => simp
    | some entry => simp [evictable_of_no_candidate h hentry]
  rw [withoutEvictable, hkept, hnone, entryBytes, total_empty, Nat.sub_zero]

theorem isFull_of_isFull_withoutEvictable {bytes : ℕ}
    (h : (queue.withoutEvictable incoming).isFull bytes) : queue.isFull bytes := by
  simp only [isFull, decide_eq_true_eq] at h ⊢
  rcases h with hentries | hbytes
  · exact .inl (hentries.trans size_filter_le_size)
  · refine .inr (lt_of_lt_of_le hbytes ?_)
    have hsub : (queue.withoutEvictable incoming).queuedBytes ≤ queue.queuedBytes := Nat.sub_le _ _
    unfold addBytes
    omega

theorem size_removeEntry (hentry : queue.entries[key]? = some entry) :
    (queue.removeEntry key).entries.size + 1 = queue.entries.size := by
  have hpos := total_erase (fun _ : QueueEntry => 1) _ hentry
  simp only [removeEntry, hentry]
  rw [size_eq_total, size_eq_total, hpos, Nat.add_comm]

/-- The loop finds room exactly if there is room once all that may go is gone; otherwise all of it
is gone in the end. -/
theorem makeRoom_eq (queue : AnnounceVerifyQueue) (incoming : PendingAnnounce) {fuel : ℕ}
    (hfuel : queue.entries.size < fuel) :
    if (queue.withoutEvictable incoming).isFull incoming.bytes then
      makeRoom incoming fuel queue = (queue.withoutEvictable incoming, false)
    else (makeRoom incoming fuel queue).2 := by
  induction fuel generalizing queue with
  | zero => cases hfuel
  | succ fuel ih =>
    rw [makeRoom]
    by_cases hfull : queue.isFull incoming.bytes
    · rw [if_pos hfull]
      cases hcandidate : queue.selectEvictionCandidate incoming with
      | none =>
        rw [withoutEvictable_of_no_candidate hcandidate, if_pos hfull]
      | some key =>
        obtain ⟨entry, hentry, hevictable⟩ := evictable_of_candidate hcandidate
        have hsize : (queue.removeEntry key).entries.size < fuel := by
          rw [← Nat.succ_lt_succ_iff, Nat.succ_eq_add_one, size_removeEntry hentry]
          exact hfuel
        have hrest := ih _ hsize
        rwa [withoutEvictable_removeEntry hentry hevictable] at hrest
    · rw [if_neg hfull, if_neg fun h => hfull (isFull_of_isFull_withoutEvictable h)]

/-- Nothing is evicted for an announce that is then refused: it is one the queue knows or one too
long by itself, or nothing may be evicted for it, or there is room once all that may be is gone. -/
def AllOrNothing (queue : AnnounceVerifyQueue) (key : AnnounceVerifyKey) (incoming : PendingAnnounce) :
    Prop :=
  queue.entries.contains key ∨ incoming.bytes > queue.maxBytes ∨
    (∀ p ∈ queue.entries.toList, evictable queue.overflowPolicy incoming p.2 = false) ∨
    ¬(queue.withoutEvictable incoming).isFull incoming.bytes

theorem withoutEvictable_ne {p : AnnounceVerifyKey × QueueEntry} (hp : p ∈ queue.entries.toList)
    (hevictable : evictable queue.overflowPolicy incoming p.2) :
    queue.withoutEvictable incoming ≠ queue := by
  intro heq
  have hentry := mem_toList_iff_getElem?_eq_some.mp hp
  have hgone : (queue.withoutEvictable incoming).entries[p.1]? = none := by
    rw [withoutEvictable, getElem?_filter', hentry, Option.filter_some, hevictable]
    rfl
  rw [heq, hentry] at hgone
  cases hgone

end Eviction

/-- An announce that is refused leaves the queue as it was, exactly if the queue knows its key, it
is too long by itself, nothing may be evicted for it, or there is room for it once everything that
may be evicted is gone. -/
theorem refused_unchanged_iff (queue : AnnounceVerifyQueue) (key : AnnounceVerifyKey)
    (incoming : PendingAnnounce) :
    ((queue.enqueue key incoming).2 = false → (queue.enqueue key incoming).1 = queue) ↔
      queue.AllOrNothing key incoming := by
  have hcontains : queue.entries.contains key = queue.entries[key]?.isSome :=
    Std.ExtTreeMap.contains_eq_isSome_getElem?
  unfold enqueue AllOrNothing
  cases hexisting : queue.entries[key]? with
  | some existing =>
    rw [hcontains, hexisting]
    refine iff_of_true (fun hrefused => ?_) (.inl rfl)
    dsimp only at hrefused ⊢
    split_ifs at hrefused ⊢
    rfl
  | none =>
    rw [hcontains, hexisting]
    by_cases hbig : incoming.bytes > queue.maxBytes
    · exact iff_of_true (fun _ => by simp only [if_pos hbig]) (.inr (.inl hbig))
    · simp only [if_neg hbig]
      have hroom := makeRoom_eq queue incoming (Nat.lt_succ_self _)
      by_cases hfull : (queue.withoutEvictable incoming).isFull incoming.bytes
      · rw [if_pos hfull] at hroom
        rw [hroom]
        simp only [forall_const, Option.isSome_none, Bool.false_eq_true, hbig, hfull, not_true,
          or_false, false_or]
        constructor
        · intro heq p hp
          by_contra hevictable
          exact withoutEvictable_ne hp (Bool.not_eq_false _ ▸ hevictable) heq
        · intro hnone
          have hcandidate : queue.selectEvictionCandidate incoming = none := by
            by_contra hsome
            obtain ⟨key', hkey'⟩ := Option.ne_none_iff_exists'.mp hsome
            obtain ⟨entry, hentry, hevictable⟩ := evictable_of_candidate hkey'
            have hfalse := hnone (key', entry)
              (Std.ExtTreeMap.mem_toList_iff_getElem?_eq_some.mpr hentry)
            rw [hevictable] at hfalse
            cases hfalse
          exact withoutEvictable_of_no_candidate hcandidate
      · rw [if_neg hfull] at hroom
        refine iff_of_true (fun hrefused => ?_) (.inr (.inr (.inr hfull)))
        rcases hmade : makeRoom incoming .. with ⟨queue', _ | _⟩
        · rw [hmade] at hroom
          cases hroom
        · rw [hmade] at hrefused
          cases hrefused

def mixedQueue : AnnounceVerifyQueue :=
  (machine.run (withLimits 8 20 30 .dropWorst) [.enqueue sampleKey (wideAnnounce 1 9),
    .enqueue { sampleKey with receivedFrom := .replicate 16 4 } (wideAnnounce 5 3)]).1

/-- An announce with three hops is refused, as it does not fit beside the better one; but the worse
one was evicted for it. -/
theorem refused_announce_evicts :
    let after := mixedQueue.enqueue { sampleKey with receivedFrom := .replicate 16 6 }
      (wideAnnounce 3 12)
    after.2 = false ∧ mixedQueue.entries.size = 2 ∧ after.1.entries.size = 1 ∧
      mixedQueue.queuedBytes = 14 ∧ after.1.queuedBytes = 10 := by
  decide +kernel

end Rns.Transport.AnnounceVerifyQueue

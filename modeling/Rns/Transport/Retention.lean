import Rns.Transport.Slots

/-!
# Announces waiting to be retransmitted

The announce table and the held announces are a machine of their own (`retention`).  Entries expire, and
the oldest are evicted when the tables take too much room; within these limits every operation acts on
the slots of its destination.
-/

namespace Rns.Transport

open List
open Std (ExtTreeMap)

variable {d : Hash16} {entry : AnnounceEntry} {t : Retransmission} {r : Retained}

namespace TransportEngine

namespace Retained

/-- One due announce of `process_pending_announces`. -/
def retransmit (identityHash : Hash16) (now : ℚ) (r : Retained) (destHash : Hash16) :
    Retained × List Retransmission :=
  match r.announceTable[destHash]? with
  | none => (r, [])
  | some entry =>
    let announceTable := r.announceTable.insert destHash (entry.retried now)
    let sent := [(entry.retried now).transmission destHash identityHash]
    match r.heldAnnounces[destHash]? with
    | some held =>
      (⟨announceTable.insert destHash held, r.heldAnnounces.erase destHash⟩, sent)
    | none => (⟨announceTable, r.heldAnnounces⟩, sent)

/-- The loop over the due announces. -/
def retransmitAll (identityHash : Hash16) (now : ℚ) : List Hash16 → Retained →
    Retained × List Retransmission
  | [], r => (r, [])
  | destHash :: due, r =>
    let (r, sent) := retransmit identityHash now r destHash
    let (r, more) := retransmitAll identityHash now due r
    (r, sent ++ more)

/-- The announces whose transmissions are used up. -/
def completedKeys (r : Retained) : List Hash16 :=
  (r.announceTable.toList.filter fun (_, entry) =>
    entry.retries ≥ localRebroadcastsMax ∨ entry.retries > pathfinderR).map Prod.fst

/-- The others whose time has come, those with fewer hops first. -/
def dueKeys (now : ℚ) (r : Retained) : List Hash16 :=
  ((r.announceTable.toList.filter fun (_, entry) =>
    ¬(entry.retries ≥ localRebroadcastsMax ∨ entry.retries > pathfinderR) ∧
      now > entry.retransmitTimeout).insertionSort
    fun a b => a.2.hops < b.2.hops ∨ a.2.hops = b.2.hops ∧ (compare a.1 b.1).isLE).map Prod.fst

def processPendingAnnounces (r : Retained) (identityHash : Hash16) (now : ℚ) :
    Retained × List Retransmission :=
  let completed := r.completedKeys
  let (r, sent) := retransmitAll identityHash now (dueKeys now r) r
  ({ r with announceTable := completed.foldl .erase r.announceTable }, sent)

/-- Nothing has expired. -/
def Fresh (r : Retained) (ttl now : ℚ) : Prop :=
  (∀ (d : Hash16) (entry : AnnounceEntry), r.announceTable[d]? = some entry →
    now ≤ entry.timestamp + ttl) ∧
  ∀ (d : Hash16) (entry : AnnounceEntry), r.heldAnnounces[d]? = some entry →
    now ≤ entry.timestamp + ttl

instance (r : Retained) (ttl now : ℚ) : Decidable (r.Fresh ttl now) := by
  refine decidable_of_iff ((∀ p ∈ r.announceTable.toList, now ≤ p.2.timestamp + ttl) ∧
    ∀ p ∈ r.heldAnnounces.toList, now ≤ p.2.timestamp + ttl) ?_
  simp only [Fresh, Prod.forall, ExtTreeMap.mem_toList_iff_getElem?_eq_some]

def slots (r : Retained) (d : Hash16) : Slots := ⟨r.announceTable[d]?, r.heldAnnounces[d]?⟩

theorem filter_eq_self {table : ExtTreeMap Hash16 AnnounceEntry} (keep : AnnounceEntry → Bool)
    (h : ∀ (d : Hash16) (entry : AnnounceEntry), table[d]? = some entry → keep entry) :
    (table.filter fun _ entry => keep entry) = table := by
  refine ExtTreeMap.ext_getElem? fun d => ?_
  rw [ExtTreeMap.getElem?_filter']
  cases hentry : table[d]? with
  | none => rfl
  | some entry => exact Option.filter_eq_some_iff.mpr ⟨rfl, h d entry hentry⟩

theorem cullExpired_of_fresh {ttl now : ℚ} (h : r.Fresh ttl now) : r.cullExpired ttl now = r := by
  unfold cullExpired
  rw [filter_eq_self (fun entry => now ≤ entry.timestamp + ttl)
      fun d entry hentry => by simpa using h.1 d entry hentry,
    filter_eq_self (fun entry => now ≤ entry.timestamp + ttl)
      fun d entry hentry => by simpa using h.2 d entry hentry]

theorem evict_of_le {maxBytes : ℕ} (h : r.bytesTotal ≤ maxBytes) {fuel : ℕ} :
    evict maxBytes fuel r = r := by
  cases fuel with
  | zero => rfl
  | succ fuel => rw [evict, if_neg (not_lt.mpr h)]

/-! ### The check, by destination -/

section Check

variable (identityHash : Hash16) (now : ℚ) (r : Retained)

def sentSlots (slots : Slots) : Slots :=
  match slots.pending with
  | none => slots
  | some entry => ⟨some (slots.held.getD (entry.retried now)), none⟩

def transmissions (d : Hash16) : List Retransmission :=
  (r.announceTable[d]?.map fun entry => entry.transmission d identityHash).toList

theorem slots_retransmit_self {d : Hash16} :
    (retransmit identityHash now r d).1.slots d = sentSlots now (r.slots d) := by
  unfold retransmit sentSlots slots
  cases hentry : r.announceTable[d]? with
  | none => simp only [hentry]
  | some entry =>
    cases hheld : r.heldAnnounces[d]? with
    | none => simp [hheld]
    | some held => simp

variable {due : List Hash16} {table : ExtTreeMap Hash16 AnnounceEntry}
  {keep : Hash16 × AnnounceEntry → Bool} {d : Hash16}

theorem slots_retransmit_of_ne {d' : Hash16} (h : d' ≠ d) :
    (retransmit identityHash now r d').1.slots d = r.slots d := by
  have hcompare : ¬compare d' d = .eq := fun heq => h (Std.compare_eq_iff_eq.mp heq)
  unfold retransmit slots
  split
  · rfl
  · dsimp only
    split <;> simp [ExtTreeMap.getElem?_insert, ExtTreeMap.getElem?_erase, hcompare]

theorem sent_retransmit {d : Hash16} :
    (retransmit identityHash now r d).2 = transmissions identityHash r d := by
  unfold retransmit transmissions
  split
  · next hnone =>
    rw [hnone]
    rfl
  · next entry hentry =>
    rw [hentry]
    dsimp only
    split <;> rfl

theorem transmissions_congr {r r' : Retained} {d : Hash16} (h : r'.slots d = r.slots d) :
    transmissions identityHash r' d = transmissions identityHash r d := by
  unfold transmissions
  rw [show r'.announceTable[d]? = r.announceTable[d]? from congrArg Slots.pending h]

theorem slots_retransmitAll (hnodup : due.Nodup) (r : Retained) (d : Hash16) :
    (retransmitAll identityHash now due r).1.slots d =
      if d ∈ due then sentSlots now (r.slots d) else r.slots d := by
  induction due generalizing r with
  | nil => rfl
  | cons d' due ih =>
    obtain ⟨hnotin, hnodup⟩ := nodup_cons.mp hnodup
    have hrun : (retransmitAll identityHash now (d' :: due) r).1 =
      (retransmitAll identityHash now due (retransmit identityHash now r d').1).1 := rfl
    rw [hrun, ih hnodup]
    by_cases heq : d' = d
    · subst heq
      rw [if_neg hnotin, if_pos mem_cons_self, slots_retransmit_self]
    · rw [slots_retransmit_of_ne identityHash now r heq]
      simp only [mem_cons, Ne.symm heq, false_or]

theorem mem_retransmitAll (hnodup : due.Nodup) (r : Retained) (t : Retransmission) :
    t ∈ (retransmitAll identityHash now due r).2 ↔
      ∃ d ∈ due, t ∈ transmissions identityHash r d := by
  induction due generalizing r with
  | nil => simp [retransmitAll]
  | cons d' due ih =>
    obtain ⟨hnotin, hnodup⟩ := nodup_cons.mp hnodup
    have hrun : (retransmitAll identityHash now (d' :: due) r).2 =
      (retransmit identityHash now r d').2 ++
        (retransmitAll identityHash now due (retransmit identityHash now r d').1).2 := rfl
    have hsame : ∀ d ∈ due, transmissions identityHash (retransmit identityHash now r d').1 d =
        transmissions identityHash r d := by
      intro d hd
      have hne : d' ≠ d := fun heq => hnotin (heq ▸ hd)
      exact transmissions_congr identityHash (slots_retransmit_of_ne identityHash now r hne)
    rw [hrun, mem_append, ih hnodup, sent_retransmit]
    simp only [mem_cons, exists_eq_or_imp]
    refine or_congr_right ⟨?_, ?_⟩
    · rintro ⟨d, hd, ht⟩
      exact ⟨d, hd, hsame d hd ▸ ht⟩
    · rintro ⟨d, hd, ht⟩
      exact ⟨d, hd, (hsame d hd).symm ▸ ht⟩

theorem getElem?_foldl_erase {keys : List Hash16} {table : ExtTreeMap Hash16 AnnounceEntry}
    {d : Hash16} : (keys.foldl .erase table)[d]? = if d ∈ keys then none else table[d]? := by
  induction keys generalizing table with
  | nil => rfl
  | cons key keys ih =>
    rw [foldl_cons, ih, ExtTreeMap.getElem?_erase]
    by_cases heq : key = d
    · simp [heq]
    · have hcompare : ¬compare key d = .eq := fun h => heq (Std.compare_eq_iff_eq.mp h)
      simp [hcompare, Ne.symm heq]

theorem not_waits_iff {entry : AnnounceEntry} :
    entry.retries ≥ localRebroadcastsMax ∨ entry.retries > pathfinderR ↔ ¬entry.Waits := by
  unfold AnnounceEntry.Waits
  simp only [UInt8.lt_iff_toNat_lt, UInt8.le_iff_toNat_le, ge_iff_le, gt_iff_lt]
  have hone : pathfinderR.toNat = 1 := rfl
  have htwo : localRebroadcastsMax.toNat = 2 := rfl
  omega

theorem mem_filter_keys : d ∈ (table.toList.filter keep).map Prod.fst ↔
      ∃ entry : AnnounceEntry, table[d]? = some entry ∧ keep (d, entry) := by
  simp only [mem_map, mem_filter, Prod.exists, ExtTreeMap.mem_toList_iff_getElem?_eq_some]
  constructor
  · rintro ⟨_, entry, h, rfl⟩
    exact ⟨entry, h⟩
  · rintro ⟨entry, h⟩
    exact ⟨d, entry, h, rfl⟩

theorem nodup_filter_keys : ((table.toList.filter keep).map Prod.fst).Nodup := by
  have hpairwise := (ExtTreeMap.distinct_keys_toList (t := table)).filter keep
  refine pairwise_map.mpr (hpairwise.imp ?_)
  intro a b hne heq
  exact hne (Std.compare_eq_iff_eq.mpr heq)

theorem mem_dueKeys : d ∈ dueKeys now r ↔ (r.slots d).Due now := by
  unfold dueKeys
  rw [((perm_insertionSort _ _).map Prod.fst).mem_iff, mem_filter_keys]
  simp only [not_waits_iff, not_not, decide_eq_true_eq]
  rfl

theorem nodup_dueKeys : (dueKeys now r).Nodup :=
  ((perm_insertionSort _ _).map Prod.fst).nodup_iff.mpr nodup_filter_keys

theorem mem_completedKeys : d ∈ completedKeys r ↔ ∃ entry ∈ (r.slots d).pending, ¬entry.Waits := by
  unfold completedKeys
  rw [mem_filter_keys]
  simp only [not_waits_iff, decide_eq_true_eq]
  rfl

theorem slots_processPendingAnnounces (d : Hash16) :
    (r.processPendingAnnounces identityHash now).1.slots d =
      ((r.slots d).check d identityHash now).1 := by
  have hall := slots_retransmitAll identityHash now (nodup_dueKeys now r) r d
  have hpending : (r.processPendingAnnounces identityHash now).1.slots d =
      ⟨if d ∈ completedKeys r then none
        else ((retransmitAll identityHash now (dueKeys now r) r).1.slots d).pending,
        ((retransmitAll identityHash now (dueKeys now r) r).1.slots d).held⟩ :=
    congrArg₂ Slots.mk (getElem?_foldl_erase) rfl
  have hdue := mem_dueKeys now r (d := d)
  have hcompleted := mem_completedKeys r (d := d)
  rw [hpending, hall]
  generalize r.slots d = slots at hdue hcompleted ⊢
  obtain ⟨_ | entry, held⟩ := slots
  · have hnotdue : d ∉ dueKeys now r := fun h => by simpa [Slots.Due] using hdue.mp h
    have hnotcompleted : d ∉ completedKeys r := fun h => by simpa using hcompleted.mp h
    rw [if_neg hnotcompleted, if_neg hnotdue]
    rfl
  · simp only [Slots.Due, Option.mem_def, Option.some.injEq, exists_eq_left'] at hdue hcompleted
    unfold Slots.check sentSlots
    dsimp only
    by_cases hwaits : entry.Waits
    · rw [if_neg (fun h => hcompleted.mp h hwaits), if_pos hwaits]
      by_cases hlate : now > entry.retransmitTimeout
      · rw [if_pos (hdue.mpr ⟨hwaits, hlate⟩), if_pos hlate]
      · rw [if_neg (fun h => hlate (hdue.mp h).2), if_neg hlate]
    · rw [if_pos (hcompleted.mpr hwaits), if_neg (fun h => hwaits (hdue.mp h).1), if_neg hwaits]

theorem mem_check {slots : Slots} :
    t ∈ (slots.check d identityHash now).2 ↔
      slots.Due now ∧ ∃ entry ∈ slots.pending, t = entry.transmission d identityHash := by
  unfold Slots.check Slots.Due
  cases hentry : slots.pending with
  | none => simp
  | some entry =>
    by_cases hwaits : entry.Waits
    · by_cases hdue : now > entry.retransmitTimeout <;> simp [hwaits, hdue]
    · simp [hwaits]

theorem mem_processPendingAnnounces :
    t ∈ (r.processPendingAnnounces identityHash now).2 ↔
      ∃ d, t ∈ ((r.slots d).check d identityHash now).2 := by
  have hsent : (r.processPendingAnnounces identityHash now).2 =
    (retransmitAll identityHash now (dueKeys now r) r).2 := rfl
  rw [hsent, mem_retransmitAll identityHash now (nodup_dueKeys now r)]
  refine exists_congr fun d => ?_
  rw [mem_dueKeys, mem_check]
  refine and_congr_right fun _ => ?_
  unfold transmissions
  rw [Option.mem_toList, Option.map_eq_some_iff]
  exact exists_congr fun entry => and_congr_right fun _ => eq_comm

end Check

/-! ### The operations -/

/-- The loop of `enforce_announce_retention_cap`, after another look for what has expired. -/
def enforceCap (r : Retained) (ttl : ℚ) (maxBytes : ℕ) (now : ℚ) : Retained :=
  let r := r.cullExpired ttl now
  evict maxBytes (r.announceTable.size + r.heldAnnounces.size + 1) r

/-- The first step of an answer from the path table: the entry of the destination is held. -/
def setAside (r : Retained) (destHash : Hash16) (ttl : ℚ) (maxBytes : ℕ) (now : ℚ) : Retained :=
  match r.announceTable[destHash]? with
  | some existing =>
    { r with announceTable := r.announceTable.erase destHash }.insertHeldAnnounce destHash existing
      ttl maxBytes now
  | none => r

/-- `process_tick_pending_announces`, once it is time. -/
def checkAll (r : Retained) (identityHash : Option Hash16) (ttl : ℚ) (maxBytes : ℕ) (now : ℚ) :
    Retained × List Retransmission :=
  let r := (r.cullExpired ttl now).enforceCap ttl maxBytes now
  let (r, sent) := match identityHash with
    | some identityHash => r.processPendingAnnounces identityHash now
    | none => (r, [])
  ((r.cullExpired ttl now).enforceCap ttl maxBytes now, sent)

end Retained

inductive RetentionOp where
  | hear (packet : RawPacket) (now : ℚ)
  | insert (destHash : Hash16) (entry : AnnounceEntry) (now : ℚ)
  /-- There is no response if the stored announce does not unpack. -/
  | answer (destHash : Hash16) (response : Option AnnounceEntry) (now : ℚ)
  | check (now : ℚ)

namespace RetentionOp

/-- What the operation means for a destination. -/
def at_ (d : Hash16) : RetentionOp → Option SlotOp
  | .hear packet now => if packet.destinationHash = d then some (.hear packet now) else none
  | .insert d' entry _ => if d' = d then some (.insert entry) else none
  | .answer d' response _ => if d' = d then response.map .answer else none
  | .check now => some (.check now)

end RetentionOp

def RetentionOp.Responds : RetentionOp → Prop
  | .answer _ response _ => response.isSome
  | _ => True

/-- The tables under the limits of a configuration. -/
def retention (config : TransportConfig) : Machine Retained RetentionOp Retransmission where
  step r
    | .hear packet now =>
      ({ r with announceTable := heardRebroadcast r.announceTable packet now }, [])
    | .insert destHash entry now =>
      (r.insertAnnounceEntry destHash entry config.announceTableTtlSecs
        config.announceTableMaxBytes now, [])
    | .answer destHash response now =>
      let r := r.setAside destHash config.announceTableTtlSecs config.announceTableMaxBytes now
      (match response with
        | some entry => r.insertAnnounceEntry destHash entry config.announceTableTtlSecs
            config.announceTableMaxBytes now
        | none => r, [])
    | .check now => r.checkAll config.identityHash config.announceTableTtlSecs
        config.announceTableMaxBytes now

/-! ## Within the limits -/

theorem getElem?_heardRebroadcast_eq (table : ExtTreeMap Hash16 AnnounceEntry)
    (packet : RawPacket) (now : ℚ) (d : Hash16) :
    (heardRebroadcast table packet now)[d]? = if packet.destinationHash = d then
        table[d]?.bind fun entry : AnnounceEntry => entry.hear packet now
      else table[d]? := by
  unfold heardRebroadcast
  dsimp only
  by_cases heq : packet.destinationHash = d
  · subst heq
    rw [if_pos rfl]
    cases hentry : table[packet.destinationHash]? with
    | none =>
      simp only [hentry]
      rfl
    | some entry =>
      simp only [Option.bind_some, AnnounceEntry.hear]
      by_cases hnext : packet.hops ≠ 0 ∧ packet.hops - 1 = entry.hops
      · simp only [if_pos hnext]
        by_cases hmax : entry.retries > 0 ∧ entry.localRebroadcasts + 1 ≥ localRebroadcastsMax
        · simp only [if_pos hmax, ExtTreeMap.getElem?_erase_self]
        · simp only [if_neg hmax, ExtTreeMap.getElem?_insert_self]
          split_ifs <;> simp
      · simp only [if_neg hnext, hentry]
        split_ifs <;> simp [hentry]
  · have hcompare : ¬compare packet.destinationHash d = .eq :=
      fun h => heq (Std.compare_eq_iff_eq.mp h)
    rw [if_neg heq]
    split
    · rfl
    · split
      · split_ifs <;>
          simp [ExtTreeMap.getElem?_insert, ExtTreeMap.getElem?_erase, hcompare]
      · split_ifs <;>
          simp [ExtTreeMap.getElem?_insert, ExtTreeMap.getElem?_erase, hcompare]

namespace Retained

def put (r : Retained) (d : Hash16) (entry : AnnounceEntry) : Retained :=
  { r with announceTable := r.announceTable.insert d entry }

def moveAside (r : Retained) (d : Hash16) : Retained :=
  match r.announceTable[d]? with
  | some existing => ⟨r.announceTable.erase d, r.heldAnnounces.insert d existing⟩
  | none => r

def Room (r : Retained) (config : TransportConfig) (now : ℚ) : Prop :=
  r.Fresh config.announceTableTtlSecs now ∧ r.bytesTotal ≤ config.announceTableMaxBytes

/-- The tables stay within their limits in the course of an operation. -/
def Within (config : TransportConfig) (r : Retained) : RetentionOp → Prop
  | .hear _ _ => True
  | .insert d entry now => r.Room config now ∧ (r.put d entry).Room config now
  | .answer d response now => r.Room config now ∧ (r.moveAside d).Room config now ∧
      ∀ entry ∈ response, ((r.moveAside d).put d entry).Room config now
  | .check now => ∃ identityHash ∈ config.identityHash, r.Room config now ∧
      (r.processPendingAnnounces identityHash now).1.Room config now

instance (config : TransportConfig) (r : Retained) (now : ℚ) : Decidable (r.Room config now) :=
  inferInstanceAs (Decidable (_ ∧ _))

instance (config : TransportConfig) (r : Retained) : ∀ op, Decidable (r.Within config op)
  | .hear _ _ => .isTrue trivial
  | .insert d entry now =>
    inferInstanceAs (Decidable (r.Room config now ∧ (r.put d entry).Room config now))
  | .answer d response now => inferInstanceAs (Decidable (r.Room config now ∧
      (r.moveAside d).Room config now ∧
      ∀ entry ∈ response, ((r.moveAside d).put d entry).Room config now))
  | .check now => match h : config.identityHash with
    | none => .isFalse (by simp [Within, h])
    | some identityHash => decidable_of_iff (r.Room config now ∧
        (r.processPendingAnnounces identityHash now).1.Room config now) (by simp [Within, h])

variable {config : TransportConfig} {r : Retained} {now : ℚ}

theorem size_le_bytesTotal
    (h : r.announceTable[d]? = some entry ∨ r.heldAnnounces[d]? = some entry) :
    announceEntrySizeBytes entry ≤ r.bytesTotal := by
  have hsum : ∀ table : ExtTreeMap Hash16 AnnounceEntry, table[d]? = some entry →
      announceEntrySizeBytes entry ≤
        (table.toList.map fun (_, entry) => announceEntrySizeBytes entry).sum := by
    intro table hentry
    have hmem := ExtTreeMap.mem_toList_iff_getElem?_eq_some.mpr hentry
    exact single_le_sum (fun _ _ => Nat.zero_le _) _ (mem_map_of_mem hmem)
  unfold bytesTotal
  rcases h with h | h
  · exact (hsum _ h).trans (Nat.le_add_right _ _)
  · exact (hsum _ h).trans (Nat.le_add_left _ _)

section

variable (h : r.Room config now)
include h

theorem Room.cullExpired_eq : r.cullExpired config.announceTableTtlSecs now = r :=
  cullExpired_of_fresh h.1

theorem Room.enforceCap_eq :
    r.enforceCap config.announceTableTtlSecs config.announceTableMaxBytes now = r := by
  unfold enforceCap
  rw [h.cullExpired_eq, evict_of_le h.2]

theorem Room.insertAnnounceEntry_eq (h' : (r.put d entry).Room config now) :
    r.insertAnnounceEntry d entry config.announceTableTtlSecs config.announceTableMaxBytes now =
      r.put d entry := by
  have hsize : announceEntrySizeBytes entry ≤ config.announceTableMaxBytes :=
    (size_le_bytesTotal (.inl ExtTreeMap.getElem?_insert_self)).trans h'.2
  unfold insertAnnounceEntry
  rw [h.cullExpired_eq]
  dsimp only
  rw [if_neg (not_lt.mpr hsize)]
  exact h'.enforceCap_eq

theorem Room.setAside_eq (h' : (r.moveAside d).Room config now) :
    r.setAside d config.announceTableTtlSecs config.announceTableMaxBytes now = r.moveAside d := by
  unfold setAside
  cases hentry : r.announceTable[d]? with
  | none => rw [moveAside, hentry]
  | some entry =>
    have hmoved : r.moveAside d = ⟨r.announceTable.erase d, r.heldAnnounces.insert d entry⟩ := by
      rw [moveAside, hentry]
    have hsize : announceEntrySizeBytes entry ≤ config.announceTableMaxBytes :=
      (size_le_bytesTotal (.inl hentry)).trans h.2
    have hfresh : Fresh { r with announceTable := r.announceTable.erase d }
        config.announceTableTtlSecs now := by
      refine ⟨fun d' found hfound => h.1.1 d' found ?_, h.1.2⟩
      rw [ExtTreeMap.getElem?_erase] at hfound
      split_ifs at hfound
      exact hfound
    dsimp only
    unfold insertHeldAnnounce
    rw [cullExpired_of_fresh hfresh]
    dsimp only
    rw [if_neg (not_lt.mpr hsize), hmoved]
    rw [hmoved] at h'
    exact h'.enforceCap_eq

end

theorem slots_put {r : Retained} {d d' : Hash16} {entry : AnnounceEntry} :
    (r.put d' entry).slots d =
      if d' = d then { r.slots d with pending := some entry } else r.slots d := by
  unfold put slots
  simp only [ExtTreeMap.getElem?_insert, Std.compare_eq_iff_eq]
  split_ifs <;> rfl

theorem slots_moveAside {r : Retained} {d d' : Hash16} :
    (r.moveAside d').slots d =
      if d' = d then ⟨none, (r.slots d).pending <|> (r.slots d).held⟩ else r.slots d := by
  unfold moveAside slots
  by_cases heq : d' = d
  · subst heq
    rw [if_pos rfl]
    cases hentry : r.announceTable[d']? with
    | none => simp [hentry]
    | some entry => simp
  · have hcompare : ¬compare d' d = .eq := fun h => heq (Std.compare_eq_iff_eq.mp h)
    rw [if_neg heq]
    split
    · simp [ExtTreeMap.getElem?_insert, ExtTreeMap.getElem?_erase, hcompare]
    · rfl

/-- Within the limits, the slots of every destination follow the tables. -/
theorem follows_slots {identityHash : Hash16} (hid : config.identityHash = some identityHash)
    (d : Hash16) : (retention config).Follows (Slots.machine d identityHash) (·.slots d)
      (fun _ op => (op.at_ d).toList) id (fun r op => r.Within config op ∧ op.Responds) where
  state r op hok := by
    obtain ⟨h, hresponds⟩ := hok
    cases op with
    | hear packet now =>
      have hslots : ((retention config).step r (.hear packet now)).1.slots d =
          ⟨(heardRebroadcast r.announceTable packet now)[d]?, r.heldAnnounces[d]?⟩ := rfl
      rw [hslots, getElem?_heardRebroadcast_eq]
      by_cases heq : packet.destinationHash = d
      · rw [RetentionOp.at_, if_pos heq, if_pos heq]
        rfl
      · rw [RetentionOp.at_, if_neg heq, if_neg heq]
        rfl
    | insert d' entry now =>
      have hstep : ((retention config).step r (.insert d' entry now)).1 = r.put d' entry :=
        h.1.insertAnnounceEntry_eq h.2
      rw [hstep, slots_put]
      by_cases heq : d' = d
      · rw [RetentionOp.at_, if_pos heq, if_pos heq]
        rfl
      · rw [RetentionOp.at_, if_neg heq, if_neg heq]
        rfl
    | answer d' response now =>
      obtain ⟨entry, rfl⟩ := Option.isSome_iff_exists.mp hresponds
      obtain ⟨hroom, haside, hput⟩ := h
      have hstep : ((retention config).step r (.answer d' (some entry) now)).1 =
          (r.moveAside d').put d' entry := by
        simp only [retention]
        rw [hroom.setAside_eq haside, haside.insertAnnounceEntry_eq (hput entry rfl)]
      rw [hstep, slots_put, slots_moveAside]
      by_cases heq : d' = d
      · rw [RetentionOp.at_, if_pos heq, if_pos heq, if_pos heq]
        rfl
      · rw [RetentionOp.at_, if_neg heq, if_neg heq, if_neg heq]
        rfl
    | check now =>
      obtain ⟨_, hsome, hroom, hafter⟩ := h
      obtain rfl := Option.some.inj (hid.symm.trans hsome)
      have hstep : ((retention config).step r (.check now)).1 =
          (r.processPendingAnnounces identityHash now).1 := by
        simp only [retention, checkAll, hid]
        rw [hroom.cullExpired_eq, hroom.enforceCap_eq, hafter.cullExpired_eq, hafter.enforceCap_eq]
      rw [hstep, slots_processPendingAnnounces]
      rfl
  output r op hok t ht := by
    obtain ⟨h, -⟩ := hok
    cases op with
    | hear packet now | insert d' entry now =>
      rw [RetentionOp.at_] at ht
      split_ifs at ht <;> simp [Machine.run, Slots.machine] at ht
    | answer d' response now =>
      rw [RetentionOp.at_] at ht
      split_ifs at ht
      · cases response <;> simp [Machine.run, Slots.machine] at ht
      · cases ht
    | check now =>
      obtain ⟨_, hsome, hroom, hafter⟩ := h
      obtain rfl := Option.some.inj (hid.symm.trans hsome)
      have hstep : ((retention config).step r (.check now)).2 =
          (r.processPendingAnnounces identityHash now).2 := by
        simp only [retention, checkAll, hid]
        rw [hroom.cullExpired_eq, hroom.enforceCap_eq]
      rw [hstep, id, mem_processPendingAnnounces]
      exact ⟨d, by simpa [RetentionOp.at_, Machine.run, Slots.machine] using ht⟩

end Retained

end TransportEngine

end Rns.Transport

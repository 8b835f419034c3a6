import Mathlib.Data.Nat.Log
import Rns.Lib.Probing
import Rns.Lib.RingQueue
import Rns.Transport.Tables

/-!
# The packets seen, as the code keeps them

The list of the packets seen is a ring queue for the order and a set with open addressing for the
lookups.  Together they do what the plain list of the engine's model does.
-/

namespace Rns.Transport.Dedup

def hashBytes (hash : Hash32) : UInt64 :=
  hash.toList.foldl (fun state byte => (state ^^^ byte.toUInt64) * 0x100000001b3) 0xcbf29ce484222325

def bucketCapacity (maxEntries : ℕ) : ℕ :=
  if maxEntries = 0 then 0 else 2 ^ Nat.clog 2 (max (maxEntries * 2) 1)

/-- The bucket of a hash, `bucket_index`, and the step to the next bucket. -/
def bucketProbing (buckets : ℕ) : Probing Hash32 where
  home hash := (hashBytes hash).toNat &&& (buckets - 1)
  next idx := (idx + 1) &&& (buckets - 1)

abbrev PacketHashSet := ProbeTable Hash32

namespace PacketHashSet

def new (maxEntries : ℕ) : PacketHashSet := .empty (bucketCapacity maxEntries)

def probing (set : PacketHashSet) : Probing Hash32 := bucketProbing set.buckets.length

/-- `contains`; like the other two it has no result if a loop does not end. -/
def contains (set : PacketHashSet) (hash : Hash32) : Option Bool :=
  if set.buckets.isEmpty then some false else ProbeTable.contains set.probing set hash

def insert (set : PacketHashSet) (hash : Hash32) : Option (Bool × PacketHashSet) :=
  if set.buckets.isEmpty then some (false, set) else ProbeTable.insert set.probing set hash

def remove (set : PacketHashSet) (hash : Hash32) : Option (Bool × PacketHashSet) :=
  if set.buckets.isEmpty then some (false, set) else ProbeTable.remove set.probing set hash

end PacketHashSet

abbrev PacketHashQueue := RingQueue Hash32

def PacketHashQueue.new (capacity : ℕ) : PacketHashQueue := ⟨.replicate capacity (.replicate 32 0), 0, 0⟩

structure PacketHashlist where
  queue : PacketHashQueue
  set : PacketHashSet
  deriving DecidableEq

inductive Call where
  | add (hash : Hash32)
  | isDuplicate (hash : Hash32)
  deriving DecidableEq

namespace PacketHashlist

def new (maxSize : ℕ) : PacketHashlist := ⟨.new maxSize, .new maxSize⟩

variable (l : PacketHashlist) (hash : Hash32)

def isDuplicate : Option Bool := l.set.contains hash

/-- The end of `add`, once there is room. -/
def retain : Option PacketHashlist :=
  (l.set.insert hash).map fun inserted => ⟨l.queue.pushBack hash, inserted.2⟩

def add : Option PacketHashlist :=
  if l.queue.capacity = 0 then some l
  else (l.set.contains hash).bind fun retained =>
    if retained then some l
    else if l.queue.len = l.queue.capacity then
      match l.queue.popFront with
      | (none, queue) => some { l with queue }
      | (some evicted, queue) => (l.set.remove evicted).bind fun removed =>
        retain ⟨queue, removed.2⟩ hash
    else l.retain hash

/-- A sequence of calls, and the answers. -/
def calls (l : PacketHashlist) : List Call → Option (PacketHashlist × List Bool)
  | [] => some (l, [])
  | .add hash :: cs => (l.add hash).bind fun l => l.calls cs
  | .isDuplicate hash :: cs => (l.isDuplicate hash).bind fun answer =>
    (l.calls cs).map fun rest => (rest.1, answer :: rest.2)

end PacketHashlist

end Dedup

def PacketHashlist.calls (list : PacketHashlist) : List Dedup.Call → PacketHashlist × List Bool
  | [] => (list, [])
  | .add hash :: cs => (list.add hash).calls cs
  | .isDuplicate hash :: cs => ((list.calls cs).1, list.isDuplicate hash :: (list.calls cs).2)

namespace Dedup

/-! ## Buckets -/

theorem iterate_next {k idx : ℕ} (hidx : idx < 2 ^ k) (j : ℕ) :
    (bucketProbing (2 ^ k)).next^[j] idx = (idx + j) % 2 ^ k := by
  induction j with
  | zero => exact (Nat.mod_eq_of_lt hidx).symm
  | succ j ih =>
    rw [Function.iterate_succ_apply', ih]
    simp only [bucketProbing, Nat.and_two_pow_sub_one_eq_mod, Nat.mod_add_mod, Nat.add_assoc]

theorem covers_bucketProbing (k : ℕ) : (bucketProbing (2 ^ k)).Covers (2 ^ k) where
  home_lt hash := by
    simp only [bucketProbing, Nat.and_two_pow_sub_one_eq_mod]
    exact Nat.mod_lt _ (Nat.two_pow_pos k)
  next_lt idx _ := by
    simp only [bucketProbing, Nat.and_two_pow_sub_one_eq_mod]
    exact Nat.mod_lt _ (Nat.two_pow_pos k)
  visits idx hidx z hz := by
    refine ⟨(z + (2 ^ k - idx)) % 2 ^ k, Nat.mod_lt _ (Nat.two_pow_pos k), ?_⟩
    rw [iterate_next hidx, Nat.add_mod_mod]
    have hsum : idx + (z + (2 ^ k - idx)) = z + 2 ^ k := by omega
    rw [hsum, Nat.add_mod_right, Nat.mod_eq_of_lt hz]

theorem exists_bucketCapacity {maxEntries : ℕ} (h : maxEntries ≠ 0) :
    ∃ k, bucketCapacity maxEntries = 2 ^ k ∧ maxEntries < 2 ^ k := by
  refine ⟨_, if_neg h, ?_⟩
  have hle := Nat.le_pow_clog (by decide : 1 < 2) (max (maxEntries * 2) 1)
  omega

/-! ## The two parts and the list -/

/-- The queue and the set hold what the list does. -/
structure PacketHashlist.Represents (l : PacketHashlist) (list : Transport.PacketHashlist) : Prop where
  capacity : l.queue.capacity = list.maxSize
  buckets : l.set.buckets.length = bucketCapacity list.maxSize
  length_le : list.hashes.length ≤ list.maxSize
  nodup : list.hashes.Nodup
  contents : l.queue.contents = list.hashes
  entries : l.set.entries.Perm list.hashes
  queue : list.maxSize ≠ 0 → l.queue.Valid
  set : list.maxSize ≠ 0 →
    l.set.WellFormed (bucketProbing (bucketCapacity list.maxSize)) (bucketCapacity list.maxSize)

namespace PacketHashlist

variable {l : PacketHashlist} {list : Transport.PacketHashlist} {hash : Hash32}

theorem represents_new (maxSize : ℕ) : (new maxSize).Represents (.new maxSize) where
  capacity := List.length_replicate
  buckets := List.length_replicate
  length_le := Nat.zero_le _
  nodup := List.nodup_nil
  contents := List.take_zero
  entries := by simp [new, PacketHashSet.new, ProbeTable.empty, ProbeTable.entries,
    Transport.PacketHashlist.new]
  queue h := by
    refine ⟨?_, Nat.zero_le _⟩
    rw [RingQueue.capacity]
    exact (Nat.pos_of_ne_zero h).trans_eq List.length_replicate.symm
  set h := by
    obtain ⟨k, hk, -⟩ := exists_bucketCapacity h
    rw [hk]
    have hset : (new maxSize).set = .empty (2 ^ k) := congrArg ProbeTable.empty hk
    rw [hset]
    exact ProbeTable.wellFormed_empty _ (covers_bucketProbing k)

section Represents

variable (h : l.Represents list) (hsize : list.maxSize ≠ 0)
include h hsize

theorem Represents.probing :
    ¬l.set.buckets.isEmpty ∧ l.set.probing = bucketProbing (bucketCapacity list.maxSize) := by
  obtain ⟨k, hk, -⟩ := exists_bucketCapacity hsize
  have hpos : 0 < l.set.buckets.length := by rw [h.buckets, hk]; exact Nat.two_pow_pos k
  refine ⟨?_, congrArg bucketProbing h.buckets⟩
  rw [List.isEmpty_iff]
  exact List.ne_nil_of_length_pos hpos

theorem Represents.length_entries_lt : l.set.entries.length < bucketCapacity list.maxSize := by
  obtain ⟨k, hk, hlt⟩ := exists_bucketCapacity hsize
  rw [h.entries.length_eq, hk]
  exact h.length_le.trans_lt hlt

theorem Represents.contains : l.set.contains hash = some (list.isDuplicate hash) := by
  obtain ⟨hempty, hprobing⟩ := h.probing hsize
  rw [PacketHashSet.contains, if_neg hempty, hprobing,
    (h.set hsize).contains_eq (h.length_entries_lt hsize)]
  simp only [h.entries.mem_iff, Transport.PacketHashlist.isDuplicate]

end Represents

section

variable (h : l.Represents list)
include h

theorem Represents.isDuplicate (hash : Hash32) :
    l.isDuplicate hash = some (list.isDuplicate hash) := by
  by_cases hsize : list.maxSize = 0
  · have hbuckets : l.set.buckets.isEmpty := by
      rw [List.isEmpty_iff, ← List.length_eq_zero_iff, h.buckets, hsize]
      rfl
    have hhashes : list.hashes = [] := by
      rw [← List.length_eq_zero_iff]
      exact Nat.le_zero.1 (hsize ▸ h.length_le)
    simp [PacketHashlist.isDuplicate, PacketHashSet.contains, hbuckets,
      Transport.PacketHashlist.isDuplicate, hhashes]
  · exact h.contains hsize

theorem Represents.retain (hlt : list.hashes.length < list.maxSize) (hnew : hash ∉ list.hashes) :
    ∃ l', l.retain hash = some l' ∧ l'.Represents { list with hashes := list.hashes ++ [hash] } := by
  have hsize : list.maxSize ≠ 0 := Nat.ne_zero_of_lt hlt
  obtain ⟨hempty, hprobing⟩ := h.probing hsize
  obtain ⟨set, hinsert, hset, hperm⟩ := (h.set hsize).insert (h.length_entries_lt hsize)
    (fun hmem => hnew (h.entries.mem_iff.1 hmem))
  have hlen : l.queue.len < l.queue.capacity := by
    rw [← (h.queue hsize).length_contents, h.contents, h.capacity]
    exact hlt
  obtain ⟨hqueue, hcapacity, hcontents⟩ := (h.queue hsize).pushBack hlen hash
  refine ⟨⟨l.queue.pushBack hash, set⟩, ?_, ?_⟩
  · simp only [PacketHashlist.retain, PacketHashSet.insert, if_neg hempty, hprobing, hinsert,
      Option.map_some]
  · exact {
      capacity := hcapacity.trans h.capacity
      buckets := hset.length
      length_le := by rw [List.length_append]; exact hlt
      nodup := List.nodup_append.2 ⟨h.nodup, List.nodup_singleton hash, by
        rintro a ha b hb rfl
        exact hnew (List.mem_singleton.1 hb ▸ ha)⟩
      contents := by rw [hcontents, h.contents]
      entries := hperm.trans ((h.entries.cons hash).trans (List.perm_append_singleton hash _).symm)
      queue := fun _ => hqueue
      set := fun _ => hset }

theorem Represents.evict (hsize : list.maxSize ≠ 0) (hfull : list.hashes.length = list.maxSize) :
    ∃ evicted queue set, l.queue.popFront = (some evicted, queue) ∧
      l.set.remove evicted = some (true, set) ∧
      Represents ⟨queue, set⟩ { list with hashes := list.hashes.tail } := by
  obtain ⟨hempty, hprobing⟩ := h.probing hsize
  have hlen : l.queue.len ≠ 0 := by
    rw [← (h.queue hsize).length_contents, h.contents, hfull]
    exact hsize
  obtain ⟨evicted, queue, hpop, hqueue, hcapacity, hcontents⟩ := (h.queue hsize).popFront hlen
  have hhashes : list.hashes = evicted :: queue.contents := h.contents.symm.trans hcontents
  have hmem : evicted ∈ l.set.entries := by
    rw [h.entries.mem_iff, hhashes]
    exact List.mem_cons_self
  obtain ⟨set, hremove, hset, hperm⟩ := (h.set hsize).remove (h.length_entries_lt hsize) hmem
  refine ⟨evicted, queue, set, hpop, ?_, ?_⟩
  · rw [PacketHashSet.remove, if_neg hempty, hprobing, hremove]
  · have hnodup := h.nodup
    have hlength := h.length_le
    rw [hhashes] at hnodup hlength
    exact {
      capacity := hcapacity.trans h.capacity
      buckets := hset.length
      length_le := by rw [hhashes]; exact (Nat.le_succ _).trans hlength
      nodup := by rw [hhashes]; exact (List.nodup_cons.1 hnodup).2
      contents := by rw [hhashes]; rfl
      entries := by
        rw [hhashes]
        exact (hperm.symm.trans (hhashes ▸ h.entries)).cons_inv
      queue := fun _ => hqueue
      set := fun _ => hset }

theorem Represents.add (hash : Hash32) :
    ∃ l', l.add hash = some l' ∧ l'.Represents (list.add hash) := by
  rw [PacketHashlist.add, Transport.PacketHashlist.add, h.capacity]
  by_cases hsize : list.maxSize = 0
  · rw [if_pos hsize, if_pos (.inl hsize)]
    exact ⟨l, rfl, h⟩
  rw [if_neg hsize, h.contains hsize, Option.bind_some]
  cases hdup : list.isDuplicate hash with
  | true =>
    rw [if_pos rfl, if_pos (.inr rfl)]
    exact ⟨l, rfl, h⟩
  | false =>
    have hnew : hash ∉ list.hashes := by simpa [Transport.PacketHashlist.isDuplicate] using hdup
    have hlen : l.queue.len = list.hashes.length := by
      rw [← (h.queue hsize).length_contents, h.contents]
    have hkeep : ¬(list.maxSize = 0 ∨ false = true) := by simpa using hsize
    rw [if_neg Bool.false_ne_true, if_neg hkeep, hlen]
    by_cases hfull : list.hashes.length = list.maxSize
    · rw [if_pos hfull, if_pos hfull]
      obtain ⟨evicted, queue, set, hpop, hremove, hrest⟩ := h.evict hsize hfull
      have htail : list.hashes.tail.length < list.maxSize := by
        rw [List.length_tail]
        omega
      obtain ⟨l', hretain, hrepresents⟩ :=
        hrest.retain htail fun hmem => hnew (List.mem_of_mem_tail hmem)
      exact ⟨l', by simp only [hpop, hremove, Option.bind_some, hretain], hrepresents⟩
    · rw [if_neg hfull, if_neg hfull]
      exact h.retain (Nat.lt_of_le_of_ne h.length_le hfull) hnew

theorem Represents.calls (cs : List Call) :
    ∃ l', l.calls cs = some (l', (list.calls cs).2) ∧ l'.Represents (list.calls cs).1 := by
  induction cs generalizing l list with
  | nil => exact ⟨l, rfl, h⟩
  | cons c cs ih =>
    cases c with
    | add hash =>
      obtain ⟨l₁, hadd, h₁⟩ := h.add hash
      obtain ⟨l', hcalls, h'⟩ := ih h₁
      exact ⟨l', by simp only [PacketHashlist.calls, hadd, Option.bind_some, hcalls]; rfl, h'⟩
    | isDuplicate hash =>
      obtain ⟨l', hcalls, h'⟩ := ih h
      refine ⟨l', ?_, h'⟩
      simp only [PacketHashlist.calls, h.isDuplicate, Option.bind_some, hcalls, Option.map_some]
      rfl

end

/-- Whatever is called, every loop ends, the answers are those of a list that keeps the last distinct
hashes in the order in which they came first, and the set and the queue hold just these hashes. -/
theorem refines_bounded_fifo (maxSize : ℕ) (cs : List Call) :
    let list := (Transport.PacketHashlist.new maxSize).calls cs
    ∃ l, (new maxSize).calls cs = some (l, list.2) ∧ l.queue.contents = list.1.hashes ∧
      l.set.entries.Perm l.queue.contents ∧ list.1.hashes.Nodup ∧
      ∀ hash, l.isDuplicate hash = some (list.1.isDuplicate hash) := by
  obtain ⟨l, hcalls, hrepresents⟩ := (represents_new maxSize).calls cs
  refine ⟨l, hcalls, hrepresents.contents, ?_, hrepresents.nodup, hrepresents.isDuplicate⟩
  rw [hrepresents.contents]
  exact hrepresents.entries

end PacketHashlist

end Rns.Transport.Dedup

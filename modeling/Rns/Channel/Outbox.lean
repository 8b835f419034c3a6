import Rns.Channel.Window
import Rns.Lib.Total
import Rns.Packet

/-!
# Messages that wait for a proof

A message stays in the ring of the channel until it is acknowledged, and every packet that carried it
is remembered with its sequence number.  Each packet is one try of its message, so the tries bound the
packets.
-/

namespace Rns

open Std

variable {sequence : UInt16} {hash : Hash32}

namespace Channel

def sends (queued : List ChannelAction) (sequence : UInt16) : ℕ :=
  queued.countP fun
    | .sendOnLink _ s => s = sequence
    | _ => false

/-- Every packet that waits for a proof carried the one message of the ring with its number.  `pack`
gives the hash of the packet for a message; `queued` is what the channel wants sent next. -/
structure Outbox (pack : Vector UInt8 16 → Bytes → Option Hash32) (c : Channel)
    (pending : ExtTreeMap Hash32 UInt16) (queued : List ChannelAction) : Prop where
  flow : c.Flow
  maxTries : c.maxTries = 5
  distinct : (c.txRing.map (·.sequence)).Nodup
  packs : ∀ e ∈ c.txRing, ∀ iv, (pack iv e.raw).isSome
  carried : ∀ hash sequence, pending[hash]? = some sequence →
    ∃ e ∈ c.txRing, e.sequence = sequence ∧ ∃ iv, pack iv e.raw = some hash
  inRing : ∀ raw sequence, .sendOnLink raw sequence ∈ queued →
    ∃ e ∈ c.txRing, e.sequence = sequence ∧ e.raw = raw
  tried : ∀ e ∈ c.txRing, copies pending e.sequence + sends queued e.sequence ≤ e.tries.toNat
  tries_le : ∀ e ∈ c.txRing, e.tries ≤ c.maxTries

variable {pack : Vector UInt8 16 → Bytes → Option Hash32} {c c' : Channel}
  {pending : ExtTreeMap Hash32 UInt16} {queued : List ChannelAction}

theorem eq_of_sequence (h : (c.txRing.map (·.sequence)).Nodup) {e e' : Envelope} (he : e ∈ c.txRing)
    (he' : e' ∈ c.txRing) (heq : e.sequence = e'.sequence) : e = e' :=
  List.inj_on_of_nodup_map h he he' heq

theorem Outbox.size_le (h : Outbox pack c pending queued) : pending.size ≤ c.txRing.length * 5 := by
  rw [← List.length_map (·.sequence)]
  refine size_le_mul pending (fun hash sequence hpending => ?_) fun sequence hmem => ?_
  · obtain ⟨e, he, rfl, -⟩ := h.carried hash sequence hpending
    exact List.mem_map_of_mem he
  · obtain ⟨e, he, rfl⟩ := List.mem_map.mp hmem
    have hle : e.tries.toNat ≤ (5 : UInt8).toNat := h.maxTries ▸ h.tries_le e he
    exact (Nat.le_of_add_right_le (h.tried e he)).trans hle

theorem Outbox.of_txRing (h : Outbox pack c pending queued) (hflow : c'.Flow)
    (hring : c'.txRing = c.txRing) (hmax : c'.maxTries = c.maxTries) :
    Outbox pack c' pending queued where
  flow := hflow
  maxTries := hmax.trans h.maxTries
  distinct := hring ▸ h.distinct
  packs := hring ▸ h.packs
  carried := hring ▸ h.carried
  inRing := hring ▸ h.inRing
  tried := hring ▸ h.tried
  tries_le := by
    rw [hring, hmax]
    exact h.tries_le

theorem outbox_nil (hflow : c.Flow) (hmax : c.maxTries = 5) (hring : c.txRing = []) :
    Outbox pack c ∅ [] where
  flow := hflow
  maxTries := hmax
  distinct := hring ▸ List.nodup_nil
  packs := hring ▸ nofun
  carried hash sequence h := by
    rw [ExtTreeMap.getElem?_empty] at h
    cases h
  inRing := nofun
  tried := hring ▸ nofun
  tries_le := hring ▸ nofun

theorem Outbox.receive (h : Outbox pack c pending queued) (raw : Bytes) :
    Outbox pack (c.receive raw).1 pending queued := by
  refine h.of_txRing (h.flow.step (.receive raw)).1 ?_ ?_ <;>
  · unfold Channel.receive
    split
    · rfl
    · split_ifs <;> rfl

/-! ## Acknowledgements -/

theorem maxTries_packetDelivered (c : Channel) (sequence : UInt16) :
    (c.packetDelivered sequence).maxTries = c.maxTries := by
  have hadapt : ∀ c : Channel, c.adaptWindowOnDelivery.maxTries = c.maxTries := by
    intro c
    unfold adaptWindowOnDelivery
    dsimp only
    split_ifs <;> rfl
  unfold Channel.packetDelivered
  split_ifs
  · rw [hadapt]
    split_ifs <;> rfl
  · rfl

theorem Outbox.packetDelivered (h : Outbox pack c pending [])
    (honly : ∀ hash', pending[hash']? = some sequence → hash' = hash) :
    Outbox pack (c.packetDelivered sequence) (pending.erase hash) [] := by
  have hring := (packetDelivered_tx c sequence).2
  have hsub : ∀ e ∈ (c.packetDelivered ..).txRing, e ∈ c.txRing := fun e he => by
    rw [hring] at he
    exact List.mem_of_mem_eraseP he
  refine ⟨(h.flow.packetDelivered ..).1, (maxTries_packetDelivered ..).trans h.maxTries,
    ?_, fun e he => h.packs e (hsub e he), fun hash' sequence' hpending' => ?_, nofun,
    fun e he => ?_, fun e he => ?_⟩
  · rw [hring]
    exact h.distinct.sublist (List.eraseP_sublist.map _)
  · rw [ExtTreeMap.getElem?_erase] at hpending'
    split_ifs at hpending' with heq
    obtain ⟨e, he, rfl, hcarried⟩ := h.carried hash' sequence' hpending'
    refine ⟨e, ?_, rfl, hcarried⟩
    rw [hring]
    -- another message: the packet of this one is another packet
    refine (List.mem_eraseP_of_neg fun hsame => heq ?_).mpr he
    rw [of_decide_eq_true hsame] at hpending'
    exact honly hash' hpending' ▸ ReflCmp.compare_self
  · exact (Nat.add_le_add_right (copies_erase_le ..) _).trans (h.tried e (hsub e he))
  · rw [maxTries_packetDelivered]
    exact h.tries_le e (hsub e he)

/-! ## Timeouts -/

theorem set_findIdx_eq_map {α κ : Type*} [DecidableEq κ] {key : α → κ} {l : List α}
    (h : (l.map key).Nodup) {k : κ} {x : α} (hfind : l.find? (key · = k) = some x) (f : α → α) :
    l.set (l.findIdx (key · = k)) (f x) = l.map fun y => if key y = k then f y else y := by
  induction l with
  | nil => cases hfind
  | cons y l ih =>
    rw [List.map_cons, List.nodup_cons] at h
    rw [List.find?_cons] at hfind
    rw [List.findIdx_cons]
    by_cases hy : key y = k
    · simp only [hy, decide_true, Option.some.injEq] at hfind
      subst hfind
      have hothers : ∀ z ∈ l, (if key z = k then f z else z) = z := fun z hz =>
        if_neg fun heq : key z = k => h.1 (by rw [hy, ← heq]; exact List.mem_map_of_mem hz)
      simp only [hy, decide_true, cond_true, List.set_cons_zero, List.map_cons, if_true]
      rw [List.map_congr_left hothers, List.map_id']
    · simp only [hy, decide_false] at hfind
      simp only [hy, decide_false, cond_false, List.set_cons_succ, List.map_cons, if_false, ih h.2 hfind]

theorem sends_append (queued more : List ChannelAction) (sequence : UInt16) :
    sends (queued ++ more) sequence = sends queued sequence + sends more sequence :=
  List.countP_append

theorem sends_singleton (raw : Bytes) (sequence s : UInt16) :
    sends [.sendOnLink raw sequence] s = if sequence = s then 1 else 0 := by
  simp [sends]

def retry (sequence : UInt16) (now : ℚ) (e : Envelope) : Envelope :=
  if e.sequence = sequence then { e with tries := e.tries + 1, sentAt := now } else e

theorem retry_same (sequence : UInt16) (now : ℚ) (e : Envelope) :
    (retry sequence now e).sequence = e.sequence ∧ (retry sequence now e).raw = e.raw := by
  unfold retry
  split <;> exact ⟨rfl, rfl⟩

theorem packetTimeout_of_left (hdistinct : (c.txRing.map (·.sequence)).Nodup)
    (h : ∀ e ∈ c.txRing, e.sequence = sequence → e.tries < c.maxTries) (now : ℚ) :
    (c.packetTimeout sequence now).1.maxTries = c.maxTries ∧
    (c.packetTimeout sequence now).1.txRing = c.txRing.map (retry sequence now) ∧
    ∀ action ∈ (c.packetTimeout sequence now).2, ∃ e ∈ c.txRing, e.sequence = sequence ∧
      (c.packetTimeout sequence now).2 = [.sendOnLink e.raw sequence] := by
  unfold packetTimeout
  cases hfind : c.txRing.find? (·.sequence = sequence) with
  | none =>
    refine ⟨rfl, ?_, nofun⟩
    have hother : ∀ e ∈ c.txRing, retry sequence now e = e := fun e he =>
      if_neg (by simpa using List.find?_eq_none.mp hfind e he)
    rw [List.map_congr_left hother, List.map_id']
  | some envelope =>
    have hmem := List.mem_of_find?_eq_some hfind
    have hsequence : envelope.sequence = sequence := by simpa using List.find?_some hfind
    dsimp only
    rw [if_neg (UInt8.not_le.mpr (h envelope hmem hsequence))]
    have hset := set_findIdx_eq_map hdistinct hfind fun e =>
      { e with tries := e.tries + 1, sentAt := now }
    refine ⟨by split <;> rfl, ?_, fun action haction => ⟨envelope, hmem, hsequence, rfl⟩⟩
    split <;> exact hset

theorem Outbox.packetTimeout (h : Outbox pack c pending queued)
    (hleft : ∀ e ∈ c.txRing, e.sequence = sequence → e.tries < c.maxTries) (now : ℚ) :
    Outbox pack (c.packetTimeout sequence now).1 pending
      (queued ++ (c.packetTimeout sequence now).2) := by
  obtain ⟨hmax, hring, hactions⟩ := packetTimeout_of_left h.distinct hleft now
  generalize hafter : c.packetTimeout .. = after at hmax hring hactions ⊢
  have hflow : after.1.Flow := hafter ▸ (h.flow.packetTimeout ..).flow
  have hretry := retry_same sequence now
  have hsends : ∀ s, sends after.2 s ≤ if sequence = s then 1 else 0 := fun s => by
    rcases after.2.eq_nil_or_concat with hnil | ⟨_, action, hconcat⟩
    · rw [hnil]
      exact Nat.zero_le _
    · obtain ⟨e, -, -, hsent⟩ := hactions action (by rw [hconcat]; simp)
      rw [hsent, sends_singleton]
  have htries : ∀ e ∈ c.txRing, e.sequence = sequence → (e.tries + 1).toNat = e.tries.toNat + 1 ∧
      e.tries.toNat < 5 := fun e he heq => by
    have hlt : e.tries.toNat < (5 : UInt8).toNat := h.maxTries ▸ hleft e he heq
    have hfive : (5 : UInt8).toNat = 5 := rfl
    have hadd : (e.tries + 1).toNat = (e.tries.toNat + 1) % 2 ^ 8 := UInt8.toNat_add _ 1
    omega
  have hmapped : ∀ e ∈ c.txRing, retry sequence now e ∈ after.1.txRing := fun e he =>
    hring ▸ List.mem_map_of_mem he
  refine ⟨hflow, hmax.trans h.maxTries, ?_, fun e he => ?_, fun hash s hpending => ?_,
    fun raw s hmem => ?_, fun e he => ?_, fun e he => ?_⟩
  · rw [hring, List.map_map]
    exact (List.map_congr_left fun e _ => (hretry e).1).symm ▸ h.distinct
  · rw [hring] at he
    obtain ⟨e, hmem, rfl⟩ := List.mem_map.mp he
    exact (hretry e).2 ▸ h.packs e hmem
  · obtain ⟨e, he, hs, hcarried⟩ := h.carried hash s hpending
    exact ⟨retry sequence now e, hmapped e he, (hretry e).1.trans hs, (hretry e).2 ▸ hcarried⟩
  · rcases List.mem_append.mp hmem with hmem | hmem
    · obtain ⟨e, he, hs, hraw⟩ := h.inRing raw s hmem
      exact ⟨retry sequence now e, hmapped e he, (hretry e).1.trans hs, (hretry e).2.trans hraw⟩
    · obtain ⟨e, he, hs, hsent⟩ := hactions _ hmem
      rw [hsent, List.mem_singleton, ChannelAction.sendOnLink.injEq] at hmem
      exact ⟨retry sequence now e, hmapped e he, (hretry e).1.trans (hs.trans hmem.2.symm),
        (hretry e).2.trans hmem.1.symm⟩
  · rw [hring] at he
    obtain ⟨e, hmem, rfl⟩ := List.mem_map.mp he
    have htried := h.tried e hmem
    have hsent := hsends e.sequence
    rw [(hretry e).1, sends_append]
    by_cases heq : e.sequence = sequence
    · rw [if_pos heq.symm] at hsent
      have hadd := (htries e hmem heq).1
      simp only [retry, if_pos heq]
      omega
    · rw [if_neg (Ne.symm heq)] at hsent
      simp only [retry, if_neg heq]
      omega
  · rw [hring] at he
    obtain ⟨e, hmem, rfl⟩ := List.mem_map.mp he
    rw [hmax]
    by_cases heq : e.sequence = sequence
    · obtain ⟨hadd, hlt⟩ := htries e hmem heq
      have hfive : c.maxTries.toNat = 5 := by rw [h.maxTries]; rfl
      rw [retry, if_pos heq]
      change (e.tries + 1).toNat ≤ c.maxTries.toNat
      omega
    · rw [retry, if_neg heq]
      exact h.tries_le e hmem

theorem Outbox.timeouts (h : Outbox pack c pending queued) {now : ℚ} {sequences : List UInt16}
    (hdistinct : sequences.Nodup)
    (hleft : ∀ e ∈ c.txRing, e.sequence ∈ sequences → e.tries < c.maxTries) :
    Outbox pack (c.timeouts now sequences).1 pending (queued ++ (c.timeouts now sequences).2) := by
  induction sequences generalizing c queued with
  | nil =>
    rw [Channel.timeouts, List.append_nil]
    exact h
  | cons sequence rest ih =>
    rw [List.nodup_cons] at hdistinct
    have hfirst : ∀ e ∈ c.txRing, e.sequence = sequence → e.tries < c.maxTries := fun e he heq =>
      hleft e he (heq ▸ List.mem_cons_self)
    obtain ⟨hmax, hring, -⟩ := packetTimeout_of_left h.distinct hfirst now
    have hrest := ih (h.packetTimeout hfirst now) hdistinct.2 fun e he hmem => by
      rw [hring] at he
      obtain ⟨e, he', rfl⟩ := List.mem_map.mp he
      rw [(retry_same ..).1] at hmem
      have hother : e.sequence ≠ sequence := fun heq => hdistinct.1 (heq ▸ hmem)
      rw [retry, if_neg hother, hmax]
      exact hleft e he' (List.mem_cons_of_mem _ hmem)
    rw [List.append_assoc] at hrest
    exact hrest

theorem Outbox.tick (h : Outbox pack c pending []) {now : ℚ}
    (hleft : ∀ e ∈ c.txRing, e.sequence ∈ c.timedOut now → e.tries < c.maxTries) :
    Outbox pack (c.tick now).1 pending (c.tick now).2 :=
  h.timeouts (h.distinct.sublist (List.filter_sublist.map _)) hleft

/-! ## Messages that are sent -/

theorem Outbox.copies_eq_zero (h : Outbox pack c pending queued)
    (hnew : ∀ e ∈ c.txRing, e.sequence ≠ sequence) : copies pending sequence = 0 :=
  Rns.copies_eq_zero pending fun hash hpending => by
    obtain ⟨e, he, heq, -⟩ := h.carried hash sequence hpending
    exact hnew e he heq

variable {msgtype : UInt16} {payload : Bytes} {now : ℚ} {linkMdu : ℕ} {actions : List ChannelAction}

theorem maxTries_send (h : c.send msgtype payload now linkMdu = .ok (c', actions)) :
    c'.maxTries = c.maxTries := by
  unfold Channel.send at h
  split_ifs at h
  dsimp only at h
  split_ifs at h
  cases h
  rfl

theorem Outbox.send (h : Outbox pack c pending []) {msgtype : UInt16} {payload : Bytes} {now : ℚ}
    {linkMdu : ℕ} {actions : List ChannelAction}
    (hsend : c.send msgtype payload now linkMdu = .ok (c', actions))
    (hnew : ∀ e ∈ c.txRing, e.sequence ≠ c.nextSequence)
    (hpacks : ∀ iv, (pack iv (packEnvelope msgtype c.nextSequence payload)).isSome) :
    Outbox pack c' pending actions := by
  obtain ⟨hactions, -, hring⟩ := send_ok hsend
  have hmax := maxTries_send hsend
  rw [hactions]
  have hkept : ∀ e ∈ c.txRing, e ∈ c'.txRing := fun e he => hring ▸ List.mem_append_left _ he
  have hcases : ∀ e ∈ c'.txRing, e ∈ c.txRing ∨
      e = ⟨c.nextSequence, packEnvelope msgtype c.nextSequence payload, 1, now, false⟩ := fun e he => by
    rw [hring] at he
    exact (List.mem_append.mp he).imp_right List.mem_singleton.mp
  refine ⟨(h.flow.send hsend).1, hmax.trans h.maxTries, ?_, fun e he => ?_,
    fun hash sequence hpending => ?_, fun raw sequence hmem => ?_, fun e he => ?_, fun e he => ?_⟩
  · rw [hring, List.map_append, List.nodup_append]
    refine ⟨h.distinct, List.nodup_singleton _, fun s hs t ht => ?_⟩
    obtain ⟨e, he, rfl⟩ := List.mem_map.mp hs
    obtain rfl := List.mem_singleton.mp ht
    exact hnew e he
  · rcases hcases e he with he | rfl
    · exact h.packs e he
    · exact hpacks
  · obtain ⟨e, he, hs, hcarried⟩ := h.carried hash sequence hpending
    exact ⟨e, hkept e he, hs, hcarried⟩
  · obtain ⟨rfl, rfl⟩ := ChannelAction.sendOnLink.inj (List.mem_singleton.mp hmem)
    exact ⟨_, hring ▸ List.mem_append_right _ (List.mem_singleton_self _), rfl, rfl⟩
  · rw [sends_singleton]
    rcases hcases e he with he | rfl
    · rw [if_neg (Ne.symm (hnew e he))]
      exact h.tried e he
    · rw [h.copies_eq_zero hnew, if_pos rfl]
      exact Nat.le_refl 1
  · rw [hmax]
    rcases hcases e he with he | rfl
    · exact h.tries_le e he
    · exact h.maxTries ▸ (by decide : (1 : UInt8) ≤ 5)

theorem txRing_cancelSend (hsend : c.send msgtype payload now linkMdu = .ok (c', actions))
    (hnew : ∀ e ∈ c.txRing, e.sequence ≠ c.nextSequence) :
    (c'.cancelSend c.nextSequence).txRing = c.txRing := by
  obtain ⟨-, -, hring⟩ := send_ok hsend
  have hany : c'.txRing.any (·.sequence = c.nextSequence) := by simp [hring]
  have herase : c'.txRing.eraseP (·.sequence = c.nextSequence) = c.txRing := by
    rw [hring, List.eraseP_append_right _ (by simpa using hnew)]
    simp
  rw [Channel.cancelSend, if_pos hany]
  dsimp only
  split <;> exact herase

theorem Outbox.cancelSend (h : Outbox pack c pending []) {msgtype : UInt16} {payload : Bytes} {now : ℚ}
    {linkMdu : ℕ} {actions : List ChannelAction}
    (hsend : c.send msgtype payload now linkMdu = .ok (c', actions))
    (hnew : ∀ e ∈ c.txRing, e.sequence ≠ c.nextSequence) :
    Outbox pack (c'.cancelSend c.nextSequence) pending [] := by
  have hflow := (h.flow.send hsend).1.step (.cancelSend c.nextSequence)
  refine h.of_txRing hflow.1 (txRing_cancelSend hsend hnew) ?_
  rw [← maxTries_send hsend]
  unfold Channel.cancelSend
  dsimp only
  split_ifs <;> rfl

theorem Outbox.track {raw : Bytes} (h : Outbox pack c pending (.sendOnLink raw sequence :: queued))
    {iv : Vector UInt8 16} (hpack : pack iv raw = some hash) :
    Outbox pack c (pending.insert hash sequence) queued where
  flow := h.flow
  maxTries := h.maxTries
  distinct := h.distinct
  packs := h.packs
  carried hash' sequence' hpending := by
    rw [ExtTreeMap.getElem?_insert] at hpending
    split_ifs at hpending with heq
    · obtain ⟨e, he, hs, rfl⟩ := h.inRing raw sequence List.mem_cons_self
      obtain rfl := LawfulEqCmp.eq_of_compare heq
      exact ⟨e, he, hs.trans (Option.some.inj hpending), iv, hpack⟩
    · exact h.carried hash' sequence' hpending
  inRing raw' sequence' hmem := h.inRing raw' sequence' (List.mem_cons_of_mem _ hmem)
  tried e he := by
    have htried := h.tried e he
    have hinsert := copies_insert_le pending hash sequence e.sequence
    rw [← List.singleton_append, sends_append, sends_singleton] at htried
    omega
  tries_le := h.tries_le

theorem Outbox.skip {action : ChannelAction} (h : Outbox pack c pending (action :: queued)) :
    Outbox pack c pending queued where
  flow := h.flow
  maxTries := h.maxTries
  distinct := h.distinct
  packs := h.packs
  carried := h.carried
  inRing raw sequence hmem := h.inRing raw sequence (List.mem_cons_of_mem _ hmem)
  tried e he := by
    have htried := h.tried e he
    rw [← List.singleton_append, sends_append] at htried
    omega
  tries_le := h.tries_le

end Channel

end Rns

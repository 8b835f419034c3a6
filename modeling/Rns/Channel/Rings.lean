import Rns.Channel.Delivery

/-!
# The rings of a channel

Which operation touches which ring.  Sending, acknowledging and timing out are about the messages of
the own side; receiving is about those of the peer, as long as no message runs out of tries.
-/

namespace Rns

open List

namespace Channel

variable {c c' : Channel} {now : ℚ} {sequence : UInt16}

/-! ## The messages of the peer -/

/-- The messages of the peer are the same. -/
structure SameRx (c c' : Channel) : Prop where
  nextRxSequence : c'.nextRxSequence = c.nextRxSequence
  rxRing : c'.rxRing = c.rxRing

theorem SameRx.refl (c : Channel) : c.SameRx c := ⟨rfl, rfl⟩

theorem SameRx.trans {c'' : Channel} (h : c.SameRx c') (h' : c'.SameRx c'') : c.SameRx c'' :=
  ⟨h'.nextRxSequence.trans h.nextRxSequence, h'.rxRing.trans h.rxRing⟩

variable {α : Type*} {msgtype : UInt16} {payload : Bytes} {linkMdu : ℕ}
  {actions : List ChannelAction}

theorem sameRx_send (h : c.send msgtype payload now linkMdu = .ok (c', actions)) : c.SameRx c' := by
  unfold send at h
  split_ifs at h
  dsimp only at h
  split_ifs at h
  cases h
  exact ⟨rfl, rfl⟩

theorem sameRx_cancelSend (c : Channel) (sequence : UInt16) : c.SameRx (c.cancelSend sequence) := by
  unfold cancelSend
  split
  · dsimp only
    split <;> exact ⟨rfl, rfl⟩
  · exact .refl c

theorem sameRx_packetDelivered (c : Channel) (sequence : UInt16) :
    c.SameRx (c.packetDelivered sequence) := by
  have hadapt : ∀ c : Channel, c.SameRx c.adaptWindowOnDelivery := by
    intro c
    unfold adaptWindowOnDelivery
    dsimp only
    split_ifs <;> exact ⟨rfl, rfl⟩
  unfold packetDelivered
  split
  · refine SameRx.trans ?_ (hadapt _)
    split <;> exact ⟨rfl, rfl⟩
  · exact .refl c

/-! ## The messages of the own side -/

def outstanding (c : Channel) : List (UInt16 × Bytes) := c.txRing.map fun e => (e.sequence, e.raw)

theorem send_ok (h : c.send msgtype payload now linkMdu = .ok (c', actions)) :
    let raw := packEnvelope msgtype c.nextSequence payload
    actions = [.sendOnLink raw c.nextSequence] ∧ c'.nextSequence = c.nextSequence + 1 ∧
      c'.txRing = c.txRing ++ [⟨c.nextSequence, raw, 1, now, false⟩] := by
  unfold send at h
  split_ifs at h
  dsimp only at h
  split_ifs at h
  cases h
  exact ⟨rfl, rfl, rfl⟩

theorem packetDelivered_tx (c : Channel) (sequence : UInt16) :
    (c.packetDelivered sequence).nextSequence = c.nextSequence ∧
      (c.packetDelivered sequence).txRing = c.txRing.eraseP (·.sequence = sequence) := by
  unfold packetDelivered
  by_cases hany : c.txRing.any (·.sequence = sequence)
  · rw [if_pos hany]
    simp only [ChannelPair.adaptWindowOnDelivery_frame]
    exact ⟨by split <;> rfl, by split <;> rfl⟩
  · rw [if_neg hany, eraseP_of_forall_not]
    · exact ⟨rfl, rfl⟩
    · simpa using hany

/-! ## Timeouts -/

theorem getElem?_findIdx {l : List α} {p : α → Bool} {x : α} (h : l.find? p = some x) :
    l[l.findIdx p]? = some x := by
  induction l with
  | nil => cases h
  | cons y l ih =>
    rw [find?_cons] at h
    rw [findIdx_cons]
    cases hp : p y <;> simp_all

theorem map_set_of_eq {β : Type*} {l : List α} {f : α → β} {i : ℕ} {x y : α} (h : l[i]? = some x)
    (hf : f y = f x) : (l.set i y).map f = l.map f := by
  obtain ⟨hi, rfl⟩ := List.getElem?_eq_some_iff.1 h
  have hi' : i < (l.map f).length := by simpa using hi
  have hx : f l[i] = (l.map f)[i] := (getElem_map f).symm
  rw [map_set, hf, hx, set_getElem_self hi']

theorem packetTimeout_cases (c : Channel) (sequence : UInt16) (now : ℚ) :
    (c.packetTimeout sequence now).1.nextSequence = c.nextSequence ∧
    (c.packetTimeout sequence now).1.maxTries = c.maxTries ∧
    ((c.SameRx (c.packetTimeout sequence now).1 ∧
        (c.packetTimeout sequence now).1.outstanding = c.outstanding ∧
        (∀ action ∈ (c.packetTimeout sequence now).2, ∃ e ∈ c.outstanding,
          action = .sendOnLink e.2 e.1) ∧
        ∀ e ∈ (c.packetTimeout sequence now).1.txRing, e ∈ c.txRing ∨ e.sequence = sequence) ∨
      (∃ e ∈ c.txRing, e.sequence = sequence ∧ e.tries ≥ c.maxTries) ∧
        (c.packetTimeout sequence now).1.outstanding = [] ∧
        (c.packetTimeout sequence now).2 = [.teardownLink]) := by
  unfold packetTimeout
  cases hfind : c.txRing.find? (·.sequence = sequence) with
  | none => exact ⟨rfl, rfl, .inl ⟨.refl c, rfl, nofun, fun e he => .inl he⟩⟩
  | some envelope =>
    have hmem := mem_of_find?_eq_some hfind
    have hsequence : envelope.sequence = sequence := by simpa using find?_some hfind
    dsimp only
    by_cases hlast : envelope.tries ≥ c.maxTries
    · rw [if_pos hlast]
      exact ⟨rfl, rfl, .inr ⟨⟨envelope, hmem, hsequence, hlast⟩, rfl, rfl⟩⟩
    · rw [if_neg hlast]
      have hsame : (c.txRing.set (c.txRing.findIdx (·.sequence = sequence))
          { envelope with tries := envelope.tries + 1, sentAt := now }).map
            (fun e => (e.sequence, e.raw)) = c.outstanding :=
        map_set_of_eq (getElem?_findIdx hfind) rfl
      refine ⟨by split <;> rfl, by split <;> rfl, .inl ⟨?_, ?_, fun action haction => ?_, fun e he => ?_⟩⟩
      · split <;> exact ⟨rfl, rfl⟩
      · split <;> exact hsame
      · refine ⟨_, mem_map_of_mem hmem, ?_⟩
        rw [mem_singleton.1 haction, hsequence]
      · have he' : e ∈ c.txRing.set (c.txRing.findIdx (·.sequence = sequence))
            { envelope with tries := envelope.tries + 1, sentAt := now } := by
          split at he <;> exact he
        obtain he' | rfl := mem_or_eq_of_mem_set he'
        · exact .inl he'
        · exact .inr hsequence

/-- Every message that is overdue may be sent once more; the sequence numbers of these messages are
distinct. -/
structure HasTries (c : Channel) (now : ℚ) : Prop where
  distinct : (c.timedOut now).Nodup
  left : ∀ e ∈ c.txRing, e.sequence ∈ c.timedOut now → e.tries < c.maxTries

instance (c : Channel) (now : ℚ) : Decidable (c.HasTries now) :=
  decidable_of_iff ((c.timedOut now).Nodup ∧
      ∀ e ∈ c.txRing, e.sequence ∈ c.timedOut now → e.tries < c.maxTries)
    ⟨fun h => ⟨h.1, h.2⟩, fun h => ⟨h.distinct, h.left⟩⟩

theorem timeouts_of_left {sequences : List UInt16} (hdistinct : sequences.Nodup)
    (h : ∀ e ∈ c.txRing, e.sequence ∈ sequences → e.tries < c.maxTries) :
    c.SameRx (c.timeouts now sequences).1 ∧
    (c.timeouts now sequences).1.outstanding = c.outstanding ∧
    ∀ action ∈ (c.timeouts now sequences).2, ∃ raw sequence, action = .sendOnLink raw sequence := by
  induction sequences generalizing c with
  | nil => exact ⟨.refl c, rfl, nofun⟩
  | cons sequence rest ih =>
    obtain ⟨-, htries, ⟨hrx, htx, hsent, hring⟩ | ⟨⟨e, he, heq, hlast⟩, -⟩⟩ :=
      packetTimeout_cases c sequence now
    · rw [nodup_cons] at hdistinct
      obtain ⟨hrx', htx', hsent'⟩ := ih (c := (c.packetTimeout sequence now).1) hdistinct.2
        fun e he hmem => by
          rw [htries]
          obtain he | heq := hring e he
          · exact h e he (mem_cons_of_mem _ hmem)
          · exact absurd (heq ▸ hmem) hdistinct.1
      refine ⟨hrx.trans hrx', htx'.trans htx, fun action haction => ?_⟩
      obtain haction | haction := mem_append.1 haction
      · obtain ⟨e, -, rfl⟩ := hsent action haction
        exact ⟨_, _, rfl⟩
      · exact hsent' action haction
    · exact absurd (h e he (heq ▸ mem_cons_self)) (UInt8.not_lt.2 hlast)

theorem HasTries.tick (h : c.HasTries now) :
    c.SameRx (c.tick now).1 ∧ (c.tick now).1.outstanding = c.outstanding ∧
    ∀ action ∈ (c.tick now).2, ∃ raw sequence, action = .sendOnLink raw sequence :=
  timeouts_of_left h.distinct h.left

end Channel

end Rns

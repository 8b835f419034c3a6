import Rns.Lib.Simulation
import Rns.Transport.Reencoding

/-!
# The announces of one destination

The announce table has one entry for a destination, and one more can be held while a path response takes
its place.  Nothing is lost as long as a path response that waits is left alone.
-/

namespace Rns.Transport

/-- A transmission of an entry: on the interface of the entry, or on all of them. -/
structure Retransmission where
  destinationHash : Hash16
  hops : UInt8
  interface : Option InterfaceId
  raw : Bytes
  deriving DecidableEq

variable {a b : AnnounceEntry} {ops past : List SlotOp}

namespace AnnounceEntry

variable (entry : AnnounceEntry)

/-- The entry has a transmission left. -/
def Waits : Prop := entry.retries < localRebroadcastsMax

instance (entry : AnnounceEntry) : Decidable entry.Waits := inferInstanceAs (Decidable (_ < _))

def Answers : Prop := entry.Waits ∧ entry.attachedInterface.isSome

instance (entry : AnnounceEntry) : Decidable entry.Answers := inferInstanceAs (Decidable (_ ∧ _))

def retried (now : ℚ) : AnnounceEntry :=
  { entry with
    retransmitTimeout := now + pathfinderG + pathfinderRw
    retries := entry.retries + 1 }

def transmission (destHash identityHash : Hash16) : Retransmission :=
  ⟨destHash, entry.hops, entry.attachedInterface, buildRetransmitAnnounce entry identityHash⟩

def Same (entry' : AnnounceEntry) : Prop :=
  { entry with localRebroadcasts := entry'.localRebroadcasts } = entry'

instance (entry entry' : AnnounceEntry) : Decidable (entry.Same entry') :=
  inferInstanceAs (Decidable (_ = _))

theorem Same.refl : entry.Same entry := rfl

theorem Same.trans {a b c : AnnounceEntry} (h : a.Same b) (h' : b.Same c) : a.Same c := by
  unfold Same at h h' ⊢
  rw [← h', ← h]

theorem Same.waits_iff (h : a.Same b) : b.Waits ↔ a.Waits := by
  rw [← h]
  rfl

theorem Same.answers_iff (h : a.Same b) : b.Answers ↔ a.Answers := by
  rw [← h]
  rfl

theorem Same.transmission_eq (h : a.Same b) (destHash identityHash : Hash16) :
    b.transmission destHash identityHash = a.transmission destHash identityHash := by
  rw [← h]
  rfl

/-- The entry after a rebroadcast was heard, unless that ends it. -/
def hear (packet : RawPacket) (now : ℚ) : Option AnnounceEntry :=
  let entry' := { entry with localRebroadcasts := entry.localRebroadcasts + 1 }
  if packet.hops ≠ 0 ∧ packet.hops - 1 = entry.hops then
    if entry'.retries > 0 ∧ entry'.localRebroadcasts ≥ localRebroadcastsMax then none
    else if packet.hops ≠ 0 ∧ packet.hops - 1 = entry'.hops + 1 ∧ entry'.retries > 0 ∧
        now < entry'.retransmitTimeout then none
    else some entry'
  else if packet.hops ≠ 0 ∧ packet.hops - 1 = entry.hops + 1 ∧ entry.retries > 0 ∧
      now < entry.retransmitTimeout then none
  else some entry

theorem Same.of_hear {entry heard : AnnounceEntry} {packet : RawPacket} {now : ℚ}
    (h : entry.hear packet now = some heard) : entry.Same heard := by
  unfold hear at h
  dsimp only at h
  split_ifs at h <;> cases h <;> rfl

end AnnounceEntry

/-- The entries of a destination: the one in the announce table, and the one held. -/
structure Slots where
  pending : Option AnnounceEntry
  held : Option AnnounceEntry
  deriving DecidableEq

inductive SlotOp where
  /-- A rebroadcast was heard. -/
  | hear (packet : RawPacket) (now : ℚ)
  /-- An announce was accepted, or waited for by a path request. -/
  | insert (entry : AnnounceEntry)
  /-- A path request is answered from the path table. -/
  | answer (entry : AnnounceEntry)
  /-- The periodic check. -/
  | check (now : ℚ)

def SlotOp.Displaces : SlotOp → Prop
  | .answer _ => True
  | _ => False

namespace Slots

variable (destHash identityHash : Hash16)

variable (slots : Slots) (now : ℚ) (entry : AnnounceEntry)

def Due : Prop :=
  ∃ entry ∈ slots.pending, entry.Waits ∧ now > entry.retransmitTimeout

/-- The slots after the check, and what was sent.  The held entry takes the place of the one that
was sent. -/
def check : Slots × List Retransmission :=
  match slots.pending with
  | none => (slots, [])
  | some entry =>
    if entry.Waits then
      if now > entry.retransmitTimeout then
        (⟨some (slots.held.getD (entry.retried now)), none⟩,
          [entry.transmission destHash identityHash])
      else (slots, [])
    else ({ slots with pending := none }, [])

def machine : Machine Slots SlotOp Retransmission where
  step slots
    | .hear packet now => ({ slots with pending := slots.pending.bind (·.hear packet now) }, [])
    | .insert entry => ({ slots with pending := some entry }, [])
    | .answer entry => (⟨some entry, slots.pending <|> slots.held⟩, [])
    | .check now => slots.check destHash identityHash now

def Pending : Prop :=
  ∃ found ∈ slots.pending, entry.Same found

def Has : Prop :=
  slots.Pending entry ∨ ∃ found ∈ slots.held, entry.Same found

def Late : Prop := ∀ entry ∈ slots.pending, now > entry.retransmitTimeout

def Busy : Prop := ∃ entry ∈ slots.pending, entry.Answers

def Restorable : Prop := slots.held.isSome → slots.Busy

def Keeps : Prop :=
  slots.Pending entry ∨ (∃ found ∈ slots.held, entry.Same found) ∧ slots.Busy

/-- What has to be for an operation to lose nothing: a path response that waits is not cancelled by
a rebroadcast, nor overtaken by an announce or by the answer to another request. -/
def Orderly : SlotOp → Prop
  | .hear packet now => ∀ entry ∈ slots.pending, entry.Answers → (entry.hear packet now).isSome
  | .insert _ => ¬slots.Busy
  | .answer entry => ¬slots.Busy ∧ entry.Answers
  | .check _ => True

/-- The operation ends the announce of the destination: a rebroadcast cancels it or another announce
takes its place. -/
def Ends : SlotOp → Prop
  | .hear packet now => ∃ found ∈ slots.pending, entry.Same found ∧ found.hear packet now = none
  | .insert _ => ∃ found ∈ slots.pending, entry.Same found
  | _ => False

section

variable (slots : Slots)

instance : Decidable slots.Busy := inferInstanceAs (Decidable (∃ entry ∈ slots.pending, entry.Answers))

instance (entry : AnnounceEntry) : Decidable (slots.Pending entry) :=
  inferInstanceAs (Decidable (∃ found ∈ slots.pending, entry.Same found))

instance (entry : AnnounceEntry) : Decidable (slots.Has entry) :=
  inferInstanceAs (Decidable (slots.Pending entry ∨ ∃ found ∈ slots.held, entry.Same found))

instance : ∀ op, Decidable (slots.Orderly op)
  | .hear packet now => inferInstanceAs (Decidable (∀ entry ∈ slots.pending, entry.Answers →
      (entry.hear packet now).isSome))
  | .insert _ => inferInstanceAs (Decidable ¬slots.Busy)
  | .answer entry => inferInstanceAs (Decidable (¬slots.Busy ∧ entry.Answers))
  | .check _ => .isTrue trivial

instance (entry : AnnounceEntry) : ∀ op, Decidable (slots.Ends entry op)
  | .hear packet now => inferInstanceAs (Decidable (∃ found ∈ slots.pending, entry.Same found ∧
      found.hear packet now = none))
  | .insert _ => inferInstanceAs (Decidable (∃ found ∈ slots.pending, entry.Same found))
  | .answer _ => .isFalse id
  | .check _ => .isFalse id

end

variable {destHash identityHash} {slots : Slots} {op : SlotOp}

theorem Restorable.held_eq_none (h : slots.Restorable) (hfree : ¬slots.Busy) : slots.held = none :=
  Option.not_isSome_iff_eq_none.mp fun hsome => hfree (h hsome)

theorem Restorable.step (h : slots.Restorable) (hop : slots.Orderly op) :
    ((machine destHash identityHash).step slots op).1.Restorable := by
  cases op with
  | hear packet now =>
    intro hheld
    obtain ⟨entry, hentry, hanswers⟩ := h hheld
    obtain ⟨heard, hheard⟩ := Option.isSome_iff_exists.mp (hop entry hentry hanswers)
    refine ⟨heard, ?_, (AnnounceEntry.Same.of_hear hheard).answers_iff.mpr hanswers⟩
    simp only [machine, Option.mem_def] at hentry ⊢
    rw [hentry, Option.bind_some, hheard]
  | insert entry =>
    intro hheld
    rw [show ((machine destHash identityHash).step slots (.insert entry)).1.held = slots.held from rfl,
      h.held_eq_none hop] at hheld
    cases hheld
  | answer entry => exact fun _ => ⟨entry, rfl, hop.2⟩
  | check now =>
    intro hheld
    simp only [machine, check] at hheld ⊢
    cases hpending : slots.pending with
    | none =>
      simp only [hpending] at hheld ⊢
      exact h hheld
    | some entry =>
      simp only [hpending] at hheld ⊢
      split_ifs at hheld ⊢ with hwaits hdue
      · cases hheld
      · exact h hheld
      · obtain ⟨found, hfound, hanswers⟩ := h hheld
        obtain rfl := Option.some.inj (hpending.symm.trans hfound)
        exact absurd hanswers.1 hwaits

theorem Restorable.run (h : slots.Restorable)
    (hops : (machine destHash identityHash).Meets (fun _ slots op => slots.Orderly op) past slots ops) :
    ((machine destHash identityHash).run slots ops).1.Restorable :=
  Machine.run_keeps _ (fun _ _ _ hslots hop => Restorable.step hslots hop) h hops

theorem sends_nothing {ops : List SlotOp} (h : ∀ now, .check now ∉ ops)
    (destHash identityHash : Hash16) (slots : Slots) :
    ((machine destHash identityHash).run slots ops).2 = [] := by
  induction ops generalizing slots with
  | nil => rfl
  | cons op ops ih =>
    have hop : ((machine destHash identityHash).step slots op).2 = [] := by
      cases op with
      | check now => exact absurd List.mem_cons_self (h now)
      | _ => rfl
    rw [Machine.run, hop, ih fun now hmem => h now (List.mem_cons_of_mem _ hmem)]
    rfl

section Entry

variable {entry : AnnounceEntry} {now : ℚ}

/-- The step lemma for the announce table: unless it is put aside, an entry that waits stays, is sent,
or, if it is no path response, is ended.  A path response is never put aside. -/
theorem Pending.step (h : slots.Pending entry) (hwaits : entry.Waits) (hop : slots.Orderly op)
    (hstays : entry.Answers ∨ ¬op.Displaces) :
    ((machine destHash identityHash).step slots op).1.Pending entry ∨
      entry.transmission destHash identityHash ∈ ((machine destHash identityHash).step slots op).2 ∨
      ¬entry.Answers ∧ slots.Ends entry op := by
  obtain ⟨found, hfound, hsame⟩ := h
  cases op with
  | hear packet now =>
    cases hheard : found.hear packet now with
    | none =>
      refine .inr (.inr ⟨fun hanswers => ?_, found, hfound, hsame, hheard⟩)
      have hkept := hop found hfound (hsame.answers_iff.mpr hanswers)
      rw [hheard] at hkept
      cases hkept
    | some heard =>
      refine .inl ⟨heard, ?_, hsame.trans (.of_hear hheard)⟩
      simp only [machine, Option.mem_def] at hfound ⊢
      rw [hfound, Option.bind_some, hheard]
  | insert new =>
    exact .inr (.inr ⟨fun hanswers => hop ⟨found, hfound, hsame.answers_iff.mpr hanswers⟩,
      found, hfound, hsame⟩)
  | answer new =>
    rcases hstays with hanswers | hstays
    · exact absurd ⟨found, hfound, hsame.answers_iff.mpr hanswers⟩ hop.1
    · exact absurd trivial hstays
  | check now =>
    simp only [machine, check]
    rw [Option.mem_def] at hfound
    simp only [hfound]
    rw [if_pos (hsame.waits_iff.mpr hwaits)]
    split_ifs with hdue
    · refine .inr (.inl ?_)
      rw [hsame.transmission_eq]
      exact List.mem_singleton_self _
    · exact .inl ⟨found, hfound, hsame⟩

theorem Keeps.has (h : slots.Keeps entry) : slots.Has entry := h.imp_right And.left

theorem Keeps.step (h : slots.Keeps entry) (hwaits : entry.Waits) (hop : slots.Orderly op) :
    ((machine destHash identityHash).step slots op).1.Keeps entry ∨
      entry.transmission destHash identityHash ∈ ((machine destHash identityHash).step slots op).2 ∨
      ¬entry.Answers ∧ slots.Ends entry op := by
  rcases h with hpending | ⟨⟨found, hfound, hsame⟩, response, hresponse, hanswers⟩
  · by_cases hdisplaces : op.Displaces
    · cases op with
      | answer new =>
        obtain ⟨found, hfound, hsame⟩ := hpending
        refine .inl (.inr ⟨⟨found, ?_, hsame⟩, new, rfl, hop.2⟩)
        simp only [machine, Option.mem_def] at hfound ⊢
        rw [hfound]
        rfl
      | _ => cases hdisplaces
    · exact (hpending.step hwaits hop (.inr hdisplaces)).imp_left .inl
  · -- nothing but the check moves the response
    cases op with
    | hear packet now =>
      obtain ⟨heard, hheard⟩ := Option.isSome_iff_exists.mp (hop response hresponse hanswers)
      refine .inl (.inr ⟨⟨found, hfound, hsame⟩, heard, ?_,
        (AnnounceEntry.Same.of_hear hheard).answers_iff.mpr hanswers⟩)
      simp only [machine, Option.mem_def] at hresponse ⊢
      rw [hresponse, Option.bind_some, hheard]
    | insert new => exact absurd ⟨response, hresponse, hanswers⟩ hop
    | answer new => exact absurd ⟨response, hresponse, hanswers⟩ hop.1
    | check now =>
      simp only [machine, check]
      have hpending := hresponse
      rw [Option.mem_def] at hfound hpending
      simp only [hpending]
      rw [if_pos hanswers.1]
      split_ifs with hdue
      · exact .inl (.inl ⟨found, by rw [hfound]; rfl, hsame⟩)
      · exact .inl (.inr ⟨⟨found, hfound, hsame⟩, response, hresponse, hanswers⟩)

/-- The run lemma for one slot or both: an entry stays where its steps leave it until it is sent or
ended. -/
theorem run_until {I : Slots → Prop} {ok : Slots → SlotOp → Prop}
    (hstep : ∀ {slots op}, I slots → ok slots op →
      I ((machine destHash identityHash).step slots op).1 ∨
        entry.transmission destHash identityHash ∈
          ((machine destHash identityHash).step slots op).2 ∨
        ¬entry.Answers ∧ slots.Ends entry op)
    (h : I slots) (hops : (machine destHash identityHash).Meets (fun _ => ok) past slots ops) :
    I ((machine destHash identityHash).run slots ops).1 ∨
      entry.transmission destHash identityHash ∈ ((machine destHash identityHash).run slots ops).2 ∨
      ¬entry.Answers ∧ (machine destHash identityHash).Occurs (·.Ends entry) slots ops := by
  induction ops generalizing slots past with
  | nil => exact .inl h
  | cons op ops ih =>
    rcases hstep h hops.1 with hstep | hsent | ⟨hother, hends⟩
    · exact (ih hstep hops.2).imp_right <| Or.imp (List.mem_append_right _) <| And.imp_right .inr
    · exact .inr (.inl (List.mem_append_left _ hsent))
    · exact .inr (.inr ⟨hother, .inl hends⟩)

theorem Pending.sent_of_late (h : slots.Pending entry) (hwaits : entry.Waits)
    (hlate : slots.Late now) :
    entry.transmission destHash identityHash ∈ (slots.check destHash identityHash now).2 := by
  obtain ⟨found, hfound, hsame⟩ := h
  have hdue := hlate found hfound
  rw [Option.mem_def] at hfound
  simp only [check, hfound]
  rw [if_pos (hsame.waits_iff.mpr hwaits), if_pos hdue, hsame.transmission_eq]
  exact List.mem_singleton_self _

theorem Busy.restored_of_late (h : slots.Busy) {held : AnnounceEntry}
    (hheld : slots.held = some held) (hlate : slots.Late now) (destHash identityHash : Hash16) :
    (slots.check destHash identityHash now).1 = ⟨some held, none⟩ := by
  obtain ⟨response, hresponse, hanswers⟩ := h
  have hdue := hlate response hresponse
  rw [Option.mem_def] at hresponse
  simp only [check, hresponse]
  rw [if_pos hanswers.1, if_pos hdue, hheld]
  rfl

end Entry

end Slots

end Rns.Transport

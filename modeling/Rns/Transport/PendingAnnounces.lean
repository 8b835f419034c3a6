import Rns.Transport.Learned

/-!
# Pending announces under path requests

The answer to a path request takes the place of the announce that waits, which is held until the answer
was sent.  There is one place among the held announces, so a second answer before the next check pushes
the announce out.
-/

namespace Rns.Transport

open TransportEngine

variable {response : AnnounceEntry} {now : ℚ}

namespace Relay

variable {P : Primitives}

/-! ## The slots of a destination -/

def slots (s : Relay) (d : Hash16) : Slots := s.engine.retained.slots d

variable (P)

def slotOps (d : Hash16) (s : Relay) (event : Event) : List SlotOp :=
  (s.ops P event).flatMap fun op => (op.at_ d).toList

def WithinLimits (s : Relay) (event : Event) : Prop :=
  (retention s.engine.config).Meets
    (fun _ r op => r.Within s.engine.config op) [] s.engine.retained (s.ops P event)

instance (s : Relay) (event : Event) : Decidable (s.WithinLimits P event) :=
  inferInstanceAs (Decidable (Machine.Meets _ _ _ _ _))

variable {P} {config : TransportConfig} {identityHash : Hash16}

theorem Invariant.responds_ops {s : Relay} (h : s.Invariant P) (event : Event) :
    ∀ op ∈ s.ops P event, op.Responds := by
  intro op hop
  cases op with
  | answer d response now => exact h.responds event hop
  | _ => trivial

theorem follows_slots (hid : config.identityHash = some identityHash) (d : Hash16) :
    (machine P).Follows (Slots.machine d identityHash) (·.slots d) (slotOps P d) .retransmit
      (fun s event => s.engine.config = config ∧ s.Invariant P ∧ s.WithinLimits P event) := by
  have hcomp := (follows_retention P config).comp (Retained.follows_slots hid d)
  refine ⟨fun s event hok => ?_, fun s event hok o ho => ?_⟩
  · obtain ⟨rfl, hinv, hwithin⟩ := hok
    have hstate := hcomp.state s event ⟨rfl, hwithin.and (.of_forall (hinv.responds_ops event))⟩
    rwa [Machine.trace_eq_flatMap] at hstate
  · obtain ⟨rfl, hinv, hwithin⟩ := hok
    have houtput := hcomp.output s event ⟨rfl, hwithin.and (.of_forall (hinv.responds_ops event))⟩ o
    rw [Machine.trace_eq_flatMap] at houtput
    exact houtput ho

section Steady

variable (P) (identityHash) (d : Hash16)

/-- A path response for the destination that waits to be sent is left alone by the event: no
rebroadcast cancels it, no announce is accepted and no other path request is answered before. -/
def SparesResponses (s : Relay) (event : Event) : Prop :=
  (Slots.machine d identityHash).Meets (fun _ slots op => slots.Orderly op) [] (s.slots d)
    (s.slotOps P d event)

instance (s : Relay) (event : Event) : Decidable (s.SparesResponses P identityHash d event) :=
  inferInstanceAs (Decidable (Machine.Meets _ _ _ _ _))

/-- In the course of the event a rebroadcast cancels the entry, or a newer announce takes its
place. -/
def EndsEntry (entry : AnnounceEntry) (s : Relay) (event : Event) : Prop :=
  (Slots.machine d identityHash).Occurs (·.Ends entry) (s.slots d) (s.slotOps P d event)

instance (entry : AnnounceEntry) (s : Relay) (event : Event) :
    Decidable (EndsEntry P identityHash d entry s event) :=
  inferInstanceAs (Decidable (Machine.Occurs _ _ _ _))

def Late (s : Relay) (now : ℚ) : Prop :=
  s.announcesLastChecked + announcesCheckInterval < now ∧ (s.slots d).Late now

def Steady (s : Relay) (events : List Event) : Prop :=
  (machine P).Meets (fun _ s event => s.WithinLimits P event ∧ s.SparesResponses P identityHash d event)
    [] s events

variable {P identityHash d}

theorem Steady.append {s : Relay} {before after : List Event} :
    s.Steady P identityHash d (before ++ after) ↔ s.Steady P identityHash d before ∧
      ((machine P).run s before).1.Steady P identityHash d after := by
  unfold Steady
  rw [Machine.meets_append]
  exact and_congr_right fun _ => ⟨fun h => h.change_past _, fun h => h.change_past _⟩

variable {s : Relay} {events : List Event} {entry : AnnounceEntry}

/-- The configuration and the invariant stay, so the conditions of the simulation hold along the
run. -/
theorem Steady.follows (h : s.Steady P identityHash d events) (hinv : s.Invariant P) :
    (machine P).Meets (fun _ s' event => (s'.engine.config = s.engine.config ∧ s'.Invariant P ∧
      s'.WithinLimits P event) ∧ s'.SparesResponses P identityHash d event) [] s events :=
  Machine.Meets.of_invariant (I := fun _ s' => s'.engine.config = s.engine.config ∧ s'.Invariant P) _
    (fun _ s' event hkeeps _ => ⟨(config_step s' event).trans hkeeps.1, hkeeps.2.step event⟩)
    (fun _ _ _ hkeeps hok => ⟨⟨hkeeps.1, hkeeps.2, hok.1⟩, hok.2⟩) ⟨rfl, hinv⟩ h

variable (hid : s.engine.config.identityHash = some identityHash) (hinv : s.Invariant P)
  (h : s.Steady P identityHash d events)

include hid hinv h

theorem Steady.slots_run : ((machine P).run s events).1.slots d =
    ((Slots.machine d identityHash).run (s.slots d) ((machine P).trace (slotOps P d) s events)).1 :=
  (follows_slots hid d).run_state ((h.follows hinv).imp fun _ _ _ hok => hok.1)

theorem Steady.orderly : (Slots.machine d identityHash).Meets (fun _ slots op => slots.Orderly op)
    [] (s.slots d) ((machine P).trace (slotOps P d) s events) :=
  (follows_slots hid d).meets_trace (h.follows hinv)

theorem Steady.restorable (hrestore : (s.slots d).Restorable) :
    (((machine P).run s events).1.slots d).Restorable := by
  rw [h.slots_run hid hinv]
  exact hrestore.run (h.orderly hid hinv)

theorem Steady.keeps_run (hkeeps : (s.slots d).Keeps entry) (hwaits : entry.Waits) :
    (((machine P).run s events).1.slots d).Keeps entry ∨
      .retransmit (entry.transmission d identityHash) ∈ ((machine P).run s events).2 ∨
      ¬entry.Answers ∧ (machine P).Occurs (EndsEntry P identityHash d entry) s events := by
  have hfollows := (h.follows hinv).imp fun _ _ _ hok => hok.1
  rw [h.slots_run hid hinv]
  refine (Slots.run_until (I := (·.Keeps entry)) (·.step hwaits) hkeeps (h.orderly hid hinv)).imp_right
    (Or.imp ?_ ?_)
  · exact (follows_slots hid d).run_output hfollows
  · exact And.imp_right ((follows_slots hid d).occurs hfollows)

theorem Steady.pending_run (hpending : (s.slots d).Pending entry) (hwaits : entry.Waits)
    (hstays : entry.Answers ∨ ∀ op ∈ (machine P).trace (slotOps P d) s events, ¬op.Displaces) :
    (((machine P).run s events).1.slots d).Pending entry ∨
      .retransmit (entry.transmission d identityHash) ∈ ((machine P).run s events).2 ∨
      ¬entry.Answers ∧ (machine P).Occurs (EndsEntry P identityHash d entry) s events := by
  have hfollows := (h.follows hinv).imp fun _ _ _ hok => hok.1
  have hmeets := (h.orderly hid hinv).and (.of_forall fun op hop =>
    show entry.Answers ∨ ¬op.Displaces from hstays.imp_right fun hall => hall op hop)
  rw [h.slots_run hid hinv]
  refine (Slots.run_until (I := (·.Pending entry)) (fun h hop => h.step hwaits hop.1 hop.2) hpending
    hmeets).imp_right (Or.imp ?_ ?_)
  · exact (follows_slots hid d).run_output hfollows
  · exact And.imp_right ((follows_slots hid d).occurs hfollows)

end Steady

/-! ## Ticks -/

section Tick

variable {s : Relay} {d : Hash16} {entry : AnnounceEntry} {now : ℚ} {rng : InterfaceId → UInt64}

theorem not_displaces_of_fromAnnounces {ops : List RetentionOp}
    (h : FromAnnounces ops) {op : SlotOp} (hop : op ∈ ops.flatMap fun op => (op.at_ d).toList) :
    ¬op.Displaces ∧ ∀ now, op ≠ .check now := by
  obtain ⟨op', hop', hat⟩ := List.mem_flatMap.mp hop
  rw [Option.mem_toList] at hat
  have hkind := h op' hop'
  cases op' with
  | hear packet now | insert d' entry now =>
    simp only [RetentionOp.at_, Option.ite_none_right_eq_some, Option.some.injEq] at hat
    rw [← hat.2]
    exact ⟨id, fun _ => SlotOp.noConfusion⟩
  | answer | check => cases hkind

/-- A tick that is due checks the tables, and may then process announces held back by ingress
control. -/
theorem slotOps_tick (P : Primitives) (d : Hash16) (rng : InterfaceId → UInt64)
    (hcheck : s.announcesLastChecked + announcesCheckInterval < now) :
    ∃ rest, s.slotOps P d (.tick now rng) = .check now :: rest ∧
      ∀ op ∈ rest, ¬op.Displaces ∧ ∀ now, op ≠ .check now := by
  rw [slotOps, ops, if_neg (not_le.mpr hcheck)]
  exact ⟨_, rfl, fun op hop =>
    not_displaces_of_fromAnnounces (fromAnnounces_releaseAllOps _ _ _ _ _) hop⟩

variable (hid : s.engine.config.identityHash = some identityHash) (hinv : s.Invariant P)
  (h : s.WithinLimits P (.tick now rng)) (hlate : s.Late d now)

include hid hinv h hlate

theorem sent_of_late_tick (hpending : (s.slots d).Pending entry) (hwaits : entry.Waits) :
    .retransmit (entry.transmission d identityHash) ∈ ((machine P).step s (.tick now rng)).2 := by
  obtain ⟨rest, hops, -⟩ := slotOps_tick P d rng hlate.1
  refine (follows_slots hid d).output s (.tick now rng) ⟨rfl, hinv, h⟩ _ ?_
  rw [hops]
  exact List.mem_append_left _ (hpending.sent_of_late hwaits hlate.2)

theorem restored_by_late_tick (hspares : s.SparesResponses P identityHash d (.tick now rng))
    (hheld : ∃ found ∈ (s.slots d).held, entry.Same found) (hbusy : (s.slots d).Busy)
    (hwaits : entry.Waits) : (((machine P).step s (.tick now rng)).1.slots d).Pending entry ∨
      s.EndsEntry P identityHash d entry (.tick now rng) := by
  obtain ⟨found, hfound, hsame⟩ := hheld
  obtain ⟨rest, hops, hrest⟩ := slotOps_tick P d rng hlate.1
  have hstate := (follows_slots hid d).state s (.tick now rng) ⟨rfl, hinv, h⟩
  unfold SparesResponses at hspares
  rw [hops] at hstate hspares
  have hcheck := hbusy.restored_of_late hfound hlate.2 d identityHash
  have hpending : ((s.slots d).check d identityHash now).1.Pending entry := by
    rw [hcheck]
    exact ⟨found, rfl, hsame⟩
  have hmeets := hspares.2.and (.of_forall fun op hop =>
    show entry.Answers ∨ ¬op.Displaces from .inr (hrest op hop).1)
  rw [hstate, EndsEntry, hops]
  rcases Slots.run_until (I := (·.Pending entry)) (fun h hop => h.step hwaits hop.1 hop.2) hpending
    hmeets with hrun | hsent | ⟨-, hends⟩
  · exact .inl hrun
  · have hnone := Slots.sends_nothing (fun now hop => (hrest _ hop).2 now rfl) d identityHash
      ((s.slots d).check d identityHash now).1
    rw [hnone] at hsent
    cases hsent
  · exact .inr (.inr hends)

end Tick

/-! ## Path requests -/

section Request

variable {s : Relay} {d : Hash16} {data : Bytes} {iface : InterfaceId}

/-- A path request for the destination is answered from the path table: the request is new, the
destination is not local, and there is a path with its announce, unless a roaming interface asks
for a path of its own. -/
def Answered (s : Relay) (data : Bytes) (iface : InterfaceId) (d : Hash16) : Prop :=
  (s.parsePathRequest data).map (·.2.1) = some d ∧
    ¬s.engine.localDestinations.contains d ∧ s.engine.config.transportEnabled ∧
    ∃ path ∈ s.engine.pathTable[d]?.bind PathSet.primary, path.announceRaw.isSome ∧
      ¬(s.engine.interfaces[iface]?.map InterfaceInfo.mode = some InterfaceMode.roaming ∧
        path.receivingInterface = iface)

/-- The response to a request on an interface. -/
structure ResponseOn (response : AnnounceEntry) (iface : InterfaceId) : Prop where
  answers : response.Answers
  interface : response.attachedInterface = some iface
  blocks : response.blockRebroadcasts

theorem responseOn_pathResponse {e : TransportEngine} {path : PathEntry} {raw : Bytes}
    (h : e.pathResponse P d iface now path raw = some response) : ResponseOn response iface := by
  unfold pathResponse at h
  dsimp only at h
  split at h
  · cases h
  · obtain rfl := Option.some.inj h
    exact ⟨⟨show pathfinderR < localRebroadcastsMax by decide, rfl⟩, rfl, rfl⟩

theorem ops_of_answered (h : s.Answered data iface d) (now : ℚ) (egress : List InterfaceId) :
    ∃ path raw, s.ops P (.pathRequest data iface now egress) =
      [.answer d (s.engine.pathResponse P d iface now path raw) now] := by
  obtain ⟨hdest, hlocal, henabled, path, hpath, hraw, hroaming⟩ := h
  obtain ⟨⟨s', d', tag⟩, hparse, hd⟩ := Option.map_eq_some_iff.mp hdest
  obtain rfl : d' = d := hd
  obtain ⟨raw, hraw⟩ := Option.isSome_iff_exists.mp hraw
  have hengine := engine_of_parsePathRequest hparse
  refine ⟨path, raw, ?_⟩
  rw [ops, hparse]
  dsimp only
  rw [hengine, if_neg (by simp [hlocal, henabled]), requestOps, Option.mem_def.mp hpath]
  dsimp only
  rw [if_neg hroaming, hraw]

theorem pending_of_answered (hid : s.engine.config.identityHash = some identityHash)
    (hinv : s.Invariant P) (h : s.Answered data iface d) {egress : List InterfaceId}
    (hlimits : s.WithinLimits P (.pathRequest data iface now egress)) :
    ∃ response, ResponseOn response iface ∧
      (((machine P).step s (.pathRequest data iface now egress)).1.slots d).Pending response := by
  obtain ⟨path, raw, hops⟩ := ops_of_answered (P := P) h now egress
  obtain ⟨response, hresponse⟩ := Option.isSome_iff_exists.mp
    (hinv.responds (.pathRequest data iface now egress) (hops ▸ List.mem_singleton_self _))
  have hstate := (follows_slots hid d).state s (.pathRequest data iface now egress)
    ⟨rfl, hinv, hlimits⟩
  rw [slotOps, hops, hresponse] at hstate
  refine ⟨response, responseOn_pathResponse hresponse, response, ?_, .refl response⟩
  rw [hstate]
  simp [RetentionOp.at_, Machine.run, Slots.machine]

end Request

/-! ## Nothing is lost -/

/-- Path requests lose no announce of the destination in the course of a run. -/
structure LosesNothing (P : Primitives) (identityHash d : Hash16) (start : Relay)
    (events : List Event) : Prop where
  /-- An entry that waits is in the announce table or held until it was sent, cancelled by a
  rebroadcast or replaced by a newer announce. -/
  waiting : ∀ before after, events = before ++ after →
    let s := ((machine P).run start before).1
    ∀ entry : AnnounceEntry, s.engine.announceTable[d]? = some entry → entry.Waits →
      (((machine P).run s after).1.slots d).Has entry ∨
        .retransmit (entry.transmission d identityHash) ∈ ((machine P).run s after).2 ∨
        (machine P).Occurs (EndsEntry P identityHash d entry) s after
  /-- A late tick puts back what is held. -/
  restored : ∀ before now rng after, events = before ++ .tick now rng :: after →
    let s := ((machine P).run start before).1
    ∀ entry : AnnounceEntry, s.engine.heldAnnounces[d]? = some entry → entry.Waits →
      s.Late d now →
        (((machine P).step s (.tick now rng)).1.slots d).Pending entry ∨
          s.EndsEntry P identityHash d entry (.tick now rng)
  /-- The response to a request that is answered is in the announce table until it was sent, and the
  first late tick sends it, on the interface of the request. -/
  answered : ∀ before data iface now egress after,
    events = before ++ .pathRequest data iface now egress :: after →
    let s := ((machine P).run start before).1
    s.Answered data iface d → ∃ response, ResponseOn response iface ∧
      let s := ((machine P).step s (.pathRequest data iface now egress)).1
      ((((machine P).run s after).1.slots d).Pending response ∨
        .retransmit (response.transmission d identityHash) ∈ ((machine P).run s after).2) ∧
      ∀ waiting now rng rest, after = waiting ++ .tick now rng :: rest →
        ((machine P).run s waiting).1.Late d now →
        .retransmit (response.transmission d identityHash) ∈
          ((machine P).run s (waiting ++ [.tick now rng])).2

section

variable {s : Relay} {d : Hash16} {events : List Event}
  (hid : s.engine.config.identityHash = some identityHash)
include hid

theorem identityHash_run (P : Primitives) (events : List Event) :
    ((machine P).run s events).1.engine.config.identityHash = some identityHash := by
  rw [config_run, hid]

variable (hinv : s.Invariant P)
include hinv

theorem Steady.response_stays (h : s.Steady P identityHash d events)
    (hpending : (s.slots d).Pending response) (hanswers : response.Answers) :
    (((machine P).run s events).1.slots d).Pending response ∨
      .retransmit (response.transmission d identityHash) ∈ ((machine P).run s events).2 := by
  rcases h.pending_run hid hinv hpending hanswers.1 (.inl hanswers) with hrun | hsent | ⟨hother, -⟩
  · exact .inl hrun
  · exact .inr hsent
  · exact absurd hanswers hother

theorem Steady.response_sent {waiting rest : List Event} {rng : InterfaceId → UInt64}
    (h : s.Steady P identityHash d (waiting ++ .tick now rng :: rest))
    (hpending : (s.slots d).Pending response) (hanswers : response.Answers)
    (hlate : ((machine P).run s waiting).1.Late d now) :
    .retransmit (response.transmission d identityHash) ∈
      ((machine P).run s (waiting ++ [.tick now rng])).2 := by
  obtain ⟨hwaiting, htick⟩ := Steady.append.mp h
  rw [Machine.run_append_snd]
  rcases hwaiting.response_stays hid hinv hpending hanswers with hrun | hsent
  · refine List.mem_append_right _ (List.mem_append_left _ ?_)
    exact sent_of_late_tick (identityHash_run hid P waiting) (hinv.run waiting) htick.1.1 hlate hrun
      hanswers.1
  · exact List.mem_append_left _ hsent

theorem Steady.losesNothing (hrestore : (s.slots d).Restorable) (h : s.Steady P identityHash d events) :
    LosesNothing P identityHash d s events where
  waiting before after heq entry hentry hwaits := by
    subst heq
    obtain ⟨hbefore, hafter⟩ := Steady.append.mp h
    have hrun := hafter.keeps_run (identityHash_run hid P before) (hinv.run before)
      (.inl ⟨entry, hentry, .refl entry⟩) hwaits
    exact hrun.imp (fun hkeeps => hkeeps.has) (Or.imp_right And.right)
  restored before now rng after heq entry hentry hwaits hlate := by
    subst heq
    obtain ⟨hbefore, hafter⟩ := Steady.append.mp h
    have hbusy := hbefore.restorable hid hinv hrestore (Option.isSome_of_mem hentry)
    exact restored_by_late_tick (identityHash_run hid P before) (hinv.run before) hafter.1.1 hlate
      hafter.1.2 ⟨entry, hentry, .refl entry⟩ hbusy hwaits
  answered before data iface now egress after heq hanswered := by
    subst heq
    obtain ⟨hbefore, hafter⟩ := Steady.append.mp h
    have hid' := identityHash_run hid P before
    obtain ⟨response, hon, hpending⟩ := pending_of_answered hid' (hinv.run before) hanswered hafter.1.1
    have hsplit : Steady P identityHash d _ ([.pathRequest data iface now egress] ++ after) := hafter
    have hrest := (Steady.append.mp hsplit).2
    have hid' := identityHash_run hid' P [.pathRequest data iface now egress]
    have hinv' := (hinv.run before).step (.pathRequest data iface now egress)
    exact ⟨response, hon, hrest.response_stays hid' hinv' hpending hon.answers,
      fun waiting now rng rest heq hlate =>
        (heq ▸ hrest).response_sent hid' hinv' hpending hon.answers hlate⟩

end

section Example

def sample : Relay :=
  new { sampleConfig with identityHash := some (.replicate 16 5) } 10 10
    (fun _ => 60) fun _ => false

def sampleRequest (tag : UInt8) (iface : InterfaceId) (now : ℚ) : Event :=
  .pathRequest (List.replicate 16 0 ++ [tag]) iface now []

def steadyEvents : List Event :=
  [.node (.frame (sampleFrame 7 0 1 0 [] 100) 0), sampleRequest 1 2 101,
    .tick 103 fun _ => 0, .tick 105 fun _ => 0]

def hurriedEvents : List Event :=
  [.node (.frame (sampleFrame 7 0 1 0 [] 100) 0), sampleRequest 1 2 101,
    sampleRequest 2 3 101, .tick 103 fun _ => 0, .tick 105 fun _ => 0]

end Example

end Relay

end Rns.Transport

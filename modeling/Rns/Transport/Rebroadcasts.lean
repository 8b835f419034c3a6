import Rns.Transport.PendingAnnounces

/-!
# Rebroadcasts of accepted announces

An accepted announce waits in the announce table to be rebroadcast.  If a discovery path request waits
for the destination, its answer takes this place at once, and there is no rebroadcast.
-/

namespace Rns.Transport

open TransportEngine TransportEngine.RetentionOp List

variable {ops : List RetentionOp} {entry : AnnounceEntry}

namespace TransportEngine

/-! ## Announces that are processed -/

/-- Handling the frame comes to process a verified announce: in the engine given here, and in this
context. -/
inductive Processes (P : Primitives) (e : TransportEngine) (frame : InboundFrame) (queued : Bool) :
    TransportEngine → VerifiedAnnounceCtx → Prop
  | intro {inbound : InboundPacketCtx} {a : AnnounceData} {validated : ValidatedAnnounce}
      (hprepare : e.prepareInboundPacket P frame = some inbound)
      (htype : inbound.packet.flags.packetType = PacketType.announce)
      (hsingle : inbound.packet.flags.destinationType = DestinationType.single)
      (ha : announceOf inbound.packet = some a)
      (hfree : ¬((e.rememberInboundPacketHash inbound.packet).ingress inbound).2)
      (hqueue : queued → ¬e.localDestinations.contains inbound.packet.destinationHash ∧
        ¬NeedsQueue P (e.rememberInboundPacketHash inbound.packet) inbound a)
      (hverdict : verdict P (e.rememberInboundPacketHash inbound.packet) inbound a =
        some validated) :
      Processes P e frame queued
        ((e.rememberInboundPacketHash inbound.packet).readyFor P inbound a)
        (verifiedCtx inbound validated (sender inbound.packet) a.randomHash)

variable {P : Primitives} {e e' : TransportEngine} {ctx : VerifiedAnnounceCtx} {rng : UInt64}

theorem localDestinations_rememberInboundPacketHash (e : TransportEngine) (packet : RawPacket) :
    (e.rememberInboundPacketHash packet).localDestinations = e.localDestinations := by
  unfold rememberInboundPacketHash
  split_ifs <;> rfl

theorem Processes.split {frame : InboundFrame} {queued : Bool}
    (h : e.Processes P frame queued e' ctx) (rng : UInt64) :
    ∃ heard, e.frameOps P frame rng queued = heard ++ e'.verifiedOps ctx rng ∧
      e.Amounts heard e' := by
  obtain ⟨hprepare, htype, hsingle, ha, hfree, hqueue, hverdict⟩ := h
  rename_i inbound a validated
  refine ⟨(e.rememberInboundPacketHash inbound.packet).hearOps inbound.packet inbound.now, ?_, ?_⟩
  · rw [frameOps, hprepare]
    dsimp only
    rw [if_pos htype]
    cases queued with
    | false =>
      rw [if_neg Bool.false_ne_true, announceOps, if_neg (not_not.mpr hsingle), ha]
      dsimp only
      rw [if_neg hfree, hverdict]
      rfl
    | true =>
      obtain ⟨hlocal, hnow⟩ := hqueue rfl
      rw [if_pos rfl, queuedAnnounceOps, if_neg (not_not.mpr hsingle), ha]
      dsimp only
      rw [localDestinations_rememberInboundPacketHash,
        if_neg (not_or.mpr ⟨hlocal, not_or.mpr ⟨hfree, hnow⟩⟩), hverdict]
      rfl
  · exact (aside_rememberInboundPacketHash e _).amounts.after_quiet (amounts_readyFor ..)

/-- The entry of an accepted announce that is no path response and not held up by its rate: for all
interfaces. -/
theorem acceptedEntry_eq_some (henabled : e.config.transportEnabled)
    (hresponse : ¬ctx.isPathResponse) (hrate : ¬(e.checkRate ctx).2) (rng : UInt64) :
    ∃ entry, e.acceptedEntry ctx rng = some entry ∧ entry.retries = 0 ∧
      entry.attachedInterface = none ∧ entry.blockRebroadcasts = false ∧
      entry.packetRaw = ctx.packet.raw := by
  unfold acceptedEntry announceEntries processValidatedAnnounce
  rcases hlimited : e.checkRate ctx with ⟨rateLimiter, rateBlocked⟩
  rw [hlimited] at hrate
  dsimp only at hrate ⊢
  rw [if_pos ⟨henabled, hresponse, hrate⟩]
  exact ⟨_, rfl, rfl, rfl, rfl, rfl⟩

section

variable (e : TransportEngine) (d : Hash16)

theorem checkRate_forgetStaleState (ctx : VerifiedAnnounceCtx) :
    (e.forgetStaleState d).checkRate ctx = e.checkRate ctx := by
  unfold forgetStaleState
  split_ifs <;> rfl

theorem config_forgetStaleState : (e.forgetStaleState d).config = e.config := by
  unfold forgetStaleState
  split_ifs <;> rfl

theorem discoveryPathRequests_forgetStaleState :
    (e.forgetStaleState d).discoveryPathRequests = e.discoveryPathRequests := by
  unfold forgetStaleState
  split_ifs <;> rfl

end

/-- With no discovery request for its destination, an accepted announce is inserted, and nothing
else. -/
theorem verifiedOps_of_accepts (haccepts : e.Accepts ctx)
    (hwaiting : e.discoveryPathRequests[ctx.packet.destinationHash]? = none)
    (hentry : (e.forgetStaleState ctx.packet.destinationHash).acceptedEntry ctx rng = some entry) :
    e.verifiedOps ctx rng = [.insert ctx.packet.destinationHash entry ctx.now] := by
  rw [verifiedOps, if_pos haccepts, acceptOps, hentry, discoveryPathRequests_forgetStaleState,
    hwaiting]
  rfl

end TransportEngine

namespace Relay

variable {P : Primitives} {s : Relay} {event : Event} {e : TransportEngine}
  {ctx : VerifiedAnnounceCtx} {rng : UInt64} {rest : List RetentionOp}

open TransportEngine in
/-- The event comes to process a verified announce: in the engine and context given here, and with
these operations left to do.  A tick processes the announces that ingress control releases one after
the other. -/
inductive Processes (P : Primitives) (s : Relay) :
    Event → TransportEngine → VerifiedAnnounceCtx → UInt64 → List RetentionOp → Prop
  | frame {frame : InboundFrame} {e : TransportEngine} {ctx : VerifiedAnnounceCtx}
      (h : s.engine.Processes P frame false e ctx) (rng : UInt64) :
      Processes P s (.node (.frame frame rng)) e ctx rng []
  | queuedFrame {frame : InboundFrame} {e : TransportEngine} {ctx : VerifiedAnnounceCtx}
      (h : s.engine.Processes P frame true e ctx) (rng : UInt64) :
      Processes P s (.node (.queuedFrame frame rng)) e ctx rng []
  | verify {key : AnnounceVerifyKey} {pending : PendingAnnounce} {validated : ValidatedAnnounce}
      {sigKey : Hash32} (h : s.completed P key = some (pending, validated, sigKey)) (now : ℚ)
      (rng : UInt64) :
      Processes P s (.node (.verify key now rng)) (s.engine.rememberSignature sigKey now)
        (pendingCtx pending validated now) rng []
  | release {now : ℚ} {rng : InterfaceId → UInt64} {before after : List InterfaceId}
      {iface : InterfaceId} {checked released e : TransportEngine} {info : InterfaceInfo}
      {ingressControl : IngressControl} {held : HeldAnnounce} {ctx : VerifiedAnnounceCtx}
      (hchecked : checked = (s.processTickPendingAnnounces now).1.engine)
      (hifaces : checked.ingressControl.interfacesWithHeld = before ++ iface :: after)
      (hreleased : released = (releaseAll P s.heldReleaseInterval now rng before checked).1)
      (hinfo : released.interfaces[iface]? = some info) (henabled : info.ingressControl.enabled)
      (hheld : released.ingressControl.processHeldAnnounces iface info.ingressControl
        (s.heldReleaseInterval iface) info.iaFreq info.started now = (ingressControl, some held))
      (h : { released with ingressControl }.Processes P
        ⟨held.raw, held.receivingInterface, now, held.rx⟩ false e ctx) :
      Processes P s (.tick now rng) e ctx (rng iface)
        (releaseAllOps P s.heldReleaseInterval now rng after
          (released.releaseHeld P s.heldReleaseInterval now rng iface).1)

theorem Processes.split (h : s.Processes P event e ctx rng rest) :
    ∃ before, s.ops P event = before ++ (e.verifiedOps ctx rng ++ rest) ∧
      s.engine.Amounts before e := by
  cases h with
  | frame h rng | queuedFrame h rng =>
    obtain ⟨heard, hops, hamounts⟩ := h.split rng
    exact ⟨heard, by rw [ops, hops, append_nil], hamounts⟩
  | verify h now rng => exact ⟨[], by rw [ops, h, append_nil]; rfl, .of_eq rfl rfl⟩
  | @release now rng before after iface checked released _ info ingressControl held _ hchecked
      hifaces hreleased hinfo henabled hheld h =>
    obtain ⟨heard, hops, hamounts⟩ := h.split (rng iface)
    have hrelease : released.releaseOps P s.heldReleaseInterval now rng iface =
        heard ++ e.verifiedOps ctx (rng iface) := by
      rw [releaseOps, hinfo]
      dsimp only
      rw [if_neg (not_not.mpr henabled), hheld]
      exact hops
    have hreleased' := amounts_processTickPendingAnnounces s now
    rw [← hchecked] at hreleased'
    have hall := hreleased'.trans
      (amounts_releaseAll (P := P) s.heldReleaseInterval now rng before checked)
    rw [← hreleased] at hall
    refine ⟨_, ?_, hall.trans (.after_quiet ?_ hamounts)⟩
    · rw [ops, ← hchecked, hifaces, releaseAllOps_append, ← hreleased,
        releaseAllOps, hrelease]
      simp only [append_assoc]
    · exact .of_eq rfl rfl

/-! ## The rebroadcast -/

open TransportEngine in
def Disturbs (d : Hash16) : RetentionOp → Prop
  | .hear packet _ => packet.destinationHash = d
  | .insert d' _ _ => d' = d
  | _ => False

instance (d : Hash16) : ∀ op, Decidable (Disturbs d op)
  | .hear packet _ => inferInstanceAs (Decidable (packet.destinationHash = d))
  | .insert d' _ _ => inferInstanceAs (Decidable (d' = d))
  | .answer _ _ _ => .isFalse id
  | .check _ => .isFalse id

def Undisturbed (P : Primitives) (d : Hash16) (s : Relay) (event : Event) : Prop :=
  ∀ op ∈ s.ops P event, ¬Disturbs d op

instance (P : Primitives) (d : Hash16) (s : Relay) (event : Event) :
    Decidable (s.Undisturbed P d event) :=
  inferInstanceAs (Decidable (∀ op ∈ s.ops P event, ¬Disturbs d op))

def Unasked (P : Primitives) (d : Hash16) (s : Relay) (event : Event) : Prop :=
  ∀ op ∈ s.slotOps P d event, ¬op.Displaces

theorem not_ends_of_undisturbed {d : Hash16} {identityHash : Hash16}
    (h : ∀ op ∈ ops, ¬Disturbs d op) (slots : Slots) :
    ¬(Slots.machine d identityHash).Occurs (·.Ends entry) slots
      (ops.flatMap fun op => (op.at_ d).toList) := by
  induction ops generalizing slots with
  | nil => exact id
  | cons op ops ih =>
    rw [flatMap_cons, Machine.occurs_append, not_or]
    refine ⟨?_, ih (fun op hop => h op (mem_cons_of_mem _ hop)) _⟩
    have hop := h op mem_cons_self
    cases op with
    | hear packet now | insert d' entry now =>
      rw [Disturbs] at hop
      rw [at_, if_neg hop]
      exact id
    | answer d' response now =>
      rw [at_]
      split_ifs
      · cases response <;> simp [Machine.Occurs, Slots.Ends]
      · exact id
    | check now => simp [at_, Machine.Occurs, Slots.Ends]

theorem Processes.fromAnnounces_rest (h : s.Processes P event e ctx rng rest) :
    FromAnnounces rest := by
  cases h with
  | release => exact fromAnnounces_releaseAllOps _ _ _ _ _
  | _ => exact .nil

theorem flatMap_at_eq_nil {d : Hash16} (h : FromAnnounces ops)
    (hother : ∀ op ∈ ops, ¬Disturbs d op) : (ops.flatMap fun op => (op.at_ d).toList) = [] := by
  refine flatMap_eq_nil_iff.mpr fun op hop => ?_
  have hkind := h op hop
  have hne := hother op hop
  cases op with
  | hear packet now | insert d' entry now =>
    rw [Disturbs] at hne
    rw [at_, if_neg hne]
    rfl
  | answer | check => cases hkind

section

variable {identityHash : Hash16} {entry : AnnounceEntry}

theorem Processes.pending (h : s.Processes P event e ctx rng rest)
    (hid : s.engine.config.identityHash = some identityHash) (hinv : s.Invariant P) (haccepts : e.Accepts ctx)
    (hwaiting : e.discoveryPathRequests[ctx.packet.destinationHash]? = none)
    (hentry : (e.forgetStaleState ctx.packet.destinationHash).acceptedEntry ctx rng = some entry)
    (hlimits : s.WithinLimits P event)
    (hrest : ∀ op ∈ rest, ¬Disturbs ctx.packet.destinationHash op) :
    (((machine P).step s event).1.slots ctx.packet.destinationHash).Pending entry := by
  obtain ⟨before, hops, -⟩ := h.split
  have hstate := (follows_slots hid ctx.packet.destinationHash).state s event ⟨rfl, hinv, hlimits⟩
  rw [hstate, slotOps, hops, verifiedOps_of_accepts haccepts hwaiting hentry,
    flatMap_append, flatMap_append, flatMap_at_eq_nil h.fromAnnounces_rest hrest,
    append_nil, Machine.run_append, flatMap_singleton, at_,
    if_pos rfl]
  exact ⟨entry, rfl, .refl entry⟩

/-- The announce is sent in the course of the run: until then it waits, and two late ticks with no
answer to a path request between them are enough. -/
structure Rebroadcast (P : Primitives) (identityHash d : Hash16) (entry : AnnounceEntry)
    (s : Relay) (events : List Event) : Prop where
  waits : (((machine P).run s events).1.slots d).Has entry ∨
    .retransmit (entry.transmission d identityHash) ∈ ((machine P).run s events).2
  sent : ∀ before first rng₁ between second rng₂ after,
    events = before ++ .tick first rng₁ :: (between ++ .tick second rng₂ :: after) →
    ((machine P).run s before).1.Late d first →
    (machine P).Meets (fun _ s event => s.Unasked P d event) []
      ((machine P).run s (before ++ [.tick first rng₁])).1 between →
    ((machine P).run s (before ++ .tick first rng₁ :: between)).1.Late d second →
    .retransmit (entry.transmission d identityHash) ∈ ((machine P).run s events).2

variable {d : Hash16} {events past : List Event}

theorem not_endsEntry_of_undisturbed (h : s.Undisturbed P d event) :
    ¬s.EndsEntry P identityHash d entry event :=
  not_ends_of_undisturbed h _

theorem not_occurs_of_undisturbed
    (h : (machine P).Meets (fun _ s event => s.Undisturbed P d event) past s events) :
    ¬(machine P).Occurs (EndsEntry P identityHash d entry) s events := by
  induction events generalizing past s with
  | nil => exact id
  | cons event events ih => exact not_or.mpr ⟨not_endsEntry_of_undisturbed h.1, ih h.2⟩

theorem not_displaces_of_unasked
    (h : (machine P).Meets (fun _ s event => s.Unasked P d event) past s events) :
    ∀ op ∈ (machine P).trace (slotOps P d) s events, ¬op.Displaces := by
  induction events generalizing past s with
  | nil => exact fun _ hop => nomatch hop
  | cons event events ih =>
    intro op hop
    exact (mem_append.mp hop).elim (h.1 op) (ih h.2 op)

theorem sent_or_pending_of_late_tick {now : ℚ} {rng : InterfaceId → UInt64}
    (hid : s.engine.config.identityHash = some identityHash) (hinv : s.Invariant P)
    (hlimits : s.WithinLimits P (.tick now rng))
    (hspares : s.SparesResponses P identityHash d (.tick now rng))
    (hundisturbed : s.Undisturbed P d (.tick now rng)) (hlate : s.Late d now)
    (hkeeps : (s.slots d).Keeps entry) (hwaits : entry.Waits) :
    .retransmit (entry.transmission d identityHash) ∈ ((machine P).step s (.tick now rng)).2 ∨
      (((machine P).step s (.tick now rng)).1.slots d).Pending entry := by
  rcases hkeeps with hpending | ⟨hheld, hbusy⟩
  · exact .inl (sent_of_late_tick hid hinv hlimits hlate hpending hwaits)
  · have hrestored := restored_by_late_tick hid hinv hlimits hlate hspares hheld hbusy hwaits
    exact .inr (hrestored.resolve_right (not_endsEntry_of_undisturbed hundisturbed))

theorem Steady.rebroadcast (hid : s.engine.config.identityHash = some identityHash)
    (hinv : s.Invariant P) (h : s.Steady P identityHash d events)
    (hundisturbed : (machine P).Meets (fun _ s event => s.Undisturbed P d event) [] s events)
    (hkeeps : (s.slots d).Keeps entry) (hwaits : entry.Waits) :
    Rebroadcast P identityHash d entry s events where
  waits := by
    rcases h.keeps_run hid hinv hkeeps hwaits with hrun | hsent | ⟨-, hends⟩
    · exact .inl hrun.has
    · exact .inr hsent
    · exact absurd hends (not_occurs_of_undisturbed hundisturbed)
  sent before first rng₁ between second rng₂ after heq hlate₁ hunasked hlate₂ := by
    subst heq
    obtain ⟨hbefore, htick⟩ := Steady.append.mp h
    obtain ⟨hquiet, hquiet'⟩ := ((machine P).meets_append).mp hundisturbed
    obtain ⟨hbetween, hlast⟩ := Steady.append.mp (htick.2.change_past [])
    obtain ⟨hquiet'', -⟩ := ((machine P).meets_append).mp hquiet'.2
    have hid₁ := identityHash_run hid P before
    have hid₂ := identityHash_run hid₁ P [.tick first rng₁]
    have hinv₁ := hinv.run before
    have hinv₂ := hinv₁.step (.tick first rng₁)
    rw [Machine.run_append] at hunasked hlate₂
    rw [Machine.run_append_snd]
    simp only [Machine.run, Machine.run_append_snd]
    -- up to the first tick the announce waits in one of the tables
    rcases hbefore.keeps_run hid hinv hkeeps hwaits with hrun | hsent | ⟨-, hends⟩
    · rcases sent_or_pending_of_late_tick hid₁ hinv₁ htick.1.1 htick.1.2 hquiet'.1 hlate₁ hrun
        hwaits with hsent | hpending
      · exact mem_append_right _ (mem_append_left _ hsent)
      · -- from there on nothing takes it out of the announce table before the second one
        refine mem_append_right _ (mem_append_right _ ?_)
        rcases hbetween.pending_run hid₂ hinv₂ hpending hwaits
            (.inr (not_displaces_of_unasked hunasked)) with hrun | hsent | ⟨-, hends⟩
        · refine mem_append_right _ (mem_append_left _ ?_)
          exact sent_of_late_tick (identityHash_run hid₂ P between) (hinv₂.run between) hlast.1.1
            hlate₂ hrun hwaits
        · exact mem_append_left _ hsent
        · exact absurd hends (not_occurs_of_undisturbed hquiet'')
    · exact mem_append_left _ hsent
    · exact absurd hends (not_occurs_of_undisturbed hquiet)

end

section Example

open TransportEngine

def sampleAnnounce : InboundFrame := sampleFrame 7 0 1 0 [] 100

def Arrives (s : Relay) (e : TransportEngine) (ctx : VerifiedAnnounceCtx) : Prop :=
  s.Processes .sample (.node (.frame sampleAnnounce 0)) e ctx 0 [] ∧ e.Accepts ctx ∧
    ¬ctx.isPathResponse ∧ ¬(e.checkRate ctx).2 ∧ ctx.packet.destinationHash = .replicate 16 0

theorem arrives_of_checks {s : Relay}
    (h : ∃ inbound ∈ s.engine.prepareInboundPacket .sample sampleAnnounce,
      let e := s.engine.rememberInboundPacketHash inbound.packet
      inbound.packet.flags.packetType = PacketType.announce ∧
        inbound.packet.flags.destinationType = DestinationType.single ∧
        inbound.packet.destinationHash = .replicate 16 0 ∧ ¬(e.ingress inbound).2 ∧
        ∃ a ∈ announceOf inbound.packet, ∃ validated ∈ verdict .sample e inbound a,
          let e := e.readyFor .sample inbound a
          let ctx := verifiedCtx inbound validated (sender inbound.packet) a.randomHash
          e.Accepts ctx ∧ ¬ctx.isPathResponse ∧ ¬(e.checkRate ctx).2) :
    ∃ e ctx, Arrives s e ctx ∧ e.discoveryPathRequests = s.engine.discoveryPathRequests := by
  obtain ⟨inbound, hprepare, htype, hsingle, hdest, hfree, a, ha, validated, hverdict, haccepts,
    hresponse, hrate⟩ := h
  refine ⟨_, _, ⟨.frame (.intro hprepare htype hsingle ha hfree nofun hverdict) 0, haccepts,
    hresponse, hrate, hdest⟩, ?_⟩
  have hremember : (s.engine.rememberInboundPacketHash inbound.packet).discoveryPathRequests =
      s.engine.discoveryPathRequests := by
    unfold rememberInboundPacketHash
    split_ifs <;> rfl
  exact hremember

/-- An access point without limits. -/
def sampleInterface (id : InterfaceId) : InterfaceInfo where
  id
  mode := InterfaceMode.accessPoint
  announcesFromInternal := false
  outCapable := true
  announceRateTarget := none
  announceRateGrace := 0
  announceRatePenalty := 0
  isLocalClient := false
  tunnelId := none
  ingressControl := ⟨false, 0, 0, 0, 0, 0, 0⟩
  iaFreq := 0
  started := 0

def searching : Relay :=
  ((machine .sample).run sample [.node (.registerInterface (sampleInterface 2)),
    .node (.registerInterface (sampleInterface 3)),
    .pathRequest (replicate 16 0 ++ [1]) 2 99 [3]]).1

def lateTicks : List Event :=
  [.tick 102 fun _ => 0, .tick 104 fun _ => 0, .tick 108 fun _ => 0, .tick 112 fun _ => 0]

end Example

end Relay

end Rns.Transport

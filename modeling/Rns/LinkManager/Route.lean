import Rns.LinkManager.Reports

/-!
# The route of a link

The route is written before anything is checked, so it follows every packet that names the link.  It
follows authentic packets only as long as all others come by the route that is already there.
-/

namespace Rns

open RawPacket
open PacketContext (lrProof)
open PacketType (proof linkRequest)

variable (P : Primitives) (K : KeyPrimitives) (E : LinkEnv) (ephemeral : Entropy → Vector UInt8 32)

abbrev LinkRoute := Option Transport.InterfaceId × Option Hash16

namespace ManagedLink

variable (l : ManagedLink) (packet : RawPacket) (interface : Transport.InterfaceId)

def route : LinkRoute := (l.routeInterface, l.routeTransportId)

def dataRoute : LinkRoute :=
  (l.noteRoute packet interface).route

def proofRoute : LinkRoute :=
  (some interface, if packet.flags.headerType = HeaderType.header2 then
      packet.transportId.orElse fun _ => l.routeTransportId
    else l.routeTransportId)

def requestRoute : LinkRoute :=
  (some interface,
    if packet.flags.headerType = HeaderType.header2 then packet.transportId else none)

/-- The packet is the peer's: link data that decrypts, or a link proof that validates. -/
def Authenticates : Prop :=
  (packet.flags.packetType = PacketType.data ∧ (l.decrypt E packet.data).isSome) ∨
    (packet.flags.packetType = proof ∧ packet.context = lrProof ∧
      ∃ key, l.destSigPubBytes = some key ∧
        ∃ confirmed, validateLrproof P packet.data l.engine.linkId key = .ok confirmed)

end ManagedLink

/-! ## What the driver does with it -/

/-- `inject_transport_header` of the driver. -/
def injectTransportHeader (raw : Bytes) (nextHop : Hash16) : Bytes :=
  if raw.length < 18 then raw
  else (HeaderType.header2 <<< 6 ||| TransportType.transport <<< 4 ||| (raw.getD 0 0 &&& 0x0F)) ::
    raw.getD 1 0 :: (nextHop.toList ++ raw.drop 2)

def LinkManager.getLinkRouteHint (m : LinkManager) (linkId : LinkId) :
    Option (Transport.InterfaceId × Option Hash16) :=
  m.links[linkId]?.bind fun l => l.routeInterface.map fun interface => (interface, l.routeTransportId)

/-- How `dispatch_link_actions` sends a packet: the bytes, and the interface if it is fixed. -/
def LinkManager.dispatchSendPacket (m : LinkManager) (raw : Bytes) (destType : UInt8)
    (attachedInterface : Option Transport.InterfaceId) : Bytes × Option Transport.InterfaceId :=
  if destType = DestinationType.link ∧ attachedInterface = none then
    match unpack P raw with
    | .error _ => (raw, attachedInterface)
    | .ok packet => match m.getLinkRouteHint packet.destinationHash with
      | none => (raw, attachedInterface)
      | some (interface, transportId) =>
        let raw := if packet.flags.headerType = HeaderType.header1 then match transportId with
            | some nextHop => injectTransportHeader packet.raw nextHop
            | none => raw
          else raw
        (raw, some interface)
  else (raw, attachedInterface)

/-! ## Packets that arrive -/

structure Inbound where
  destHash : Hash16
  raw : Bytes
  packetHash : Hash32
  interface : Transport.InterfaceId
  rng : Entropy
  now : ℚ

def deliveries : Machine LinkManager Inbound LinkManagerAction where
  step m p := m.handleLocalDelivery P (E.withHandshake P K ephemeral) p.destHash p.raw p.packetHash
    p.interface p.rng p.now

namespace LinkManager

open ManagedLink

variable (m : LinkManager)

def HearsPeer (linkId : LinkId) (p : Inbound) : Prop :=
  p.destHash = linkId ∧ ∃ l packet, m.links[linkId]? = some l ∧ unpack P p.raw = .ok packet ∧
    l.Authenticates P E packet

def RoutesKept (p : Inbound) : Prop :=
  ∀ linkId l l', m.links[linkId]? = some l →
    ((deliveries P K E ephemeral).step m p).1.links[linkId]? = some l' → l'.route ≠ l.route →
    m.HearsPeer P E linkId p

/-- What is not authentic comes by the route that is there. -/
def ComesByRoute (p : Inbound) : Prop :=
  ∀ packet, unpack P p.raw = .ok packet →
    (packet.flags.packetType = linkRequest → ¬m.Refuses p.destHash packet →
      ∀ l, m.links[packet.linkId P]? = some l → l.route = requestRoute packet p.interface) ∧
    (packet.flags.packetType = proof → packet.context = lrProof →
      ∀ l, m.links[p.destHash]? = some l → l.Authenticates P E packet ∨
        l.route = l.proofRoute packet p.interface) ∧
    (packet.flags.packetType = PacketType.data →
      ∀ l, m.links[p.destHash]? = some l → l.Authenticates P E packet ∨
        l.route = l.dataRoute packet p.interface)

/-- The packet writes this route to the link. -/
inductive Writes (m : LinkManager) (p : Inbound) (linkId : LinkId) (l : ManagedLink) : LinkRoute → Prop
  | request {packet : RawPacket} (hunpack : unpack P p.raw = .ok packet)
      (htype : packet.flags.packetType = linkRequest)
      (haccepted : ¬m.Refuses p.destHash packet) (hlink : linkId = packet.linkId P) :
      Writes m p linkId l (requestRoute packet p.interface)
  | lrproof {packet : RawPacket} (hunpack : unpack P p.raw = .ok packet)
      (htype : packet.flags.packetType = proof)
      (hcontext : packet.context = lrProof) (hlink : linkId = p.destHash) :
      Writes m p linkId l (l.proofRoute packet p.interface)
  | data {packet : RawPacket} (hunpack : unpack P p.raw = .ok packet)
      (htype : packet.flags.packetType = PacketType.data) (hlink : linkId = p.destHash) :
      Writes m p linkId l (l.dataRoute packet p.interface)

/-- The last packet of the peer in the run, if there is one, has come by this interface. -/
def LastHeardBy (linkId : LinkId) (ps : List Inbound) (interface : Transport.InterfaceId) : Prop :=
  ∃ before p after, ps = before ++ p :: after ∧
    ((deliveries P K E ephemeral).run m before).1.HearsPeer P E linkId p ∧ p.interface = interface ∧
    (deliveries P K E ephemeral).Meets (fun _ m p => ¬m.HearsPeer P E linkId p) (before ++ [p])
      ((deliveries P K E ephemeral).run m (before ++ [p])).1 after

/-- The packets of a link go where the peer was heard last. -/
def SendsToPeer (ps : List Inbound) : Prop :=
  ∀ linkId interface, m.LastHeardBy P K E ephemeral linkId ps interface → ∀ raw packet,
    unpack P raw = .ok packet → packet.destinationHash = linkId →
      (((deliveries P K E ephemeral).run m ps).1.dispatchSendPacket P raw DestinationType.link none).2 =
        some interface

variable {P K E ephemeral}

/-! ### Step by step -/

theorem route_of_continues {l l' : ManagedLink} (h : l.Continues l') : l'.route = l.route := by
  rw [route, route, h.routeInterface, h.routeTransportId]

variable {m : LinkManager} {p : Inbound} {packet : RawPacket} {linkId : LinkId} {l : ManagedLink}

theorem links_onLink (destHash : LinkId) (f : ManagedLink → ManagedLink × List LinkManagerAction)
    (hlink : m.links[linkId]? = some l) :
    (m.onLink destHash f).1.links[linkId]? = some (if linkId = destHash then (f l).1 else l) := by
  by_cases heq : linkId = destHash
  · subst heq
    rw [onLink_of_some hlink, if_pos rfl, Std.ExtTreeMap.getElem?_insert_self]
  · rw [if_neg heq]
    cases hdest : m.links[destHash]? with
    | none => rw [onLink_of_none hdest, hlink]
    | some peer =>
      have hne : ¬compare destHash linkId = .eq := by simpa using Ne.symm heq
      rw [onLink_of_some hdest, Std.ExtTreeMap.getElem?_insert, if_neg hne, hlink]

section Packet

variable (hunpack : unpack P p.raw = .ok packet) (hlink : m.links[linkId]? = some l)

include hunpack hlink

theorem route_step_data (htype : packet.flags.packetType = PacketType.data) :
    ∃ l', ((deliveries P K E ephemeral).step m p).1.links[linkId]? = some l' ∧
      l'.route = if linkId = p.destHash then l.dataRoute packet p.interface else l.route := by
  have hrequest : ¬packet.flags.packetType = linkRequest := by rw [htype]; decide
  have hproof : ¬packet.flags.packetType = proof := by rw [htype]; decide
  simp only [deliveries, handleLocalDelivery, hunpack]
  rw [if_neg hrequest, if_neg hproof, if_pos htype, handleLinkData, links_onLink _ _ hlink]
  refine ⟨_, rfl, ?_⟩
  split_ifs
  · exact route_of_continues (told_handleContext P _ _ packet _ _ _).1
  · rfl

theorem route_step_lrproof (htype : packet.flags.packetType = proof)
    (hcontext : packet.context = lrProof) :
    ∃ l', ((deliveries P K E ephemeral).step m p).1.links[linkId]? = some l' ∧
      l'.route = if linkId = p.destHash then l.proofRoute packet p.interface else l.route := by
  have hrequest : ¬packet.flags.packetType = linkRequest := by rw [htype]; decide
  simp only [deliveries, handleLocalDelivery, hunpack]
  rw [if_neg hrequest, if_pos htype, if_pos hcontext, handleLrproof, links_onLink _ _ hlink]
  refine ⟨_, rfl, ?_⟩
  by_cases hdest : linkId = p.destHash
  · rw [if_pos hdest, if_pos hdest]
    by_cases hwaits : l.engine.state ≠ .pending ∨ ¬l.engine.isInitiator
    · dsimp only
      rw [if_pos hwaits]
      rfl
    · dsimp only
      rw [if_neg hwaits]
      cases l.destSigPubBytes with
      | none => rfl
      | some key =>
        dsimp only
        cases (E.withHandshake P K ephemeral).handleLrproof l.engine l.mtu packet.data key p.now p.rng with
        | none => rfl
        | some answer => exact route_of_continues (continues_startChannel _)
  · rw [if_neg hdest, if_neg hdest]

theorem route_step_proof (htype : packet.flags.packetType = proof)
    (hcontext : packet.context ≠ lrProof) :
    ∃ l', ((deliveries P K E ephemeral).step m p).1.links[linkId]? = some l' ∧ l'.route = l.route := by
  have hrequest : ¬packet.flags.packetType = linkRequest := by rw [htype]; decide
  simp only [deliveries, handleLocalDelivery, hunpack]
  rw [if_neg hrequest, if_pos htype, if_neg hcontext]
  by_cases hprf : packet.context = PacketContext.resourcePrf
  · rw [if_pos hprf, links_onLink _ _ hlink]
    refine ⟨_, rfl, ?_⟩
    split_ifs
    · exact route_of_continues (proper_handleResourcePrf P _ l _ _ _ _).quiet.toContinues
    · rfl
  · rw [if_neg hprf, links_onLink _ _ hlink]
    refine ⟨_, rfl, ?_⟩
    split_ifs
    · exact route_of_continues (continues_handleLinkProof l _).1
    · rfl

theorem route_step_request (htype : packet.flags.packetType = linkRequest)
    (hrefuses : ¬m.Refuses p.destHash packet) :
    ∃ l', ((deliveries P K E ephemeral).step m p).1.links[linkId]? = some l' ∧
      l'.route = if linkId = packet.linkId P then requestRoute packet p.interface else l.route := by
  simp only [deliveries, handleLocalDelivery, hunpack]
  rw [if_pos htype]
  obtain ⟨engine, mtu, ld, -, -, -, hafter⟩ :=
    handleLinkrequest_of_not_refuses P K E ephemeral hrefuses ..
  rw [hafter, Std.ExtTreeMap.getElem?_insert]
  by_cases heq : linkId = packet.linkId P
  · subst heq
    rw [if_pos Std.ReflCmp.compare_self, if_pos rfl]
    exact ⟨_, rfl, rfl⟩
  · have hne : ¬compare (packet.linkId P) linkId = .eq := by simpa using Ne.symm heq
    simp only [if_neg hne, if_neg heq]
    exact ⟨l, hlink, rfl⟩

end Packet

theorem step_of_ignored (h : ∀ packet, unpack P p.raw = .ok packet →
      (packet.flags.packetType = linkRequest ∧ m.Refuses p.destHash packet) ∨
      (packet.flags.packetType ≠ linkRequest ∧ packet.flags.packetType ≠ proof ∧
        packet.flags.packetType ≠ PacketType.data)) :
    ((deliveries P K E ephemeral).step m p).1 = m := by
  simp only [deliveries, handleLocalDelivery]
  cases hunpack : unpack P p.raw with
  | error e => rfl
  | ok packet =>
    dsimp only
    rcases h packet hunpack with ⟨htype, hrefuses⟩ | ⟨hrequest, hproof, hdata⟩
    · rw [if_pos htype, handleLinkrequest_of_refuses P K E ephemeral hrefuses]
    · rw [if_neg hrequest, if_neg hproof, if_neg hdata]

theorem route_step (hlink : m.links[linkId]? = some l) :
    ∃ l', ((deliveries P K E ephemeral).step m p).1.links[linkId]? = some l' ∧
      (l'.route = l.route ∨ Writes P m p linkId l l'.route) := by
  have hsame : ((deliveries P K E ephemeral).step m p).1 = m →
      ∃ l', ((deliveries P K E ephemeral).step m p).1.links[linkId]? = some l' ∧
        (l'.route = l.route ∨ Writes P m p linkId l l'.route) :=
    fun h => ⟨l, by rw [h, hlink], .inl rfl⟩
  cases hunpack : unpack P p.raw with
  | error e => exact hsame (step_of_ignored fun packet hok => by rw [hunpack] at hok; nomatch hok)
  | ok packet =>
    have honly : ∀ packet', unpack P p.raw = .ok packet' → packet' = packet :=
      fun packet' hok => Except.ok.inj (hok.symm.trans hunpack)
    by_cases hrequest : packet.flags.packetType = linkRequest
    · by_cases hrefuses : m.Refuses p.destHash packet
      · exact hsame (step_of_ignored fun packet' hok => honly packet' hok ▸ .inl ⟨hrequest, hrefuses⟩)
      · obtain ⟨l', hafter, hroute⟩ := route_step_request hunpack hlink hrequest hrefuses
        refine ⟨l', hafter, ?_⟩
        rw [hroute]
        split_ifs with heq
        · exact .inr (.request hunpack hrequest hrefuses heq)
        · exact .inl rfl
    by_cases hproof : packet.flags.packetType = proof
    · by_cases hcontext : packet.context = lrProof
      · obtain ⟨l', hafter, hroute⟩ := route_step_lrproof hunpack hlink hproof hcontext
        refine ⟨l', hafter, ?_⟩
        rw [hroute]
        split_ifs with heq
        · exact .inr (.lrproof hunpack hproof hcontext heq)
        · exact .inl rfl
      · obtain ⟨l', hafter, hroute⟩ := route_step_proof hunpack hlink hproof hcontext
        exact ⟨l', hafter, .inl hroute⟩
    by_cases hdata : packet.flags.packetType = PacketType.data
    · obtain ⟨l', hafter, hroute⟩ := route_step_data hunpack hlink hdata
      refine ⟨l', hafter, ?_⟩
      rw [hroute]
      split_ifs with heq
      · exact .inr (.data hunpack hdata heq)
      · exact .inl rfl
    · exact hsame (step_of_ignored fun packet' hok =>
        honly packet' hok ▸ .inr ⟨hrequest, hproof, hdata⟩)

theorem interface_step_of_hearsPeer (hhears : m.HearsPeer P E linkId p) :
    ∃ l', ((deliveries P K E ephemeral).step m p).1.links[linkId]? = some l' ∧
      l'.routeInterface = some p.interface := by
  obtain ⟨rfl, l, packet, hlink, hunpack, ⟨htype, -⟩ | ⟨htype, hcontext, -⟩⟩ := hhears
  · obtain ⟨l', hafter, hroute⟩ := route_step_data (K := K) (E := E) hunpack hlink htype
    rw [if_pos rfl] at hroute
    exact ⟨l', hafter, congrArg Prod.fst hroute⟩
  · obtain ⟨l', hafter, hroute⟩ := route_step_lrproof (K := K) (E := E) hunpack hlink htype hcontext
    rw [if_pos rfl] at hroute
    exact ⟨l', hafter, congrArg Prod.fst hroute⟩

theorem comesByRoute_of_routesKept (h : m.RoutesKept P K E ephemeral p) : m.ComesByRoute P E p := by
  intro packet hunpack
  -- The peer is heard in this packet or not at all.
  have hheard : ∀ {linkId l}, m.links[linkId]? = some l → m.HearsPeer P E linkId p →
      l.Authenticates P E packet := by
    rintro linkId l hlink ⟨-, l₀, packet₀, hlink₀, hunpack₀, hauth⟩
    rw [hlink, Option.some.injEq] at hlink₀
    rw [hunpack, Except.ok.injEq] at hunpack₀
    rwa [hlink₀, hunpack₀]
  refine ⟨fun htype hrefuses l hlink => ?_, fun htype hcontext l hlink => ?_, fun htype l hlink => ?_⟩
  · by_contra hmoves
    obtain ⟨l', hafter, hroute⟩ := route_step_request hunpack hlink htype hrefuses
    rw [if_pos rfl] at hroute
    rcases hheard hlink (h _ l l' hlink hafter (hroute ▸ Ne.symm hmoves)) with ⟨hdata, -⟩ | ⟨hproof, -⟩
    · rw [htype] at hdata
      exact absurd hdata (by decide)
    · rw [htype] at hproof
      exact absurd hproof (by decide)
  · refine or_iff_not_imp_right.2 fun hmoves => ?_
    obtain ⟨l', hafter, hroute⟩ := route_step_lrproof hunpack hlink htype hcontext
    rw [if_pos rfl] at hroute
    exact hheard hlink (h _ l l' hlink hafter (hroute ▸ Ne.symm hmoves))
  · refine or_iff_not_imp_right.2 fun hmoves => ?_
    obtain ⟨l', hafter, hroute⟩ := route_step_data hunpack hlink htype
    rw [if_pos rfl] at hroute
    exact hheard hlink (h _ l l' hlink hafter (hroute ▸ Ne.symm hmoves))

theorem routesKept_of_comesByRoute (h : m.ComesByRoute P E p) : m.RoutesKept P K E ephemeral p := by
  intro linkId l l' hlink hl' hmoves
  by_contra hsilent
  apply hmoves
  have hnot : ∀ {packet}, unpack P p.raw = .ok packet → linkId = p.destHash →
      ¬l.Authenticates P E packet :=
    fun hunpack hdest hauth => hsilent ⟨hdest.symm, l, _, hlink, hunpack, hauth⟩
  obtain ⟨l'', hafter, hroute⟩ := route_step (K := K) (E := E) (p := p) hlink
  rw [hafter, Option.some.injEq] at hl'
  subst hl'
  refine hroute.elim id fun hwrites => ?_
  generalize l''.route = route at hwrites ⊢
  cases hwrites with
  | request hunpack htype haccepted hid =>
    exact ((h _ hunpack).1 htype haccepted l (hid ▸ hlink)).symm
  | lrproof hunpack htype hcontext hdest =>
    exact (((h _ hunpack).2.1 htype hcontext l (hdest ▸ hlink)).resolve_left (hnot hunpack hdest)).symm
  | data hunpack htype hdest =>
    exact (((h _ hunpack).2.2 htype l (hdest ▸ hlink)).resolve_left (hnot hunpack hdest)).symm

/-! ### Runs -/

theorem interface_run_of_silence {interface : Transport.InterfaceId} {past ps : List Inbound}
    (hroutes : (deliveries P K E ephemeral).Meets (fun _ m p => m.ComesByRoute P E p) past m ps)
    (hsilence : (deliveries P K E ephemeral).Meets (fun _ m p => ¬m.HearsPeer P E linkId p) past m ps)
    (h : ∃ l, m.links[linkId]? = some l ∧ l.routeInterface = some interface) :
    ∃ l, ((deliveries P K E ephemeral).run m ps).1.links[linkId]? = some l ∧
      l.routeInterface = some interface := by
  refine Machine.run_keeps (I := fun m : LinkManager => ∃ l, m.links[linkId]? = some l ∧
    l.routeInterface = some interface) _ ?_ h (hroutes.and hsilence)
  rintro - m p ⟨l, hlink, hinterface⟩ ⟨hroute, hsilent⟩
  obtain ⟨l', hafter, -⟩ := route_step (P := P) (K := K) (E := E) (p := p) hlink
  have hsame : l'.route = l.route := by
    by_contra hmoves
    exact hsilent (routesKept_of_comesByRoute hroute linkId l l' hlink hafter hmoves)
  exact ⟨l', hafter, (congrArg Prod.fst hsame).trans hinterface⟩

theorem sendsToPeer_of_comesByRoute {ps : List Inbound}
    (hroutes : (deliveries P K E ephemeral).Meets (fun _ m p => m.ComesByRoute P E p) [] m ps) :
    m.SendsToPeer P K E ephemeral ps := by
  rintro linkId interface ⟨before, p, after, rfl, hhears, rfl, hsilence⟩ raw packet hunpack hdest
  rw [List.append_cons, Machine.meets_append] at hroutes
  have hrun : ((deliveries P K E ephemeral).run m (before ++ [p])).1 =
      ((deliveries P K E ephemeral).step ((deliveries P K E ephemeral).run m before).1 p).1 := by
    rw [Machine.run_append]
    rfl
  have hheard : ∃ l, ((deliveries P K E ephemeral).run m (before ++ [p])).1.links[linkId]? = some l ∧
      l.routeInterface = some p.interface := hrun ▸ interface_step_of_hearsPeer hhears
  obtain ⟨l, hlink, hinterface⟩ := interface_run_of_silence hroutes.2 hsilence hheard
  rw [← Machine.run_append, ← List.append_cons] at hlink
  simp only [dispatchSendPacket, true_and, if_true, hunpack, hdest, getLinkRouteHint, hlink,
    Option.bind_some, hinterface, Option.map_some]

theorem routesKept_iff : m.RoutesKept P K E ephemeral p ↔ m.ComesByRoute P E p :=
  ⟨comesByRoute_of_routesKept, routesKept_of_comesByRoute⟩

variable (P K E ephemeral) in
/-- In every run the route of a link is moved by its peer alone, and the packets of the link go where
the peer was heard last, exactly if everything else that names the link comes by the route that is
there. -/
theorem route_follows_peer_iff (m : LinkManager) (ps : List Inbound) :
    (deliveries P K E ephemeral).Meets (fun _ m p => m.RoutesKept P K E ephemeral p) [] m ps ∧
        m.SendsToPeer P K E ephemeral ps ↔
      (deliveries P K E ephemeral).Meets (fun _ m p => m.ComesByRoute P E p) [] m ps := by
  have hsteps : (deliveries P K E ephemeral).Meets (fun _ m p => m.RoutesKept P K E ephemeral p) [] m ps ↔
      (deliveries P K E ephemeral).Meets (fun _ m p => m.ComesByRoute P E p) [] m ps :=
    Machine.meets_congr _ (fun _ _ _ => routesKept_iff) [] m ps
  exact ⟨fun h => hsteps.1 h.1, fun h => ⟨hsteps.2 h, sendsToPeer_of_comesByRoute h⟩⟩

def atInterfaceOne : LinkManager :=
  .sample { ManagedLink.sample true with routeInterface := some ⟨1⟩ }

/-- A packet that does not decrypt, from interface 2: the packets of the link go there from then on. -/
theorem undecryptable_packet_moves_route :
    let raw := forged PacketType.data PacketContext.none [1]
    let after := ((deliveries .sample .sample .sample fun _ => .replicate 32 3).step atInterfaceOne
      ⟨.replicate 16 0, raw, .replicate 32 0, ⟨2⟩, .zero, 5⟩).1
    (ManagedLink.sample true).decrypt .sample [1] = none ∧
      atInterfaceOne.getLinkRouteHint (.replicate 16 0) = some (⟨1⟩, none) ∧
      after.getLinkRouteHint (.replicate 16 0) = some (⟨2⟩, none) ∧
      (after.dispatchSendPacket .sample raw DestinationType.link none).2 = some ⟨2⟩ := by
  decide +kernel

end LinkManager

end Rns

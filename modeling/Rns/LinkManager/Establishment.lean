import Rns.Link.Agreement
import Rns.LinkManager.Integrity

/-!
# Link requests at the manager

The manager with the responder's side of the handshake.  Whoever repeats a request names a link that may
exist, and the manager puts a new engine in its place.
-/

namespace Rns

/-- The responder's side of the handshake; `ephemeral` draws its private key. -/
def LinkEnv.withHandshake (E : LinkEnv) (P : Primitives) (K : KeyPrimitives)
    (ephemeral : Entropy → Vector UInt8 32) : LinkEnv :=
  { E with newResponder := fun ld packet destHash now rng =>
      (LinkSession.newResponder P K ld.sign ld.sigPubBytes packet.data
        (RawPacket.computeHashablePart packet.flags.headerType packet.raw) destHash packet.hops now
        (ephemeral rng)).toOption.map fun (s, lrproof) => (s.engine, s.mtu.toNat, lrproof) }

def RawPacket.linkId (P : Primitives) (packet : RawPacket) : LinkId :=
  computeLinkId P (computeHashablePart packet.flags.headerType packet.raw)
    (packet.data.length - linkEcpubsize)

namespace LinkManager

variable (P : Primitives) (K : KeyPrimitives) (E : LinkEnv) (ephemeral : Entropy → Vector UInt8 32)

def Refuses (m : LinkManager) (destHash : Hash16) (packet : RawPacket) : Prop :=
  m.linkDestinations[destHash]? = none ∨ ∃ e, parseLinkrequestData packet.data = .error e

variable {m : LinkManager} {destHash : Hash16} {packet : RawPacket}

theorem handleLinkrequest_of_refuses (h : m.Refuses destHash packet)
    (interface : Transport.InterfaceId) (rng : Entropy) (now : ℚ) :
    m.handleLinkrequest P (E.withHandshake P K ephemeral) destHash packet interface rng now =
      (m, []) := by
  unfold handleLinkrequest
  cases hdest : m.linkDestinations[destHash]? with
  | none => rfl
  | some ld =>
    obtain ⟨e, hparse⟩ := h.resolve_left (by rw [hdest]; exact Option.some_ne_none ld)
    simp only [LinkEnv.withHandshake, LinkSession.newResponder_of_parse_error P K hparse]
    rfl

theorem handleLinkrequest_of_not_refuses (h : ¬m.Refuses destHash packet)
    (interface : Transport.InterfaceId) (rng : Entropy) (now : ℚ) :
    ∃ engine mtu ld, engine.linkId = packet.linkId P ∧ engine.requestTime = now ∧
      engine.state = .handshake ∧
      (m.handleLinkrequest P (E.withHandshake P K ephemeral) destHash packet interface rng now).1 =
        { m with links :=
          m.links.insert (packet.linkId P) (newLink engine mtu destHash ld packet interface) } := by
  simp only [Refuses, not_or, not_exists] at h
  obtain ⟨hdest, hparse⟩ := h
  obtain ⟨ld, hld⟩ := Option.ne_none_iff_exists'.1 hdest
  cases hparsed : parseLinkrequestData packet.data with
  | error e => exact absurd hparsed (hparse e)
  | ok parsed =>
    obtain ⟨peerPub, peerSigPub, peerMtu, mode⟩ := parsed
    obtain ⟨r, lrproof, key, hnew, htime, hanswers⟩ := LinkSession.newResponder_of_parse P K
      hparsed ld.sign ld.sigPubBytes
      (RawPacket.computeHashablePart packet.flags.headerType packet.raw) destHash packet.hops now
      (ephemeral rng)
    have hid : r.engine.linkId = packet.linkId P := hanswers.linkId
    refine ⟨r.engine, r.mtu.toNat, ld, hid, htime, hanswers.state, ?_⟩
    simp only [handleLinkrequest, hld, LinkEnv.withHandshake, hnew, Except.toOption, Option.map_some,
      hid]

/-- A request for an existing link leaves it alone exactly if the manager refuses it. -/
theorem repeated_request_harmless_iff {linkId : LinkId} {l : ManagedLink} {raw : Bytes}
    (hlink : m.links[linkId]? = some l) (hunpack : RawPacket.unpack P raw = .ok packet)
    (htype : packet.flags.packetType = PacketType.linkRequest) (hid : packet.linkId P = linkId)
    (packetHash : Hash32) (interface : Transport.InterfaceId) :
    (∀ rng now, ∃ l', (m.handleLocalDelivery P (E.withHandshake P K ephemeral) destHash raw packetHash
        interface rng now).1.links[linkId]? = some l' ∧ l.SameTraffic l') ↔
      m.Refuses destHash packet := by
  have hdelivery : ∀ rng now, m.handleLocalDelivery P (E.withHandshake P K ephemeral) destHash raw
      packetHash interface rng now =
        m.handleLinkrequest P (E.withHandshake P K ephemeral) destHash packet interface rng now := by
    intro rng now
    simp only [handleLocalDelivery, hunpack]
    rw [if_pos htype]
  constructor
  · intro hsame
    by_contra hrefuses
    -- the new engine has the time of the repeated request
    obtain ⟨l', hl', htraffic⟩ := hsame .zero (l.engine.requestTime + 1)
    obtain ⟨engine, mtu, ld, -, htime, -, hafter⟩ := handleLinkrequest_of_not_refuses P K E ephemeral
      hrefuses ..
    rw [hdelivery, hafter, hid, Std.ExtTreeMap.getElem?_insert_self, Option.some.injEq] at hl'
    have hengine : engine = l.engine := by
      rw [← htraffic.engine, ← hl']
      rfl
    rw [hengine] at htime
    linarith
  · intro hrefuses rng now
    rw [hdelivery, handleLinkrequest_of_refuses P K E ephemeral hrefuses]
    exact ⟨l, hlink, by constructor <;> rfl⟩

def requestPacket (data : Bytes) : Bytes :=
  RawPacket.layout { linkFlags PacketType.linkRequest with destinationType := DestinationType.single } 0
    (.replicate 16 7) none PacketContext.none data

def requestedId : LinkId := Bytes.fixed 16 (2 :: List.replicate 15 7) 0

/-- A manager with that destination and an active link under that id. -/
def withRequestedLink : LinkManager where
  links := (∅ : Std.ExtTreeMap LinkId ManagedLink).insert requestedId (.sample false)
  linkDestinations := (∅ : Std.ExtTreeMap Hash16 LinkDestination).insert (.replicate 16 7)
    ⟨fun _ => .replicate 64 0, .replicate 32 9, .acceptAll⟩
  requestHandlers := []
  managementPaths := []

theorem repeated_request_harmless_iff_malformed :
    let raw := requestPacket (List.replicate 65 1)
    (∃ packet, RawPacket.unpack .sample raw = .ok packet ∧ packet.linkId .sample = requestedId) ∧
      ∀ rng now, ∃ l', (withRequestedLink.handleLocalDelivery .sample
          (LinkEnv.sample.withHandshake .sample .sample fun _ => .replicate 32 3) (.replicate 16 7) raw
          (.replicate 32 0) ⟨1⟩ rng now).1.links[requestedId]? = some l' ∧
        (ManagedLink.sample false).SameTraffic l' :=
  ⟨⟨_, rfl, by decide +kernel⟩, (repeated_request_harmless_iff .sample .sample .sample _
    Std.ExtTreeMap.getElem?_insert_self rfl (by decide) (by decide +kernel) (.replicate 32 0) ⟨1⟩).2
      (.inr ⟨.invalidData, by decide +kernel⟩)⟩

/-- A replayed request takes an active link back to the handshake, without its channel. -/
theorem replayed_request_resets_link :
    let raw := requestPacket (List.replicate 64 1)
    let after := (withRequestedLink.handleLocalDelivery .sample
      (LinkEnv.sample.withHandshake .sample .sample fun _ => .replicate 32 3) (.replicate 16 7) raw
      (.replicate 32 0) ⟨1⟩ .zero 5).1
    (RawPacket.unpack .sample raw).toOption.map (·.linkId .sample) = some requestedId ∧
      withRequestedLink.links[requestedId]?.map (fun l => (l.engine.state, l.channel.isSome)) =
        some (.active, true) ∧
      after.links[requestedId]?.map (fun l => (l.engine.state, l.channel.isSome)) =
        some (.handshake, false) := by
  decide +kernel

end LinkManager

end Rns

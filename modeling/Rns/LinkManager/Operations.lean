import Rns.LinkManager.Establishment

/-!
# The link manager: calls of the application

The calls that open and close links and answer for transfers, and the manager as a machine that takes
packets, ticks and calls in any order.
-/

namespace Rns

variable (P : Primitives) (K : KeyPrimitives) (E : LinkEnv)

/-- The proofs that initiators wait for are checked with the sessions their links were created with. -/
def LinkEnv.withSessions (sessions : LinkId → LinkSession) : LinkEnv :=
  { E with handleLrproof := fun engine mtu data destSigPubBytes now rng =>
      let session := { sessions engine.linkId with
        engine
        mtu := .ofNat mtu
        mdu := computeMdu mtu }
      match session.handleLrproof P K data destSigPubBytes now (rng.iv 0) with
      | .value (session, .ok (lrrtt, actions)) => some (session.engine, session.mtu.toNat, lrrtt, actions)
      | _ => none }

theorem LinkSession.acceptProof_ok {s s' : LinkSession} {peerPub peerSigPubBytes : Vector UInt8 32}
    {confirmedMtu : Option UInt32} {now : ℚ} {iv : Block} {lrrtt : Bytes} {actions : List LinkAction}
    (h : s.acceptProof P K peerPub peerSigPubBytes confirmedMtu now iv = .value (s', .ok (lrrtt, actions))) :
    s'.engine.state = .active ∧ ∃ linkId rtt,
      actions = [.stateChanged linkId .active none, .linkEstablished linkId rtt true] := by
  unfold acceptProof at h
  dsimp only at h
  split at h
  · cases h
  · next derivedKey _ =>
    split at h
    · cases h
    · next token _ =>
      generalize hs : LinkSession.activateInitiator _ derivedKey token confirmedMtu now = active at h
      have hactive : active.engine.state = .active := by
        rw [← hs]
        cases confirmedMtu <;> rfl
      cases hsealed : active.encrypt P (packRtt K (now - s.engine.requestTime)) iv with
      | panic =>
        rw [hsealed] at h
        cases h
      | value sealedRtt =>
        rw [hsealed] at h
        cases sealedRtt with
        | error e => cases h
        | ok data =>
          cases h
          exact ⟨hactive, _, _, rfl⟩

theorem LinkEnv.withSessions_handleLrproof {sessions : LinkId → LinkSession} {engine engine' : LinkEngine}
    {mtu mtu' : ℕ} {data lrrtt : Bytes} {destSigPubBytes : Vector UInt8 32} {now : ℚ} {rng : Entropy}
    {actions : List LinkAction}
    (h : (E.withSessions P K sessions).handleLrproof engine mtu data destSigPubBytes now rng =
      some (engine', mtu', lrrtt, actions)) : engine'.state = .active ∧ ∃ linkId rtt,
      actions = [.stateChanged linkId .active none, .linkEstablished linkId rtt true] := by
  simp only [withSessions] at h
  split at h
  · next hproof =>
    cases h
    unfold LinkSession.handleLrproof at hproof
    split_ifs at hproof with hguard
    · cases hproof
    · split at hproof
      · cases hproof
      · split_ifs at hproof with hmode
        · cases hproof
        · exact LinkSession.acceptProof_ok P K hproof
  · cases h

namespace ManagedLink

/-- `teardown_link`. -/
def teardown (l : ManagedLink) (linkId : LinkId) : ManagedLink × List LinkManagerAction :=
  let (engine, actions) := l.engine.teardown
  ({ l with engine, channel := l.channel.map Channel.shutdown },
    l.processLinkActions linkId actions ++
      sendLinkPacket P linkId PacketType.data PacketContext.linkClose [] Rns.mtu)

/-- `accept_resource`: a split transfer is opened if it is not there yet. -/
def acceptResource (l : ManagedLink) (linkId : LinkId) (resourceHash : Bytes) (accept : Bool)
    (rng : Entropy) (now : ℚ) : ManagedLink × List LinkManagerAction :=
  match l.incomingResources.findIdx? fun r => r.resourceHash = resourceHash with
  | none => (l, [])
  | some i => match l.incomingResources[i]? with
    | none => (l, [])
    | some r =>
      let key := if accept ∧ r.flags.split then resourceHashKey r.originalHash else none
      let incomingSplits := match key with
        | none => l.incomingSplits
        | some key => l.incomingSplits.insertIfNew key (newSplit r)
      let (r, actions) := if accept then r.accept now else r.reject
      { l with
        incomingSplits
        incomingResources := l.incomingResources.set i r }.processResourceActions P E linkId rng actions

/-- The link of an initiator that has sent its request. -/
def ofSession (session : LinkSession) (destHash : Hash16) (destSigPubBytes : Vector UInt8 32) :
    ManagedLink where
  engine := session.engine
  mtu := session.mtu.toNat
  channel := none
  pendingChannelPackets := ∅
  destHash
  remoteIdentity := none
  destSigPubBytes := some destSigPubBytes
  incomingResources := []
  outgoingResources := []
  incomingSplits := ∅
  outgoingSplits := ∅
  resourceStrategy := .acceptNone
  routeInterface := none
  routeTransportId := none

end ManagedLink

namespace LinkManager

structure CreateLinkArgs where
  destHash : Hash16
  destSigPubBytes : Vector UInt8 32
  hops : UInt8
  mtu : UInt32
  random : Vector UInt8 32
  sigPubBytes : Vector UInt8 32
  now : ℚ

namespace CreateLinkArgs

variable (args : CreateLinkArgs)

def made : LinkSession × Bytes :=
  LinkSession.newInitiator K args.destHash args.hops .aes256Cbc (some args.mtu) args.now args.random args.sigPubBytes

def packet : Option RawPacket :=
  (RawPacket.pack P { linkFlags PacketType.linkRequest with destinationType := DestinationType.single } 0
    args.destHash none PacketContext.none (args.made K).2).toOption

def session (packet : RawPacket) : LinkSession :=
  (args.made K).1.setLinkIdFromHashable P
    (RawPacket.computeHashablePart packet.flags.headerType packet.raw) (args.made K).2.length

end CreateLinkArgs

def createLink (m : LinkManager) (args : CreateLinkArgs) : LinkManager × List LinkManagerAction :=
  match args.packet P K with
  | none => (m, [])
  | some packet =>
    let session := args.session P K packet
    let linkId := session.engine.linkId
    ({ m with links := m.links.insert linkId (.ofSession session args.destHash args.destSigPubBytes) },
      [.registerLinkDest linkId, .sendPacket packet.raw DestinationType.link none])

end LinkManager

/-! ## Runs -/

/-- What a manager is called with. -/
inductive LinkEvent where
  | packet (destHash : Hash16) (raw : Bytes) (packetHash : Hash32) (interface : Transport.InterfaceId)
      (rng : Entropy) (now : ℚ)
  | tick (rng : LinkId → Entropy × Entropy) (now : ℚ)
  | createLink (args : LinkManager.CreateLinkArgs)
  | teardownLink (linkId : LinkId)
  | sendChannelMessage (linkId : LinkId) (msgtype : UInt16) (payload : Bytes) (rng : Entropy) (now : ℚ)
  | sendRequest (linkId : LinkId) (path data : Bytes) (stamp : UInt64) (rng : Entropy) (now : ℚ)
  | sendResource (linkId : LinkId) (data : Bytes) (metadata : Option Bytes) (rng : Entropy) (now : ℚ)
  | acceptResource (linkId : LinkId) (resourceHash : Bytes) (accept : Bool) (rng : Entropy) (now : ℚ)

/-- The manager; a call that fails changes nothing. -/
def operations (ephemeral : Entropy → Vector UInt8 32) (sessions : LinkId → LinkSession) :
    Machine LinkManager LinkEvent LinkManagerAction :=
  let E := (E.withSessions P K sessions).withHandshake P K ephemeral
  { step := fun m e => match e with
      | .packet destHash raw packetHash interface rng now =>
        m.handleLocalDelivery P E destHash raw packetHash interface rng now
      | .tick rng now => m.tick P E rng now
      | .createLink args => m.createLink P K args
      | .teardownLink linkId => m.onLink linkId fun l => l.teardown P linkId
      | .sendChannelMessage linkId msgtype payload rng now =>
        ((m.sendChannelMessage P E linkId msgtype payload rng now).toOption).getD (m, [])
      | .sendRequest linkId path data stamp rng now =>
        m.sendRequest P E linkId path data stamp rng now
      | .sendResource linkId data metadata rng now => m.sendResource P E linkId data metadata rng now
      | .acceptResource linkId resourceHash accept rng now =>
        m.onLink linkId fun l => l.acceptResource P E linkId resourceHash accept rng now }

end Rns

import Rns.LinkManager.Dispatch

/-!
# Packets that do not decrypt

An encrypted packet that does not decrypt is dropped, and only where the link was last heard is noted.
Keepalives, resource parts, the closing of a link and proofs are sent in the clear.
-/

namespace Rns

/-- All that traffic can change: everything but where the link was last heard. -/
structure ManagedLink.SameTraffic (l l' : ManagedLink) : Prop where
  engine : l'.engine = l.engine
  channel : l'.channel = l.channel
  pendingChannelPackets : l'.pendingChannelPackets = l.pendingChannelPackets
  remoteIdentity : l'.remoteIdentity = l.remoteIdentity
  incomingResources : l'.incomingResources = l.incomingResources
  outgoingResources : l'.outgoingResources = l.outgoingResources
  incomingSplits : l'.incomingSplits = l.incomingSplits
  outgoingSplits : l'.outgoingSplits = l.outgoingSplits

def PacketContext.unsealed : List UInt8 :=
  [keepalive, resource, linkClose, resourceIcl, resourceRcl]

variable (P : Primitives) (E : LinkEnv)

namespace ManagedLink

variable {l : ManagedLink} {data : Bytes}

theorem sameTraffic_noteRoute (l : ManagedLink) (packet : RawPacket)
    (interface : Transport.InterfaceId) : l.SameTraffic (l.noteRoute packet interface) := by
  constructor <;> rfl

theorem handleLrrtt_of_active (h : l.engine.state = .active) (now : ℚ) :
    l.handleLrrtt P E data now = none := by
  rw [handleLrrtt, if_pos (.inl (by rw [h]; decide))]

theorem handleIdentify_of_decrypt_none (h : l.decrypt E data = none) :
    l.handleIdentify P E data = none := by
  rw [handleIdentify, h]
  split <;> rfl

theorem decrypted_of_decrypt_none (h : l.decrypt E data = none) (linkId : LinkId) (now : ℚ)
    (handle : ManagedLink → Bytes → ManagedLink × List LinkManagerAction) :
    l.decrypted E linkId data now handle = (l, []) := by
  rw [decrypted, h]

end ManagedLink

namespace LinkManager

open ManagedLink

variable {m : LinkManager} {l : ManagedLink} {linkId : LinkId} {packet : RawPacket}

@[simp] theorem onLink_of_none (h : m.links[linkId]? = none)
    (f : ManagedLink → ManagedLink × List LinkManagerAction) : m.onLink linkId f = (m, []) := by
  rw [onLink, h]

theorem onLink_of_some (h : m.links[linkId]? = some l)
    (f : ManagedLink → ManagedLink × List LinkManagerAction) :
    m.onLink linkId f = ({ m with links := m.links.insert linkId (f l).1 }, (f l).2) := by
  rw [onLink, h]

/-- On an active link, a data packet that should have been encrypted and does not decrypt is without
effect. -/
theorem handleContext_of_decrypt_none (m : LinkManager) (linkId : LinkId) (hactive : l.engine.state = .active)
    (hdecrypt : l.decrypt E packet.data = none) (hcontext : packet.context ∉ PacketContext.unsealed)
    (packetHash : Hash32) (rng : Entropy) (now : ℚ) :
    m.handleContext P E l linkId packet packetHash rng now = (l, []) := by
  simp only [PacketContext.unsealed, List.mem_cons, List.not_mem_nil, or_false, not_or] at hcontext
  obtain ⟨hkeepalive, hresource, hclose, hicl, hrcl⟩ := hcontext
  simp only [handleContext, handleLrrtt_of_active P E hactive,
    handleIdentify_of_decrypt_none P E hdecrypt, decrypted_of_decrypt_none E hdecrypt, hkeepalive,
    hresource, hclose, hicl, hrcl, if_false, ite_self]

def Sealed (m : LinkManager) (linkId : LinkId) (packet : RawPacket) : Prop :=
  (packet.flags.packetType = PacketType.data → packet.context ∉ PacketContext.unsealed) ∧
    (packet.flags.packetType = PacketType.proof → packet.context = PacketContext.lrProof) ∧
    (packet.flags.packetType = PacketType.linkRequest → m.linkDestinations[linkId]? = none)

theorem undecryptable_packet_dropped {raw : Bytes} (hlink : m.links[linkId]? = some l)
    (hactive : l.engine.state = .active) (hunpack : RawPacket.unpack P raw = .ok packet)
    (hsealed : m.Sealed linkId packet) (hdecrypt : l.decrypt E packet.data = none)
    (packetHash : Hash32) (interface : Transport.InterfaceId) (rng : Entropy) (now : ℚ) :
    ∃ l', (m.handleLocalDelivery P E linkId raw packetHash interface rng now).1.links[linkId]? =
        some l' ∧ l.SameTraffic l' ∧
      (m.handleLocalDelivery P E linkId raw packetHash interface rng now).2 = [] := by
  obtain ⟨hdata, hproof, hrequest⟩ := hsealed
  have hsame : l.SameTraffic l := by constructor <;> rfl
  simp only [handleLocalDelivery, hunpack]
  by_cases htype : packet.flags.packetType = PacketType.linkRequest
  · rw [if_pos htype, handleLinkrequest, hrequest htype]
    exact ⟨l, hlink, hsame, rfl⟩
  rw [if_neg htype]
  by_cases htype : packet.flags.packetType = PacketType.proof
  · -- the proof of a link request comes too late
    have hlate : l.engine.state ≠ .pending := by rw [hactive]; decide
    rw [if_pos htype, if_pos (hproof htype), handleLrproof, onLink_of_some hlink]
    simp only [hlate, ne_eq, not_false_eq_true, true_or, if_true]
    exact ⟨_, Std.ExtTreeMap.getElem?_insert_self, by constructor <;> rfl, trivial⟩
  rw [if_neg htype]
  by_cases htype : packet.flags.packetType = PacketType.data
  · have hdropped := handleContext_of_decrypt_none P E m linkId
      (l := l.noteRoute packet interface) hactive hdecrypt (hdata htype) packetHash rng now
    rw [if_pos htype, handleLinkData, onLink_of_some hlink, hdropped]
    exact ⟨_, Std.ExtTreeMap.getElem?_insert_self, sameTraffic_noteRoute .., rfl⟩
  · rw [if_neg htype]
    exact ⟨l, hlink, hsame, rfl⟩

def forged (packetType context : UInt8) (data : Bytes) : Bytes :=
  RawPacket.layout (linkFlags packetType) 0 (.replicate 16 0) none context data

/-- An end that has sent a message on its channel and waits for the proof. -/
def waitingForProof : ManagedLink :=
  let sent := (ManagedLink.sample true).processChannelAction .sample .sample (.replicate 16 0)
    (.replicate 16 0) (.sendOnLink [1, 2] 0)
  { sent.1 with
    channel := sent.1.channel.map fun c => { c with txRing := [⟨0, [1, 2], 1, 0, false⟩] } }

theorem undecryptable_packet_dropped_channel :
    let m := LinkManager.sample (.sample true)
    let raw := forged PacketType.data PacketContext.channel [1, 2, 3]
    ∃ l', (m.handleLocalDelivery .sample .sample (.replicate 16 0) raw (.replicate 32 0) ⟨1⟩ .zero
        5).1.links[(.replicate 16 0 : LinkId)]? = some l' ∧ (ManagedLink.sample true).SameTraffic l' ∧
      (m.handleLocalDelivery .sample .sample (.replicate 16 0) raw (.replicate 32 0) ⟨1⟩ .zero 5).2 =
        [] :=
  undecryptable_packet_dropped .sample .sample (links_sample _) rfl rfl
    ⟨by decide, by decide, by decide⟩ (by decide +kernel) _ _ _ _

/-- What is sent in the clear takes effect without a key: three bytes close a link, and a proof that
nobody signed removes a message from a channel. -/
theorem clear_packets_take_effect :
    let id : LinkId := .replicate 16 0
    let deliver (l : ManagedLink) (raw : Bytes) := ((LinkManager.sample l).handleLocalDelivery .sample
      .sample id raw (.replicate 32 0) ⟨1⟩ .zero 5).1.links[id]?
    let close := forged PacketType.data PacketContext.linkClose [1, 2, 3]
    let hash := waitingForProof.pendingChannelPackets.keys.flatMap Vector.toList
    let proof := forged PacketType.proof PacketContext.none hash
    (ManagedLink.sample true).engine.state = .active ∧
      (ManagedLink.sample true).decrypt .sample [1, 2, 3] = none ∧
      (deliver (.sample true) close).map (·.engine.state) = some .closed ∧
      waitingForProof.engine.state = .active ∧ waitingForProof.decrypt .sample hash = none ∧
      waitingForProof.channel.map (·.txRing.length) = some 1 ∧
      (deliver waitingForProof proof).bind (·.channel.map (·.txRing.length)) = some 0 := by
  decide +kernel

end LinkManager

end Rns

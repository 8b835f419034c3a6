import Rns.Channel.Rings
import Rns.LinkManager.Integrity
import Rns.LinkManager.Reports

/-!
# Proofs of channel messages

The receiver of a channel packet answers with a proof: the hash of the packet and a signature over it.
The sender looks at the hash alone, so a proof that nobody has signed takes a message off its ring.
-/

namespace Rns

open PacketType (proof)

def ManagedLink.unacknowledged (l : ManagedLink) : List Envelope :=
  (l.channel.map fun c => c.txRing).getD []

def provenHash (data : Bytes) : Hash32 := Bytes.fixed 32 data 0

def ProofSigned (P : Primitives) (key : Vector UInt8 32) (data : Bytes) : Prop :=
  96 ≤ data.length ∧ P.ed25519Verify key (Bytes.fixed 64 data 32) (provenHash data).toList

namespace ManagedLink

variable {l : ManagedLink} {data : Bytes}

theorem unacknowledged_handleLinkProof {sequence : UInt16} (hlen : 32 ≤ data.length)
    (hpending : l.pendingChannelPackets[provenHash data]? = some sequence) :
    (l.handleLinkProof data).unacknowledged = l.unacknowledged.eraseP (·.sequence = sequence) := by
  have hshort : ¬data.length < 32 := Nat.not_lt.2 hlen
  rw [provenHash] at hpending
  rw [handleLinkProof, if_neg hshort]
  simp only [hpending, unacknowledged, Option.map_map]
  cases l.channel with
  | none => rfl
  | some c => exact (c.packetDelivered_tx ..).2

theorem handleLinkProof_of_short (h : data.length < 32) : l.handleLinkProof data = l := by
  rw [handleLinkProof, if_pos h]

theorem handleLinkProof_of_unknown (h : l.pendingChannelPackets[provenHash data]? = none) :
    l.handleLinkProof data = l := by
  rw [provenHash] at h
  rw [handleLinkProof]
  simp only [h, ite_self]

end ManagedLink

namespace LinkManager

variable (P : Primitives) (E : LinkEnv)

/-- A proof addressed to a link acknowledges messages only with the peer's signature exactly if it is a
resource proof, names no packet of an outstanding message, or is signed. -/
theorem acknowledged_by_peer_iff {m : LinkManager} {l : ManagedLink} {linkId : LinkId}
    {packet : RawPacket} {raw : Bytes} (hlink : m.links[linkId]? = some l)
    (hunpack : RawPacket.unpack P raw = .ok packet)
    (htype : packet.flags.packetType = proof)
    (hcontext : packet.context ≠ PacketContext.lrProof) (peerKey : Vector UInt8 32)
    (packetHash : Hash32) (interface : Transport.InterfaceId) (rng : Entropy) (now : ℚ) :
    (∀ l', (m.handleLocalDelivery P E linkId raw packetHash interface rng now).1.links[linkId]? =
        some l' → l'.unacknowledged.length < l.unacknowledged.length →
      ∃ sequence, l.pendingChannelPackets[provenHash packet.data]? = some sequence ∧
        l'.unacknowledged = l.unacknowledged.eraseP (·.sequence = sequence) ∧
        ProofSigned P peerKey packet.data) ↔
      (packet.context = PacketContext.resourcePrf ∨ packet.data.length < 32 ∨
        (∀ sequence, l.pendingChannelPackets[provenHash packet.data]? = some sequence →
          ∀ e ∈ l.unacknowledged, e.sequence ≠ sequence) ∨
        ProofSigned P peerKey packet.data) := by
  have hrequest : ¬packet.flags.packetType = PacketType.linkRequest := by rw [htype]; decide
  simp only [handleLocalDelivery, hunpack]
  rw [if_neg hrequest, if_pos htype, if_neg hcontext]
  by_cases hprf : packet.context = PacketContext.resourcePrf
  · rw [if_pos hprf, onLink_of_some hlink]
    refine iff_of_true (fun l' hl' hlt => ?_) (.inl hprf)
    have hquiet := (ManagedLink.proper_handleResourcePrf P E l linkId packet.data rng now).quiet
    rw [Std.ExtTreeMap.getElem?_insert_self, Option.some.injEq] at hl'
    subst hl'
    rw [ManagedLink.unacknowledged, hquiet.channel] at hlt
    exact absurd hlt (lt_irrefl _)
  rw [if_neg hprf, onLink_of_some hlink]
  simp only [Std.ExtTreeMap.getElem?_insert_self, Option.some.injEq, forall_eq', hprf, false_or]
  by_cases hshort : packet.data.length < 32
  · rw [ManagedLink.handleLinkProof_of_short hshort]
    exact iff_of_true (fun hlt => absurd hlt (lt_irrefl _)) (.inl hshort)
  cases hpending : l.pendingChannelPackets[provenHash packet.data]? with
  | none =>
    rw [ManagedLink.handleLinkProof_of_unknown hpending]
    exact iff_of_true (fun hlt => absurd hlt (lt_irrefl _)) (.inr (.inl (by simp)))
  | some sequence =>
    have hafter := ManagedLink.unacknowledged_handleLinkProof (Nat.not_lt.1 hshort) hpending
    rw [hafter]
    simp only [Option.some.injEq, forall_eq', hshort, false_or]
    constructor
    · intro hproperty
      refine or_iff_not_imp_left.2 fun hpresent => ?_
      simp only [not_forall, not_not] at hpresent
      obtain ⟨e, he, heq⟩ := hpresent
      have hlt : (l.unacknowledged.eraseP (·.sequence = sequence)).length <
          l.unacknowledged.length := by
        have hlen := List.length_eraseP_of_mem (p := fun e => decide (e.sequence = sequence)) he
          (by simpa using heq)
        have hpos : 0 < l.unacknowledged.length := List.length_pos_of_mem he
        omega
      obtain ⟨_, -, -, hsigned⟩ := hproperty hlt
      exact hsigned
    · rintro (habsent | hsigned) hlt
      · have hsame : l.unacknowledged.eraseP (·.sequence = sequence) = l.unacknowledged :=
          List.eraseP_of_forall_not fun e he => by simpa using habsent e he
        rw [hsame] at hlt
        exact absurd hlt (lt_irrefl _)
      · exact ⟨sequence, rfl, rfl, hsigned⟩

def awaitedHash : Bytes := waitingForProof.pendingChannelPackets.keys.flatMap Vector.toList

def signedProof : Bytes :=
  awaitedHash ++ List.replicate 32 9 ++ [awaitedHash.headD 0] ++ List.replicate 31 0

theorem unpack_forged (context : UInt8) (data : Bytes) :
    ∃ hash, RawPacket.unpack P (forged proof context data) =
      .ok ⟨linkFlags proof, 0, none, .replicate 16 0, context, data,
        forged proof context data, hash, ⟨none, none⟩⟩ :=
  ⟨_, RawPacket.unpack_header1 P (.replicate 16 0) data (by decide)⟩

theorem acknowledged_by_peer_iff_signed :
    ProofSigned .sample (.replicate 32 9) signedProof ∧
    ∀ l', ((LinkManager.sample waitingForProof).handleLocalDelivery .sample .sample (.replicate 16 0)
        (forged proof PacketContext.none signedProof) (.replicate 32 0) ⟨1⟩ .zero
        5).1.links[(.replicate 16 0 : LinkId)]? = some l' →
      l'.unacknowledged.length < waitingForProof.unacknowledged.length →
      ∃ sequence, waitingForProof.pendingChannelPackets[provenHash signedProof]? = some sequence ∧
        l'.unacknowledged = waitingForProof.unacknowledged.eraseP (·.sequence = sequence) ∧
        ProofSigned .sample (.replicate 32 9) signedProof := by
  have hsigned : ProofSigned .sample (.replicate 32 9) signedProof :=
    ⟨by decide +kernel, by decide +kernel⟩
  obtain ⟨hash, hunpack⟩ := unpack_forged ..
  have hcontext : PacketContext.none ≠ PacketContext.lrProof := by decide
  exact ⟨hsigned, (acknowledged_by_peer_iff .sample .sample (links_sample ..) hunpack rfl
    hcontext (.replicate 32 9) _ ⟨1⟩ .zero 5).2 (.inr (.inr (.inr hsigned)))⟩

/-- The bare hash of a packet acknowledges its message: there is no room for a signature. -/
theorem unsigned_proof_acknowledges :
    let raw := forged proof PacketContext.none awaitedHash
    let after := ((LinkManager.sample waitingForProof).handleLocalDelivery .sample .sample
      (.replicate 16 0) raw (.replicate 32 0) ⟨1⟩ .zero 5).1.links[(.replicate 16 0 : LinkId)]?
    waitingForProof.unacknowledged.map (·.sequence) = [0] ∧
      after.map (fun l => l.unacknowledged.length) = some 0 ∧ awaitedHash.length = 32 := by
  decide +kernel

end LinkManager

end Rns

import Rns.Transport.PacketIdentity

/-!
# Redirecting a link to a direct connection

`redirect_path` makes up a path for a link without one, with a next hop of zeros.  Routing takes this for
a transport node, so the packets get a header for a node that nobody is.
-/

namespace Rns.Transport

open HeaderType (header1)
open DestinationType (plain group link)

/-- The primary path goes over another interface, in one hop. -/
def PathSet.redirectPrimary (ps : PathSet) (interface : InterfaceId) : PathSet where
  paths := ps.paths.modifyHead fun p => { p with receivingInterface := interface, hops := 1 }
  capacity := ps.capacity
  capacity_pos := ps.capacity_pos
  length_le := by simpa using ps.length_le
  nextHops_nodup := by
    have hsame : ∀ l : List PathEntry,
        (l.modifyHead fun p => { p with receivingInterface := interface, hops := 1 }).map
          PathEntry.nextHop = l.map PathEntry.nextHop := by
      intro l
      cases l <;> rfl
    rw [hsame]
    exact ps.nextHops_nodup

namespace TransportEngine

/-- The path made up for a destination without one. -/
def directPath (interface : InterfaceId) (now : ℚ) : PathEntry where
  timestamp := now
  nextHop := .replicate 16 0
  hops := 1
  expires := now + 3600
  randomBlobs := []
  receivingInterface := interface
  packetHash := .replicate 32 0
  announceRaw := none

def redirectPath (e : TransportEngine) (destHash : Hash16) (interface : InterfaceId) (now : ℚ) :
    TransportEngine :=
  match e.pathTable[destHash]? with
  | some ps =>
    if ps.isEmpty then e.upsertPathDestination destHash (directPath interface now) now
    else { e with pathTable := e.pathTable.insert destHash (ps.redirectPrimary interface) }
  | none => e.upsertPathDestination destHash (directPath interface now) now

theorem redirectPath_of_none {e : TransportEngine} {destHash : Hash16}
    (hnone : e.pathTable[destHash]? = none) (interface : InterfaceId) (now : ℚ) :
    (e.redirectPath destHash interface now).interfaces = e.interfaces ∧
      (e.redirectPath destHash interface now).pathTable[destHash]? =
        some (.fromSingle (directPath interface now) e.config.maxPathsPerDestination) := by
  have hupsert := getElem?_upsertPathDestination_self e destHash (directPath interface now) now
  rw [hnone] at hupsert
  unfold redirectPath
  rw [hnone]
  refine ⟨?_, hupsert⟩
  obtain ⟨_, _, _, heq⟩ := upsertPathDestination_eq ..
  rw [heq]

end TransportEngine

/-! ## What a peer lets through -/

variable (P : Primitives)

def Passes (raw : Bytes) : Prop :=
  ∀ (peer : TransportEngine) (frame : InboundFrame), peer.packetHashlist.hashes = [] →
    frame.raw = raw → (peer.prepareInboundPacket P frame).isSome

variable {P} {p : RawPacket}

theorem passes_of_header1 (hp : p.Received P) {b : UInt8} {raw : Bytes} (hframe : p.FrameOf b raw)
    (h1 : (PacketFlags.unpack b).headerType = header1)
    (hplain : (PacketFlags.unpack b).destinationType ≠ plain)
    (hgroup : (PacketFlags.unpack b).destinationType ≠ group) : Passes P raw := by
  intro peer frame hempty hraw
  obtain ⟨q, hunpack, -, hflags⟩ := hframe.unpack_same hp
  have hnone : q.transportId = none := by
    rcases (RawPacket.unpack_inv P hunpack).2.2.2 with ⟨-, hnone, -⟩ | ⟨h2, -⟩
    · exact hnone
    · rw [hflags, h1] at h2
      exact absurd h2 (by decide)
  have hnew : ∀ hash, peer.packetHashlist.isDuplicate hash = false := by
    simp [PacketHashlist.isDuplicate, hempty]
  simp only [TransportEngine.prepareInboundPacket, hraw, hunpack, TransportEngine.packetFilter,
    hnone, hflags, hplain, hgroup, hnew, Option.isSome_none, Bool.false_eq_true, false_and, if_false,
    or_self, not_false_eq_true, if_true, ite_self, Option.isSome_some]

theorem packetFilter_of_other {e : TransportEngine} {q : RawPacket} {identityHash other : Hash16}
    (hannounce : q.flags.packetType ≠ PacketType.announce) (hid : q.transportId = some other)
    (hne : other ≠ identityHash) (hidentity : e.config.identityHash = some identityHash) :
    e.packetFilter q = false := by
  simp [TransportEngine.packetFilter, hannounce, hid, hidentity, hne]

/-- A node with an identity, as it starts. -/
def peerWith (identityHash : Hash16) : TransportEngine :=
  .new {
    transportEnabled := false
    identityHash := some identityHash
    localHopsDelta := 0
    preferShorterPath := false
    maxPathsPerDestination := 1
    packetHashlistMaxEntries := 100
    maxPathDestinations := usizeMax
    maxTunnelDestinationsTotal := usizeMax
    announceTableTtlSecs := 0
    announceTableMaxBytes := 0
    announceSigCacheEnabled := false
    announceSigCacheMaxEntries := 0
    announceSigCacheTtlSecs := 0 }

theorem not_passes_inject_zero (hp : p.Received P) (h1 : p.flags.headerType = header1)
    (hannounce : p.flags.packetType ≠ PacketType.announce) (hops : UInt8) :
    ¬Passes P (injectTransportHeaderWithHops p (.replicate 16 0) hops) := by
  intro hpasses
  obtain ⟨q, hunpack, hid, htype⟩ :
      ∃ q, RawPacket.unpack P (injectTransportHeaderWithHops p (.replicate 16 0) hops) = .ok q ∧
        q.transportId = some (.replicate 16 0) ∧ q.flags.packetType = p.flags.packetType := by
    have hdrop : p.raw.drop 2 = p.payload := by
      rcases hp.drop_eq with ⟨-, -, hdrop⟩ | ⟨h2, -⟩
      · exact hdrop
      · exact absurd (h1.symm.trans h2) (by decide)
    have htype := (transport_flags_fields (p.raw.headD 0)).1
    rw [hp.flags_eq] at htype
    rw [injectTransportHeaderWithHops, hdrop, RawPacket.payload, ← List.append_assoc]
    exact ⟨_, RawPacket.unpack_header2 P (.replicate 16 0) p.destinationHash p.data
      (transport_flags (p.raw.headD 0)).1, rfl, htype⟩
  have hfilter : ∀ hops rx, (peerWith (.replicate 16 1)).packetFilter { q with hops, rx } = false :=
    fun hops rx => packetFilter_of_other (by simpa only [htype] using hannounce) hid (by decide) rfl
  have hsome := hpasses (peerWith (.replicate 16 1))
    ⟨injectTransportHeaderWithHops p (.replicate 16 0) hops, 0, 0, ⟨none, none⟩⟩ rfl rfl
  simp only [TransportEngine.prepareInboundPacket, hunpack, hfilter, Bool.false_eq_true, if_false,
    Option.isSome_none] at hsome

theorem passes_rawForInterface (hp : p.Received P) (h1 : p.flags.headerType = header1)
    (hplain : p.flags.destinationType ≠ plain)
    (hgroup : p.flags.destinationType ≠ group)
    (hannounce : p.flags.packetType ≠ PacketType.announce) (options : OutboundRouteOptions)
    (info : InterfaceInfo) : Passes P (rawForInterface p p.flags.destinationType info options) := by
  have hpasses : ∀ raw, p.FrameOf (p.raw.headD 0) raw → Passes P raw := by
    intro raw hframe
    rw [← hp.flags_eq] at h1 hplain hgroup
    exact passes_of_header1 hp hframe h1 hplain hgroup
  have hmangled : ∀ hops, Passes P (mangleHops p.raw hops) := by
    intro hops
    unfold mangleHops
    split_ifs
    · exact hpasses _ (hp.frameOf_self.set_hops hops)
    · exact hpasses _ hp.frameOf_self
  unfold rawForInterface
  split
  · exact hpasses _ hp.frameOf_self
  · split
    · rw [if_neg fun h => hannounce h.1]
      exact hmangled _
    · exact hmangled _

/-! ## The packets of a redirected link -/

/-- The packets of a link that was redirected without having had a path arrive exactly when the
link id is zero, and then only over an interface that is not a local client. -/
theorem redirected_packet_passes_iff (P : Primitives) (e : TransportEngine) (link : Hash16)
    (iface : InterfaceId) (info : InterfaceInfo) (now : ℚ) (p : RawPacket)
    (attached : Option InterfaceId) (options : OutboundRouteOptions)
    (hinfo : e.interfaces[iface]? = some info) (hnone : e.pathTable[link]? = none)
    (hp : p.Received P) (h1 : p.flags.headerType = header1)
    (hdest : p.destinationHash = link)
    (hplain : p.flags.destinationType ≠ plain)
    (hgroup : p.flags.destinationType ≠ group)
    (hannounce : p.flags.packetType ≠ PacketType.announce) :
    (∃ raw, (e.redirectPath link iface now).routeTables.routeOutboundWithOptions p
        p.flags.destinationType attached options = [.sendOnInterface iface raw] ∧ Passes P raw) ↔
      link = .replicate 16 0 ∧ info.isLocalClient = false := by
  obtain ⟨hinterfaces, htable⟩ := TransportEngine.redirectPath_of_none hnone ..
  subst hdest
  have hroute : (e.redirectPath p.destinationHash iface now).routeTables.routeOutboundWithOptions p
      p.flags.destinationType attached options =
      (e.redirectPath p.destinationHash iface now).routeTables.routeAlong p p.flags.destinationType
        options (TransportEngine.directPath iface now) := by
    have hpath : (e.redirectPath p.destinationHash iface now).routeTables.pathTable[
        p.destinationHash]?.bind PathSet.primary = some (TransportEngine.directPath iface now) := by
      rw [TransportEngine.routeTables, htable]
      rfl
    rw [RouteTables.routeOutboundWithOptions, if_pos ⟨hannounce, hplain, hgroup⟩, hpath]
  have hdirect : (e.redirectPath p.destinationHash iface now).routeTables.interfaces[iface]? =
      some info := by
    rw [TransportEngine.routeTables, hinterfaces, hinfo]
  rw [hroute]
  unfold RouteTables.routeAlong
  have hone : (TransportEngine.directPath iface now).hops = 1 := rfl
  have hiface : (TransportEngine.directPath iface now).receivingInterface = iface := rfl
  have hhop : (TransportEngine.directPath iface now).nextHop = .replicate 16 0 := rfl
  simp only [hone, hiface, hhop, hdirect, h1, if_true, true_and, Option.map_some, Option.getD_some]
  by_cases hzero : p.destinationHash = .replicate 16 0 ∧ info.isLocalClient = false
  · rw [if_neg (by simp [hzero])]
    simp only [hzero, and_self, iff_true]
    refine ⟨_, rfl, ?_⟩
    rw [← hzero.1, RouteTables.rawFor, hdirect]
    exact passes_rawForInterface hp h1 hplain hgroup hannounce options info
  · have hvia : (Vector.replicate 16 0 : Hash16) ≠ p.destinationHash ∨ info.isLocalClient := by
      rw [not_and_or, Bool.not_eq_false] at hzero
      exact hzero.imp_left Ne.symm
    rw [if_pos (.inr hvia)]
    simp only [hzero, iff_false]
    rintro ⟨raw, hsent, hpasses⟩
    cases hsent
    exact not_passes_inject_zero hp h1 hannounce _ hpasses

def directEngine : TransportEngine :=
  { peerWith (.replicate 16 2) with
    interfaces := Std.ExtTreeMap.empty.insert 1 ⟨1, InterfaceMode.full, true, true, none, 0, 0, false,
      none, ⟨false, 0, 0, 0, 0, 0, 0⟩, 0, 0⟩ }

def directPacket (link : Hash16) : RawPacket where
  flags := PacketFlags.unpack 0x0C
  hops := 0
  transportId := none
  destinationHash := link
  context := 0
  data := []
  raw := 0x0C :: 0 :: (link.toList ++ [0])
  packetHash := Primitives.sample.fullHash
    (RawPacket.computeHashablePart header1 (0x0C :: 0 :: (link.toList ++ [0])))
  rx := ⟨none, none⟩

theorem directPacket_received (link : Hash16) : (directPacket link).Received .sample :=
  ⟨0, ⟨none, none⟩, RawPacket.unpack_header1 .sample link [] (by decide)⟩

/-- The link zero is the one that works. -/
theorem redirected_packet_passes_zero :
    ∃ raw, (directEngine.redirectPath (.replicate 16 0) 1 0).routeTables.routeOutbound
      (directPacket (.replicate 16 0)) link none = [.sendOnInterface 1 raw] ∧
      Passes .sample raw :=
  (redirected_packet_passes_iff .sample directEngine (.replicate 16 0) 1 _ 0
    (directPacket (.replicate 16 0)) none ⟨none, 0⟩ (by simp [directEngine]; rfl) rfl
    (directPacket_received _) rfl rfl (by decide) (by decide) (by decide)).2 ⟨rfl, rfl⟩

/-- Any other link loses its packets: they are sent, and the peer drops them. -/
theorem redirected_packet_dropped :
    ∃ raw, (directEngine.redirectPath (.replicate 16 7) 1 0).routeTables.routeOutbound
      (directPacket (.replicate 16 7)) link none = [.sendOnInterface 1 raw] ∧
      ¬Passes .sample raw := by
  refine ⟨injectTransportHeaderWithHops (directPacket (.replicate 16 7)) (.replicate 16 0) 0, ?_,
    not_passes_inject_zero (directPacket_received _) rfl (by decide) 0⟩
  decide +kernel

end Rns.Transport

import Rns.Transport.PacketIdentity
import Rns.Transport.Replay

/-!
# Announces encoded again

An announce goes on as the retransmission of its entry, as a copy for local clients, and, where it starts
here, with a transport header.  Only the first keeps the context flag, which tells of a ratchet.
-/

namespace Rns.Transport

open RawPacket Std.ExtTreeMap TransportEngine PacketFlags
open HeaderType (header2 header1)
open DestinationType (single plain group)

/-! ## The retransmission -/

def buildRetransmitAnnounce (entry : AnnounceEntry) (transportIdentityHash : Hash16) : Bytes :=
  let context := if entry.blockRebroadcasts then PacketContext.pathResponse else PacketContext.none
  let originalFlags := if entry.packetRaw ≠ [] then entry.packetRaw.headD 0 &&& 0x0F
    else single <<< 2 ||| PacketType.announce
  let newFlags := header2 <<< 6 ||| (entry.contextFlag &&& 0x01) <<< 5 |||
    TransportType.transport <<< 4 ||| originalFlags
  newFlags :: entry.hops :: (transportIdentityHash.toList ++
    (entry.destinationHash.toList ++ context :: entry.packetData))

namespace TransportEngine

def Retained.insertHeldAnnounce (r : Retained) (destHash : Hash16) (entry : AnnounceEntry) (ttl : ℚ)
    (maxBytes : ℕ) (now : ℚ) : Retained :=
  let r := r.cullExpired ttl now
  if announceEntrySizeBytes entry > maxBytes then r
  else
    let r := { r with heldAnnounces := r.heldAnnounces.insert destHash entry }
    let r := r.cullExpired ttl now
    evict maxBytes (r.announceTable.size + r.heldAnnounces.size + 1) r

/-- `insert_held_announce` on the engine. -/
def insertHeldAnnounce (e : TransportEngine) (destHash : Hash16) (entry : AnnounceEntry)
    (now : ℚ) : TransportEngine :=
  let r := Retained.insertHeldAnnounce ⟨e.announceTable, e.heldAnnounces⟩ destHash entry
    e.config.announceTableTtlSecs e.config.announceTableMaxBytes now
  { e with announceTable := r.announceTable, heldAnnounces := r.heldAnnounces }

variable (P : Primitives)

section

variable (e : TransportEngine) (destHash : Hash16) (iface : InterfaceId) (now : ℚ)

/-- The response to a path request, made from the announce of the path. -/
def pathResponse (path : PathEntry) (raw : Bytes) : Option AnnounceEntry :=
  let base := now + pathRequestGrace
  let roaming := e.interfaces[iface]?.map InterfaceInfo.mode = some InterfaceMode.roaming
  match unpack P raw with
  | .error _ => none
  | .ok parsed => some {
      timestamp := now
      retransmitTimeout := if roaming then base + pathRequestRg else base
      retries := pathfinderR
      receivedFrom := path.nextHop
      hops := path.hops
      packetRaw := raw
      packetData := parsed.data
      destinationHash := destHash
      contextFlag := parsed.flags.contextFlag
      localRebroadcasts := 0
      blockRebroadcasts := true
      attachedInterface := some iface }

/-- The end of `handle_known_path_request`: the announce of the path goes to the requesting
interface, the announce that waits for its retransmission is held back meanwhile. -/
def answerPathRequest (path : PathEntry) (raw : Bytes) : TransportEngine × Bool :=
  let e := match e.announceTable[destHash]? with
    | some existing =>
      { e with announceTable := e.announceTable.erase destHash }.insertHeldAnnounce destHash existing
        now
    | none => e
  match e.pathResponse P destHash iface now path raw with
  | none => (e, false)
  | some response => (e.insertAnnounceEntry destHash response now, true)

def handleKnownPathRequest : TransportEngine × Bool :=
  match e.pathTable[destHash]?.bind PathSet.primary with
  | none => (e, false)
  | some path =>
    if e.interfaces[iface]?.map InterfaceInfo.mode = some InterfaceMode.roaming ∧
        path.receivingInterface = iface then (e, true)
    else match path.announceRaw with
      | none => (e, false)
      | some raw => e.answerPathRequest P destHash iface now path raw

end

end TransportEngine

/-! ## The entries of an announce -/

/-- An entry the engine makes for an announce and keeps for its retransmissions. -/
inductive EntryFor (P : Primitives) (p : RawPacket) : AnnounceEntry → Prop
  /-- The announce was accepted, perhaps as the answer to a path request that waited for it. -/
  | accepted {e : TransportEngine} {ctx : VerifiedAnnounceCtx} {rng : UInt64} {entry : AnnounceEntry}
      (hpacket : ctx.packet = p)
      (hentry : (e.acceptAnnounce ctx rng).1.announceTable[p.destinationHash]? = some entry)
      (hnew : e.announceTable[p.destinationHash]? ≠ some entry) : EntryFor P p entry
  /-- A path request asked for the path the announce made. -/
  | requested {e : TransportEngine} {path : PathEntry} {iface : InterfaceId} {now : ℚ}
      {entry : AnnounceEntry}
      (hpath : e.pathTable[p.destinationHash]?.bind PathSet.primary = some path)
      (hraw : path.announceRaw = some p.raw)
      (hentry : (e.handleKnownPathRequest P p.destinationHash iface now).1.announceTable[
        p.destinationHash]? = some entry)
      (hnew : e.announceTable[p.destinationHash]? ≠ some entry) : EntryFor P p entry
  /-- A retransmission, one heard from a neighbour included, moves the timer and the counters. -/
  | retried {entry : AnnounceEntry} (h : EntryFor P p entry) (retransmitTimeout : ℚ)
      (retries localRebroadcasts : UInt8) :
      EntryFor P p { entry with retransmitTimeout, retries, localRebroadcasts }

/-- The entry carries the announce. -/
structure AnnounceEntry.Carries (entry : AnnounceEntry) (p : RawPacket) : Prop where
  packetRaw : entry.packetRaw = p.raw
  packetData : entry.packetData = p.data
  destinationHash : entry.destinationHash = p.destinationHash
  contextFlag : entry.contextFlag = p.flags.contextFlag

variable {entry : AnnounceEntry} {d : Hash16} {r : Retained} {ttl now : ℚ} {raw : Bytes}
  {P : Primitives} {p : RawPacket} {maxBytes : ℕ} {rng : UInt64}

namespace TransportEngine

theorem Retained.getElem?_cullExpired (h : (r.cullExpired ttl now).announceTable[d]? = some entry) :
    r.announceTable[d]? = some entry := by
  rw [cullExpired, getElem?_filter'] at h
  obtain ⟨hentry, -⟩ := Option.filter_eq_some_iff.1 h
  exact hentry

theorem Retained.getElem?_removeOldest {r r' : Retained} (hremove : r.removeOldest = some r')
    (h : r'.announceTable[d]? = some entry) : r.announceTable[d]? = some entry := by
  have herase : ∀ d', (r.announceTable.erase d')[d]? = some entry →
      r.announceTable[d]? = some entry := by
    intro d' h
    rw [getElem?_erase] at h
    split_ifs at h
    exact h
  unfold removeOldest at hremove
  split at hremove
  · split_ifs at hremove <;> cases hremove
    · exact herase _ h
    · exact h
  · cases hremove
    exact herase _ h
  · cases hremove
    exact h
  · cases hremove

theorem Retained.getElem?_evict {maxBytes fuel : ℕ}
    (h : (evict maxBytes fuel r).announceTable[d]? = some entry) :
    r.announceTable[d]? = some entry := by
  induction fuel generalizing r with
  | zero => exact h
  | succ fuel ih =>
    rw [evict] at h
    split_ifs at h with hfull
    · cases hremove : r.removeOldest with
      | none =>
        rw [hremove] at h
        exact h
      | some r' =>
        rw [hremove] at h
        exact getElem?_removeOldest hremove (ih h)
    · exact h

theorem Retained.getElem?_insertAnnounceEntry {new entry : AnnounceEntry}
    (h : (r.insertAnnounceEntry d new ttl maxBytes now).announceTable[d]? = some entry) :
    entry = new ∨ r.announceTable[d]? = some entry := by
  unfold insertAnnounceEntry at h
  dsimp only at h
  split_ifs at h with hsize
  · exact .inr (getElem?_cullExpired h)
  · have hinsert := getElem?_cullExpired (getElem?_evict h)
    rw [getElem?_insert_self] at hinsert
    exact .inl (Option.some.inj hinsert).symm

theorem Retained.getElem?_insertHeldAnnounce {d d' : Hash16} {new entry : AnnounceEntry}
    (h : (r.insertHeldAnnounce d new ttl maxBytes now).announceTable[d']? = some entry) :
    r.announceTable[d']? = some entry := by
  unfold insertHeldAnnounce at h
  dsimp only at h
  split_ifs at h with hsize
  · exact getElem?_cullExpired h
  · have hculled : (r.cullExpired ttl now).announceTable[d']? = some entry := by
      simpa only using getElem?_cullExpired (getElem?_evict h)
    exact getElem?_cullExpired hculled

section

variable {e : TransportEngine} {ctx : VerifiedAnnounceCtx} {entry : AnnounceEntry}

theorem getElem?_insertAnnounceEntry {new : AnnounceEntry} {now : ℚ}
    (h : (e.insertAnnounceEntry d new now).announceTable[d]? = some entry) :
    entry = new ∨ e.announceTable[d]? = some entry :=
  Retained.getElem?_insertAnnounceEntry h

theorem carries_of_answerDiscovery
    (h : (e.answerDiscovery ctx).announceTable[ctx.packet.destinationHash]? = some entry) :
    entry.Carries ctx.packet ∨ e.announceTable[ctx.packet.destinationHash]? = some entry := by
  unfold answerDiscovery at h
  dsimp only at h
  split at h
  · exact .inr h
  · refine (getElem?_insertAnnounceEntry h).imp_left ?_
    rintro rfl
    exact ⟨rfl, rfl, rfl, rfl⟩

theorem carries_of_announceEntries {blocked : Bool}
    (h : (e.announceEntries ctx rng blocked).2 = some entry) : entry.Carries ctx.packet := by
  unfold announceEntries processValidatedAnnounce at h
  dsimp only at h
  split_ifs at h
  cases h
  exact ⟨rfl, rfl, rfl, rfl⟩

theorem carries_of_acceptAnnounce
    (h : (e.acceptAnnounce ctx rng).1.announceTable[ctx.packet.destinationHash]? = some entry) :
    entry.Carries ctx.packet ∨ e.announceTable[ctx.packet.destinationHash]? = some entry := by
  unfold acceptAnnounce at h
  dsimp only at h
  rcases carries_of_answerDiscovery h with hcarries | h
  · exact .inl hcarries
  have hkeep : ∀ (e : TransportEngine) (path : PathEntry) (pathStates : Std.ExtTreeMap Hash16 UInt8),
      { (e.upsertPathDestination ctx.packet.destinationHash path ctx.now).storeInTunnel ctx with
        pathStates }.announceTable = e.announceTable := by
    intro e path pathStates
    obtain ⟨_, _, _, hupsert⟩ := upsertPathDestination_eq ..
    obtain ⟨_, hstore⟩ := storeInTunnel_eq ..
    rw [hstore, hupsert]
  split at h
  · rename_i new hnew
    rcases getElem?_insertAnnounceEntry h with rfl | h
    · exact .inl (carries_of_announceEntries hnew)
    · rw [hkeep] at h
      exact .inr h
  · rw [hkeep] at h
    exact .inr h

theorem carries_of_handleKnownPathRequest (hp : p.Received P) {path : PathEntry}
    {iface : InterfaceId} {now : ℚ}
    (hpath : e.pathTable[p.destinationHash]?.bind PathSet.primary = some path)
    (hraw : path.announceRaw = some p.raw)
    (h : (e.handleKnownPathRequest P p.destinationHash iface now).1.announceTable[ p.destinationHash]? = some entry) :
    entry.Carries p ∨ e.announceTable[p.destinationHash]? = some entry := by
  obtain ⟨hops, rx, hunpack⟩ := hp
  unfold handleKnownPathRequest at h
  rw [hpath] at h
  dsimp only at h
  split_ifs at h
  · exact .inr h
  · simp only [hraw, answerPathRequest, pathResponse, hunpack] at h
    rcases getElem?_insertAnnounceEntry h with rfl | h
    · exact .inl ⟨rfl, rfl, rfl, rfl⟩
    · right
      split at h
      · have herased := Retained.getElem?_insertHeldAnnounce h
        rw [getElem?_erase_self] at herased
        cases herased
      · exact h

end

end TransportEngine

theorem EntryFor.carries (hp : p.Received P) (h : EntryFor P p entry) : entry.Carries p := by
  induction h with
  | accepted hpacket hentry hnew =>
    subst hpacket
    exact (carries_of_acceptAnnounce hentry).resolve_right hnew
  | requested hpath hraw hentry hnew =>
    exact (carries_of_handleKnownPathRequest hp hpath hraw hentry).resolve_right hnew
  | retried h retransmitTimeout retries localRebroadcasts ih => exact ⟨ih.1, ih.2, ih.3, ih.4⟩

/-! ## The same announce -/

variable (P : Primitives)

/-- What a node makes of an announce packet: `AnnounceData::unpack` and `validate`. -/
def announceVerdict (p : RawPacket) : Except AnnounceError ValidatedAnnounce :=
  (AnnounceData.unpack p.data (p.flags.contextFlag = flagSet)).bind fun announce =>
    announce.validate P p.destinationHash

def SameAnnounce (p : RawPacket) (raw : Bytes) : Prop :=
  ∃ q, unpack P raw = .ok q ∧ q.destinationHash = p.destinationHash ∧ q.data = p.data ∧
    q.flags.contextFlag = p.flags.contextFlag ∧ announceVerdict P q = announceVerdict P p

/-- The announce gets a transport header where it starts. -/
def GetsHeader (p : RawPacket) (destType : UInt8) (info : InterfaceInfo)
    (options : OutboundRouteOptions) : Prop :=
  options.identityHash.isSome ∧ options.localHopsDelta ≠ 0 ∧ p.hops = 0 ∧
    destType ≠ plain ∧ destType ≠ group ∧ ¬info.isLocalClient ∧
    p.flags.headerType = header1

variable {P} {p : RawPacket}

theorem sameAnnounce_of_unpack {q : RawPacket} (hunpack : unpack P raw = .ok q)
    (hdest : q.destinationHash = p.destinationHash) (hdata : q.data = p.data)
    (hflag : q.flags.contextFlag = p.flags.contextFlag) : SameAnnounce P p raw := by
  refine ⟨q, hunpack, hdest, hdata, hflag, ?_⟩
  unfold announceVerdict
  rw [hdest, hdata, hflag]

theorem retransmit_flags : ∀ b : UInt8,
    let flags := PacketFlags.unpack (header2 <<< 6 |||
      ((PacketFlags.unpack b).contextFlag &&& 0x01) <<< 5 ||| TransportType.transport <<< 4 |||
      (b &&& 0x0F))
    flags.headerType = header2 ∧
      flags.contextFlag = (PacketFlags.unpack b).contextFlag := by
  decide +kernel

theorem localHopsDelta_eq_some_iff {destType hops : UInt8} {info : InterfaceInfo}
    {options : OutboundRouteOptions} :
    localHopsDelta p destType info options = some hops ↔ hops = options.localHopsDelta ∧
      options.localHopsDelta ≠ 0 ∧ p.hops = 0 ∧ destType ≠ plain ∧
      destType ≠ group ∧ ¬info.isLocalClient := by
  unfold localHopsDelta
  split_ifs with h
  · simp only [false_iff]
    tauto
  · simp only [Option.some.injEq, eq_comm (a := hops)]
    tauto

section

variable (hp : p.Received P)
include hp

theorem sameAnnounce_iff {b : UInt8} (hframe : p.FrameOf b raw) :
    SameAnnounce P p raw ↔ (unpack b).contextFlag = p.flags.contextFlag := by
  obtain ⟨q, hunpack, hsame, hflags⟩ := hframe.unpack_same hp
  constructor
  · rintro ⟨q', hunpack', -, -, hflag, -⟩
    obtain rfl : q = q' := Except.ok.inj (hunpack.symm.trans hunpack')
    rw [← hflags, hflag]
  · intro hflag
    exact sameAnnounce_of_unpack hunpack hsame.destinationHash hsame.data (hflags ▸ hflag)

theorem contextFlag_eq_zero_iff :
    0 = p.flags.contextFlag ↔ p.flags.contextFlag ≠ flagSet := by
  have hall : ∀ b, 0 = (PacketFlags.unpack b).contextFlag ↔
      (PacketFlags.unpack b).contextFlag ≠ flagSet := by
    decide +kernel
  rw [← hp.flags_eq]
  exact hall _

theorem sameAnnounce_transport_iff (hops : UInt8) (id : Hash16) :
    SameAnnounce P p ((header2 <<< 6 ||| TransportType.transport <<< 4 |||
        (p.raw.headD 0 &&& 0x0F)) :: hops :: (id.toList ++
      p.raw.drop (if p.flags.headerType = header2 then 18 else 2))) ↔
      p.flags.contextFlag ≠ flagSet := by
  obtain ⟨htype, hlow⟩ := transport_flags ..
  have hframe := hp.frameOf_withTransport hops id htype hlow
  rw [sameAnnounce_iff hp hframe, (transport_flags_fields _).2]
  exact contextFlag_eq_zero_iff hp

theorem sameAnnounce_retransmit (hentry : entry.Carries p) (id : Hash16) :
    SameAnnounce P p (buildRetransmitAnnounce entry id) := by
  have hraw : p.raw ≠ [] := by
    intro hnil
    rcases hp.drop_eq with ⟨-, -, hdrop⟩ | ⟨-, _, -, hdrop, -⟩ <;>
      simp [hnil, payload] at hdrop
  obtain ⟨htype, hflag⟩ := retransmit_flags ..
  unfold buildRetransmitAnnounce
  simp only [hentry.packetRaw, hentry.contextFlag, ← hp.flags_eq, if_pos hraw]
  rw [← List.append_assoc]
  refine sameAnnounce_of_unpack (unpack_header2 P id entry.destinationHash entry.packetData
    htype) hentry.destinationHash hentry.packetData ?_
  rw [← hp.flags_eq]
  exact hflag

theorem sameAnnounce_self (hframe : p.FrameOf (p.raw.headD 0) raw) :
    SameAnnounce P p raw := by
  rw [sameAnnounce_iff hp hframe, hp.flags_eq]

theorem sameAnnounce_localClients_iff (e : TransportEngine) :
    SameAnnounce P p (e.announceRawForLocalClients p) ↔
      p.flags.contextFlag ≠ flagSet ∨ e.config.identityHash = none := by
  unfold announceRawForLocalClients
  cases hid : e.config.identityHash with
  | none => simp only [or_true, sameAnnounce_self hp hp.frameOf_self]
  | some id =>
    have hlen : ¬(p.raw.length < 2 ∨
        p.raw.length < if p.flags.headerType = header2 then 18 else 2) := by
      have hne : header1 ≠ header2 := by decide
      rcases hp.drop_eq with ⟨h1, -, hdrop⟩ | ⟨h2, id, -, hdrop, -⟩
      · have hlen := congrArg List.length hdrop
        simp [payload] at hlen
        rw [h1, if_neg hne]
        omega
      · have hlen := congrArg List.length hdrop
        simp [payload] at hlen
        rw [if_pos h2]
        omega
    simp only [hlen, if_false, reduceCtorEq, or_false]
    exact sameAnnounce_transport_iff hp ..

theorem sameAnnounce_rawForInterface_iff
    (hannounce : p.flags.packetType = PacketType.announce) (destType : UInt8) (info : InterfaceInfo)
    (options : OutboundRouteOptions) : SameAnnounce P p (rawForInterface p destType info options) ↔
      p.flags.contextFlag ≠ flagSet ∨ ¬GetsHeader p destType info options := by
  have hmangled : ∀ hops, SameAnnounce P p (mangleHops p.raw hops) := by
    intro hops
    unfold mangleHops
    split_ifs
    · exact sameAnnounce_self hp (hp.frameOf_self.set_hops hops)
    · exact sameAnnounce_self hp hp.frameOf_self
  unfold rawForInterface GetsHeader
  cases hdelta : localHopsDelta p destType info options with
  | none =>
    have hnone : ∀ hops, ¬localHopsDelta p destType info options = some hops := by simp [hdelta]
    have hkeeps := hnone options.localHopsDelta
    rw [localHopsDelta_eq_some_iff] at hkeeps
    simp only [sameAnnounce_self hp hp.frameOf_self, true_iff]
    tauto
  | some hops =>
    obtain ⟨-, hstarts⟩ := localHopsDelta_eq_some_iff.1 hdelta
    cases hid : options.identityHash with
    | none => simp [hmangled]
    | some id =>
      by_cases h1 : p.flags.headerType = header1
      · have htransport := sameAnnounce_transport_iff hp hops id
        have hne : header1 ≠ header2 := by decide
        rw [h1, if_neg hne] at htransport
        simp only [hannounce, h1, and_self, if_true, injectTransportHeaderWithHops, htransport,
          Option.isSome_some, true_and, and_true, hstarts]
        tauto
      · simp [h1, hmangled]

end

/-- The retransmission is always the same announce; the copy for local clients and the announce with
a transport header of this node are exactly when there is no ratchet, or no header is put on. -/
theorem reencoded_announce_same (P : Primitives) (p : RawPacket) (hp : p.Received P)
    (hannounce : p.flags.packetType = PacketType.announce) :
    (∀ entry id, EntryFor P p entry → SameAnnounce P p (buildRetransmitAnnounce entry id)) ∧
    (∀ e : TransportEngine, SameAnnounce P p (e.announceRawForLocalClients p) ↔
      p.flags.contextFlag ≠ flagSet ∨ e.config.identityHash = none) ∧
    ∀ destType info options, SameAnnounce P p (rawForInterface p destType info options) ↔
      p.flags.contextFlag ≠ flagSet ∨ ¬GetsHeader p destType info options :=
  ⟨fun _ id hentry => sameAnnounce_retransmit hp (hentry.carries hp) id,
    sameAnnounce_localClients_iff hp, sameAnnounce_rawForInterface_iff hp hannounce⟩

/-- An announce with a ratchet that verifies under the sample primitives, for the destination of
zeros. -/
def ratchetAnnounce : RawPacket where
  flags := unpack 0x21
  hops := 0
  transportId := none
  destinationHash := .replicate 16 0
  context := 0
  data := List.replicate 180 0
  raw := 0x21 :: 0 :: ((Vector.replicate 16 0 : Hash16).toList ++ 0 :: List.replicate 180 0)
  packetHash := Primitives.sample.fullHash (computeHashablePart header1
    (0x21 :: 0 :: ((Vector.replicate 16 0 : Hash16).toList ++ 0 :: List.replicate 180 0)))
  rx := ⟨none, none⟩

theorem ratchetAnnounce_received : ratchetAnnounce.Received .sample :=
  ⟨0, ⟨none, none⟩, unpack_header1 .sample (.replicate 16 0) _ (by decide)⟩

/-- A node without an identity hands the announce to its clients as it came. -/
theorem reencoded_announce_same_sample : SameAnnounce .sample ratchetAnnounce
    ((TransportEngine.new TransportEngine.sampleConfig).announceRawForLocalClients ratchetAnnounce) :=
  ((reencoded_announce_same .sample ratchetAnnounce ratchetAnnounce_received rfl).2.1 _).2 (.inr rfl)

def sharedInstance : TransportEngine :=
  { new { sampleConfig with identityHash := some (.replicate 16 3) } with
    interfaces := empty.insert 2 ⟨2, InterfaceMode.full, true, true, none, 0, 0, true,
      none, ⟨false, 0, 0, 0, 0, 0, 0⟩, 0, 0⟩ }

/-- The node accepts the announce with its ratchet; the copy its clients get has none. -/
theorem ratchet_lost_for_local_clients :
    (announceVerdict .sample ratchetAnnounce).toOption.map ValidatedAnnounce.ratchet =
        some (some (.replicate 32 0)) ∧
      ∃ raw, .forwardToLocalClients raw (some 1) ∈
          (sharedInstance.handleInbound .sample ⟨ratchetAnnounce.raw, 1, 100, ⟨none, none⟩⟩ 0).2 ∧
        ¬SameAnnounce .sample ratchetAnnounce raw := by
  have hp : { ratchetAnnounce with hops := 1 }.Received .sample := ratchetAnnounce_received
  refine ⟨by decide +kernel, sharedInstance.announceRawForLocalClients { ratchetAnnounce with hops := 1 },
    by decide +kernel, fun hsame => ?_⟩
  rcases (sameAnnounce_localClients_iff hp ..).1 hsame with hflag | hnone
  · exact hflag rfl
  · cases hnone

end Rns.Transport

import Rns.LinkManager.Closure
import Rns.LinkManager.Route

/-!
# The link manager: what calls do to the channels

Only a few calls reach the channel of a link; everything else leaves it and the packets that wait for a
proof as they are.
-/

namespace Rns

variable (P : Primitives) (K : KeyPrimitives) (E : LinkEnv)

/-- What a manager is called with; `flushChannelTx` forgets the messages of a channel. -/
inductive LinkCall where
  | event (e : LinkEvent)
  | flushChannelTx (linkId : LinkId)

/-- `flush_channel_tx` on a link. -/
def ManagedLink.flushChannelTx (l : ManagedLink) : ManagedLink :=
  { l with channel := l.channel.map Channel.flushTx }

/-- The manager with all the calls that concern channels. -/
def calls (ephemeral : Entropy → Vector UInt8 32) (sessions : LinkId → LinkSession) :
    Machine LinkManager LinkCall LinkManagerAction where
  step m call := match call with
    | .event e => (operations P K E ephemeral sessions).step m e
    | .flushChannelTx linkId => m.onLink linkId fun l => (l.flushChannelTx, [])

namespace ManagedLink

/-- The channel and the packets that wait for a proof are the same. -/
structure KeepsChannel (l l' : ManagedLink) : Prop where
  engine : l.engine.Advance l'.engine
  channel : l'.channel = l.channel
  pendingChannelPackets : l'.pendingChannelPackets = l.pendingChannelPackets

variable {l l' l'' : ManagedLink}

theorem KeepsChannel.refl (l : ManagedLink) : l.KeepsChannel l := ⟨.refl _, rfl, rfl⟩

theorem KeepsChannel.trans (h : l.KeepsChannel l') (h' : l'.KeepsChannel l'') : l.KeepsChannel l'' where
  engine := h.engine.trans h'.engine
  channel := h'.channel.trans h.channel
  pendingChannelPackets := h'.pendingChannelPackets.trans h.pendingChannelPackets

theorem Quiet.keepsChannel (h : l.Quiet l') : l.KeepsChannel l' :=
  ⟨h.engine, h.channel, h.pendingChannelPackets⟩

/-- What a packet does to the channel of its link, unless it is a proof: nothing, or the link gets its
channel, or a message is received. -/
inductive Hears (l l' : ManagedLink) : Prop where
  | kept (h : l.KeepsChannel l')
  | started (hearly : l.engine.state.Early) (hlate : ¬l'.engine.state.Early) (rtt : ℚ)
      (hchannel : l'.channel = some (.new rtt))
      (hpending : l'.pendingChannelPackets = l.pendingChannelPackets)
  | received (hengine : l.engine.Advance l'.engine) {c : Channel} (raw : Bytes)
      (hbefore : l.channel = some c) (hchannel : l'.channel = some (c.receive raw).1)
      (hpending : l'.pendingChannelPackets = l.pendingChannelPackets)

theorem KeepsChannel.hears (h : l.KeepsChannel l') (h' : l'.Hears l'') : l.Hears l'' := by
  cases h' with
  | kept h' => exact .kept (h.trans h')
  | started hearly hlate rtt hchannel hpending =>
    exact .started (h.engine.early hearly ▸ hearly) hlate rtt hchannel
      (hpending.trans h.pendingChannelPackets)
  | received hengine raw hbefore hchannel hpending =>
    exact .received (h.engine.trans hengine) raw (h.channel ▸ hbefore) hchannel
      (hpending.trans h.pendingChannelPackets)

end ManagedLink

/-! ## Packets -/

theorem Channel.receive_actions {c : Channel} {raw : Bytes} {action : ChannelAction}
    (h : action ∈ (c.receive raw).2) :
    ∃ msgtype payload sequence, action = .messageReceived msgtype payload sequence := by
  have hcollect : ∀ (ring : List Envelope) (next : UInt16), action ∈ (collect next ring).2.2 →
      ∃ msgtype payload sequence, action = .messageReceived msgtype payload sequence := by
    intro ring
    induction ring with
    | nil => exact nofun
    | cons envelope ring ih =>
      intro next hmem
      rw [collect] at hmem
      split_ifs at hmem
      · dsimp only at hmem
        split at hmem
        · rcases List.mem_cons.mp hmem with rfl | hmem
          · exact ⟨_, _, _, rfl⟩
          · exact ih _ hmem
        · exact ih _ hmem
      · cases hmem
  unfold receive at h
  split at h
  · cases h
  · split_ifs at h
    · cases h
    · cases h
    · exact hcollect _ _ h

namespace ManagedLink

variable {P E} {l : ManagedLink} (linkId : LinkId)

theorem processChannelActions_received {actions : List ChannelAction} (h : ∀ action ∈ actions,
      ∃ msgtype payload sequence, action = .messageReceived msgtype payload sequence)
    (rng : Entropy) : (l.processChannelActions P E linkId rng actions).1 = l := by
  induction actions generalizing rng with
  | nil => rfl
  | cons action rest ih =>
    obtain ⟨msgtype, payload, sequence, rfl⟩ := h action List.mem_cons_self
    exact ih (fun action hmem => h action (List.mem_cons_of_mem _ hmem)) (rng.after 1)

theorem hears_receiveOnChannel (l : ManagedLink) (plaintext : Bytes) (rng : Entropy) :
    l.Hears (l.receiveOnChannel P E linkId plaintext rng).1 := by
  unfold receiveOnChannel
  split
  · exact .kept (.refl l)
  · next c hchannel =>
    dsimp only
    rw [processChannelActions_received linkId fun action => Channel.receive_actions]
    exact .received (.refl _) plaintext hchannel rfl rfl

theorem hears_startChannel {l l' : ManagedLink} (hearly : l.engine.state.Early)
    (hactive : l'.engine.state = .active)
    (hpending : l'.pendingChannelPackets = l.pendingChannelPackets) : l.Hears l'.startChannel := by
  have hlate : ¬l'.engine.state.Early := by
    rw [hactive]
    rintro (h | h) <;> cases h
  rw [startChannel, if_pos hactive]
  exact .started hearly hlate _ rfl hpending

theorem hears_handleContext (m : LinkManager) (l : ManagedLink) (packet : RawPacket)
    (packetHash : Hash32) (rng : Entropy) (now : ℚ) :
    l.Hears (m.handleContext P E l linkId packet packetHash rng now).1 := by
  by_cases hrtt : packet.context = PacketContext.lrRtt
  · simp only [LinkManager.handleContext, if_pos hrtt]
    cases hlrrtt : l.handleLrrtt P E packet.data now with
    | none => exact .kept (.refl l)
    | some active =>
      obtain ⟨hstate, hactive, hquiet, -⟩ := told_handleLrrtt P E linkId hlrrtt
      exact hears_startChannel (.inr hstate) hactive hquiet.pendingChannelPackets
  by_cases hchannel : packet.context = PacketContext.channel
  · rw [LinkManager.handleContext_channel P E hchannel, decrypted]
    split
    · exact .kept (.refl l)
    · have hinbound := (quiet_engine (l := l) (LinkEngine.advance_recordInbound l.engine now)).keepsChannel
      exact hinbound.hears (hears_receiveOnChannel linkId _ _ rng)
  · exact .kept (LinkManager.proper_handleContext P E m linkId l hrtt hchannel packetHash rng now).quiet.keepsChannel

end ManagedLink

/-! ## Calls -/

/-- What a call does to the channel of a link that is there. -/
inductive ChannelMove (linkId : LinkId) (l : ManagedLink) : LinkCall → ManagedLink → Prop where
  | heard {call : LinkCall} {l' : ManagedLink} (h : l.Hears l') : ChannelMove linkId l call l'
  | proved {raw : Bytes} {packetHash : Hash32} {interface : Transport.InterfaceId} {rng : Entropy}
      {now : ℚ} {packet : RawPacket} (hunpack : RawPacket.unpack P raw = .ok packet)
      (htype : packet.flags.packetType = PacketType.proof)
      (hcontext : packet.context ∉ [PacketContext.lrProof, PacketContext.resourcePrf]) :
      ChannelMove linkId l (.event (.packet linkId raw packetHash interface rng now))
        (l.handleLinkProof packet.data)
  | sent {msgtype : UInt16} {payload : Bytes} {rng : Entropy} {now : ℚ} {l' : ManagedLink}
      {out : List LinkManagerAction}
      (h : l.sendChannelMessage P E linkId msgtype payload rng now = .ok (l', out)) :
      ChannelMove linkId l (.event (.sendChannelMessage linkId msgtype payload rng now)) l'
  | ticked {rng : LinkId → Entropy × Entropy} {now : ℚ} {l' : ManagedLink}
      (h : (l.tickLink P E linkId (rng linkId).1 now).1.KeepsChannel l') :
      ChannelMove linkId l (.event (.tick rng now)) l'
  | closed : ChannelMove linkId l (.event (.teardownLink linkId)) (l.teardown P linkId).1
  | flushed : ChannelMove linkId l (.flushChannelTx linkId) l.flushChannelTx

variable {f : ManagedLink → ManagedLink × List LinkManagerAction} {linkId : LinkId}

theorem ChannelMove.kept {P : Primitives} {E : LinkEnv} {l l' : ManagedLink} {call : LinkCall}
    (h : l.KeepsChannel l') : ChannelMove P E linkId l call l' :=
  .heard (.kept h)

def ManagedLink.Fresh (l : ManagedLink) : Prop := l.channel = none ∧ l.pendingChannelPackets = ∅

def LinkManager.MovesTo (m m' : LinkManager) (call : LinkCall) : Prop :=
  ∀ linkId l', m'.links[linkId]? = some l' →
    l'.Fresh ∨ ∃ l, m.links[linkId]? = some l ∧ ChannelMove P E linkId l call l'

namespace LinkManager

variable {P K E} {m : LinkManager} {call : LinkCall}

open ManagedLink

theorem MovesTo.refl (m : LinkManager) (call : LinkCall) : m.MovesTo P E m call :=
  fun _ l' h => .inr ⟨l', h, .kept (.refl l')⟩

theorem movesTo_onLink {destHash : LinkId}
    (h : ∀ l, m.links[destHash]? = some l → ChannelMove P E destHash l call (f l).1) :
    m.MovesTo P E (m.onLink destHash f).1 call := by
  intro linkId l' hl'
  cases hl : m.links[linkId]? with
  | none =>
    by_cases heq : linkId = destHash
    · rw [← heq, onLink_of_none hl, hl] at hl'
      cases hl'
    · cases hdest : m.links[destHash]? with
      | none =>
        rw [onLink_of_none hdest, hl] at hl'
        cases hl'
      | some peer =>
        have hne : ¬compare destHash linkId = .eq := by simpa using Ne.symm heq
        rw [onLink_of_some hdest, Std.ExtTreeMap.getElem?_insert, if_neg hne, hl] at hl'
        cases hl'
  | some l =>
    rw [links_onLink destHash f hl] at hl'
    obtain rfl := Option.some.inj hl'
    refine .inr ⟨l, rfl, ?_⟩
    split_ifs with heq
    · subst heq
      exact h l hl
    · exact .kept (.refl l)

theorem movesTo_insert {fresh : ManagedLink} (h : fresh.Fresh) :
    m.MovesTo P E { m with links := m.links.insert linkId fresh } call := by
  intro linkId' l' hl'
  rw [Std.ExtTreeMap.getElem?_insert] at hl'
  split_ifs at hl'
  · obtain rfl := Option.some.inj hl'
    exact .inl h
  · exact .inr ⟨l', hl', .kept (.refl l')⟩

theorem movesTo_handleLinkrequest (destHash : Hash16) (packet : RawPacket)
    (interface : Transport.InterfaceId) (rng : Entropy) (now : ℚ) :
    m.MovesTo P E (m.handleLinkrequest P E destHash packet interface rng now).1 call := by
  unfold handleLinkrequest
  split
  · exact .refl m call
  · split
    · exact .refl m call
    · exact movesTo_insert ⟨rfl, rfl⟩

section Delivery

variable (ephemeral : Entropy → Vector UInt8 32) (sessions : LinkId → LinkSession)

abbrev env (P : Primitives) (K : KeyPrimitives) (E : LinkEnv) (ephemeral : Entropy → Vector UInt8 32)
    (sessions : LinkId → LinkSession) : LinkEnv :=
  (E.withSessions P K sessions).withHandshake P K ephemeral

theorem movesTo_handleLrproof (destHash : Hash16) (packet : RawPacket)
    (interface : Transport.InterfaceId) (rng : Entropy) (now : ℚ) :
    let E := env P K E ephemeral sessions
    m.MovesTo P E (m.handleLrproof P E destHash packet interface rng now).1 call := by
  intro E'
  refine movesTo_onLink fun l _ => .heard ?_
  dsimp only
  by_cases hguard : l.engine.state ≠ .pending ∨ ¬l.engine.isInitiator
  · rw [if_pos hguard]
    exact .kept ⟨.refl _, rfl, rfl⟩
  · rw [if_neg hguard]
    rw [not_or, not_not] at hguard
    cases l.destSigPubBytes with
    | none => exact .kept ⟨.refl _, rfl, rfl⟩
    | some key =>
      dsimp only
      cases hproof : E'.handleLrproof l.engine l.mtu packet.data key now rng with
      | none => exact .kept ⟨.refl _, rfl, rfl⟩
      | some proved =>
        obtain ⟨engine, mtu, lrrtt, actions⟩ := proved
        obtain ⟨hactive, -⟩ := LinkEnv.withSessions_handleLrproof P K E hproof
        exact hears_startChannel (.inl hguard.1) hactive rfl

theorem movesTo_handleLocalDelivery (destHash : Hash16) (raw : Bytes) (packetHash : Hash32)
    (interface : Transport.InterfaceId) (rng : Entropy) (now : ℚ) :
    let E := env P K E ephemeral sessions
    m.MovesTo P E (m.handleLocalDelivery P E destHash raw packetHash interface rng now).1
      (.event (.packet destHash raw packetHash interface rng now)) := by
  intro E'
  unfold handleLocalDelivery
  split
  · exact .refl m _
  · next packet hunpack =>
    split_ifs with _ htype hlrproof hprf
    · exact movesTo_handleLinkrequest destHash packet interface rng now
    · exact movesTo_handleLrproof ephemeral sessions destHash packet interface rng now
    · exact movesTo_onLink fun l _ =>
        .kept (proper_handleResourcePrf ..).quiet.keepsChannel
    · have hcontext : packet.context ∉ [PacketContext.lrProof, PacketContext.resourcePrf] := by
        simp [hlrproof, hprf]
      exact movesTo_onLink fun l _ => .proved hunpack htype hcontext
    · refine movesTo_onLink fun l _ => .heard ?_
      have hnoted : l.KeepsChannel (l.noteRoute packet interface) := ⟨.refl _, rfl, rfl⟩
      exact hnoted.hears (hears_handleContext destHash m _ packet packetHash rng now)
    · exact .refl m _

end Delivery

/-! ### Ticks and transfers -/

theorem quiet_tickResources {linkId : LinkId} {l : ManagedLink} {rng : Entropy} {now : ℚ} :
    l.Quiet (l.tickResources P E linkId rng now).1 :=
  (still_transfers ..).toQuiet.trans (quiet_processResourceActions ..)

theorem movesTo_tick (rng : LinkId → Entropy × Entropy) (now : ℚ) :
    m.MovesTo P E (m.tick P E rng now).1 (.event (.tick rng now)) := by
  intro linkId l' hl'
  rw [links_tick] at hl'
  obtain ⟨hmapped, -⟩ := Option.filter_eq_some_iff.mp hl'
  obtain ⟨l, hl, rfl⟩ := Option.map_eq_some_iff.mp hmapped
  exact .inr ⟨l, hl, .ticked (quiet_tickResources ..).keepsChannel⟩

theorem movesTo_sendChannelMessage {linkId : LinkId} {msgtype : UInt16} {payload : Bytes}
    {rng : Entropy} {now : ℚ} :
    m.MovesTo P E ((m.sendChannelMessage P E linkId msgtype payload rng now).toOption.getD (m, [])).1
      (.event (.sendChannelMessage linkId msgtype payload rng now)) := by
  rw [sendChannelMessage]
  cases hl : m.links[linkId]? with
  | none => exact .refl m _
  | some l =>
    dsimp only
    cases hsent : l.sendChannelMessage P E linkId msgtype payload rng now with
    | error e => exact .refl m _
    | ok sent =>
      have hmoves : m.MovesTo P E (m.onLink linkId fun _ => sent).1
          (.event (.sendChannelMessage linkId msgtype payload rng now)) :=
        movesTo_onLink fun l' hl' => Option.some.inj (hl.symm.trans hl') ▸ .sent hsent
      rw [onLink_of_some hl] at hmoves
      exact hmoves

theorem movesTo_createLink {args : CreateLinkArgs} : m.MovesTo P E (m.createLink P K args).1 call := by
  unfold createLink
  split
  · exact .refl m _
  · exact movesTo_insert ⟨rfl, rfl⟩

theorem movesTo_of_still (h : ∀ l : ManagedLink, l.Still (f l).1) :
    m.MovesTo P E (m.onLink linkId f).1 call :=
  movesTo_onLink fun l _ => .kept (h l).toQuiet.keepsChannel

theorem movesTo_step (ephemeral : Entropy → Vector UInt8 32) (sessions : LinkId → LinkSession)
    (call : LinkCall) :
    m.MovesTo P (env P K E ephemeral sessions) ((calls P K E ephemeral sessions).step m call).1
      call := by
  cases call with
  | event e =>
    simp only [calls, operations]
    cases e with
    | packet destHash raw packetHash interface rng now =>
      exact movesTo_handleLocalDelivery ephemeral sessions destHash raw packetHash interface rng now
    | tick rng now => exact movesTo_tick rng now
    | createLink args => exact movesTo_createLink
    | teardownLink linkId => exact movesTo_onLink fun l _ => .closed
    | sendChannelMessage linkId msgtype payload rng now =>
      exact movesTo_sendChannelMessage
    | sendRequest linkId path data stamp rng now =>
      exact movesTo_of_still fun l => (sendRequest_still ..).1
    | sendResource linkId data metadata rng now =>
      exact movesTo_of_still fun l => (sendResource_still ..).1
    | acceptResource linkId resourceHash accept rng now =>
      exact movesTo_of_still fun l => (acceptResource_still ..).1
  | flushChannelTx linkId => exact movesTo_onLink fun l _ => .flushed

end LinkManager

end Rns

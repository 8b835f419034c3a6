import Rns.LinkManager.Frames

/-!
# The link manager: what packets leave alone

Handling a packet never changes who a link belongs to, its session or its route (the route is noted
before), and only messages of the channel and the activation of a link touch its channel.
-/

namespace Rns

variable (P : Primitives) (E : LinkEnv)

namespace ManagedLink

/-- Its peer, its session and its route; the engine has taken its course. -/
structure Continues (l l' : ManagedLink) : Prop where
  engine : l.engine.Advance l'.engine
  mtu : l'.mtu = l.mtu
  destHash : l'.destHash = l.destHash
  destSigPubBytes : l'.destSigPubBytes = l.destSigPubBytes
  resourceStrategy : l'.resourceStrategy = l.resourceStrategy
  routeInterface : l'.routeInterface = l.routeInterface
  routeTransportId : l'.routeTransportId = l.routeTransportId

/-- The channel is the same too. -/
structure Quiet (l l' : ManagedLink) : Prop extends Continues l l' where
  channel : l'.channel = l.channel
  pendingChannelPackets : l'.pendingChannelPackets = l.pendingChannelPackets

/-- The engine is the same too. -/
structure Still (l l' : ManagedLink) : Prop extends Quiet l l' where
  sameEngine : l'.engine = l.engine

variable {l l' l'' : ManagedLink} (linkId : LinkId)

theorem Continues.trans (h : l.Continues l') (h' : l'.Continues l'') : l.Continues l'' where
  engine := h.engine.trans h'.engine
  mtu := h'.mtu.trans h.mtu
  destHash := h'.destHash.trans h.destHash
  destSigPubBytes := h'.destSigPubBytes.trans h.destSigPubBytes
  resourceStrategy := h'.resourceStrategy.trans h.resourceStrategy
  routeInterface := h'.routeInterface.trans h.routeInterface
  routeTransportId := h'.routeTransportId.trans h.routeTransportId

theorem Quiet.trans (h : l.Quiet l') (h' : l'.Quiet l'') : l.Quiet l'' where
  toContinues := h.toContinues.trans h'.toContinues
  channel := h'.channel.trans h.channel
  pendingChannelPackets := h'.pendingChannelPackets.trans h.pendingChannelPackets

theorem quiet_engine {engine : LinkEngine} (h : l.engine.Advance engine) : l.Quiet { l with engine } :=
  ⟨⟨h, rfl, rfl, rfl, rfl, rfl, rfl⟩, rfl, rfl⟩

theorem Quiet.refl (l : ManagedLink) : l.Quiet l := quiet_engine (.refl _)

theorem still_transfers (l : ManagedLink) (incomingResources : List ResourceReceiver)
    (outgoingResources : List ResourceSender)
    (incomingSplits : Std.ExtTreeMap Hash32 IncomingSplitTransfer)
    (outgoingSplits : Std.ExtTreeMap Hash32 OutgoingSplitTransfer) :
    l.Still { l with incomingResources, outgoingResources, incomingSplits, outgoingSplits } :=
  ⟨⟨⟨.refl _, rfl, rfl, rfl, rfl, rfl, rfl⟩, rfl, rfl⟩, rfl⟩

theorem Still.refl (l : ManagedLink) : l.Still l := ⟨.refl l, rfl⟩

theorem Still.trans (h : l.Still l') (h' : l'.Still l'') : l.Still l'' :=
  ⟨h.toQuiet.trans h'.toQuiet, h'.sameEngine.trans h.sameEngine⟩

section

variable (l : ManagedLink)

theorem continues_channel (channel : Option Channel)
    (pendingChannelPackets : Std.ExtTreeMap Hash32 UInt16) :
    l.Continues { l with channel, pendingChannelPackets } :=
  ⟨.refl _, rfl, rfl, rfl, rfl, rfl, rfl⟩

/-! ## Transfers -/

theorem quiet_processResourceAction (iv : Vector UInt8 16) (action : ResourceAction) :
    l.Quiet (l.processResourceAction P E linkId iv action).1 := by
  cases action with
  | teardownLink => exact quiet_engine (LinkEngine.advance_closeWith _ _)
  | _ => exact .refl l

theorem quiet_processResourceActions (rng : Entropy) (actions : List ResourceAction) :
    l.Quiet (l.processResourceActions P E linkId rng actions).1 := by
  induction actions generalizing l rng with
  | nil => exact .refl l
  | cons action rest ih =>
    exact (quiet_processResourceAction ..).trans (ih _ (rng.after 1))

theorem still_openSplit (originalHash : Hash32) (r : ResourceReceiver) :
    l.Still (l.openSplit originalHash r) := by
  unfold openSplit
  split
  · exact still_transfers ..
  · exact .refl l

/-! ## The channel -/

theorem continues_startChannel : l.Continues l.startChannel := by
  unfold startChannel
  split
  · exact continues_channel l _ _
  · exact (Quiet.refl l).toContinues

theorem continues_cancelSend (sequence : UInt16) : l.Continues (l.cancelSend sequence) :=
  continues_channel l _ _

theorem continues_processChannelAction (iv : Vector UInt8 16) (action : ChannelAction) :
    l.Continues (l.processChannelAction P E linkId iv action).1 ∧
      (l.processChannelAction P E linkId iv action).1.engine = l.engine := by
  cases action with
  | sendOnLink raw sequence =>
    simp only [processChannelAction]
    split
    · exact ⟨continues_cancelSend .., rfl⟩
    · split
      · exact ⟨continues_cancelSend .., rfl⟩
      · exact ⟨continues_channel l _ _, rfl⟩
  | messageReceived | teardownLink => exact ⟨(Quiet.refl l).toContinues, rfl⟩

theorem continues_processChannelActions (rng : Entropy) (actions : List ChannelAction) :
    l.Continues (l.processChannelActions P E linkId rng actions).1 ∧
      (l.processChannelActions P E linkId rng actions).1.engine = l.engine := by
  induction actions generalizing l rng with
  | nil => exact ⟨(Quiet.refl l).toContinues, rfl⟩
  | cons action rest ih =>
    obtain ⟨hone, hengine⟩ := continues_processChannelAction ..
    obtain ⟨hrest, hengine'⟩ := ih (l.processChannelAction P E linkId (rng.iv 0) action).1 (rng.after 1)
    exact ⟨hone.trans hrest, hengine'.trans hengine⟩

theorem continues_receiveOnChannel (plaintext : Bytes) (rng : Entropy) :
    l.Continues (l.receiveOnChannel P E linkId plaintext rng).1 ∧
      (l.receiveOnChannel P E linkId plaintext rng).1.engine = l.engine := by
  unfold receiveOnChannel
  split
  · exact ⟨(Quiet.refl l).toContinues, rfl⟩
  · next channel _ =>
    obtain ⟨h, hengine⟩ := continues_processChannelActions P E linkId
      { l with channel := some (channel.receive ..).1 } ..
    exact ⟨(continues_channel l _ _).trans h, hengine⟩

theorem continues_handleLinkProof (data : Bytes) :
    l.Continues (l.handleLinkProof data) ∧ (l.handleLinkProof data).engine = l.engine := by
  rw [handleLinkProof]
  by_cases hshort : data.length < 32
  · rw [if_pos hshort]
    exact ⟨(Quiet.refl l).toContinues, rfl⟩
  · rw [if_neg hshort]
    dsimp only
    cases l.pendingChannelPackets[Bytes.fixed 32 data 0]? with
    | none => exact ⟨(Quiet.refl l).toContinues, rfl⟩
    | some sequence => exact ⟨continues_channel l _ _, rfl⟩

end

end ManagedLink

end Rns

import Rns.Channel.Rings
import Rns.Lib.Total
import Rns.LinkManager.Reports

/-!
# The link manager: how a link ends

A link is closed once, and the application is told in that step and hears nothing of the link afterwards.
The channel does not keep to it when its retries are used up, nor does a closed link that still takes
packets, or whose transfers tick once more before it is removed.
-/

namespace Rns

open ManagedLink Std.ExtTreeMap
open PacketContext (lrRtt linkIdentify keepalive linkClose)
open RawPacket (unpack)

variable (P : Primitives) (K : KeyPrimitives) (E : LinkEnv)

/-! ## What is told of one link -/

/-- The callbacks of a link, in order; `true` for its closing. -/
def reports (linkId : LinkId) (out : List LinkManagerAction) : List Bool :=
  out.filterMap fun a => (a.report.filter fun r => r.1 = linkId).map Prod.snd

def ClosedOnce (linkId : LinkId) (out : List LinkManagerAction) : Prop :=
  ∀ before reason after, out = before ++ .linkClosed linkId reason :: after →
    ∀ a ∈ after, ∀ closes, a.report ≠ some (linkId, closes)

section Outputs

variable {linkId other : LinkId} {out out' : List LinkManagerAction}

theorem reports_append : reports linkId (out ++ out') = reports linkId out ++ reports linkId out' :=
  List.filterMap_append ..

theorem mem_reports {closes : Bool} :
    closes ∈ reports linkId out ↔ ∃ a ∈ out, a.report = some (linkId, closes) := by
  simp only [reports, List.mem_filterMap, Option.map_eq_some_iff, Option.filter_eq_some_iff,
    decide_eq_true_eq]
  constructor
  · rintro ⟨a, ha, ⟨id, closes'⟩, ⟨hr, rfl⟩, rfl⟩
    exact ⟨a, ha, hr⟩
  · rintro ⟨a, ha, hr⟩
    exact ⟨a, ha, _, ⟨hr, rfl⟩, rfl⟩

theorem Mute.reports (h : Mute out) : reports linkId out = [] := by
  refine List.eq_nil_iff_forall_not_mem.2 fun closes hmem => ?_
  obtain ⟨a, ha, hr⟩ := mem_reports.1 hmem
  rw [h a ha] at hr
  cases hr

theorem Own.reports_other (h : Own other out) (hne : other ≠ linkId) : reports linkId out = [] := by
  refine List.eq_nil_iff_forall_not_mem.2 fun closes hmem => ?_
  obtain ⟨a, ha, hr⟩ := mem_reports.1 hmem
  exact hne (h a ha _ hr).symm

theorem Calls.reports (h : Calls linkId out) : ∀ closes ∈ reports linkId out, closes = false := by
  intro closes hmem
  obtain ⟨a, ha, hr⟩ := mem_reports.1 hmem
  exact congrArg Prod.snd (h a ha _ hr)

theorem reports_closed (reason : Option TeardownReason) (out : List LinkManagerAction) :
    reports linkId (.linkClosed linkId reason :: out) = true :: reports linkId out := by
  simp [reports, LinkManagerAction.report]

theorem Ends.reports (h : Ends linkId out) :
    ∃ calls, reports linkId out = calls ++ [true] ∧ ∀ closes ∈ calls, closes = false := by
  obtain ⟨before, reason, after, rfl, hbefore, hafter⟩ := h
  refine ⟨Rns.reports linkId before, ?_, hbefore.reports⟩
  rw [reports_append, reports_closed, hafter.reports]

theorem closedOnce_of_reports {calls : List Bool} (hcalls : ∀ closes ∈ calls, closes = false)
    (h : reports linkId out = calls ∨ reports linkId out = calls ++ [true]) : ClosedOnce linkId out := by
  rintro before reason after rfl a ha closes hr
  rw [reports_append, reports_closed] at h
  have hafter : closes ∈ reports linkId after := mem_reports.2 ⟨a, ha, hr⟩
  have hfalse : true ∉ calls := fun hmem => nomatch hcalls true hmem
  obtain h | h := h
  · exact hfalse (by rw [← h]; simp)
  · obtain hnil | ⟨init, last, hlast⟩ := List.eq_nil_or_concat (reports linkId after)
    · rw [hnil] at hafter
      cases hafter
    -- the closing would not be the last of the callbacks
    · rw [hlast, List.concat_eq_append, ← List.cons_append, ← List.append_assoc] at h
      exact hfalse (by rw [← (List.append_inj' h rfl).1]; simp)

end Outputs

/-! ## Links that are open -/

variable (l : ManagedLink) (id : LinkId)

variable {f : ManagedLink → ManagedLink × List LinkManagerAction} {e : LinkEvent}
  {out : List LinkManagerAction} {packet : RawPacket} {destHash : Hash16}

namespace LinkManager

variable {m m' : LinkManager} {linkId : LinkId} {out : List LinkManagerAction}

def Open (m : LinkManager) (linkId : LinkId) : Prop := ∃ l, m.links[linkId]? = some l ∧ ¬l.Closed

theorem open_congr (h : m'.links[linkId]? = m.links[linkId]?) : m'.Open linkId ↔ m.Open linkId := by
  rw [Open, Open, h]

/-- What a step does to a link, and what it tells of it. -/
inductive Told (linkId : LinkId) (m m' : LinkManager) (out : List LinkManagerAction) : Prop where
  | kept (hopen : m.Open linkId) (hopen' : m'.Open linkId)
      (hcalls : ∀ closes ∈ reports linkId out, closes = false)
  | closes (hopen : m.Open linkId) (hgone : ¬m'.Open linkId)
      (hends : ∃ calls, reports linkId out = calls ++ [true] ∧ ∀ closes ∈ calls, closes = false)
  | gone (hgone : ¬m.Open linkId) (hgone' : ¬m'.Open linkId) (hnone : reports linkId out = [])

theorem told_unchanged (h : m'.links[linkId]? = m.links[linkId]?) (hnone : reports linkId out = []) :
    Told linkId m m' out := by
  by_cases hopen : m.Open linkId
  · exact .kept hopen ((open_congr h).2 hopen) (by simp [hnone])
  · exact .gone hopen (fun h' => hopen ((open_congr h).1 h')) hnone

theorem told_of_link {l l' : ManagedLink} {told : List LinkManagerAction} (hl : m.links[linkId]? = some l)
    (hl' : m'.Open linkId ↔ ¬l'.Closed) (htold : ManagedLink.Told linkId l l' told)
    (hmute : l.Closed → Mute told) (hout : reports linkId out = reports linkId told) :
    Told linkId m m' out := by
  have hopen : m.Open linkId ↔ ¬l.Closed := by simp [Open, hl]
  cases htold with
  | kept hkept hcalls =>
    by_cases hclosed : l.Closed
    · exact .gone (fun h => hopen.1 h hclosed) (fun h => hl'.1 h (hkept.2 hclosed))
        (hout.trans (hmute hclosed).reports)
    · exact .kept (hopen.2 hclosed) (hl'.2 fun h => hclosed (hkept.1 h)) (hout ▸ hcalls.reports)
  | closes hopens hclosed hends =>
    exact .closes (hopen.2 hopens) (fun h => hl'.1 h hclosed) (hout ▸ hends.reports)

theorem told_onLink (htold : ∀ l, m.links[id]? = some l → ManagedLink.Told id l (f l).1 (f l).2)
    (hmute : id = linkId → ∀ l, m.links[linkId]? = some l → l.Closed → Mute (f l).2) :
    Told linkId m (m.onLink id f).1 (m.onLink id f).2 := by
  unfold onLink
  cases hl : m.links[id]? with
  | none => exact told_unchanged rfl rfl
  | some l =>
    by_cases hid : id = linkId
    · subst hid
      exact told_of_link hl (by simp [Open]) (htold l hl) (hmute rfl l hl) rfl
    · refine told_unchanged ?_ ((htold l hl).own.reports_other hid)
      rw [getElem?_insert, if_neg (by simpa using hid)]

end LinkManager

/-! ## Ticks of a link -/

/-- The engine is closed after a tick at this time. -/
def LinkEngine.Expires (e : LinkEngine) (now : ℚ) : Prop :=
  match e.state with
  | .pending | .handshake => Keepalive.isEstablishmentTimeout e.requestTime e.establishmentTimeout now
  | .active => False
  | .stale | .closed => True

instance (e : LinkEngine) (now : ℚ) : Decidable (e.Expires now) := by
  unfold LinkEngine.Expires
  split <;> infer_instance

theorem LinkEngine.tick_cases (e : LinkEngine) (now : ℚ) :
    (e.state = .closed ∧ e.Expires now ∧ e.tick now = (e, [])) ∨
    (e.state ≠ .closed ∧ e.Expires now ∧ e.tick now =
      ({ e with state := .closed }, [.stateChanged e.linkId .closed (some .timeout)])) ∨
    (e.state ≠ .closed ∧ ¬e.Expires now ∧ (e.tick now).1.state ≠ .closed ∧
      ∀ id reason, .stateChanged id .closed reason ∉ (e.tick now).2) := by
  unfold tick Expires
  cases hstate : e.state with
  | pending | handshake =>
    dsimp only
    by_cases hlate : Keepalive.isEstablishmentTimeout e.requestTime e.establishmentTimeout now
    · exact .inr (.inl ⟨by decide, hlate, if_pos hlate⟩)
    · rw [if_neg hlate]
      exact .inr (.inr ⟨by decide, hlate, by simp [hstate], by simp⟩)
  | active =>
    refine .inr (.inr ⟨by decide, id, ?_⟩)
    dsimp only
    split <;> simp [hstate]
  | stale => exact .inr (.inl ⟨by decide, trivial, rfl⟩)
  | closed => exact .inl ⟨rfl, trivial, rfl⟩

namespace ManagedLink

variable (l : ManagedLink) (linkId : LinkId) (rng : Entropy) (now : ℚ)

/-- After the engine the keepalive and the channel follow; they do not change the state of the link, and
are silent if no message has used up its tries. -/
theorem tickLink_cases : ∃ rest, Own linkId rest ∧ ((∀ c ∈ l.channel, c.HasTries now) → Mute rest) ∧
    (l.tickLink P E linkId rng now).2 = l.processLinkActions linkId (l.engine.tick now).2 ++ rest ∧
    (l.tickLink P E linkId rng now).1.engine.state = (l.engine.tick now).1.state ∧
    (l.tickLink P E linkId rng now).1.incomingResources = l.incomingResources ∧
    (l.tickLink P E linkId rng now).1.outgoingResources = l.outgoingResources := by
  unfold tickLink
  dsimp only
  generalize hkept : (if (l.engine.tick now).1.needsKeepalive now then _ else _ :
    ManagedLink × List LinkManagerAction) = kept
  have hsame : kept.1.engine.state = (l.engine.tick now).1.state ∧ kept.1.channel = l.channel ∧
      kept.1.incomingResources = l.incomingResources ∧
      kept.1.outgoingResources = l.outgoingResources ∧ Mute kept.2 := by
    rw [← hkept]
    split
    · split
      · exact ⟨rfl, rfl, rfl, rfl, mute_nil⟩
      · exact ⟨rfl, rfl, rfl, rfl, mute_sendLinkPacket P _ _ _ _ _⟩
    · exact ⟨rfl, rfl, rfl, rfl, mute_nil⟩
  clear hkept
  obtain ⟨kept, sent⟩ := kept
  obtain ⟨hstate, hchannel, hincoming, houtgoing, hmute⟩ := hsame
  dsimp only at hstate hchannel hincoming houtgoing hmute ⊢
  cases hc : kept.channel with
  | none => exact ⟨sent, Calls.own hmute.calls, fun _ => hmute, rfl, hstate, hincoming, houtgoing⟩
  | some c =>
    obtain ⟨channel, pending, hframe⟩ := processChannelActions_frame P E linkId
      { kept with channel := some (c.tick now).1 } ..
    refine ⟨sent ++ _, (Calls.own hmute.calls).append (own_processChannelActions P E _ linkId rng _),
      fun htries => hmute.append (mute_processChannelActions P E _ linkId
        (htries c (hchannel ▸ hc)).tick.2.2 rng), List.append_assoc _ _ _, ?_⟩
    rw [hframe]
    exact ⟨hstate, hincoming, houtgoing⟩

theorem tickResources_cases (hcomplete : ∀ r ∈ l.incomingResources, ¬r.Complete) :
    (l.tickResources P E linkId rng now).1.engine = l.engine ∧
    Calls linkId (l.tickResources P E linkId rng now).2 ∧
    ((∀ s ∈ l.outgoingResources, ¬s.GivesUp now) → (∀ r ∈ l.incomingResources, ¬r.GivesUp now) →
      Mute (l.tickResources P E linkId rng now).2) := by
  have hsenders : ∀ action ∈ (l.outgoingResources.map fun s => s.tick now).flatMap Prod.snd,
      (∃ data, action = .sendAdvertisement data) ∨
        (∃ s ∈ l.outgoingResources, s.GivesUp now) ∧ ∃ error, action = .failed error := by
    intro action hmem
    simp only [List.mem_flatMap, List.mem_map] at hmem
    obtain ⟨_, ⟨s, hs, rfl⟩, hmem⟩ := hmem
    obtain hsent | ⟨hgives, hfailed⟩ := ResourceSender.tick_actions hmem
    · exact .inl hsent
    · exact .inr ⟨⟨s, hs, hgives⟩, hfailed⟩
  have hreceivers : ∀ action ∈ (l.incomingResources.map fun r =>
        r.tick P now (l.decrypt E) E.compressor).flatMap Prod.snd,
      (∃ data, action = .sendRequest data) ∨
        (∃ r ∈ l.incomingResources, r.GivesUp now) ∧ ∃ error, action = .failed error := by
    intro action hmem
    simp only [List.mem_flatMap, List.mem_map] at hmem
    obtain ⟨_, ⟨r, hr, rfl⟩, hmem⟩ := hmem
    obtain hsent | ⟨hgives, hfailed⟩ := ResourceReceiver.tick_actions P (hcomplete r hr) now _ _ hmem
    · exact .inl hsent
    · exact .inr ⟨⟨r, hr, hgives⟩, hfailed⟩
  have hkeeps : ResourceAction.teardownLink ∉
      (l.outgoingResources.map fun s => s.tick now).flatMap Prod.snd ++
        (l.incomingResources.map fun r => r.tick P now (l.decrypt E) E.compressor).flatMap Prod.snd := by
    intro hmem
    obtain hmem | hmem := List.mem_append.1 hmem
    · obtain ⟨_, h⟩ | ⟨-, _, h⟩ := hsenders _ hmem <;> cases h
    · obtain ⟨_, h⟩ | ⟨-, _, h⟩ := hreceivers _ hmem <;> cases h
  unfold tickResources
  dsimp only
  refine ⟨?_, calls_processResourceActions P E _ linkId hkeeps rng, fun hs hr =>
    mute_processResourceActions P E _ linkId (fun action hmem => ?_) rng⟩
  · rw [processResourceActions_engine P E _ linkId hkeeps]
  · obtain hmem | hmem := List.mem_append.1 hmem
    · obtain ⟨_, rfl⟩ | ⟨⟨s, hmem, hgives⟩, -⟩ := hsenders _ hmem
      · rfl
      · exact absurd hgives (hs s hmem)
    · obtain ⟨_, rfl⟩ | ⟨⟨r, hmem, hgives⟩, -⟩ := hreceivers _ hmem
      · rfl
      · exact absurd hgives (hr r hmem)

/-- A tick has nothing to report of the channel, and nothing of the transfers that would come after the
end: no overdue message has used up its tries, no transfer waits to be assembled, and none is given up
on a link that is closed or is about to be. -/
structure Settled (l : ManagedLink) (now : ℚ) : Prop where
  channel : ∀ c ∈ l.channel, c.HasTries now
  incomplete : ∀ r ∈ l.incomingResources, ¬r.Complete
  outgoing : l.engine.Expires now → ∀ s ∈ l.outgoingResources, ¬s.GivesUp now
  incoming : l.engine.Expires now → ∀ r ∈ l.incomingResources, ¬r.GivesUp now

instance (l : ManagedLink) (now : ℚ) : Decidable (l.Settled now) :=
  decidable_of_iff ((∀ c ∈ l.channel, c.HasTries now) ∧ (∀ r ∈ l.incomingResources, ¬r.Complete) ∧
      (l.engine.Expires now → ∀ s ∈ l.outgoingResources, ¬s.GivesUp now) ∧
      (l.engine.Expires now → ∀ r ∈ l.incomingResources, ¬r.GivesUp now))
    ⟨fun h => ⟨h.1, h.2.1, h.2.2.1, h.2.2.2⟩,
      fun h => ⟨h.channel, h.incomplete, h.outgoing, h.incoming⟩⟩

def tick (rngs : Entropy × Entropy) : ManagedLink × List LinkManagerAction :=
  let (l, out) := l.tickLink P E linkId rngs.1 now
  let (l, more) := l.tickResources P E linkId rngs.2 now
  (l, out ++ more)

variable {l now}

theorem Settled.told_tick (h : l.Settled now) (rngs : Entropy × Entropy) :
    Told linkId l (l.tick P E linkId now rngs).1 (l.tick P E linkId now rngs).2 ∧
      (l.Closed → Mute (l.tick P E linkId now rngs).2) := by
  obtain ⟨rest, -, hrest, hout, hstate, hincoming, houtgoing⟩ :=
    tickLink_cases ..
  obtain ⟨hengine, hcalls, hmute⟩ := tickResources_cases P E (l.tickLink P E linkId rngs.1 now).1 linkId
    rngs.2 now (by rw [hincoming]; exact h.incomplete)
  rw [hincoming, houtgoing] at hmute
  have hafter : (l.tick P E linkId now rngs).1.engine.state = (l.engine.tick now).1.state :=
    (congrArg _ hengine).trans hstate
  have hsplit : (l.tick P E linkId now rngs).2 = l.processLinkActions linkId (l.engine.tick now).2 ++
      (rest ++ ((l.tickLink P E linkId rngs.1 now).1.tickResources P E linkId rngs.2 now).2) := by
    rw [tick, ← List.append_assoc, ← hout]
  rw [hsplit]
  obtain ⟨hclosed, hexpires, htick⟩ | ⟨hopen, hexpires, htick⟩ | ⟨hopen, hexpires, hopen', hclosing⟩ :=
    l.engine.tick_cases now
  · have hquiet := (hrest h.channel).append (hmute (h.outgoing hexpires) (h.incoming hexpires))
    rw [htick] at hafter ⊢
    exact ⟨.kept (iff_of_true (hafter.trans hclosed) hclosed) hquiet.calls, fun _ => hquiet⟩
  · have hquiet := (hrest h.channel).append (hmute (h.outgoing hexpires) (h.incoming hexpires))
    rw [htick] at hafter ⊢
    exact ⟨.closes hopen hafter ((ends_singleton _).append_mute hquiet), fun h => absurd h hopen⟩
  · refine ⟨.kept (iff_of_false (fun h => hopen' (hafter.symm.trans h)) hopen) ?_, fun h => absurd h hopen⟩
    exact (calls_processLinkActions l linkId hclosing).append ((hrest h.channel).calls.append hcalls)

end ManagedLink

/-! ## Ticks of the manager -/

section Ticks

variable {linkId : LinkId}

theorem reports_links {links : Std.ExtTreeMap LinkId (ManagedLink × List LinkManagerAction)}
    (hown : ∀ id (x : ManagedLink × List LinkManagerAction), links[id]? = some x → Own id x.2) :
    reports linkId (links.toList.flatMap (·.2.2)) =
      (links[linkId]?.map fun x : ManagedLink × List LinkManagerAction => reports linkId x.2).getD [] :=
  filterMap_flatMap_toList links Prod.snd _ fun id x hx hne => (hown id x hx).reports_other hne

namespace LinkManager

variable (m : LinkManager) (rng : LinkId → Entropy × Entropy) (now : ℚ)

theorem links_tick (linkId : LinkId) : (m.tick P E rng now).1.links[linkId]? =
    (m.links[linkId]?.map fun l => (l.tick P E linkId now (rng linkId)).1).filter fun l => ¬l.Closed := by
  simp only [tick, getElem?_filter', getElem?_map, Option.map_map, decide_not]
  rfl

theorem reports_tick (linkId : LinkId) : reports linkId (m.tick P E rng now).2 =
    (m.links[linkId]?.map fun l => reports linkId (l.tick P E linkId now (rng linkId)).2).getD [] := by
  have hderegister : ∀ ids : List LinkId, Mute (ids.map .deregisterLinkDest) := fun ids a ha => by
    obtain ⟨id, -, rfl⟩ := List.mem_map.1 ha
    rfl
  unfold tick
  dsimp only
  rw [reports_append, reports_append, (hderegister _).reports, List.append_nil, reports_links, reports_links]
  · simp only [getElem?_map, Option.map_map]
    cases m.links[linkId]? with
    | none => rfl
    | some l =>
      simp only [ManagedLink.tick, reports_append]
      rfl
  · intro id x hx
    simp only [getElem?_map, Option.map_eq_some_iff] at hx
    obtain ⟨y, ⟨l, -, rfl⟩, rfl⟩ := hx
    exact own_processResourceActions P E _ id _ _
  · intro id x hx
    simp only [getElem?_map, Option.map_eq_some_iff] at hx
    obtain ⟨l, -, rfl⟩ := hx
    obtain ⟨rest, hown, -, hout, -⟩ := tickLink_cases ..
    rw [hout]
    exact (own_processLinkActions l id _).append hown

theorem told_tick (h : ∀ l, m.links[linkId]? = some l → l.Settled now) :
    Told linkId m (m.tick P E rng now).1 (m.tick P E rng now).2 := by
  have hlinks := links_tick P E m rng now linkId
  have hreports := reports_tick P E m rng now linkId
  cases hl : m.links[linkId]? with
  | none =>
    rw [hl] at hlinks hreports
    exact told_unchanged (hlinks.trans hl.symm) hreports
  | some l =>
    rw [hl] at hlinks hreports
    obtain ⟨htold, hmute⟩ := (h l hl).told_tick P E linkId ..
    refine told_of_link hl ?_ htold hmute hreports
    simp only [Open, hlinks, Option.map_some, Option.filter_eq_some_iff, decide_eq_true_eq]
    constructor
    · rintro ⟨l', ⟨heq, hopen⟩, -⟩
      rwa [Option.some.inj heq]
    · exact fun hopen => ⟨_, ⟨rfl, hopen⟩, hopen⟩

end LinkManager

end Ticks

/-! ## Packets for a closed link -/

def RawPacket.CallsBack (packet : RawPacket) : Prop :=
  packet.flags.packetType = PacketType.data ∧ packet.context ∉ [lrRtt,
      linkIdentify, keepalive, linkClose] ∨
    packet.flags.packetType = PacketType.proof ∧ packet.context = PacketContext.resourcePrf

instance (packet : RawPacket) : Decidable packet.CallsBack := inferInstanceAs (Decidable (_ ∨ _))

namespace LinkManager

variable {m : LinkManager} {linkId : LinkId}

theorem mute_handleContext {l : ManagedLink} (hclosed : l.Closed)
    (hcontext : packet.context ∈ [lrRtt, linkIdentify, keepalive, linkClose]) (packetHash : Hash32)
    (rng : Entropy) (now : ℚ) :
    Mute (m.handleContext P E l linkId packet packetHash rng now).2 := by
  have hnot : ∀ {context : UInt8}, packet.context = context → context ∉ [lrRtt,
      linkIdentify, keepalive, linkClose] → False :=
    fun heq hmem => hmem (heq ▸ hcontext)
  rw [Closed] at hclosed
  apply handleContext_cases P E (motive := fun x => Mute x.2)
  case lrRtt =>
    intro
    rw [handleLrrtt, if_pos (.inl (by rw [hclosed]; decide))]
    exact mute_nil
  case linkIdentify =>
    intro
    rw [handleIdentify, if_pos (.inl (by rw [hclosed]; decide))]
    exact mute_nil
  case keepalive => exact fun _ => ((recordInbound_kept ..).2 _).append mute_nil
  case linkClose =>
    intro
    rw [LinkEngine.handleTeardown, LinkEngine.closeWith, if_pos hclosed]
    exact mute_nil
  case other => exact fun h => absurd (List.mem_append_left _ hcontext) h
  all_goals exact fun h => (hnot h (by decide)).elim

theorem told_handleLrproof (sessions : LinkId → LinkSession) (ephemeral : Entropy → Vector UInt8 32)
    (id : LinkId) (packet : RawPacket) (interface : Transport.InterfaceId) (rng : Entropy) (now : ℚ) :
    let E := (E.withSessions P K sessions).withHandshake P K ephemeral
    Told linkId m (m.handleLrproof P E id packet interface rng now).1
      (m.handleLrproof P E id packet interface rng now).2 := by
  intro E'
  refine told_onLink id (fun l _ => ?_) (fun _ l _ hclosed => ?_)
  · dsimp only
    by_cases hguard : l.engine.state ≠ .pending ∨ ¬l.engine.isInitiator
    · rw [if_pos hguard]
      exact told_of_engine rfl calls_nil
    · rw [if_neg hguard]
      split
      · exact told_of_engine rfl calls_nil
      · split
        · exact told_of_engine rfl calls_nil
        · next hproof =>
          obtain ⟨hactive, _, _, rfl⟩ := LinkEnv.withSessions_handleLrproof P K E hproof
          simp only [not_or, not_not] at hguard
          refine (told_activated id ?_ hactive).trans
            (told_of_engine rfl (mute_sendLinkPacket P _ _ _ _ _).calls)
            fun _ => mute_sendLinkPacket P _ _ _ _ _
          rw [Closed, hguard.1]
          decide
  · dsimp only
    rw [if_pos (.inl (by rw [show l.engine.state = .closed from hclosed]; decide))]
    exact mute_nil

theorem mute_handleLinkrequest (destHash : Hash16) (packet : RawPacket)
    (interface : Transport.InterfaceId) (rng : Entropy) (now : ℚ) :
    Mute (m.handleLinkrequest P E destHash packet interface rng now).2 := by
  have hproof : ∀ id hops data, Mute (sendLrproof P id hops data) := fun id hops data a ha => by
    obtain ⟨p, -, rfl⟩ := List.mem_map.1 ha
    rfl
  have hone : ∀ {a : LinkManagerAction}, a.report = none → Mute [a] := fun h b hb => by
    rw [List.mem_singleton.1 hb, h]
  unfold handleLinkrequest
  split
  · exact mute_nil
  · split
    · exact mute_nil
    · refine Mute.append (hone rfl) ((((hproof _ _ _).append ?_).append ?_).append (hone rfl))
      · split
        · exact hproof _ _ _
        · exact mute_nil
      · split
        · exact hproof _ _ _
        · exact mute_nil

theorem told_handleLocalDelivery (sessions : LinkId → LinkSession)
    (ephemeral : Entropy → Vector UInt8 32) {raw : Bytes} (packetHash : Hash32)
    (interface : Transport.InterfaceId) (rng : Entropy) (now : ℚ)
    (hsilent : ∀ l packet, m.links[linkId]? = some l → l.Closed → destHash = linkId →
      unpack P raw = .ok packet → ¬packet.CallsBack)
    (hcreates : ∀ packet, unpack P raw = .ok packet →
      packet.flags.packetType = PacketType.linkRequest → packet.linkId P = linkId →
      m.Refuses destHash packet) :
    let E := (E.withSessions P K sessions).withHandshake P K ephemeral
    Told linkId m (m.handleLocalDelivery P E destHash raw packetHash interface rng now).1
      (m.handleLocalDelivery P E destHash raw packetHash interface rng now).2 := by
  intro E'
  unfold handleLocalDelivery
  cases hunpack : unpack P raw with
  | error e => exact told_unchanged rfl rfl
  | ok packet =>
    dsimp only
    split_ifs with hrequest hproof hlrproof hresource hdata
    · by_cases hrefuses : m.Refuses destHash packet
      · rw [handleLinkrequest_of_refuses P K _ ephemeral hrefuses]
        exact told_unchanged rfl rfl
      · refine told_unchanged ?_ (mute_handleLinkrequest P E' destHash packet interface rng now).reports
        obtain ⟨engine, mtu, ld, -, -, -, hopens⟩ :=
          handleLinkrequest_of_not_refuses P K (E.withSessions P K sessions) ephemeral hrefuses ..
        have hother : packet.linkId P ≠ linkId := fun h => hrefuses (hcreates packet hunpack hrequest h)
        rw [hopens, getElem?_insert, if_neg (by simpa using hother)]
    · exact told_handleLrproof ..
    · refine told_onLink destHash
        (fun l _ => (proper_handleResourcePrf ..).told)
        fun hid l hl hclosed => ?_
      exact absurd (.inr ⟨hproof, hresource⟩) (hsilent l packet hl hclosed hid hunpack)
    · exact told_onLink destHash
        (fun l _ => told_of_engine (continues_handleLinkProof ..).2 calls_nil)
        fun _ _ _ _ => mute_nil
    · refine told_onLink destHash (fun l _ => ?_) fun hid l hl hclosed => ?_
      · refine ManagedLink.Told.of_left ?_
          (told_handleContext ..).2
        exact Iff.rfl
      · have hcalls := hsilent l packet hl hclosed hid hunpack
        rw [RawPacket.CallsBack, not_or, not_and, not_not] at hcalls
        exact mute_handleContext P E' (l := l.noteRoute packet interface) hclosed (hcalls.1 hdata) packetHash
          rng now
    · exact told_unchanged rfl rfl

/-! ## Calls -/

theorem told_teardown :
    ManagedLink.Told linkId l (l.teardown P linkId).1 (l.teardown P linkId).2 := by
  have hmute := mute_sendLinkPacket P linkId PacketType.data linkClose [] Rns.mtu
  have htold := told_closeWith l linkId
    (if l.engine.isInitiator then .initiatorClosed else .destinationClosed)
  exact htold.trans (told_of_engine rfl hmute.calls) fun _ => hmute

theorem mute_teardown {l : ManagedLink} (hclosed : l.Closed) : Mute (l.teardown P linkId).2 := by
  have hclose : l.engine.teardown = (l.engine, []) := if_pos hclosed
  rw [teardown, hclose]
  exact mute_nil.append (mute_sendLinkPacket P _ _ _ _ _)

theorem told_call (h : ∀ l : ManagedLink, l.Still (f l).1 ∧ Mute (f l).2) :
    Told linkId m (m.onLink id f).1 (m.onLink id f).2 :=
  told_onLink id (fun l _ => ((h l).1.proper_of_calls (h l).2.calls).told) fun _ l _ _ => (h l).2

theorem sendRequest_still (path data : Bytes) (stamp : UInt64) (rng : Entropy) (now : ℚ) :
    l.Still (l.sendRequest P E id path data stamp rng now).1 ∧
      Mute (l.sendRequest P E id path data stamp rng now).2 := by
  unfold ManagedLink.sendRequest
  dsimp only
  split
  · exact ⟨.refl l, mute_nil⟩
  · split
    · split
      · exact ⟨.refl l, mute_nil⟩
      · exact startSenders_still ..
    · exact ⟨.refl l, mute_sealLinkPacket P E l id _ _ _⟩

theorem sendResource_still (data : Bytes) (metadata : Option Bytes) (autoCompress : Bool)
    (rng : Entropy) (now : ℚ) :
    l.Still (l.sendResourceWithAutoCompress P E id data metadata autoCompress rng now).1 ∧
      Mute (l.sendResourceWithAutoCompress P E id data metadata autoCompress rng now).2 := by
  unfold sendResourceWithAutoCompress
  split
  · exact ⟨.refl l, mute_nil⟩
  · split
    · exact ⟨.refl l, mute_nil⟩
    · exact startSenders_still ..

theorem acceptResource_still (resourceHash : Bytes) (accept : Bool) (rng : Entropy) (now : ℚ) :
    l.Still (l.acceptResource P E id resourceHash accept rng now).1 ∧
      Mute (l.acceptResource P E id resourceHash accept rng now).2 := by
  unfold acceptResource
  split
  · exact ⟨.refl l, mute_nil⟩
  · split
    · exact ⟨.refl l, mute_nil⟩
    · next r _ =>
      have hsends : ∀ action ∈ (if accept then r.accept now else r.reject).2, action.sends := by
        intro action hmem
        split at hmem
        · obtain ⟨_, rfl⟩ := ResourceReceiver.requestNext_actions hmem
          rfl
        · rw [List.mem_singleton.1 hmem]
          rfl
      refine ⟨?_, mute_processResourceActions P E _ id hsends rng⟩
      rw [processResourceActions_engine P E _ id (keeps_of_sends hsends)]
      exact still_transfers ..

theorem sendChannelMessage_quiet {l l' : ManagedLink} {id : LinkId} {msgtype : UInt16}
    {payload : Bytes} {rng : Entropy} {now : ℚ}
    (h : l.sendChannelMessage P E id msgtype payload rng now = .ok (l', out)) :
    l'.engine = l.engine ∧ Mute out := by
  unfold ManagedLink.sendChannelMessage at h
  split at h
  · cases h
  · split at h
    · cases h
    · next channel actions hsend =>
      have hsent : ∀ action ∈ actions, ∃ raw sequence, action = .sendOnLink raw sequence :=
        fun action hmem => ⟨_, _, List.mem_singleton.1 ((Channel.send_ok hsend).1 ▸ hmem)⟩
      have hengine := (continues_processChannelActions P E id { l with channel := some channel }
        rng actions).2
      have hmute := mute_processChannelActions P E { l with channel := some channel } id hsent rng
      rw [Except.ok.inj h] at hengine hmute
      exact ⟨hengine, hmute⟩

theorem told_sendChannelMessage (msgtype : UInt16) (payload : Bytes) (rng : Entropy) (now : ℚ) :
    let after := ((m.sendChannelMessage P E id msgtype payload rng now).toOption).getD (m, [])
    Told linkId m after.1 after.2 := by
  dsimp only
  unfold LinkManager.sendChannelMessage
  cases hl : m.links[id]? with
  | none => exact told_unchanged rfl rfl
  | some l =>
    dsimp only
    cases hsend : l.sendChannelMessage P E id msgtype payload rng now with
    | error e => exact told_unchanged rfl rfl
    | ok sent =>
      obtain ⟨hengine, hmute⟩ := sendChannelMessage_quiet P E hsend
      have htold : Told linkId m (m.onLink id fun _ => sent).1 (m.onLink id fun _ => sent).2 := by
        refine told_onLink id (fun l' hl' => ?_) fun _ _ _ _ => hmute
        rw [hl, Option.some.injEq] at hl'
        exact told_of_engine (hl' ▸ hengine) hmute.calls
      simp only [onLink, hl] at htold
      exact htold

end LinkManager

/-! ## Runs -/

namespace LinkEvent

variable (linkId : LinkId) (m : LinkManager)

/-- The link that a step creates. -/
def creates : LinkEvent → Option LinkId
  | .packet destHash raw _ _ _ _ => match unpack P raw with
    | .error _ => none
    | .ok request =>
      if request.flags.packetType = PacketType.linkRequest ∧ m.linkDestinations.contains destHash ∧
          (parseLinkrequestData request.data).isOk then some (request.linkId P)
      else none
  | .createLink args => (args.packet P K).map fun request => (args.session P K request).engine.linkId
  | _ => none

/-- The condition under which a step keeps to the rule: no packet that may call back reaches the link
when it is closed, and the link is settled when it ticks. -/
def Safe : LinkEvent → Prop
  | .packet destHash raw _ _ _ _ => match m.links[linkId]?, unpack P raw with
    | some l, .ok handled => l.Closed → destHash = linkId → ¬handled.CallsBack
    | _, _ => True
  | .tick _ now => ∀ l ∈ m.links[linkId]?, l.Settled now
  | _ => True

instance (e : LinkEvent) : Decidable (e.Safe P linkId m) := by
  unfold Safe
  split
  · split <;> infer_instance
  · infer_instance
  · infer_instance

end LinkEvent

namespace LinkManager

variable {m : LinkManager} {linkId : LinkId} (ephemeral : Entropy → Vector UInt8 32)
  (sessions : LinkId → LinkSession)

theorem refuses_iff : m.Refuses destHash packet ↔
    ¬(m.linkDestinations.contains destHash ∧ (parseLinkrequestData packet.data).isOk) := by
  have hparse : (∃ e, parseLinkrequestData packet.data = .error e) ↔
      ¬(parseLinkrequestData packet.data).isOk := by
    cases parseLinkrequestData packet.data <;> simp [Except.isOk, Except.toBool]
  rw [Refuses, hparse, not_and_or, contains_eq_isSome_getElem?, Option.isSome_iff_ne_none,
    not_not]

theorem told_step (hsafe : e.Safe P linkId m) (hcreates : e.creates P K m ≠ some linkId) :
    Told linkId m ((operations P K E ephemeral sessions).step m e).1
      ((operations P K E ephemeral sessions).step m e).2 := by
  cases e with
  | packet destHash raw packetHash interface rng now =>
    refine told_handleLocalDelivery P K E sessions ephemeral packetHash interface rng now ?_ ?_
    · intro l packet hl hclosed hid hunpack
      simp only [LinkEvent.Safe, hl, hunpack] at hsafe
      exact hsafe hclosed hid
    · intro packet hunpack htype hid
      rw [refuses_iff]
      intro haccepts
      simp only [LinkEvent.creates, hunpack, htype, haccepts, and_self, if_true, hid] at hcreates
      exact hcreates rfl
  | tick rng now => exact told_tick P _ m rng now hsafe
  | createLink args =>
    simp only [operations, createLink]
    simp only [LinkEvent.creates] at hcreates
    cases hpacket : args.packet P K with
    | none => exact told_unchanged rfl rfl
    | some request =>
      rw [hpacket, Option.map_some, ne_eq, Option.some.injEq] at hcreates
      refine told_unchanged ?_ rfl
      rw [getElem?_insert, if_neg (by simpa using hcreates)]
  | teardownLink id =>
    exact told_onLink id (fun l _ => told_teardown P l) fun _ l _ hclosed => mute_teardown P hclosed
  | sendChannelMessage id msgtype payload rng now => exact told_sendChannelMessage P _ id msgtype payload rng now
  | sendRequest id path data stamp rng now =>
    exact told_call id fun l =>
      sendRequest_still P ((E.withSessions P K sessions).withHandshake P K ephemeral) l id path data stamp rng now
  | sendResource id data metadata rng now =>
    exact told_call id fun l =>
      sendResource_still ..
  | acceptResource id resourceHash accept rng now =>
    exact told_call id fun l =>
      acceptResource_still ..

theorem step_creates (hcreates : e.creates P K m = some linkId) :
    ((operations P K E ephemeral sessions).step m e).1.Open linkId ∧
      reports linkId ((operations P K E ephemeral sessions).step m e).2 = [] := by
  cases e with
  | packet destHash raw packetHash interface rng now =>
    simp only [LinkEvent.creates] at hcreates
    split at hcreates
    · cases hcreates
    · next request hunpack =>
      split_ifs at hcreates with hrequest
      have haccepts : ¬m.Refuses destHash request := by rw [refuses_iff, not_not]; exact hrequest.2
      obtain ⟨engine, mtu, ld, -, -, hstate, hopens⟩ := handleLinkrequest_of_not_refuses P K
        (E.withSessions P K sessions) ephemeral haccepts ..
      simp only [operations, handleLocalDelivery, hunpack, if_pos hrequest.1]
      refine ⟨⟨newLink engine mtu destHash ld request interface, ?_, ?_⟩,
        (mute_handleLinkrequest P _ destHash request interface rng now).reports⟩
      · rw [hopens, ← Option.some.inj hcreates]
        exact getElem?_insert_self
      · rw [Closed, newLink, hstate]
        decide
  | createLink args =>
    simp only [LinkEvent.creates] at hcreates
    obtain ⟨request, hpacket, hid⟩ := Option.map_eq_some_iff.1 hcreates
    simp only [operations, createLink, hpacket]
    refine ⟨⟨.ofSession (args.session P K request) args.destHash args.destSigPubBytes, ?_, ?_⟩, rfl⟩
    · rw [hid]
      exact getElem?_insert_self
    · rintro ⟨⟩
  | _ => cases hcreates

def ReportsClosure (linkId : LinkId) (m : LinkManager) (e : LinkEvent) : Prop :=
  let after := (operations P K E ephemeral sessions).step m e
  (∃ reason, .linkClosed linkId reason ∈ after.2) ↔ m.Open linkId ∧ ¬after.1.Open linkId

/-- No step creates the link after another has. -/
def CreatedOnce (linkId : LinkId) (m : LinkManager) : List LinkEvent → Prop
  | [] => True
  | e :: es =>
    let M := operations P K E ephemeral sessions
    (e.creates P K m = some linkId →
      M.Meets (fun _ m e => e.creates P K m ≠ some linkId) [] (M.step m e).1 es) ∧
    CreatedOnce linkId (M.step m e).1 es

instance CreatedOnce.decidable (linkId : LinkId) : ∀ (m : LinkManager) (es : List LinkEvent),
    Decidable (CreatedOnce P K E ephemeral sessions linkId m es)
  | _, [] => .isTrue trivial
  | m, e :: es =>
    have := CreatedOnce.decidable linkId ((operations P K E ephemeral sessions).step m e).1 es
    inferInstanceAs (Decidable (_ ∧ _))

theorem closed_mem_iff :
    (∃ reason, .linkClosed linkId reason ∈ out) ↔ true ∈ reports linkId out := by
  rw [mem_reports]
  constructor
  · rintro ⟨reason, hmem⟩
    exact ⟨_, hmem, rfl⟩
  · rintro ⟨a, hmem, hr⟩
    cases a <;> cases hr
    exact ⟨_, hmem⟩

theorem Told.reportsClosure
    (h : Told linkId m ((operations P K E ephemeral sessions).step m e).1
      ((operations P K E ephemeral sessions).step m e).2) :
    ReportsClosure P K E ephemeral sessions linkId m e := by
  rw [ReportsClosure, closed_mem_iff]
  cases h with
  | kept hopen hopen' hcalls =>
    exact iff_of_false (fun hmem => nomatch hcalls true hmem) fun h => h.2 hopen'
  | closes hopen hgone hends =>
    obtain ⟨calls, hreports, -⟩ := hends
    exact iff_of_true (by simp [hreports]) ⟨hopen, hgone⟩
  | gone hgone hgone' hnone => exact iff_of_false (by simp [hnone]) fun h => hgone h.1

theorem reportsClosure_of_safe (hsafe : e.Safe P linkId m) :
    ReportsClosure P K E ephemeral sessions linkId m e := by
  by_cases hcreates : e.creates P K m = some linkId
  · obtain ⟨hopen, hnone⟩ := step_creates P K E ephemeral sessions hcreates
    rw [ReportsClosure, closed_mem_iff, hnone]
    exact iff_of_false List.not_mem_nil fun h => h.2 hopen
  · exact (told_step P K E ephemeral sessions hsafe hcreates).reportsClosure ..

variable {es past : List LinkEvent} {M : Machine LinkManager LinkEvent LinkManagerAction}

theorem run_gone (hgone : ¬m.Open linkId)
    (h : M.Meets (fun _ m e => Told linkId m (M.step m e).1 (M.step m e).2) past m es) :
    reports linkId (M.run m es).2 = [] := by
  induction es generalizing m past with
  | nil => rfl
  | cons e es ih =>
    cases h.1 with
    | kept hopen _ _ | closes hopen _ _ => exact absurd hopen hgone
    | gone _ hgone' hnone =>
      rw [Machine.run, reports_append, hnone, ih hgone' h.2]
      rfl

theorem run_open (hopen : m.Open linkId)
    (h : M.Meets (fun _ m e => Told linkId m (M.step m e).1 (M.step m e).2) past m es) :
    ∃ calls, (∀ closes ∈ calls, closes = false) ∧
      (reports linkId (M.run m es).2 = calls ∨ reports linkId (M.run m es).2 = calls ++ [true]) := by
  induction es generalizing m past with
  | nil => exact ⟨[], nofun, .inl rfl⟩
  | cons e es ih =>
    rw [Machine.run, reports_append]
    cases h.1 with
    | kept _ hopen' hcalls =>
      obtain ⟨calls, hfalse, hrest⟩ := ih hopen' h.2
      refine ⟨_ ++ calls, fun closes hmem => (List.mem_append.1 hmem).elim (hcalls closes) (hfalse closes), ?_⟩
      obtain hrest | hrest := hrest
      · exact .inl (congrArg _ hrest)
      · exact .inr (by rw [hrest, List.append_assoc])
    | closes _ hgone hends =>
      obtain ⟨calls, hstep, hfalse⟩ := hends
      exact ⟨calls, hfalse, .inr (by rw [run_gone hgone h.2, hstep, List.append_nil])⟩
    | gone hgone _ _ => exact absurd hopen hgone

theorem run_created_once (hnew : ¬m.Open linkId)
    (honce : CreatedOnce P K E ephemeral sessions linkId m es)
    (hM : M = operations P K E ephemeral sessions)
    (hsafe : M.Meets (fun _ m e => e.Safe P linkId m) past m es) :
    ∃ calls, (∀ closes ∈ calls, closes = false) ∧
      (reports linkId (M.run m es).2 = calls ∨ reports linkId (M.run m es).2 = calls ++ [true]) := by
  subst hM
  induction es generalizing m past with
  | nil => exact ⟨[], nofun, .inl rfl⟩
  | cons e es ih =>
    rw [Machine.run, reports_append]
    by_cases hcreates : e.creates P K m = some linkId
    · obtain ⟨hopen, hnone⟩ := step_creates P K E ephemeral sessions hcreates
      rw [hnone]
      exact run_open hopen ((((honce.1 hcreates).change_past _).and hsafe.2).imp fun _ _ _ h =>
        told_step P K E ephemeral sessions h.2 h.1)
    · cases told_step P K E ephemeral sessions hsafe.1 hcreates with
      | kept hopen _ _ | closes hopen _ _ => exact absurd hopen hnew
      | gone _ hgone hnone =>
        rw [hnone]
        exact ih hgone honce.2 hsafe.2

/-- In every run that starts without the link, creates it at most once and takes only safe steps, the
application is told at most once that the link is closed, in the step in which its engine is closed, and
nothing of the link afterwards. -/
theorem closure_reported_once (hnew : ¬m.Open linkId)
    (honce : CreatedOnce P K E ephemeral sessions linkId m es)
    (hsafe : (operations P K E ephemeral sessions).Meets (fun _ m e => e.Safe P linkId m) [] m es) :
    ClosedOnce linkId ((operations P K E ephemeral sessions).run m es).2 ∧
      (operations P K E ephemeral sessions).Meets
        (fun _ => ReportsClosure P K E ephemeral sessions linkId) [] m es := by
  obtain ⟨calls, hfalse, hreports⟩ := run_created_once P K E ephemeral sessions hnew honce rfl hsafe
  exact ⟨closedOnce_of_reports hfalse hreports, hsafe.imp fun _ _ _ => reportsClosure_of_safe P K E _ _⟩

/-! ### A run -/

/-- A request for a link to the destination below. -/
def CreateLinkArgs.sample : CreateLinkArgs where
  destHash := .replicate 16 7
  destSigPubBytes := .replicate 32 9
  hops := 1
  mtu := 500
  random := .replicate 32 1
  sigPubBytes := .replicate 32 2
  now := 0

/-- A manager with a destination and no links. -/
def listening : LinkManager where
  links := ∅
  linkDestinations := (∅ : Std.ExtTreeMap Hash16 LinkDestination).insert (.replicate 16 7)
    ⟨fun _ => .replicate 64 0, .replicate 32 9, .acceptNone⟩
  requestHandlers := []
  managementPaths := []

def requestedLink : LinkId := Bytes.fixed 16 (2 :: List.replicate 15 7) 0

/-- The packets that make the link active at time zero, and a message that is never proved. -/
def activation : List LinkEvent :=
  let request := ((CreateLinkArgs.sample.packet .sample .sample).map (·.raw)).getD []
  let token := (((operations .sample .sample .sample (fun _ => .replicate 32 3)
    fun _ => (CreateLinkArgs.sample.made .sample).1).step listening
    (.packet (.replicate 16 7) request (.replicate 32 0) 0 .zero 0)).1.links[requestedLink]?.bind
      (·.engine.token)).getD LinkEngine.zeroToken
  let rtt := token.cipher .sample (.replicate 16 0) (LinkSession.packRtt .sample 0)
  let lrrtt := ((linkPacket .sample requestedLink PacketType.data lrRtt rtt Rns.mtu).map
    (·.raw)).getD []
  [.packet (.replicate 16 7) request (.replicate 32 0) 0 .zero 0,
    .packet requestedLink lrrtt (.replicate 32 0) 0 .zero 0,
    .sendChannelMessage requestedLink 0 [] .zero 0]

def sampleOperations : Machine LinkManager LinkEvent LinkManagerAction :=
  operations .sample .sample .sample (fun _ => .replicate 32 3) fun _ => (CreateLinkArgs.sample.made .sample).1

def tickAt (now : ℚ) : LinkEvent := .tick (fun _ => (.zero, .zero)) now

theorem not_open_listening (linkId : LinkId) : ¬listening.Open linkId := by
  rintro ⟨l, hl, -⟩
  simp [listening] at hl

theorem closure_reported_once_listening :
    let events := activation ++ [tickAt 1, .teardownLink requestedLink, tickAt 2]
    reports requestedLink (sampleOperations.run listening events).2 = [false, true] ∧
      ClosedOnce requestedLink (sampleOperations.run listening events).2 := by
  intro events
  exact ⟨by decide +kernel, (closure_reported_once .sample .sample .sample (fun _ => .replicate 32 3)
    (fun _ => (CreateLinkArgs.sample.made .sample).1) (not_open_listening requestedLink)
    (by decide +kernel) (by decide +kernel)).1⟩

/-- The fifth try of a message is the last: the application is told that the link is closed, and the link
is active. -/
theorem timeout_tells_of_open_link :
    let events := activation ++ [tickAt 1, tickAt 2, tickAt 3, tickAt 4]
    let before := (sampleOperations.run listening events).1
    let after := sampleOperations.step before (tickAt 5)
    CreatedOnce .sample .sample .sample (fun _ => .replicate 32 3)
      (fun _ => (CreateLinkArgs.sample.made .sample).1) requestedLink listening (events ++ [tickAt 5]) ∧
    .linkClosed requestedLink (some .timeout) ∈ after.2 ∧
    after.1.links[requestedLink]?.map (·.engine.state) = some .active := by
  decide +kernel

end LinkManager

end Rns

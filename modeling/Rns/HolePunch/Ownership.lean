import Rns.HolePunch.Calls
import Rns.HolePunch.Manager

/-!
# Whose session it is

The manager keeps sessions by session id and links by link id.  A session id in a request is chosen by the
peer, so a request can name the session of another link, or leave the former session of its link behind.
-/

namespace Rns

open HolePunch Std.ExtTreeMap HolePunchEngine

/-! ## Engines stay with their link -/

namespace HolePunchEngine

variable (e : HolePunchEngine)

theorem linkId_endpointsDiscovered (publicEndpoint : Endpoint) (now : ℚ) :
    (e.endpointsDiscovered publicEndpoint now).1.linkId = e.linkId := by
  unfold endpointsDiscovered
  split_ifs
  · rfl
  · dsimp only
    split_ifs
    · split <;> rfl
    · split <;> rfl

theorem linkId_tick (now : ℚ) : (e.tick now).1.linkId = e.linkId := by
  unfold tick
  split
  · split_ifs <;> rfl
  · rfl

theorem linkId_punchSucceeded (now : ℚ) : (e.punchSucceeded now).1.linkId = e.linkId := by
  unfold punchSucceeded
  split_ifs <;> rfl

theorem linkId_punchFailed (now : ℚ) : (e.punchFailed now).1.linkId = e.linkId := by
  unfold punchFailed
  split_ifs <;> rfl

end HolePunchEngine

namespace HolePunchManager

/-! ## Ownership -/

/-- The links and the sessions belong to each other one to one, and each engine to its link. -/
structure Owned (m : HolePunchManager) : Prop where
  keys : ∀ {linkId : Vector UInt8 16} {sessionId : SessionId},
    m.linkToSession[linkId]? = some sessionId → sessionId ∈ m.sessions
  owner : ∀ {sessionId : SessionId}, sessionId ∈ m.sessions →
    ∃! linkId : Vector UInt8 16, m.linkToSession[linkId]? = some sessionId
  engines : ∀ {linkId : Vector UInt8 16} {sessionId : SessionId} {session : HolePunchSession},
    m.linkToSession[linkId]? = some sessionId → m.sessions[sessionId]? = some session →
      session.engine.linkId = linkId

def Untouched (linkId : Vector UInt8 16) (m m' : HolePunchManager) : Prop :=
  ∀ (other : Vector UInt8 16) (sessionId : SessionId), other ≠ linkId →
    m.linkToSession[other]? = some sessionId →
    m'.linkToSession[other]? = some sessionId ∧ m'.sessions[sessionId]? = m.sessions[sessionId]?

variable {m m' : HolePunchManager}

theorem owned_iff : m.Owned ↔
    (∀ (linkId : Vector UInt8 16) (sessionId : SessionId), m.linkToSession[linkId]? = some sessionId →
      ∃ session : HolePunchSession, m.sessions[sessionId]? = some session ∧
        session.engine.linkId = linkId) ∧
    ∀ (sessionId : SessionId) (session : HolePunchSession), m.sessions[sessionId]? = some session →
      m.linkToSession[session.engine.linkId]? = some sessionId := by
  constructor
  · intro h
    refine ⟨fun linkId sessionId hlink => ?_, fun sessionId session hsession => ?_⟩
    · obtain ⟨session, hsession⟩ := Option.isSome_iff_exists.1
        (mem_iff_isSome_getElem?.1 (h.keys hlink))
      exact ⟨session, hsession, h.engines hlink hsession⟩
    · have hmem : sessionId ∈ m.sessions := mem_iff_isSome_getElem?.2 (by simp [hsession])
      obtain ⟨linkId, hlink, -⟩ := h.owner hmem
      rwa [h.engines hlink hsession]
  · rintro ⟨hmapped, howner⟩
    refine ⟨fun hlink => ?_, fun hmem => ?_, fun hlink hsession => ?_⟩
    · obtain ⟨session, hsession, -⟩ := hmapped _ _ hlink
      exact mem_iff_isSome_getElem?.2 (by simp [hsession])
    · obtain ⟨session, hsession⟩ := Option.isSome_iff_exists.1 (mem_iff_isSome_getElem?.1 hmem)
      refine ⟨session.engine.linkId, howner _ _ hsession, fun other hother => ?_⟩
      obtain ⟨session', hsession', hlink⟩ := hmapped _ _ hother
      rw [hsession] at hsession'
      rw [← hlink, Option.some.inj hsession']
    · obtain ⟨session', hsession', hlink⟩ := hmapped _ _ hlink
      rw [hsession] at hsession'
      rwa [Option.some.inj hsession']

/-- The same links and sessions, each session with an engine of the same link. -/
structure SameOwners (m m' : HolePunchManager) : Prop where
  links : m'.linkToSession = m.linkToSession
  sessions : ∀ sessionId : SessionId, (m'.sessions[sessionId]?).map (·.engine.linkId) =
    (m.sessions[sessionId]?).map (·.engine.linkId)

theorem SameOwners.refl (m : HolePunchManager) : SameOwners m m := ⟨rfl, fun _ => rfl⟩

theorem SameOwners.trans {m m' m'' : HolePunchManager} (h : SameOwners m m') (h' : SameOwners m' m'') :
    SameOwners m m'' :=
  ⟨h'.links.trans h.links, fun _ => (h'.sessions ..).trans (h.sessions ..)⟩

theorem SameOwners.owned (h : SameOwners m m') (howned : m.Owned) : m'.Owned := by
  obtain ⟨hmapped, howner⟩ := owned_iff.1 howned
  refine owned_iff.2 ⟨fun linkId sessionId hlink => ?_, fun sessionId session hsession => ?_⟩
  · rw [h.links] at hlink
    obtain ⟨session, hsession, hengine⟩ := hmapped _ _ hlink
    have hthere := h.sessions sessionId
    rw [hsession] at hthere
    obtain ⟨session', hsession', hengine'⟩ := Option.map_eq_some_iff.1 hthere
    exact ⟨session', hsession', hengine'.trans hengine⟩
  · have hthere := (h.sessions sessionId).symm
    rw [hsession] at hthere
    obtain ⟨session', hsession', hengine'⟩ := Option.map_eq_some_iff.1 hthere
    rw [h.links, ← howner _ _ hsession']
    exact congrArg (m.linkToSession[·]?) hengine'.symm

theorem SameOwners.updateSession {sessionId : SessionId} {f : HolePunchSession → HolePunchSession}
    (hf : ∀ session, m.sessions[sessionId]? = some session →
      (f session).engine.linkId = session.engine.linkId) :
    SameOwners m (m.updateSession sessionId f) := by
  unfold HolePunchManager.updateSession
  cases hget : m.sessions[sessionId]? with
  | none => exact .refl m
  | some session =>
    refine ⟨rfl, fun other => ?_⟩
    by_cases hother : sessionId = other
    · subst hother
      simp [hget, hf session hget]
    · simp [getElem?_insert, hother]

theorem SameOwners.foldl {α β : Type} {f : HolePunchManager × β → α → HolePunchManager × β}
    (hf : ∀ state x, SameOwners state.1 (f state x).1) (xs : List α) (state : HolePunchManager × β) :
    SameOwners state.1 (xs.foldl f state).1 := by
  induction xs generalizing state with
  | nil => exact .refl _
  | cons x xs ih => exact (hf state x).trans (ih (f state x))

variable (now : ℚ) (state : HolePunchManager × List HolePunchManagerAction) (starts : Bool)
  (linkId : Vector UInt8 16)

theorem linkId_startPunch (peerPublic : Endpoint) (session : HolePunchSession) :
    (startPunch starts peerPublic session).engine = session.engine := by
  unfold startPunch
  split_ifs
  · rfl
  all_goals split <;> rfl

variable (sessionId : SessionId)

theorem sameOwners_startPunchFromActions (actions : List HolePunchAction) (m : HolePunchManager) :
    SameOwners m (m.startPunchFromActions starts sessionId actions) := by
  unfold startPunchFromActions
  induction actions generalizing m with
  | nil => exact .refl m
  | cons action actions ih =>
    refine SameOwners.trans ?_ (ih _)
    cases action with
    | startUdpPunch peerPublic punchToken id =>
      exact .updateSession fun session _ => by rw [linkId_startPunch]
    | _ => exact .refl m

theorem sameOwners_takePunch (outcome : SessionId → Option PunchOutcome)
    (state : HolePunchManager × List PunchCompletion) (pair : SessionId × Option (Vector UInt8 16)) :
    SameOwners state.1 (takePunch outcome state pair).1 := by
  unfold takePunch
  split
  · split_ifs
    · exact .refl _
    · exact .updateSession fun _ _ => rfl
  · exact .refl _

theorem sameOwners_processCompletion (completion : PunchCompletion) :
    SameOwners state.1 (processCompletion now state completion).1 := by
  unfold processCompletion
  split
  · dsimp only
    have hcount : SameOwners state.1 { state.1 with nextInterfaceId := state.1.nextInterfaceId + 1 } :=
      ⟨rfl, fun _ => rfl⟩
    split
    · exact hcount
    · rename_i session hsession
      refine hcount.trans (.updateSession fun found hfound => ?_)
      rw [hsession] at hfound
      rw [← Option.some.inj hfound]
      exact linkId_punchSucceeded ..
  · split
    · exact .refl _
    · rename_i session hsession
      refine .updateSession fun found hfound => ?_
      rw [hsession] at hfound
      rw [← Option.some.inj hfound]
      exact linkId_punchFailed ..

theorem sameOwners_tickSession (pair : SessionId × Option (Vector UInt8 16)) :
    SameOwners state.1 (tickSession now state pair).1 := by
  unfold tickSession
  split
  · rename_i linkId session hsession
    refine .updateSession fun found hfound => ?_
    rw [hsession] at hfound
    rw [← Option.some.inj hfound]
    exact linkId_tick ..
  · exact .refl _

/-! ## Operations -/

theorem owned_removeFailed (h : m.Owned) : m.removeFailed.Owned := by
  obtain ⟨hmapped, howner⟩ := owned_iff.1 h
  refine owned_iff.2 ⟨fun linkId sessionId hlink => ?_, fun sessionId session hsession => ?_⟩
  · obtain ⟨hlink, hkept⟩ := Option.filter_eq_some_iff.1
      ((getElem?_filter' (t := m.linkToSession)).symm.trans hlink)
    obtain ⟨session, hsession, hengine⟩ := hmapped _ _ hlink
    refine ⟨session, ?_, hengine⟩
    rw [removeFailed, getElem?_filter']
    simp_all
  · obtain ⟨hsession, hkept⟩ := Option.filter_eq_some_iff.1
      ((getElem?_filter' (t := m.sessions)).symm.trans hsession)
    rw [removeFailed, getElem?_filter', howner _ _ hsession]
    simp_all

theorem owned_tick (h : m.Owned) (now : ℚ) (outcome : SessionId → Option PunchOutcome) :
    (m.tick now outcome).1.Owned := by
  have htaken := SameOwners.foldl (sameOwners_takePunch outcome) m.sessionLinkPairs (m, [])
  have hcompleted := SameOwners.foldl (sameOwners_processCompletion now)
    (m.sessionLinkPairs.foldl (takePunch outcome) (m, [])).2
    ((m.sessionLinkPairs.foldl (takePunch outcome) (m, [])).1, [])
  have hticked := SameOwners.foldl (sameOwners_tickSession now) m.sessionLinkPairs
    ((m.sessionLinkPairs.foldl (takePunch outcome) (m, [])).2.foldl (processCompletion now)
      ((m.sessionLinkPairs.foldl (takePunch outcome) (m, [])).1, []))
  exact owned_removeFailed ((htaken.trans (hcompleted.trans hticked)).owned h)

theorem owned_dropSession (h : m.Owned) (linkId : Vector UInt8 16) : (m.dropSession linkId).Owned := by
  obtain ⟨hmapped, howner⟩ := owned_iff.1 h
  unfold dropSession
  cases hlink : m.linkToSession[linkId]? with
  | none => exact h
  | some dropped =>
    refine owned_iff.2 ⟨fun other sessionId hother => ?_, fun sessionId session hsession => ?_⟩
    · rw [getElem?_erase] at hother
      split_ifs at hother with heq
      have hne : linkId ≠ other := fun hsame => heq (by simp [hsame])
      obtain ⟨session, hsession, hengine⟩ := hmapped _ _ hother
      have hsession' : dropped ≠ sessionId := by
        rintro rfl
        obtain ⟨session', hsession', hengine'⟩ := hmapped _ _ hlink
        rw [hsession] at hsession'
        exact hne (by rw [← hengine', ← hengine, Option.some.inj hsession'])
      exact ⟨session, by simpa [getElem?_erase, hsession'] using hsession, hengine⟩
    · rw [getElem?_erase] at hsession
      split_ifs at hsession with heq
      have hne : dropped ≠ sessionId := fun hsame => heq (by simp [hsame])
      have hown := howner _ _ hsession
      have hother : linkId ≠ session.engine.linkId := by
        intro hsame
        rw [← hsame, hlink] at hown
        exact hne (Option.some.inj hown)
      simpa [getElem?_erase, hother] using hown

theorem sameOwners_bump (probeServer : SocketAddr) (m : HolePunchManager) :
    SameOwners m (m.bump probeServer) := by
  unfold bump
  split_ifs
  · exact ⟨rfl, fun _ => rfl⟩
  · exact .refl m

theorem sameOwners_handleProbeResult (observed : SocketAddr) (socket : ℕ) (probeServer : SocketAddr)
    (now : ℚ) (starts : Bool) :
    SameOwners m (m.handleProbeResult linkId sessionId observed socket probeServer now starts).1 := by
  unfold handleProbeResult
  split
  · exact .refl m
  · rename_i session hsession
    dsimp only
    have hupdated : SameOwners m (m.updateSession sessionId fun _ =>
        { m.probed socket probeServer session with
          engine := ((m.probed socket probeServer session).engine.endpointsDiscovered observed.endpoint
            now).1 }) := by
      refine .updateSession fun found hfound => ?_
      rw [hsession] at hfound
      rw [← Option.some.inj hfound]
      refine (linkId_endpointsDiscovered ..).trans ?_
      unfold probed
      split_ifs <;> rfl
    have hbumped := hupdated.trans (sameOwners_bump probeServer _)
    split
    · exact hbumped
    · exact hbumped.trans (sameOwners_startPunchFromActions ..)

theorem sameOwners_handleProbeFailed : SameOwners m (m.handleProbeFailed linkId sessionId).1 := by
  unfold handleProbeFailed
  split_ifs
  · exact .updateSession fun _ _ => rfl
  · exact .refl m

/-! ## Opening a session -/

def Free (m : HolePunchManager) (linkId : Vector UInt8 16) (sessionId : SessionId) : Prop :=
  (∀ other, other ≠ linkId → m.linkToSession[other]? ≠ some sessionId) ∧
    ∀ old, m.linkToSession[linkId]? = some old → old = sessionId

theorem owned_openSession_iff (h : m.Owned) {linkId : Vector UInt8 16} {engine : HolePunchEngine}
    (hengine : engine.linkId = linkId) (now : ℚ) :
    (m.openSession linkId engine now).Owned ↔ m.Free linkId engine.sessionId := by
  obtain ⟨hmapped, howner⟩ := owned_iff.1 h
  have hlinks : ∀ other : Vector UInt8 16, (m.openSession linkId engine now).linkToSession[other]? =
      if linkId = other then some engine.sessionId else m.linkToSession[other]? := fun other => by
    simp [openSession, getElem?_insert]
  have hsessions : ∀ sessionId : SessionId, (m.openSession linkId engine now).sessions[sessionId]? =
      if engine.sessionId = sessionId then some ⟨engine, none, none, now⟩
      else m.sessions[sessionId]? := fun sessionId => by
    simp [openSession, getElem?_insert]
  constructor
  · intro hafter
    obtain ⟨hmapped', howner'⟩ := owned_iff.1 hafter
    refine ⟨fun other hother hshared => ?_, fun old hold => ?_⟩
    · -- the session of the other link has the engine of this one
      obtain ⟨session, hsession, howns⟩ := hmapped' other engine.sessionId (by
        rw [hlinks, if_neg (Ne.symm hother), hshared])
      rw [hsessions, if_pos rfl] at hsession
      rw [← Option.some.inj hsession, hengine] at howns
      exact hother howns.symm
    · by_contra hne
      -- the old session is still there and its link leads to the new one
      obtain ⟨session, hsession, howns⟩ := hmapped _ _ hold
      have hthere := howner' old session (by rw [hsessions, if_neg (Ne.symm hne), hsession])
      rw [hlinks, howns, if_pos rfl] at hthere
      exact hne (Option.some.inj hthere).symm
  · rintro ⟨hothers, hown⟩
    refine owned_iff.2 ⟨fun other sessionId hlink => ?_, fun sessionId session hsession => ?_⟩
    · rw [hlinks] at hlink
      split_ifs at hlink with hother
      · obtain rfl := Option.some.inj hlink
        exact ⟨⟨engine, none, none, now⟩, by rw [hsessions, if_pos rfl], hengine.trans hother⟩
      · obtain ⟨session, hsession, howns⟩ := hmapped _ _ hlink
        refine ⟨session, ?_, howns⟩
        rw [hsessions, if_neg, hsession]
        rintro rfl
        exact hothers other (Ne.symm hother) hlink
    · rw [hsessions] at hsession
      split_ifs at hsession with hid
      · obtain rfl := Option.some.inj hsession
        rw [hlinks, if_pos hengine.symm, hid]
      · have hlink := howner _ _ hsession
        rw [hlinks, if_neg, hlink]
        intro hsame
        rw [← hsame] at hlink
        exact hid (hown _ hlink).symm

theorem untouched_openSession {linkId : Vector UInt8 16} {engine : HolePunchEngine}
    (h : m.Free linkId engine.sessionId) (now : ℚ) : Untouched linkId m (m.openSession linkId engine now) := by
  intro other sessionId hother hlink
  refine ⟨?_, ?_⟩
  · simpa [openSession, getElem?_insert, Ne.symm hother] using hlink
  · have hne : engine.sessionId ≠ sessionId := by
      rintro rfl
      exact h.1 other hother hlink
    simp [openSession, getElem?_insert, hne]

theorem Untouched.refl (m : HolePunchManager) : Untouched linkId m m := fun _ _ _ h => ⟨h, rfl⟩

/-! ## Requests and answers -/

/-- The session id that a request brings, when it is taken up. -/
def requested (P : Primitives) (payload : Bytes) (derivedKey : Option Bytes) : Option SessionId :=
  match derivedKey, decodeUpgradeRequest payload with
  | some derivedKey, .ok (sessionId, _) =>
    match derivePunchToken P derivedKey sessionId with
    | .ok _ => some sessionId
    | .error _ => none
  | _, _ => none

theorem handleSignal_request (P : Primitives) (linkId : Vector UInt8 16) (payload : Bytes)
    (derivedKey : Option Bytes) (now : ℚ) :
    match requested P payload derivedKey with
    | some sessionId => ∃ engine actions,
      (HolePunchEngine.new linkId none .rnsp).handleSignal P upgradeRequest payload derivedKey now =
        (engine, .ok actions) ∧ engine.sessionId = sessionId
    | none => ∃ engine err,
      (HolePunchEngine.new linkId none .rnsp).handleSignal P upgradeRequest payload derivedKey now =
        (engine, .error err) := by
  have hidle : ¬(HolePunchEngine.new linkId none .rnsp).state ≠ .idle := fun h => h rfl
  simp only [requested, HolePunchEngine.handleSignal, if_true, handleUpgradeRequest, if_neg hidle]
  cases derivedKey with
  | none => exact ⟨_, _, rfl⟩
  | some derivedKey =>
    cases hdecode : decodeUpgradeRequest payload with
    | error err => exact ⟨_, _, rfl⟩
    | ok fields =>
      obtain ⟨sessionId, facilitator, initiatorPublic, protocol⟩ := fields
      dsimp only
      cases htoken : derivePunchToken P derivedKey sessionId with
      | error err => exact ⟨_, _, rfl⟩
      | ok punchToken => exact ⟨_, _, rfl, rfl⟩

theorem untouched_updateSession (h : m.Owned) {linkId : Vector UInt8 16} {sessionId : SessionId}
    (hlink : m.linkToSession[linkId]? = some sessionId) (f : HolePunchSession → HolePunchSession) :
    Untouched linkId m (m.updateSession sessionId f) := by
  obtain ⟨hmapped, -⟩ := owned_iff.1 h
  unfold HolePunchManager.updateSession
  cases hget : m.sessions[sessionId]? with
  | none => exact .refl linkId m
  | some session =>
    intro other otherId hother hotherLink
    refine ⟨hotherLink, ?_⟩
    have hne : sessionId ≠ otherId := by
      rintro rfl
      obtain ⟨session', hsession', howns⟩ := hmapped _ _ hlink
      obtain ⟨session'', hsession'', howns'⟩ := hmapped _ _ hotherLink
      rw [hsession'] at hsession''
      exact hother (by rw [← howns, ← howns', Option.some.inj hsession''])
    simp [getElem?_insert, hne]

theorem Untouched.trans {linkId : Vector UInt8 16} {m m' m'' : HolePunchManager} (h : Untouched linkId m m')
    (h' : Untouched linkId m' m'') : Untouched linkId m m'' := by
  intro other sessionId hother hlink
  obtain ⟨hlink', hsession⟩ := h other sessionId hother hlink
  obtain ⟨hlink'', hsession'⟩ := h' other sessionId hother hlink'
  exact ⟨hlink'', hsession'.trans hsession⟩

theorem untouched_startPunchFromActions (h : m.Owned) {linkId : Vector UInt8 16} {sessionId : SessionId}
    (hlink : m.linkToSession[linkId]? = some sessionId) (starts : Bool) (actions : List HolePunchAction) :
    Untouched linkId m (m.startPunchFromActions starts sessionId actions) := by
  unfold startPunchFromActions
  induction actions generalizing m with
  | nil => exact .refl linkId m
  | cons action actions ih =>
    cases action with
    | startUdpPunch peerPublic punchToken id =>
      have hsame : SameOwners m (m.updateSession sessionId (startPunch starts peerPublic)) :=
        .updateSession fun session _ => by rw [linkId_startPunch]
      exact (untouched_updateSession h hlink _).trans
        (ih (hsame.owned h) (by rw [hsame.links, hlink]))
    | _ => exact ih h hlink

theorem handleAnswer_keeps (h : m.Owned) (P : Primitives) (linkId : Vector UInt8 16) (msgtype : UInt16)
    (payload : Bytes) (derivedKey : Option Bytes) (now : ℚ) (starts : Bool) :
    (m.handleAnswer P linkId msgtype payload derivedKey now starts).1.Owned ∧
      Untouched linkId m (m.handleAnswer P linkId msgtype payload derivedKey now starts).1 := by
  unfold handleAnswer
  cases hlink : m.linkToSession[linkId]? with
  | none => exact ⟨h, .refl linkId m⟩
  | some sessionId =>
    dsimp only
    cases hsession : m.sessions[sessionId]? with
    | none => exact ⟨h, .refl linkId m⟩
    | some session =>
      dsimp only
      generalize hresult : session.engine.handleSignal P msgtype payload derivedKey now = result
      have hsame : SameOwners m (m.updateSession sessionId fun session =>
          { session with engine := result.1 }) := by
        refine .updateSession fun found hfound => ?_
        rw [hsession] at hfound
        rw [← Option.some.inj hfound, ← hresult]
        exact (kept_handleSignal ..).linkId
      have huntouched := untouched_updateSession h hlink fun session =>
        { session with engine := result.1 }
      cases result.2 with
      | error err => exact ⟨hsame.owned h, huntouched⟩
      | ok actions =>
        exact ⟨(hsame.trans (sameOwners_startPunchFromActions ..)).owned h,
          huntouched.trans (untouched_startPunchFromActions (hsame.owned h) (by rw [hsame.links, hlink])
            starts actions)⟩

end HolePunchManager

/-! ## Runs -/

def HolePunchManagerEvent.Harmless (P : Primitives) (m : HolePunchManager) : HolePunchManagerEvent → Prop
  | .signal linkId msgtype payload derivedKey now starts =>
    m.Untouched linkId (m.step P (.signal linkId msgtype payload derivedKey now starts)).1
  | _ => True

/-- A proposal draws a session id that no other link has; a request that is taken up brings one that no other
link has, on a link that has no other. -/
def HolePunchManagerEvent.Fits (P : Primitives) (m : HolePunchManager) : HolePunchManagerEvent → Prop
  | .propose linkId derivedKey now drawn =>
    m.rateLimited linkId now = false → m.probeAddrs ≠ [] →
      (derivePunchToken P derivedKey drawn).toOption.isSome →
        ∀ other, other ≠ linkId → m.linkToSession[other]? ≠ some drawn
  | .signal linkId msgtype payload derivedKey _ _ =>
    msgtype = upgradeRequest → m.policy ≠ .reject →
      ∀ sessionId, HolePunchManager.requested P payload derivedKey = some sessionId → m.Free linkId sessionId
  | _ => True

namespace HolePunchManager

variable {P : Primitives} {m : HolePunchManager}

theorem handleRequest_keeps_iff (h : m.Owned) (linkId : Vector UInt8 16) (payload : Bytes)
    (derivedKey : Option Bytes) (now : ℚ) :
    ((m.handleRequest P linkId payload derivedKey now).1.Owned ∧
      m.Untouched linkId (m.handleRequest P linkId payload derivedKey now).1) ↔
    (m.policy ≠ .reject → ∀ sessionId, requested P payload derivedKey = some sessionId →
      m.Free linkId sessionId) := by
  unfold handleRequest
  by_cases hpolicy : m.policy = .reject
  · rw [if_pos hpolicy]
    cases buildReject linkId payload rejectPolicy <;>
      exact iff_of_true ⟨h, .refl linkId m⟩ fun hne => absurd hpolicy hne
  · rw [if_neg hpolicy]
    have hrequest := handleSignal_request P linkId payload derivedKey now
    cases hrequested : requested P payload derivedKey with
    | none =>
      rw [hrequested] at hrequest
      obtain ⟨engine, err, hresult⟩ := hrequest
      rw [hresult]
      exact iff_of_true ⟨h, .refl linkId m⟩ fun _ _ hsome => by cases hsome
    | some sessionId =>
      rw [hrequested] at hrequest
      obtain ⟨engine, actions, hresult, hsession⟩ := hrequest
      have hengine : engine.linkId = linkId := by
        have hkept := (kept_handleSignal (P := P) (e := .new linkId none .rnsp) upgradeRequest
          payload derivedKey now).linkId
        rwa [hresult] at hkept
      rw [hresult]
      constructor
      · rintro ⟨howned, -⟩ _ other hother
        rw [← Option.some.inj hother, ← hsession]
        exact (owned_openSession_iff h hengine now).1 howned
      · intro hfree
        have hfree := hfree hpolicy sessionId rfl
        rw [← hsession] at hfree
        exact ⟨(owned_openSession_iff h hengine now).2 hfree, untouched_openSession hfree now⟩

theorem handleSignal_keeps_iff (h : m.Owned) (linkId : Vector UInt8 16) (msgtype : UInt16) (payload : Bytes)
    (derivedKey : Option Bytes) (now : ℚ) (starts : Bool) :
    ((m.handleSignal P linkId msgtype payload derivedKey now starts).1.Owned ∧
      m.Untouched linkId (m.handleSignal P linkId msgtype payload derivedKey now starts).1) ↔
    HolePunchManagerEvent.Fits P m (.signal linkId msgtype payload derivedKey now starts) := by
  unfold handleSignal
  split_ifs with hother hrequest
  · refine iff_of_true ⟨h, .refl linkId m⟩ fun hmsgtype => ?_
    subst hmsgtype
    exact absurd hother (by decide)
  · refine (handleRequest_keeps_iff h ..).trans ?_
    exact ⟨fun hfits _ => hfits, fun hfits => hfits hrequest⟩
  · exact iff_of_true (handleAnswer_keeps h P linkId msgtype payload derivedKey now starts)
      fun hmsgtype => absurd hmsgtype hrequest

variable (linkId : Vector UInt8 16)

theorem initiator_propose (derivedKey : Bytes) (now : ℚ) (drawn : SessionId) :
    (m.probeAddrs ≠ [] ∧ (derivePunchToken P derivedKey drawn).toOption.isSome ∧ ∃ engine actions,
      (m.initiator linkId).propose P derivedKey now drawn = (engine, .ok actions) ∧
        engine.sessionId = drawn) ∨
    (¬(m.probeAddrs ≠ [] ∧ (derivePunchToken P derivedKey drawn).toOption.isSome) ∧ ∃ engine err,
      (m.initiator linkId).propose P derivedKey now drawn = (engine, .error err)) := by
  have hidle : ¬(m.initiator linkId).state ≠ .idle := fun h => h rfl
  simp only [HolePunchEngine.propose, if_neg hidle]
  cases htoken : derivePunchToken P derivedKey drawn with
  | error err => exact .inr ⟨fun hall => by simp [Except.toOption] at hall, _, _, rfl⟩
  | ok punchToken =>
    cases haddrs : m.probeAddrs with
    | nil => exact .inr ⟨fun hall => hall.1 rfl, by simp [initiator, HolePunchEngine.new, haddrs]⟩
    | cons addr addrs =>
      exact .inl ⟨by simp, by simp [Except.toOption], by simp [initiator, HolePunchEngine.new, haddrs, enter]⟩

theorem linkToSession_dropSession {linkId other : Vector UInt8 16} (hne : other ≠ linkId) :
    (m.dropSession linkId).linkToSession[other]? = m.linkToSession[other]? := by
  unfold dropSession
  split
  · rfl
  · simp [getElem?_erase, Ne.symm hne]

theorem linkToSession_dropSession_self : (m.dropSession linkId).linkToSession[linkId]? = none := by
  unfold dropSession
  split
  · assumption
  · simp

theorem probeAddrs_dropSession : (m.dropSession linkId).probeAddrs = m.probeAddrs := by
  unfold dropSession
  split <;> rfl

theorem propose_owned_iff (h : m.Owned) (linkId : Vector UInt8 16) (derivedKey : Bytes) (now : ℚ)
    (drawn : SessionId) : (m.propose P linkId derivedKey now drawn).1.Owned ↔
      HolePunchManagerEvent.Fits P m (.propose linkId derivedKey now drawn) := by
  unfold propose
  by_cases hlimited : m.rateLimited linkId now = true
  · rw [if_pos hlimited]
    exact iff_of_true h fun hfalse => absurd hlimited (by simp [hfalse])
  · rw [if_neg hlimited]
    have hnot : m.rateLimited linkId now = false := by simpa using hlimited
    have hdropped := owned_dropSession h linkId
    dsimp only
    rcases initiator_propose (m := m.dropSession linkId) (P := P) linkId derivedKey now drawn with
      ⟨haddrs, htoken, engine, actions, hresult, hsession⟩ | ⟨hfails, engine, err, hresult⟩
    · have hengine : engine.linkId = linkId := by
        have hkept := (kept_call (P := P) ((m.dropSession linkId).initiator linkId)
          (.propose derivedKey now drawn)).linkId
        rwa [call, hresult] at hkept
      rw [probeAddrs_dropSession] at haddrs
      rw [hresult]
      refine (owned_openSession_iff hdropped hengine now).trans ⟨?_, ?_⟩
      · intro hfree _ _ _ other hother
        rw [← linkToSession_dropSession hother, ← hsession]
        exact hfree.1 other hother
      · intro hfits
        refine ⟨fun other hother => ?_, fun old hold => ?_⟩
        · rw [linkToSession_dropSession hother, hsession]
          exact hfits hnot haddrs htoken other hother
        · rw [linkToSession_dropSession_self] at hold
          cases hold
    · rw [probeAddrs_dropSession] at hfails
      rw [hresult]
      exact iff_of_true hdropped fun _ haddrs htoken => absurd ⟨haddrs, htoken⟩ hfails

theorem keeps_iff (h : m.Owned) (e : HolePunchManagerEvent) :
    ((m.step P e).1.Owned ∧ e.Harmless P m) ↔ e.Fits P m := by
  cases e with
  | propose linkId derivedKey now drawn =>
    exact (and_iff_left trivial).trans (propose_owned_iff h linkId derivedKey now drawn)
  | signal linkId msgtype payload derivedKey now starts =>
    exact handleSignal_keeps_iff h ..
  | probeResult linkId sessionId observed socket probeServer now starts =>
    exact iff_of_true ⟨(sameOwners_handleProbeResult ..).owned h, trivial⟩ trivial
  | probeFailed linkId sessionId =>
    exact iff_of_true ⟨(sameOwners_handleProbeFailed ..).owned h, trivial⟩ trivial
  | tick now outcome => exact iff_of_true ⟨owned_tick h .., trivial⟩ trivial
  | linkClosed linkId => exact iff_of_true ⟨owned_dropSession h linkId, trivial⟩ trivial
  | abortAll => exact iff_of_true ⟨owned_iff.2 ⟨by simp [step, abortAllSessions],
      by simp [step, abortAllSessions]⟩, trivial⟩ trivial
  | setPolicy policy => exact iff_of_true ⟨⟨h.keys, h.owner, h.engines⟩, trivial⟩ trivial

theorem owned_new (probeAddrs : List SocketAddr) (probeProtocol : ProbeProtocol) :
    (new probeAddrs probeProtocol).Owned :=
  owned_iff.2 ⟨by simp [new], by simp [new]⟩

/-- Along a run of a new manager, links and sessions belong to each other after every event and no signal
changes the session of another link, exactly when every proposal and every request that is taken up brings a
session id that is free for its link. -/
theorem sessions_owned_iff (P : Primitives) (probeAddrs : List SocketAddr) (probeProtocol : ProbeProtocol)
    (es : List HolePunchManagerEvent) :
    (holePunchManager P).Meets (fun _ m e => (m.step P e).1.Owned ∧ e.Harmless P m) []
        (new probeAddrs probeProtocol) es ↔
      (holePunchManager P).Meets (fun _ m e => e.Fits P m) [] (new probeAddrs probeProtocol) es := by
  have hgood : ∀ (m : HolePunchManager) (e : HolePunchManagerEvent), m.Owned →
      ((m.step P e).1.Owned ∧ e.Harmless P m ↔ e.Fits P m) := fun m e h => keeps_iff h e
  have hkeep : ∀ (m : HolePunchManager) (e : HolePunchManagerEvent), m.Owned → e.Fits P m →
      (m.step P e).1.Owned := fun m e h hfits => ((hgood m e h).2 hfits).1
  exact (holePunchManager P).meets_iff_of_invariant hgood hkeep (owned_new ..) [] es

def sampleRequest (sessionId : SessionId) : Bytes :=
  encodeUpgradeRequest sessionId ⟨[10, 0, 0, 1], 4343⟩ ⟨[10, 0, 0, 2], 4242⟩ .rnsp

def sharedRequests (first second : Vector UInt8 16) (sessionId : SessionId) : List HolePunchManagerEvent :=
  [.signal first upgradeRequest (sampleRequest sessionId) (some [1]) 0 true,
    .signal second upgradeRequest (sampleRequest sessionId) (some [1]) 0 true]

/-- The peer of the second link takes over the session of the first. -/
theorem request_takes_over_session :
    let first : Vector UInt8 16 := .replicate 16 1
    let second : Vector UInt8 16 := .replicate 16 2
    let events := sharedRequests first second (.replicate 16 9)
    let after := ((holePunchManager Primitives.sample).run (new [] .rnsp) events).1
    ¬after.Owned ∧ (after.sessions[(Vector.replicate 16 9 : SessionId)]?).map (·.engine.linkId) =
      some second := by
  intro first second events after
  have hfirst : after.linkToSession[first]? = some (.replicate 16 9) := by decide +kernel
  have hsecond : after.linkToSession[second]? = some (.replicate 16 9) := by decide +kernel
  refine ⟨fun howned => ?_, by decide +kernel⟩
  obtain ⟨owner, -, hunique⟩ := howned.owner (howned.keys hfirst)
  have hsame : first = second := (hunique first hfirst).trans (hunique second hsecond).symm
  exact absurd hsame (by decide)

end HolePunchManager

end Rns

import Rns.HolePunch.Exchange

/-!
# Agreement on a hole-punch session

A session is proposed once and accepted once, so the two ends agree on who they are, on the token and on
both endpoints when both punch.  An engine that is reset could accept an old request again.
-/

namespace Rns

open HolePunch HolePunchEvent

/-! ## One end -/

variable {mine' : List SessionId} {facilitator initiatorPublic : Endpoint} {payload : Bytes}
  {responderPublic : Endpoint} {out inbox' : List Signal} {protocol : ProbeProtocol}

namespace HolePunchEnd

variable {P : Primitives} {key : Bytes} {mine theirs : List SessionId} {inbox : List Signal}
  {x : HolePunchEnd}

/-- What the signals of an end have behind them. -/
structure Founded (mine : List SessionId) (inbox out : List Signal) : Prop where
  requested : ∀ s pub, Requests out s pub → s ∈ mine
  accepted : ∀ s, Accepts out s → ∃ pub, Requests inbox s pub
  readied : ∀ s ep, Readies out s ep → Accepts out s

/-- What an end knows about its session. -/
structure Informed (P : Primitives) (key : Bytes) (mine : List SessionId) (inbox out : List Signal)
    (e : HolePunchEngine) : Prop where
  token : derivePunchToken P key e.sessionId = .ok e.punchToken
  initiator : e.isInitiator = true → e.sessionId ∈ mine
  responder : e.isInitiator = false → Accepts out e.sessionId ∧
    ∃ pub, Requests inbox e.sessionId pub ∧ e.peerPublicEndpoint = some pub
  requested : ∀ pub, Requests out e.sessionId pub →
    e.isInitiator = true ∧ e.state ≠ .discovering ∧ e.ourPublicEndpoint = some pub
  readied : ∀ ep, Readies out e.sessionId ep →
    e.isInitiator = false ∧ e.state ≠ .discovering ∧ e.ourPublicEndpoint = some ep
  started : e.isInitiator = true → e.Up →
    ∃ ep, Readies inbox e.sessionId ep ∧ e.peerPublicEndpoint = some ep

structure Sound (P : Primitives) (key : Bytes) (mine : List SessionId) (inbox : List Signal)
    (x : HolePunchEnd) : Prop where
  founded : Founded mine inbox x.out
  informed : x.engine.state ≠ .idle → Informed P key mine inbox x.out x.engine

def AcceptsOnce (x : HolePunchEnd) (op : HolePunchOp) : Prop :=
  ∀ payload keyKnown now s facilitator pub protocol,
    op = .handleSignal (upgradeRequest, payload) keyKnown now → x.engine.state = .idle →
    decodeUpgradeRequest payload = .ok (s, facilitator, pub, protocol) → ¬Accepts x.out s

theorem Founded.append {out sent : List Signal} (h : Founded mine inbox out)
    (hrequests : ∀ s pub, Requests sent s pub → s ∈ mine)
    (haccepts : ∀ s, Accepts sent s → ∃ pub, Requests inbox s pub)
    (hreadies : ∀ s ep, Readies sent s ep → Accepts out s) : Founded mine inbox (out ++ sent) where
  requested s pub hs := (tells_append.1 hs).elim (h.requested s pub) (hrequests s pub)
  accepted s hs := (tells_append.1 hs).elim (h.accepted s) (haccepts s)
  readied s ep hs := ((tells_append.1 hs).elim (h.readied s ep) (hreadies s ep)).left

theorem Founded.mono (h : Founded mine inbox out) (hmine : mine ⊆ mine') (hinbox : inbox ⊆ inbox') :
    Founded mine' inbox' out where
  requested s pub hs := hmine (h.requested s pub hs)
  accepted s hs := (h.accepted s hs).imp fun _ ⟨payload, hmem, hmeans⟩ => ⟨payload, hinbox hmem, hmeans⟩
  readied := h.readied

theorem Informed.mono {e : HolePunchEngine} (h : Informed P key mine inbox out e)
    (hmine : mine ⊆ mine') (hinbox : inbox ⊆ inbox') : Informed P key mine' inbox' out e where
  token := h.token
  initiator hinit := hmine (h.initiator hinit)
  responder hresp := by
    obtain ⟨haccepts, pub, ⟨payload, hmem, hmeans⟩, hpeer⟩ := h.responder hresp
    exact ⟨haccepts, pub, ⟨payload, hinbox hmem, hmeans⟩, hpeer⟩
  requested := h.requested
  readied := h.readied
  started hinit hup := by
    obtain ⟨ep, ⟨payload, hmem, hmeans⟩, hpeer⟩ := h.started hinit hup
    exact ⟨ep, ⟨payload, hinbox hmem, hmeans⟩, hpeer⟩

theorem Sound.mono {inbox' : List Signal} (h : Sound P key mine inbox x) (hmine : mine ⊆ mine')
    (hinbox : inbox ⊆ inbox') : Sound P key mine' inbox' x :=
  ⟨h.founded.mono hmine hinbox, fun hbusy => (h.informed hbusy).mono hmine hinbox⟩

variable {e e' : HolePunchEngine} {out sent : List Signal}

theorem Informed.stays (h : Informed P key mine inbox out e) (hsame : e.SameSession e')
    (hpeer : e'.peerPublicEndpoint = e.peerPublicEndpoint)
    (hour : e'.ourPublicEndpoint = e.ourPublicEndpoint ∨
      e.state = .discovering ∧ e'.state = .discovering)
    (hdiscovering : e'.state = .discovering → e.state = .discovering) (hup : e'.Up → e.Up) :
    Informed P key mine inbox out e' := by
  have hkept : e.state ≠ .discovering → e'.state ≠ .discovering ∧
      e'.ourPublicEndpoint = e.ourPublicEndpoint := fun hne =>
    ⟨fun h => hne (hdiscovering h), hour.resolve_right fun h => hne h.1⟩
  constructor
  · rw [hsame.sessionId, hsame.punchToken]
    exact h.token
  · rw [hsame.sessionId, hsame.isInitiator]
    exact h.initiator
  · rw [hsame.sessionId, hsame.isInitiator, hpeer]
    exact h.responder
  · rw [hsame.sessionId, hsame.isInitiator]
    intro pub hpub
    obtain ⟨hinit, hne, hold⟩ := h.requested pub hpub
    exact ⟨hinit, (hkept hne).1, (hkept hne).2.trans hold⟩
  · rw [hsame.sessionId, hsame.isInitiator]
    intro ep hep
    obtain ⟨hresp, hne, hold⟩ := h.readied ep hep
    exact ⟨hresp, (hkept hne).1, (hkept hne).2.trans hold⟩
  · rw [hsame.sessionId, hsame.isInitiator, hpeer]
    exact fun hinit hup' => h.started hinit (hup hup')

theorem Informed.append_reject (h : Informed P key mine inbox out e)
    (hsent : ∀ signal ∈ sent, signal.1 = upgradeReject) :
    Informed P key mine inbox (out ++ sent) e where
  token := h.token
  initiator := h.initiator
  responder hresp := (h.responder hresp).imp_left Tells.left
  requested pub hpub := h.requested pub ((tells_append_other (by decide) hsent).1 hpub)
  readied ep hep := h.readied ep ((tells_append_other (by decide) hsent).1 hep)
  started := h.started

variable {op : HolePunchOp} {mine' : List SessionId}

theorem informed_propose (hfounded : Founded mine inbox out)
    (hinbox : ∀ s pub, Requests inbox s pub → s ∈ theirs) (hmine' : e'.sessionId ∈ mine')
    (hmine : e'.sessionId ∉ mine) (htheirs : e'.sessionId ∉ theirs) (hstate : e'.state = .discovering)
    (hinitiator : e'.isInitiator = true)
    (htoken : derivePunchToken P key e'.sessionId = .ok e'.punchToken) :
    Informed P key mine' inbox out e' where
  token := htoken
  initiator _ := hmine'
  responder hresp := by
    rw [hinitiator] at hresp
    nomatch hresp
  requested pub hpub := absurd (hfounded.requested _ pub hpub) hmine
  readied ep hep := by
    obtain ⟨pub, hpub⟩ := hfounded.accepted _ (hfounded.readied _ ep hep)
    exact absurd (hinbox _ pub hpub) htheirs
  started _ hup := absurd hstate hup.ne_discovering

theorem Informed.request (h : Informed P key mine inbox out e)
    (hdiscovering : e.state = .discovering) (hinitiator : e.isInitiator = true)
    (hsame : e.SameSession e') (hstate : e'.state = .proposing)
    (hour : e'.ourPublicEndpoint = some initiatorPublic)
    (hpayload : decodeUpgradeRequest payload = .ok (e.sessionId, facilitator, initiatorPublic, protocol)) :
    Informed P key mine inbox (out ++ [(upgradeRequest, payload)]) e' := by
  have hinit' : e'.isInitiator = true := hsame.isInitiator.trans hinitiator
  constructor
  · rw [hsame.sessionId, hsame.punchToken]
    exact h.token
  · rw [hsame.sessionId]
    exact fun _ => h.initiator hinitiator
  · rw [hinit']
    exact fun hresp => nomatch hresp
  · -- There is no other request: the engine was still discovering.
    rw [hsame.sessionId, hinit', hstate, hour]
    intro pub hpub
    rcases tells_append.1 hpub with hold | hnew
    · exact absurd hdiscovering (h.requested pub hold).2.1
    · obtain ⟨facilitator', protocol', hmeans⟩ := tells_singleton.1 hnew
      rw [hpayload] at hmeans
      simp only [Except.ok.injEq, Prod.mk.injEq] at hmeans
      exact ⟨rfl, by decide, by rw [hmeans.2.2.1]⟩
  · rw [hsame.sessionId]
    intro ep hep
    have hold := h.readied ep ((tells_append_other (by decide) type_singleton).1 hep)
    exact absurd hdiscovering hold.2.1
  · intro _ hup
    rw [HolePunchEngine.Up, hstate] at hup
    rcases hup with h | h <;> nomatch h

theorem informed_accept (hfounded : Founded mine inbox out)
    (hinbox : ∀ s pub, Requests inbox s pub → s ∈ theirs) (hdisjoint : ∀ s ∈ mine, s ∉ theirs)
    {payload answer : Bytes} (harrives : (upgradeRequest, payload) ∈ inbox)
    (hpayload : decodeUpgradeRequest payload = .ok (e'.sessionId, facilitator, initiatorPublic, protocol))
    (honce : ¬Accepts out e'.sessionId) (hresponder : e'.isInitiator = false)
    (htoken : derivePunchToken P key e'.sessionId = .ok e'.punchToken)
    (hpeer : e'.peerPublicEndpoint = some initiatorPublic)
    (hanswer : decodeUpgradeAccept answer = .ok e'.sessionId) :
    Informed P key mine inbox (out ++ [(upgradeAccept, answer)]) e' := by
  have hrequests : Requests inbox e'.sessionId initiatorPublic :=
    ⟨payload, harrives, facilitator, protocol, hpayload⟩
  have hinit' : e'.isInitiator ≠ true := by rw [hresponder]; exact Bool.false_ne_true
  constructor
  · exact htoken
  · exact fun hinit => absurd hinit hinit'
  · exact fun _ => ⟨Tells.right (tells_singleton.2 hanswer), initiatorPublic, hrequests, hpeer⟩
  · intro pub hpub
    have hmine := hfounded.requested _ pub ((tells_append_other (by decide) type_singleton).1 hpub)
    exact absurd (hinbox _ _ hrequests) (hdisjoint _ hmine)
  · intro ep hep
    exact absurd (hfounded.readied _ ep ((tells_append_other (by decide) type_singleton).1 hep)) honce
  · exact fun hinit => absurd hinit hinit'

theorem Informed.ready (h : Informed P key mine inbox out e) (hdiscovering : e.state = .discovering)
    (hresponder : e.isInitiator = false) (hsame : e.SameSession e') (hstate : e'.state = .punching)
    (hpeer : e'.peerPublicEndpoint = e.peerPublicEndpoint)
    (hour : e'.ourPublicEndpoint = some responderPublic)
    (hpayload : decodeUpgradeReady payload = .ok (e.sessionId, responderPublic)) :
    Informed P key mine inbox (out ++ [(upgradeReady, payload)]) e' := by
  have hresp' : e'.isInitiator = false := hsame.isInitiator.trans hresponder
  have hinit' : e'.isInitiator ≠ true := by rw [hresp']; exact Bool.false_ne_true
  constructor
  · rw [hsame.sessionId, hsame.punchToken]
    exact h.token
  · exact fun hinit => absurd hinit hinit'
  · rw [hsame.sessionId, hpeer]
    exact fun _ => (h.responder hresponder).imp_left Tells.left
  · rw [hsame.sessionId]
    intro pub hpub
    have hold := h.requested pub ((tells_append_other (by decide) type_singleton).1 hpub)
    exact absurd hdiscovering hold.2.1
  · -- There is no other endpoint told: the engine was still discovering.
    rw [hsame.sessionId, hresp', hstate, hour]
    intro ep hep
    rcases tells_append.1 hep with hold | hnew
    · exact absurd hdiscovering (h.readied ep hold).2.1
    · have hmeans := tells_singleton.1 hnew
      rw [hpayload] at hmeans
      simp only [Except.ok.injEq, Prod.mk.injEq] at hmeans
      exact ⟨rfl, by decide, by rw [hmeans.2]⟩
  · exact fun hinit => absurd hinit hinit'

theorem Informed.start (h : Informed P key mine inbox out e) (hinitiator : e.isInitiator = true)
    (harrives : (upgradeReady, payload) ∈ inbox)
    (hpayload : decodeUpgradeReady payload = .ok (e.sessionId, responderPublic))
    (hsame : e.SameSession e') (hstate : e'.state = .punching)
    (hour : e'.ourPublicEndpoint = e.ourPublicEndpoint)
    (hpeer : e'.peerPublicEndpoint = some responderPublic) : Informed P key mine inbox out e' := by
  have hinit' : e'.isInitiator = true := hsame.isInitiator.trans hinitiator
  constructor
  · rw [hsame.sessionId, hsame.punchToken]
    exact h.token
  · rw [hsame.sessionId]
    exact fun _ => h.initiator hinitiator
  · rw [hinit']
    exact fun hresp => nomatch hresp
  · rw [hsame.sessionId, hinit', hstate, hour]
    exact fun pub hpub => ⟨rfl, by decide, (h.requested pub hpub).2.2⟩
  · rw [hsame.sessionId]
    intro ep hep
    exact absurd ((h.readied ep hep).1.symm.trans hinitiator) Bool.false_ne_true
  · rw [hsame.sessionId]
    exact fun _ _ => ⟨responderPublic, ⟨payload, harrives, hpayload⟩, hpeer⟩

theorem Sound.move (h : Sound P key mine inbox x) (hmove : x.engine.Moves P key inbox op e' sent)
    (hinbox : ∀ s pub, Requests inbox s pub → s ∈ theirs) (hdisjoint : ∀ s ∈ mine, s ∉ theirs)
    (hsub : mine ⊆ mine') (hfresh : ∀ s, op.proposal = some s → s ∈ mine' ∧ s ∉ mine ∧ s ∉ theirs)
    (honce : x.AcceptsOnce op) : Sound P key mine' inbox ⟨e', x.out ++ sent⟩ := by
  have hgrow : Sound P key mine inbox ⟨e', x.out ++ sent⟩ → Sound P key mine' inbox ⟨e', x.out ++ sent⟩ :=
    fun hsound => hsound.mono hsub (List.Subset.refl _)
  cases hmove with
  | idle hidle _ _ =>
    refine hgrow ⟨?_, fun hbusy => absurd hidle hbusy⟩
    rw [List.append_nil]
    exact h.founded
  | stays hbusy _ hsame hpeer hour _ hdiscovering hup hsent =>
    refine hgrow ⟨h.founded.append ?_ ?_ ?_, fun _ => ?_⟩
    · exact fun s pub hs => absurd hs (not_tells (by decide) hsent)
    · exact fun s hs => absurd hs (not_tells (by decide) hsent)
    · exact fun s ep hs => absurd hs (not_tells (by decide) hsent)
    · exact ((h.informed hbusy).stays hsame hpeer hour hdiscovering hup).append_reject hsent
  | proposes hop hidle hstate hinitiator htoken _ _ =>
    rw [List.append_nil]
    obtain ⟨hmine', hmine, htheirs⟩ := hfresh _ hop
    exact ⟨h.founded.mono hsub (List.Subset.refl _), fun _ =>
      informed_propose h.founded hinbox hmine' hmine htheirs hstate hinitiator htoken⟩
  | requests hdiscovering hinitiator hsame hstate hour hpayload =>
    have hinformed := h.informed (by rw [hdiscovering]; decide)
    refine hgrow ⟨h.founded.append (fun s pub hs => ?_) (fun s hs => ?_) (fun s ep hs => ?_), fun _ =>
      hinformed.request hdiscovering hinitiator hsame hstate hour hpayload⟩
    · obtain ⟨facilitator', protocol', hmeans⟩ := tells_singleton.1 hs
      rw [hpayload] at hmeans
      simp only [Except.ok.injEq, Prod.mk.injEq] at hmeans
      exact hmeans.1 ▸ hinformed.initiator hinitiator
    · exact absurd hs (not_tells (by decide) type_singleton)
    · exact absurd hs (not_tells (by decide) type_singleton)
  | accepts hop hidle harrives hpayload hstate hresponder htoken hpeer hanswer _ =>
    refine hgrow ⟨h.founded.append (fun s pub hs => ?_) (fun s hs => ?_) (fun s ep hs => ?_), fun _ =>
      informed_accept h.founded hinbox hdisjoint harrives hpayload
        (honce _ _ _ _ _ _ _ hop hidle hpayload) hresponder htoken hpeer hanswer⟩
    · exact absurd hs (not_tells (by decide) type_singleton)
    · have hmeans := tells_singleton.1 hs
      rw [hanswer, Except.ok.injEq] at hmeans
      exact hmeans ▸ ⟨_, _, harrives, _, _, hpayload⟩
    · exact absurd hs (not_tells (by decide) type_singleton)
  | readies hdiscovering hresponder hsame hstate hpeer hour hpayload =>
    have hinformed := h.informed (by rw [hdiscovering]; decide)
    refine hgrow ⟨h.founded.append (fun s pub hs => ?_) (fun s hs => ?_) (fun s ep hs => ?_), fun _ =>
      hinformed.ready hdiscovering hresponder hsame hstate hpeer hour hpayload⟩
    · exact absurd hs (not_tells (by decide) type_singleton)
    · exact absurd hs (not_tells (by decide) type_singleton)
    · have hmeans := tells_singleton.1 hs
      rw [hpayload] at hmeans
      simp only [Except.ok.injEq, Prod.mk.injEq] at hmeans
      exact hmeans.1 ▸ (hinformed.responder hresponder).1
  | starts hwaiting hinitiator harrives hpayload hsame hstate hour hpeer =>
    have hinformed := h.informed (by rw [hwaiting]; decide)
    refine hgrow ⟨?_, fun _ => ?_⟩
    · rw [List.append_nil]
      exact h.founded
    · rw [List.append_nil]
      exact hinformed.start hinitiator harrives hpayload hsame hstate hour hpeer

def Unused (x : HolePunchEnd) : Prop := x.engine.state = .idle → ∀ s, ¬Accepts x.out s

theorem Unused.acceptsOnce (h : x.Unused) (op : HolePunchOp) : x.AcceptsOnce op :=
  fun _ _ _ s _ _ _ _ hidle _ => h hidle s

theorem Unused.move (h : x.Unused) (hmove : x.engine.Moves P key inbox op e' sent) (hop : op ≠ .reset) :
    Unused ⟨e', x.out ++ sent⟩ := by
  intro hidle s
  change e'.state = .idle at hidle
  cases hmove with
  | idle _ hwas _ =>
    rw [List.append_nil]
    exact h (hwas.resolve_left hop) s
  | stays _ hbusy' _ _ _ _ _ _ _ => exact absurd hidle hbusy'
  | proposes _ _ hstate _ _ _ _ | requests _ _ _ hstate _ _ | accepts _ _ _ _ hstate _ _ _ _ _
  | readies _ _ _ hstate _ _ _ | starts _ _ _ _ _ hstate _ _ =>
    exact absurd (hidle.symm.trans hstate) (by decide)

theorem subset_after (x : HolePunchEnd) (inbox : List Signal) (op : HolePunchOp) :
    x.out ⊆ (x.after P key inbox op).out := by
  unfold after
  split_ifs
  · exact List.subset_append_left _ _
  · exact List.Subset.refl _

theorem sized_after (h : x.engine.Sized) {op : HolePunchOp}
    (hendpoint : ∀ ep, op.endpoint = some ep → ep.Sized) :
    (x.after P key inbox op).engine.Sized := by
  unfold after
  split_ifs with harrives
  · exact (HolePunchEngine.moves_apply h harrives hendpoint).sized h hendpoint
  · exact h

theorem Sound.after (h : Sound P key mine inbox x) (hsized : x.engine.Sized)
    (hendpoint : ∀ ep, op.endpoint = some ep → ep.Sized)
    (hinbox : ∀ s pub, Requests inbox s pub → s ∈ theirs) (hdisjoint : ∀ s ∈ mine, s ∉ theirs)
    (hsub : mine ⊆ mine') (hfresh : ∀ s, op.proposal = some s → s ∈ mine' ∧ s ∉ mine ∧ s ∉ theirs)
    (honce : x.AcceptsOnce op) : Sound P key mine' inbox (x.after P key inbox op) := by
  unfold HolePunchEnd.after
  split_ifs with harrives
  · exact h.move (HolePunchEngine.moves_apply hsized harrives hendpoint) hinbox hdisjoint hsub hfresh
      honce
  · exact h.mono hsub (List.Subset.refl _)

theorem Unused.after (h : x.Unused) (hsized : x.engine.Sized)
    (hendpoint : ∀ ep, op.endpoint = some ep → ep.Sized) (hop : op ≠ .reset) :
    (x.after P key inbox op).Unused := by
  unfold HolePunchEnd.after
  split_ifs with harrives
  · exact h.move (HolePunchEngine.moves_apply hsized harrives hendpoint) hop
  · exact h

end HolePunchEnd

/-! ## Both ends -/

namespace HolePunchPair

variable {P : Primitives} {key : Bytes} {past es : List HolePunchEvent} {pair : HolePunchPair}

def leftProposals (past : List HolePunchEvent) : List SessionId :=
  past.filterMap leftProposal

def rightProposals (past : List HolePunchEvent) : List SessionId :=
  past.filterMap rightProposal

def Fair (past : List HolePunchEvent) (e : HolePunchEvent) : Prop :=
  (∀ s, e.op.proposal = some s → s ∉ leftProposals past ∧ s ∉ rightProposals past) ∧
    ∀ ep, e.op.endpoint = some ep → ep.Sized

def AcceptsOnce (pair : HolePunchPair) : HolePunchEvent → Prop
  | .left op => pair.left.AcceptsOnce op
  | .right op => pair.right.AcceptsOnce op

structure Sound (P : Primitives) (key : Bytes) (past : List HolePunchEvent) (pair : HolePunchPair) :
    Prop where
  left : pair.left.Sound P key (leftProposals past) pair.right.out
  right : pair.right.Sound P key (rightProposals past) pair.left.out
  disjoint : ∀ s ∈ leftProposals past, s ∉ rightProposals past
  sizedLeft : pair.left.engine.Sized
  sizedRight : pair.right.engine.Sized

theorem Sound.step (h : pair.Sound P key past) {e : HolePunchEvent} (hfair : Fair past e)
    (honce : pair.AcceptsOnce e) : ((holePunch P key).step pair e).1.Sound P key (past ++ [e]) := by
  obtain ⟨hfresh, hsized⟩ := hfair
  cases e with
  | left op =>
    have hleft : leftProposals (past ++ [.left op]) = leftProposals past ++ op.proposal.toList := by
      cases hop : op.proposal <;>
        simp [leftProposals, List.filterMap_append, leftProposal, hop]
    have hright : rightProposals (past ++ [.left op]) = rightProposals past := by
      simp [rightProposals, List.filterMap_append, rightProposal]
    refine ⟨?_, ?_, ?_, ?_, h.sizedRight⟩
    · refine h.left.after h.sizedLeft hsized h.right.founded.requested h.disjoint ?_ (fun s hs => ?_) honce
      · rw [hleft]
        exact List.subset_append_left _ _
      · rw [hleft, hs]
        exact ⟨by simp, hfresh s hs⟩
    · rw [hright]
      exact h.right.mono (List.Subset.refl _) (pair.left.subset_after _ _)
    · rw [hleft, hright]
      intro s hs
      rcases List.mem_append.1 hs with hold | hnew
      · exact h.disjoint s hold
      · exact (hfresh s (Option.mem_toList.1 hnew)).2
    · exact HolePunchEnd.sized_after h.sizedLeft hsized
  | right op =>
    have hright : rightProposals (past ++ [.right op]) = rightProposals past ++ op.proposal.toList := by
      cases hop : op.proposal <;>
        simp [rightProposals, List.filterMap_append, rightProposal, hop]
    have hleft : leftProposals (past ++ [.right op]) = leftProposals past := by
      simp [leftProposals, List.filterMap_append, leftProposal]
    refine ⟨?_, ?_, ?_, h.sizedLeft, ?_⟩
    · rw [hleft]
      exact h.left.mono (List.Subset.refl _) (pair.right.subset_after _ _)
    · refine h.right.after h.sizedRight hsized h.left.founded.requested
        (fun s hs hs' => h.disjoint s hs' hs) ?_ (fun s hs => ?_) honce
      · rw [hright]
        exact List.subset_append_left _ _
      · rw [hright, hs]
        exact ⟨by simp, (hfresh s hs).2, (hfresh s hs).1⟩
    · rw [hleft, hright]
      intro s hs hs'
      rcases List.mem_append.1 hs' with hold | hnew
      · exact h.disjoint s hs hold
      · exact (hfresh s (Option.mem_toList.1 hnew)).1 hs
    · exact HolePunchEnd.sized_after h.sizedRight hsized

theorem endpoints_of_informed {mine theirs : List SessionId} {out inbox : List Signal}
    {e e' : HolePunchEngine} (h : HolePunchEnd.Informed P key mine inbox out e)
    (h' : HolePunchEnd.Informed P key theirs out inbox e') (hup : e.Up) (hinitiator : e.isInitiator = true)
    (hresponder : e'.isInitiator = false) (hsession : e.sessionId = e'.sessionId) :
    ∃ ours theirs, e.ourPublicEndpoint = some ours ∧ e'.peerPublicEndpoint = some ours ∧
      e'.ourPublicEndpoint = some theirs ∧ e.peerPublicEndpoint = some theirs := by
  obtain ⟨-, ours, hrequests, hpeer'⟩ := h'.responder hresponder
  obtain ⟨theirs, hreadies, hpeer⟩ := h.started hinitiator hup
  exact ⟨ours, theirs, (h.requested ours (hsession ▸ hrequests)).2.2, hpeer',
    (h'.readied theirs (hsession ▸ hreadies)).2.2, hpeer⟩

/-- The two engines are the two ends of one session. -/
structure Agreed (e e' : HolePunchEngine) : Prop where
  token : e.punchToken = e'.punchToken
  roles : e.isInitiator ≠ e'.isInitiator
  endpoints : ∃ ours theirs, e.ourPublicEndpoint = some ours ∧ e'.peerPublicEndpoint = some ours ∧
    e'.ourPublicEndpoint = some theirs ∧ e.peerPublicEndpoint = some theirs

theorem Sound.agreed (h : pair.Sound P key past) (hleft : pair.left.engine.Up)
    (hright : pair.right.engine.Up) (hsession : pair.left.engine.sessionId = pair.right.engine.sessionId) :
    Agreed pair.left.engine pair.right.engine := by
  have hl := h.left.informed (hleft.ne_idle)
  have hr := h.right.informed (hright.ne_idle)
  have htoken : pair.left.engine.punchToken = pair.right.engine.punchToken := by
    have hboth := hl.token
    rw [hsession, hr.token, Except.ok.injEq] at hboth
    exact hboth.symm
  cases hleftRole : pair.left.engine.isInitiator with
  | true =>
    cases hrightRole : pair.right.engine.isInitiator with
    | true =>
      -- Both would have proposed it.
      have hmem := hr.initiator hrightRole
      rw [← hsession] at hmem
      exact absurd hmem (h.disjoint _ (hl.initiator hleftRole))
    | false =>
      exact ⟨htoken, by rw [hleftRole, hrightRole]; decide,
        endpoints_of_informed hl hr hleft hleftRole hrightRole hsession⟩
  | false =>
    cases hrightRole : pair.right.engine.isInitiator with
    | true =>
      obtain ⟨theirs, ours, h₁, h₂, h₃, h₄⟩ :=
        endpoints_of_informed hr hl hright hrightRole hleftRole hsession.symm
      exact ⟨htoken, by rw [hleftRole, hrightRole]; decide, ours, theirs, h₃, h₄, h₁, h₂⟩
    | false =>
      -- The request would have come from an initiator.
      obtain ⟨-, pub, hrequests, -⟩ := hl.responder hleftRole
      have hrole := (hr.requested pub (hsession ▸ hrequests)).1
      rw [hrightRole] at hrole
      nomatch hrole

/-! ## Runs -/

def start (linkId : Vector UInt8 16) (probeLeft probeRight : Option Endpoint)
    (protocolLeft protocolRight : ProbeProtocol) : HolePunchPair where
  left := ⟨.new linkId probeLeft protocolLeft, []⟩
  right := ⟨.new linkId probeRight protocolRight, []⟩

variable {linkId : Vector UInt8 16} {probeLeft probeRight : Option Endpoint}
  {protocolLeft protocolRight : ProbeProtocol}

theorem sound_new {mine : List SessionId} {inbox : List Signal} (probe : Option Endpoint)
    (protocol : ProbeProtocol) :
    HolePunchEnd.Sound P key mine inbox ⟨.new linkId probe protocol, []⟩ where
  founded := ⟨fun _ _ ⟨_, h, _⟩ => (nomatch h), fun _ ⟨_, h, _⟩ => (nomatch h),
    fun _ _ ⟨_, h, _⟩ => (nomatch h)⟩
  informed hbusy := absurd rfl hbusy

theorem sound_start (hprobe : ∀ addr, probeLeft = some addr ∨ probeRight = some addr → addr.Sized) :
    (start linkId probeLeft probeRight protocolLeft protocolRight).Sound P key [] where
  left := sound_new _ _
  right := sound_new _ _
  disjoint _ h := nomatch h
  sizedLeft := ⟨fun addr h => hprobe addr (.inl h), fun h => nomatch h⟩
  sizedRight := ⟨fun addr h => hprobe addr (.inr h), fun h => nomatch h⟩

theorem mem_proposals {s : SessionId} (h : s ∈ leftProposals past ∨ s ∈ rightProposals past) :
    s ∈ past.filterMap fun e => e.op.proposal := by
  simp only [leftProposals, rightProposals, List.mem_filterMap] at h ⊢
  rcases h with ⟨e, he, hs⟩ | ⟨e, he, hs⟩
  · cases e with
    | left op => exact ⟨_, he, hs⟩
    | right op => nomatch hs
  · cases e with
    | left op => nomatch hs
    | right op => exact ⟨_, he, hs⟩

theorem meets_fair (hproposals : (es.filterMap fun e => e.op.proposal).Nodup)
    (hendpoints : ∀ e ∈ es, ∀ ep, e.op.endpoint = some ep → ep.Sized) :
    (holePunch P key).Meets (fun past _ e => Fair past e) [] pair es := by
  refine Machine.Meets.of_split fun pre e post heq => ⟨fun s hs => ?_, hendpoints e (by simp [heq])⟩
  rw [List.nil_append]
  have hnew : s ∉ pre.filterMap fun e => e.op.proposal := by
    intro hmem
    rw [heq, List.filterMap_append, List.nodup_append] at hproposals
    exact hproposals.2.2 s hmem s (List.mem_filterMap.2 ⟨e, List.mem_cons_self, hs⟩) rfl
  exact ⟨fun h => hnew (mem_proposals (.inl h)), fun h => hnew (mem_proposals (.inr h))⟩

theorem meets_acceptsOnce (h : pair.Sound P key []) (hleft : pair.left.Unused) (hright : pair.right.Unused)
    (hfair : (holePunch P key).Meets (fun past _ e => Fair past e) [] pair es)
    (hreset : ∀ e ∈ es, e.op ≠ .reset) :
    (holePunch P key).Meets (fun _ pair e => pair.AcceptsOnce e) [] pair es := by
  have hok := hfair.and (Machine.Meets.of_forall (M := holePunch P key) (s := pair) hreset)
  refine Machine.Meets.of_invariant (I := fun past pair => pair.Sound P key past ∧
    pair.left.Unused ∧ pair.right.Unused) _ ?_ ?_ ⟨h, hleft, hright⟩ hok
  · rintro past pair e ⟨hsound, hl, hr⟩ ⟨hfair, hreset⟩
    have honce : pair.AcceptsOnce e := by
      cases e with
      | left op => exact hl.acceptsOnce op
      | right op => exact hr.acceptsOnce op
    refine ⟨hsound.step hfair honce, ?_⟩
    cases e with
    | left op => exact ⟨hl.after hsound.sizedLeft hfair.2 hreset, hr⟩
    | right op => exact ⟨hl, hr.after hsound.sizedRight hfair.2 hreset⟩
  · rintro past pair e ⟨-, hl, hr⟩ -
    cases e with
    | left op => exact hl.acceptsOnce op
    | right op => exact hr.acceptsOnce op

/-- Whenever both engines punch or are connected in the same session, they agree on it. -/
theorem holePunch_agreement (P : Primitives) (key : Bytes) (linkId : Vector UInt8 16)
    (probeLeft probeRight : Option Endpoint) (protocolLeft protocolRight : ProbeProtocol)
    (es : List HolePunchEvent) (hproposals : (es.filterMap fun e => e.op.proposal).Nodup)
    (hprobe : ∀ addr, probeLeft = some addr ∨ probeRight = some addr → addr.Sized)
    (hendpoints : ∀ e ∈ es, ∀ ep, e.op.endpoint = some ep → ep.Sized)
    (honce : (∀ e ∈ es, e.op ≠ .reset) ∨
      (holePunch P key).Meets (fun _ pair e => pair.AcceptsOnce e) []
        (start linkId probeLeft probeRight protocolLeft protocolRight) es) :
    let pair := ((holePunch P key).run
      (start linkId probeLeft probeRight protocolLeft protocolRight) es).1
    pair.left.engine.Up → pair.right.engine.Up →
      pair.left.engine.sessionId = pair.right.engine.sessionId →
      Agreed pair.left.engine pair.right.engine := by
  intro pair hleft hright hsession
  have hstart : (start linkId probeLeft probeRight protocolLeft protocolRight).Sound P key [] :=
    sound_start hprobe
  have hfair : (holePunch P key).Meets (fun past _ e => Fair past e) []
      (start linkId probeLeft probeRight protocolLeft protocolRight) es :=
    meets_fair hproposals hendpoints
  have honce := honce.elim (meets_acceptsOnce hstart (fun _ _ ⟨_, h, _⟩ => (nomatch h))
    (fun _ _ ⟨_, h, _⟩ => (nomatch h)) hfair) id
  have hsound : pair.Sound P key ([] ++ es) :=
    @Machine.run_invariant _ _ _ (holePunch P key) _ [] _ es (fun past pair _ => pair.Sound P key past)
      (fun _ _ _ _ h hok => h.step hok.1 hok.2) [] hstart (hfair.and honce)
  exact hsound.agreed hleft hright hsession

def atPort (host : UInt8) : Endpoint := ⟨[10, 0, 0, host], 7⟩

theorem sized_atPort (host : UInt8) : (atPort host).Sized := by simp [Endpoint.Sized, atPort]

/-- A whole session, with a request that is delivered twice. -/
def sampleSession : List HolePunchEvent :=
  let s : SessionId := .replicate 16 5
  let request : Signal := (upgradeRequest, encodeUpgradeRequest s (atPort 9) (atPort 1) .stun)
  [.left (.propose s 0), .left (.endpointsDiscovered (atPort 1) 1),
    .right (.handleSignal request true 2), .right (.handleSignal request true 2),
    .left (.handleSignal (upgradeAccept, encodeUpgradeAccept s) true 3),
    .right (.endpointsDiscovered (atPort 2) 4),
    .left (.handleSignal (upgradeReady, encodeUpgradeReady s (atPort 2)) true 5),
    .left (.punchSucceeded 6)]

theorem holePunch_agreement_sample :
    let pair := ((holePunch .sample [1]).run
      (start (.replicate 16 0) (some (atPort 9)) none .stun .rnsp) sampleSession).1
    pair.left.engine.Up ∧ pair.right.engine.Up ∧ Agreed pair.left.engine pair.right.engine := by
  have hleft : ((holePunch .sample [1]).run (start (.replicate 16 0) (some (atPort 9)) none .stun .rnsp)
      sampleSession).1.left.engine.Up := by decide +kernel
  have hright : ((holePunch .sample [1]).run (start (.replicate 16 0) (some (atPort 9)) none .stun .rnsp)
      sampleSession).1.right.engine.Up := by decide +kernel
  have hendpoints : ∀ e ∈ sampleSession, ∀ ep, e.op.endpoint = some ep → ep.Sized := by
    intro e he ep hep
    simp only [sampleSession, List.mem_cons, List.not_mem_nil, or_false] at he
    rcases he with rfl | rfl | rfl | rfl | rfl | rfl | rfl | rfl
    all_goals first
      | exact Option.some.inj hep ▸ sized_atPort _
      | nomatch hep
  refine ⟨hleft, hright, holePunch_agreement .sample [1] (.replicate 16 0) (some (atPort 9)) none .stun
    .rnsp sampleSession (by decide +kernel) ?_ hendpoints (.inl ?_) hleft hright (by decide +kernel)⟩
  · rintro addr (h | h)
    · exact Option.some.inj h ▸ sized_atPort 9
    · nomatch h
  · decide +kernel

end HolePunchPair

end Rns

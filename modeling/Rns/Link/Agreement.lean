import Rns.Lib.Machine
import Rns.Link.Handshake

/-!
# Agreement of the handshake

An initiator, and a destination that answers every request with a new responder, on a network that hands
over whatever it likes.  If the destination's signature cannot be forged, the proof an initiator accepts
fixes the link id, the responder's key and the signalling it read.  A responder that gets no signalling
uses the default MTU, and the initiator keeps what it has offered.
-/

namespace Rns

open LinkSession

/-! ## The system -/

/-- A responder with the MTU that its proof confirms. -/
structure Responder where
  session : LinkSession
  echo : Option UInt32
  deriving DecidableEq

structure Handshake where
  initiator : LinkSession
  responders : List Responder
  deriving DecidableEq

/-- A request reaches the destination, as any bytes; or an operation of one of the sessions, with any
bytes for what it receives. -/
inductive HandshakeEvent where
  | request (header data : Bytes) (hops : UInt8) (now : ℚ) (random : Vector UInt8 32)
  | initiator (op : LinkOp)
  | responder (k : ℕ) (op : LinkOp)

/-- A destination that accepts links. -/
structure LinkOwner where
  destHash : Hash16
  sign : Bytes → Vector UInt8 64
  sigPubBytes : Vector UInt8 32

section

variable (P : Primitives) (K : KeyPrimitives) (D : LinkOwner)

def LinkSession.after (s : LinkSession) (op : LinkOp) : LinkSession :=
  match s.apply P K op with
  | .value (s', _) => s'
  | .panic => s

/-- The link request as a packet: the signalling comes last in it. -/
def Handshake.step (h : Handshake) : HandshakeEvent → Handshake × List Bytes
  | .request header data hops now random =>
    match newResponder P K D.sign D.sigPubBytes data (header ++ data) D.destHash hops now random with
    | .error _ => (h, [])
    | .ok (session, lrproofData) =>
      let echo := ((parseSignalling (data.drop linkEcpubsize)).toOption.bind Prod.fst)
      ({ h with responders := h.responders ++ [⟨session, echo⟩] }, [lrproofData])
  | .initiator op => ({ h with initiator := h.initiator.after P K op }, [])
  | .responder k op =>
    ({ h with responders := h.responders.modify k fun r => { r with session := r.session.after P K op } },
      [])

def handshake : Machine Handshake HandshakeEvent Bytes := ⟨Handshake.step P K D⟩

def Responder.signed (r : Responder) : Bytes :=
  lrproofSigned r.session.engine.linkId (K.x25519Public r.session.prv) D.sigPubBytes
    (signalling r.echo r.session.mode)

/-- The initiator checks proofs with the destination's key, and what verifies under it has been signed
by a responder. -/
def Handshake.authentic (h : Handshake) : HandshakeEvent → Bool
  | .initiator (.lrproof proofData peerSigPubBytes _ _) =>
    let linkId := h.initiator.engine.linkId
    peerSigPubBytes = D.sigPubBytes ∧ (lrproofVerifies P proofData linkId D.sigPubBytes →
      lrproofSigned linkId (Bytes.fixed 32 proofData 64) D.sigPubBytes (proofData.drop 96) ∈
        h.responders.map (Responder.signed K D))
  | _ => true

/-- No other request has the link id of the initiator's. -/
def Handshake.collisionFree (requested : Bytes) (h : Handshake) : HandshakeEvent → Bool
  | .request header data _ _ _ =>
    computeLinkId P (header ++ data) (data.length - linkEcpubsize) = h.initiator.engine.linkId →
      header ++ data.take linkEcpubsize = requested
  | _ => true

/-- What an initiator starts from. -/
structure LinkOffer where
  header : Bytes
  hops : UInt8
  mode : LinkMode
  mtu : Option UInt32
  now : ℚ
  random : Vector UInt8 32
  sigPubBytes : Vector UInt8 32

namespace LinkOffer

def made (o : LinkOffer) : LinkSession × Bytes :=
  newInitiator K D.destHash o.hops o.mode o.mtu o.now o.random o.sigPubBytes

def requested (o : LinkOffer) : Bytes := o.header ++ (o.made K D).2.take linkEcpubsize

def start (o : LinkOffer) : Handshake where
  initiator := (o.made K D).1.setLinkIdFromHashable P (o.header ++ (o.made K D).2) (o.made K D).2.length
  responders := []

end LinkOffer

/-! ## Signed data -/

variable {pub : Vector UInt8 32} {h : Handshake} {proofData : Bytes} {linkId : LinkId}
  {e : HandshakeEvent} {r : Responder}

theorem lrproofSigned_injective {linkId' : LinkId} {pub pub' sigPub sigPub' : Vector UInt8 32}
    {bytes bytes' : Bytes}
    (h : lrproofSigned linkId pub sigPub bytes = lrproofSigned linkId' pub' sigPub' bytes') :
    linkId = linkId' ∧ pub = pub' ∧ bytes = bytes' := by
  simp only [lrproofSigned, List.append_assoc] at h
  obtain ⟨hid, h⟩ := List.append_inj h (by simp)
  obtain ⟨hpub, h⟩ := List.append_inj h (by simp)
  obtain ⟨-, hbytes⟩ := List.append_inj h (by simp)
  exact ⟨Vector.toList_inj.1 hid, Vector.toList_inj.1 hpub, hbytes⟩

theorem validateLrproof_ok {peerSigPub peerPub : Vector UInt8 32} {mtu : Option UInt32}
    {mode : LinkMode} (h : validateLrproof P proofData linkId peerSigPub = .ok (peerPub, mtu, mode)) :
    peerPub = Bytes.fixed 32 proofData 64 ∧
      (proofData.length = 96 ∨ proofData.length = 96 + linkMtuSize) ∧
      parseSignalling (proofData.drop 96) = .ok (mtu, mode) ∧
      lrproofVerifies P proofData linkId peerSigPub := by
  unfold validateLrproof at h
  by_cases hsize : proofData.length ≠ 64 + 32 ∧ proofData.length ≠ 64 + 32 + linkMtuSize
  · rw [if_pos hsize] at h
    cases h
  rw [if_neg hsize] at h
  cases hparse : parseSignalling (proofData.drop 96) with
  | error e =>
    rw [hparse] at h
    cases h
  | ok parsed =>
    obtain ⟨parsedMtu, parsedMode⟩ := parsed
    rw [hparse] at h
    dsimp only at h
    split_ifs at h with hverifies
    simp only [Except.ok.injEq, Prod.mk.injEq] at h
    obtain ⟨rfl, rfl, rfl⟩ := h
    exact ⟨rfl, by tauto, rfl, hverifies⟩

/-! ## What the responders hold -/

/-- A responder echoes the signalling it has read. -/
structure Responder.Echoes (r : Responder) : Prop where
  isInitiator : r.session.engine.isInitiator = false
  echo : parseSignalling (signalling r.echo r.session.mode) = .ok (r.echo, r.session.mode)

/-- It knows the key of whoever sent its request. -/
structure Responder.Sound (pub : Vector UInt8 32) (linkId : LinkId) (r : Responder) : Prop
    extends r.Echoes where
  exchanged : ∃ peerPub key, r.session.derivedKey = some key ∧
    performKeyExchange P r.session.prv peerPub r.session.engine.linkId r.session.mode = .ok key ∧
    (r.session.engine.linkId = linkId → peerPub = pub)

theorem LinkSession.advance_after {s : LinkSession} (hrole : s.engine.isInitiator = false)
    (op : LinkOp) :
    s.Advance (s.after P K op) ∧ ((∀ mtu, op ≠ .setMtu mtu) → s.SameMtu (s.after P K op)) := by
  unfold LinkSession.after
  cases hop : s.apply P K op with
  | panic => exact ⟨.refl s, fun _ => ⟨rfl, rfl⟩⟩
  | value r =>
    rcases apply_cases P K hop with ⟨hadvance, hmtu, -⟩ | ⟨_, _, _, _, _, _, _, _, _, haccepts⟩
    · exact ⟨hadvance, hmtu⟩
    · have hinitiator := haccepts.initiator
      rw [hrole] at hinitiator
      cases hinitiator

theorem Responder.Echoes.after (h : r.Echoes) (op : LinkOp) :
    Responder.Echoes { r with session := r.session.after P K op } := by
  obtain ⟨hadvance, -⟩ := LinkSession.advance_after P K h.isInitiator op
  refine ⟨hadvance.engine.isInitiator.trans h.isInitiator, ?_⟩
  rw [hadvance.mode]
  exact h.echo

theorem Responder.Sound.after (h : r.Sound P pub linkId) (op : LinkOp) :
    Responder.Sound P pub linkId { r with session := r.session.after P K op } := by
  obtain ⟨hadvance, -⟩ := LinkSession.advance_after P K h.isInitiator op
  obtain ⟨peerPub, key, hkey, hexchanged, hpub⟩ := h.exchanged
  refine ⟨h.toEchoes.after P K op, peerPub, key, hadvance.derivedKey.trans hkey, ?_, ?_⟩
  · rw [hadvance.prv, hadvance.engine.linkId, hadvance.mode]
    exact hexchanged
  · rw [hadvance.engine.linkId]
    exact hpub

theorem LinkSession.Answers.echo {sign : Bytes → Vector UInt8 64} {ownerSigPubBytes : Vector UInt8 32}
    {data hashablePart lrproofData : Bytes} {r : LinkSession} {peerPub : Vector UInt8 32}
    {peerMtu : Option UInt32} {key : Bytes}
    (h : r.Answers P K sign ownerSigPubBytes data hashablePart lrproofData peerPub peerMtu key) :
    (parseSignalling (data.drop linkEcpubsize)).toOption.bind Prod.fst = peerMtu := by
  rw [h.signalling]
  rfl

theorem Handshake.mem_responders_step (hr : r ∈ (h.step P K D e).1.responders) : r ∈ h.responders ∨
      (∃ r' ∈ h.responders, ∃ k op, e = .responder k op ∧
        r = { r' with session := r'.session.after P K op }) ∨
      ∃ header data hops now random lrproofData, e = .request header data hops now random ∧
        newResponder P K D.sign D.sigPubBytes data (header ++ data) D.destHash hops now random =
          .ok (r.session, lrproofData) ∧
        r.echo = (parseSignalling (data.drop linkEcpubsize)).toOption.bind Prod.fst := by
  cases e with
  | request header data hops now random =>
    simp only [Handshake.step] at hr
    cases hnew : newResponder P K D.sign D.sigPubBytes data (header ++ data) D.destHash hops now
        random with
    | error e =>
      rw [hnew] at hr
      exact .inl hr
    | ok made =>
      obtain ⟨session, lrproofData⟩ := made
      rw [hnew] at hr
      rcases List.mem_append.1 hr with hr | hr
      · exact .inl hr
      · rw [List.mem_singleton] at hr
        subst hr
        exact .inr (.inr ⟨header, data, hops, now, random, lrproofData, rfl, hnew, rfl⟩)
  | initiator op => exact .inl hr
  | responder k op =>
    simp only [Handshake.step] at hr
    obtain ⟨i, hi, hget⟩ := List.mem_iff_getElem.1 hr
    rw [List.length_modify] at hi
    rw [List.getElem_modify] at hget
    split_ifs at hget with hk
    · exact .inr (.inl ⟨_, List.getElem_mem hi, k, op, rfl, hget.symm⟩)
    · exact .inl (hget ▸ List.getElem_mem hi)

theorem Handshake.responder_kept (hr : r ∈ h.responders)
    (hroles : ∀ r ∈ h.responders, r.session.engine.isInitiator = false) (e : HandshakeEvent) :
    ∃ r' ∈ (h.step P K D e).1.responders, r.session.Advance r'.session ∧
      ((∀ k mtu, e ≠ .responder k (.setMtu mtu)) → r.session.SameMtu r'.session) := by
  cases e with
  | request header data hops now random =>
    simp only [Handshake.step]
    split
    · exact ⟨r, hr, .refl _, fun _ => ⟨rfl, rfl⟩⟩
    · exact ⟨r, List.mem_append_left _ hr, .refl _, fun _ => ⟨rfl, rfl⟩⟩
  | initiator op => exact ⟨r, hr, .refl _, fun _ => ⟨rfl, rfl⟩⟩
  | responder k op =>
    obtain ⟨i, hi, rfl⟩ := List.mem_iff_getElem.1 hr
    obtain ⟨hadvance, hmtu⟩ := LinkSession.advance_after P K (hroles _ hr) op
    have hmem : ∀ (f : Responder → Responder) (hi : i < (h.responders.modify k f).length),
        (h.responders.modify k f)[i] ∈ h.responders.modify k f := fun _ hi => List.getElem_mem hi
    refine ⟨_, hmem _ (by rwa [List.length_modify]), ?_⟩
    rw [List.getElem_modify]
    split_ifs with hk
    · exact ⟨hadvance, fun hne => hmtu fun mtu hop => hne k mtu (hop ▸ rfl)⟩
    · exact ⟨.refl _, fun _ => ⟨rfl, rfl⟩⟩

/-! ## Keys -/

/-- A proof that the initiator accepts has been signed by a responder of the same link, which has the
key in the proof and has read the same signalling. -/
theorem Handshake.signer_of_accepts {peerSigPubBytes : Vector UInt8 32} {now : ℚ} {iv : Block}
    {s' : LinkSession} {peerPub : Vector UInt8 32} {confirmedMtu : Option UInt32} {key : Bytes}
    (hauthentic : h.authentic P K D (.initiator (.lrproof proofData peerSigPubBytes now iv)))
    (hechoes : ∀ r ∈ h.responders, r.Echoes)
    (haccepts : h.initiator.Accepts P proofData peerSigPubBytes s' peerPub confirmedMtu key) :
    ∃ r ∈ h.responders, r.session.engine.linkId = h.initiator.engine.linkId ∧
      K.x25519Public r.session.prv = peerPub ∧ r.echo = confirmedMtu ∧
      r.session.mode = h.initiator.mode := by
  simp only [Handshake.authentic, decide_eq_true_eq] at hauthentic
  obtain ⟨rfl, hsigned⟩ := hauthentic
  obtain ⟨hpub, -, hparse, hverifies⟩ := validateLrproof_ok P haccepts.valid
  obtain ⟨r, hr, heq⟩ := List.mem_map.1 (hsigned hverifies)
  obtain ⟨hid, hkey, hbytes⟩ := lrproofSigned_injective heq
  have hread := (hechoes r hr).echo
  rw [hbytes, hparse, Except.ok.injEq, Prod.mk.injEq] at hread
  exact ⟨r, hr, hid, hkey.trans hpub.symm, hread.1.symm, hread.2.symm⟩

def Responder.Matches (r : Responder) (i : LinkSession) : Prop :=
  r.session.engine.linkId = i.engine.linkId ∧ r.session.mode = i.mode ∧
    r.session.derivedKey = i.derivedKey

/-- Holds in every state of a run: the initiator `i₀` keeps its identity, the responders are sound, and
an initiator that is up has the key of a responder of its link. -/
structure Handshake.Keyed (i₀ : LinkSession) (h : Handshake) : Prop where
  linkId : h.initiator.engine.linkId = i₀.engine.linkId
  isInitiator : h.initiator.engine.isInitiator
  mode : h.initiator.mode = i₀.mode
  prv : h.initiator.prv = i₀.prv
  responders : ∀ r ∈ h.responders, r.Sound P (K.x25519Public i₀.prv) i₀.engine.linkId
  up : h.initiator.engine.state.Up → h.initiator.derivedKey.isSome ∧
    ∃ r ∈ h.responders, r.Matches h.initiator

theorem Handshake.sound_of_newResponder {requested : Bytes} {pub sigPub : Vector UInt8 32}
    {linkId : LinkId} {header header₀ data : Bytes} {hops : UInt8} {now : ℚ}
    {random : Vector UInt8 32} {session : LinkSession} {lrproofData : Bytes}
    (hnew : newResponder P K D.sign D.sigPubBytes data (header ++ data) D.destHash hops now random =
      .ok (session, lrproofData))
    (hrequested : requested = header₀ ++ (pub.toList ++ sigPub.toList))
    (hfree : computeLinkId P (header ++ data) (data.length - linkEcpubsize) = linkId →
      header ++ data.take linkEcpubsize = requested) : Responder.Sound P pub linkId
      ⟨session, (parseSignalling (data.drop linkEcpubsize)).toOption.bind Prod.fst⟩ := by
  obtain ⟨peerPub, peerMtu, key, ha⟩ := newResponder_cases P K hnew
  rw [ha.echo]
  refine ⟨⟨ha.isInitiator, parseSignalling_signalling ha.signalling⟩, peerPub, key, ha.derivedKey,
    ha.exchanged, fun hid => ?_⟩
  -- the request hashes to the link id, so its keys are the initiator's
  have hlen : linkEcpubsize ≤ data.length := by
    rcases ha.size with h | h <;> omega
  have hkeys : data.take linkEcpubsize = pub.toList ++ sigPub.toList := by
    have heq := (hfree (ha.linkId ▸ hid)).trans hrequested
    refine (List.append_inj' heq ?_).2
    rw [List.length_take, Nat.min_eq_left hlen]
    simp [linkEcpubsize]
  have hpub : (Bytes.fixed 32 data 0).toList = pub.toList := by
    have htake : data.take 32 = (data.take linkEcpubsize).take 32 := by
      rw [List.take_take]
      rfl
    rw [Bytes.toList_fixed (by rw [linkEcpubsize] at hlen; omega), List.drop_zero, htake, hkeys]
    exact List.take_left' (by simp)
  exact ha.pub.trans (Vector.toList_inj.1 hpub)

theorem Handshake.initiator_step_of_ne (hne : ∀ op, e ≠ .initiator op) :
    (h.step P K D e).1.initiator = h.initiator := by
  cases e with
  | request header data hops now random =>
    simp only [Handshake.step]
    split <;> rfl
  | initiator op => exact absurd rfl (hne op)
  | responder k op => rfl

theorem Responder.Matches.advance {r' : Responder} {i : LinkSession} (h : r.Matches i)
    (hadvance : r.session.Advance r'.session) : r'.Matches i :=
  ⟨hadvance.engine.linkId.trans h.1, hadvance.mode.trans h.2.1, hadvance.derivedKey.trans h.2.2⟩

namespace Handshake.Keyed

variable {P K D} {i₀ : LinkSession} {h : Handshake}

theorem responders_step (hk : h.Keyed P K i₀) {requested header₀ : Bytes} {sigPub : Vector UInt8 32}
    (hrequested : requested = header₀ ++ ((K.x25519Public i₀.prv).toList ++ sigPub.toList))
    {e : HandshakeEvent} (hfree : h.collisionFree P requested e) :
    ∀ r ∈ (h.step P K D e).1.responders, r.Sound P (K.x25519Public i₀.prv) i₀.engine.linkId := by
  intro r hr
  rcases h.mem_responders_step P K D hr with hr | ⟨r', hr', k, op, -, rfl⟩ |
    ⟨header, data, hops, now, random, lrproofData, rfl, hnew, hecho⟩
  · exact hk.responders r hr
  · exact (hk.responders r' hr').after P K op
  · simp only [collisionFree, decide_eq_true_eq] at hfree
    have hsound := sound_of_newResponder P K D hnew hrequested fun hid => hfree (hid.trans hk.linkId.symm)
    rw [← hecho] at hsound
    exact hsound

section

variable (hk : h.Keyed P K i₀)
  (hcommute : ∀ a b, P.x25519Exchange a (K.x25519Public b) = P.x25519Exchange b (K.x25519Public a))
include hk hcommute

theorem matches_of_accepts {proofData : Bytes} {peerSigPubBytes : Vector UInt8 32} {now : ℚ}
    {iv : Block} {s' : LinkSession} {peerPub : Vector UInt8 32} {confirmedMtu : Option UInt32}
    {key : Bytes}
    (hauthentic : h.authentic P K D (.initiator (.lrproof proofData peerSigPubBytes now iv)))
    (haccepts : h.initiator.Accepts P proofData peerSigPubBytes s' peerPub confirmedMtu key) :
    ∃ r ∈ h.responders, r.Matches s' := by
  obtain ⟨r, hr, hid, hpub, -, hmode⟩ := h.signer_of_accepts P K D hauthentic
    (fun r hr => (hk.responders r hr).toEchoes) haccepts
  obtain ⟨rPub, rKey, hrKey, hexchanged, hrPub⟩ := (hk.responders r hr).exchanged
  refine ⟨r, hr, hid.trans haccepts.linkId.symm, hmode.trans haccepts.mode.symm, ?_⟩
  -- both ends derive the key from the same shared secret
  have hsame : performKeyExchange P r.session.prv rPub r.session.engine.linkId r.session.mode =
      performKeyExchange P h.initiator.prv peerPub h.initiator.engine.linkId h.initiator.mode := by
    rw [hid, hmode, hrPub (hid.trans hk.linkId), ← hpub, hk.prv]
    simp only [performKeyExchange, hcommute]
  rw [hexchanged, haccepts.exchanged, Except.ok.injEq] at hsame
  rw [hrKey, haccepts.derivedKey, hsame]

theorem step {requested header₀ : Bytes} {sigPub : Vector UInt8 32}
    (hrequested : requested = header₀ ++ ((K.x25519Public i₀.prv).toList ++ sigPub.toList))
    {e : HandshakeEvent} (hauthentic : h.authentic P K D e)
    (hfree : h.collisionFree P requested e) : (h.step P K D e).1.Keyed P K i₀ := by
  have hresponders := hk.responders_step (D := D) hrequested hfree
  by_cases hinitiator : ∃ op, e = .initiator op
  · obtain ⟨op, rfl⟩ := hinitiator
    change Handshake.Keyed P K i₀ { h with initiator := h.initiator.after P K op }
    unfold LinkSession.after
    cases hop : h.initiator.apply P K op with
    | panic => exact hk
    | value result =>
      obtain ⟨s', result⟩ := result
      rcases apply_cases P K hop with ⟨hadvance, -, -⟩ | ⟨proofData, key, now, iv, rfl, -, peerPub, mtu,
        derived, haccepts⟩
      · refine ⟨hadvance.engine.linkId.trans hk.linkId, hadvance.engine.isInitiator.trans hk.isInitiator,
          hadvance.mode.trans hk.mode, hadvance.prv.trans hk.prv, hk.responders, fun hup => ?_⟩
        obtain ⟨hkey, r, hr, hid, hmode, hsame⟩ := hk.up (hadvance.engine.up hk.isInitiator hup)
        exact ⟨hadvance.derivedKey.symm ▸ hkey, r, hr, hid.trans hadvance.engine.linkId.symm,
          hmode.trans hadvance.mode.symm, hsame.trans hadvance.derivedKey.symm⟩
      · refine ⟨haccepts.linkId.trans hk.linkId, haccepts.isInitiator.trans hk.isInitiator,
          haccepts.mode.trans hk.mode, haccepts.prv.trans hk.prv, hk.responders, fun _ => ?_⟩
        exact ⟨by simp only [haccepts.derivedKey, Option.isSome_some],
          hk.matches_of_accepts hcommute hauthentic haccepts⟩
  · have hsame := h.initiator_step_of_ne P K D fun op hop => hinitiator ⟨op, hop⟩
    refine ⟨hsame ▸ hk.linkId, hsame ▸ hk.isInitiator, hsame ▸ hk.mode, hsame ▸ hk.prv, hresponders,
      fun hup => ?_⟩
    rw [hsame] at hup ⊢
    obtain ⟨hkey, r, hr, hmatches⟩ := hk.up hup
    obtain ⟨r', hr', hadvance, -⟩ :=
      h.responder_kept P K D hr (fun r hr => (hk.responders r hr).isInitiator) e
    exact ⟨hkey, r', hr', hmatches.advance hadvance⟩

end

end Handshake.Keyed

namespace LinkOffer

theorem requested_eq (o : LinkOffer) : o.requested K D = o.header ++
    ((K.x25519Public (o.start P K D).initiator.prv).toList ++ o.sigPubBytes.toList) := by
  have hlen : ((K.x25519Public (clamp o.random)).toList ++ o.sigPubBytes.toList).length =
      linkEcpubsize := by
    simp [linkEcpubsize]
  have htake : (o.made K D).2.take linkEcpubsize =
      (K.x25519Public (clamp o.random)).toList ++ o.sigPubBytes.toList := List.take_left' hlen
  rw [requested, htake]
  rfl

theorem keyed_start (o : LinkOffer) : (o.start P K D).Keyed P K (o.start P K D).initiator where
  linkId := rfl
  isInitiator := rfl
  mode := rfl
  prv := rfl
  responders := fun r hr => absurd hr (List.not_mem_nil)
  up := fun hup => by rcases hup with hup | hup <;> cases hup

end LinkOffer

theorem Handshake.eq_of_unique {h : Handshake} {r r' : Responder} (hr' : r' ∈ h.responders)
    (hid : r'.session.engine.linkId = h.initiator.engine.linkId)
    (hunique : (h.responders.filter fun r =>
      r.session.engine.linkId = h.initiator.engine.linkId) = [r]) : r' = r := by
  have hmem : r' ∈ h.responders.filter fun r =>
      r.session.engine.linkId = h.initiator.engine.linkId :=
    List.mem_filter.2 ⟨hr', decide_eq_true hid⟩
  rw [hunique] at hmem
  exact List.mem_singleton.1 hmem

/-- The ends of a link agree on the mode and the key; closed is final; what fails changes nothing. -/
theorem handshake_agreement
    (hcommute : ∀ a b, P.x25519Exchange a (K.x25519Public b) = P.x25519Exchange b (K.x25519Public a))
    (o : LinkOffer) (es : List HandshakeEvent)
    (hes : (handshake P K D).Meets
      (fun _ h e => h.authentic P K D e ∧ h.collisionFree P (o.requested K D) e) [] (o.start P K D) es) :
    let h := ((handshake P K D).run (o.start P K D) es).1
    (h.initiator.engine.state = .active → ∃ r ∈ h.responders, r.Matches h.initiator) ∧
      (∀ r, (h.responders.filter fun r =>
          r.session.engine.linkId = h.initiator.engine.linkId) = [r] →
        h.initiator.engine.state = .active → r.session.engine.state = .active →
        r.session.mode = h.initiator.mode ∧
          ∃ key, r.session.derivedKey = some key ∧ h.initiator.derivedKey = some key) ∧
      (∀ (s s' : LinkSession) op result, s.engine.state = .closed →
        s.apply P K op = .value (s', result) → s'.engine.state = .closed) ∧
      (∀ (s : LinkSession) hashablePart dataLen, s.engine.state = .closed →
        (s.setLinkIdFromHashable P hashablePart dataLen).engine.state = .closed) ∧
      ∀ (s s' : LinkSession) op e, s.apply P K op = .value (s', .error e) → s' = s := by
  intro h
  have hkeyed : h.Keyed P K (o.start P K D).initiator :=
    (handshake P K D).run_keeps (I := fun h => h.Keyed P K (o.start P K D).initiator)
      (fun _ _ _ hk hok => hk.step hcommute (o.requested_eq P K D) hok.1 hok.2)
      (o.keyed_start P K D) hes
  refine ⟨fun hactive => (hkeyed.up (.inl hactive)).2, fun r hunique hactive _ => ?_,
    fun _ _ _ _ hclosed hop => apply_of_closed P K hclosed hop, fun s _ _ hclosed => ?_,
    fun _ _ _ _ hop => apply_of_error P K hop⟩
  swap
  · rw [setLinkIdFromHashable]
    exact hclosed
  obtain ⟨hkey, r', hr', hmatches⟩ := hkeyed.up (.inl hactive)
  obtain rfl := h.eq_of_unique hr' hmatches.1 hunique
  obtain ⟨key, hkey⟩ := Option.isSome_iff_exists.1 hkey
  exact ⟨hmatches.2.1, key, hmatches.2.2.trans hkey, hkey⟩

end

/-! ### A run -/

def KeyPrimitives.sample : KeyPrimitives where
  x25519Public prv := prv
  f64ToBeBytes _ := .replicate 8 0

def LinkOwner.sample : LinkOwner where
  destHash := .replicate 16 7
  sign message := Bytes.fixed 64 (List.replicate 32 9 ++ [message.headD 0]) 0
  sigPubBytes := .replicate 32 9

def LinkOffer.sample : LinkOffer where
  header := [2, 7]
  hops := 1
  mode := .aes256Cbc
  mtu := some 1000
  now := 0
  random := .replicate 32 1
  sigPubBytes := .replicate 32 2

/-- A request with the given data is answered, the proof comes back, and the round-trip time is
accepted. -/
def handshakeEvents (data : Bytes) : List HandshakeEvent :=
  let arrives : HandshakeEvent := .request LinkOffer.sample.header data 1 1 (.replicate 32 3)
  let proofs := ((LinkOffer.sample.start .sample .sample .sample).step .sample .sample .sample arrives).2
  let rtt := match LinkEngine.zeroToken.encryptWithIv .sample (packRtt .sample 2) (.replicate 16 0) with
    | .value sealedRtt => sealedRtt
    | .panic => []
  [arrives, .initiator (.lrproof proofs.flatten (.replicate 32 9) 2 (.replicate 16 0)),
    .responder 0 (.lrrtt rtt 3)]

theorem sample_exchange_comm (a b : Vector UInt8 32) :
    Primitives.sample.x25519Exchange a (KeyPrimitives.sample.x25519Public b) =
      Primitives.sample.x25519Exchange b (KeyPrimitives.sample.x25519Public a) := by
  apply Vector.ext
  intro i hi
  simp only [Primitives.sample, KeyPrimitives.sample, Vector.getElem_zipWith]
  exact UInt8.xor_comm _ _

theorem handshake_agreement_sample :
    let events := handshakeEvents (LinkOffer.sample.made .sample .sample).2
    let h := ((handshake .sample .sample .sample).run (LinkOffer.sample.start .sample .sample .sample)
      events).1
    h.initiator.engine.state = .active ∧ h.responders.length = 1 ∧
      (∀ r ∈ h.responders, r.session.engine.state = .active) ∧
      ∃ r ∈ h.responders, r.Matches h.initiator := by
  intro events h
  have hmain := handshake_agreement .sample .sample .sample sample_exchange_comm .sample events
    (by decide +kernel)
  have hactive : h.initiator.engine.state = .active := by decide +kernel
  exact ⟨hactive, by decide +kernel, by decide +kernel, hmain.1 hactive⟩

/-! ## The MTU -/

section

variable (P : Primitives) (K : KeyPrimitives) (D : LinkOwner)

/-- No one sets the MTU by hand, and a proof without signalling reaches only an initiator with the
default MTU. -/
def Handshake.keepsMtu (h : Handshake) : HandshakeEvent → Bool
  | .initiator (.setMtu _) | .responder _ (.setMtu _) => false
  | .initiator (.lrproof proofData _ _ _) =>
    h.initiator.engine.state = .pending → proofData.length = 96 →
      h.initiator.mtu = UInt32.ofNat Rns.mtu
  | _ => true

/-- A responder has the MTU it confirms, or the default. -/
structure Responder.Sized (r : Responder) : Prop extends r.Echoes where
  mtu : r.session.mtu = r.echo.getD (UInt32.ofNat Rns.mtu)
  mdu : r.session.mdu = computeMdu r.session.mtu.toNat

/-- Holds in every state of a run: an initiator that is up has the MTU of a responder of its link. -/
structure Handshake.Sized (h : Handshake) : Prop where
  isInitiator : h.initiator.engine.isInitiator
  mdu : h.initiator.mdu = computeMdu h.initiator.mtu.toNat
  responders : ∀ r ∈ h.responders, r.Sized
  up : h.initiator.engine.state.Up → ∃ r ∈ h.responders,
    r.session.engine.linkId = h.initiator.engine.linkId ∧ r.session.mtu = h.initiator.mtu

namespace Handshake.Sized

variable {P K D} {h : Handshake}

theorem responders_step (hs : h.Sized) {e : HandshakeEvent} (hkeeps : h.keepsMtu e) :
    ∀ r ∈ (h.step P K D e).1.responders, r.Sized := by
  intro r hr
  rcases h.mem_responders_step P K D hr with hr | ⟨r', hr', k, op, rfl, rfl⟩ |
    ⟨header, data, hops, now, random, lrproofData, rfl, hnew, hecho⟩
  · exact hs.responders r hr
  · have hsized := hs.responders r' hr'
    have hop : ∀ mtu, op ≠ .setMtu mtu := by
      rintro mtu rfl
      cases hkeeps
    obtain ⟨hmtu, hmdu⟩ := (LinkSession.advance_after P K hsized.isInitiator op).2 hop
    refine ⟨hsized.toEchoes.after P K op, hmtu.trans hsized.mtu, ?_⟩
    dsimp only
    rw [hmdu, hmtu, hsized.mdu]
  · obtain ⟨peerPub, peerMtu, key, ha⟩ := newResponder_cases P K hnew
    have hr : r.echo = peerMtu := hecho.trans ha.echo
    refine ⟨⟨ha.isInitiator, ?_⟩, ?_, ha.mdu⟩
    · rw [hr]
      exact parseSignalling_signalling ha.signalling
    · rw [hr]
      exact ha.mtu

/-- The initiator takes the MTU of the responder that signed the proof, unless the proof says
nothing. -/
theorem mtu_of_accepts (hs : h.Sized) {proofData : Bytes} {peerSigPubBytes : Vector UInt8 32} {now : ℚ}
    {iv : Block} {s' : LinkSession} {peerPub : Vector UInt8 32} {confirmedMtu : Option UInt32}
    {key : Bytes}
    (hauthentic : h.authentic P K D (.initiator (.lrproof proofData peerSigPubBytes now iv)))
    (hkeeps : h.keepsMtu (.initiator (.lrproof proofData peerSigPubBytes now iv)))
    (haccepts : h.initiator.Accepts P proofData peerSigPubBytes s' peerPub confirmedMtu key) :
    ∃ r ∈ h.responders, r.session.engine.linkId = s'.engine.linkId ∧ r.session.mtu = s'.mtu := by
  obtain ⟨r, hr, hid, -, hecho, -⟩ := h.signer_of_accepts P K D hauthentic
    (fun r hr => (hs.responders r hr).toEchoes) haccepts
  refine ⟨r, hr, hid.trans haccepts.linkId.symm, ?_⟩
  rw [(hs.responders r hr).mtu, hecho, haccepts.mtu]
  cases confirmedMtu with
  | some mtu => rfl
  | none =>
    obtain ⟨-, hsize, hparse, -⟩ := validateLrproof_ok P haccepts.valid
    have hplain : proofData.length = 96 := by
      refine hsize.resolve_right fun hsize => ?_
      have hthree : (proofData.drop 96).length = linkMtuSize := by
        rw [List.length_drop, hsize, Nat.add_sub_cancel_left]
      rw [parseSignalling, if_pos hthree] at hparse
      cases hbytes : parseSignallingBytes (Bytes.fixed 3 (proofData.drop 96) 0) with
      | error | ok =>
        rw [hbytes] at hparse
        cases hparse
    simp only [keepsMtu, decide_eq_true_eq] at hkeeps
    exact (hkeeps haccepts.pending hplain).symm

theorem step (hs : h.Sized) {e : HandshakeEvent} (hauthentic : h.authentic P K D e)
    (hkeeps : h.keepsMtu e) : (h.step P K D e).1.Sized := by
  have hresponders := hs.responders_step (P := P) (K := K) (D := D) hkeeps
  by_cases hinitiator : ∃ op, e = .initiator op
  · obtain ⟨op, rfl⟩ := hinitiator
    change Handshake.Sized { h with initiator := h.initiator.after P K op }
    unfold LinkSession.after
    cases hop : h.initiator.apply P K op with
    | panic => exact hs
    | value result =>
      obtain ⟨s', result⟩ := result
      rcases apply_cases P K hop with ⟨hadvance, hmtu, -⟩ | ⟨proofData, key, now, iv, rfl, -, peerPub,
        confirmedMtu, derived, haccepts⟩
      · have hne : ∀ mtu, op ≠ .setMtu mtu := by
          rintro mtu rfl
          cases hkeeps
        obtain ⟨hmtu, hmdu⟩ := hmtu hne
        refine ⟨hadvance.engine.isInitiator.trans hs.isInitiator, ?_, hs.responders, fun hup => ?_⟩
        · dsimp only
          rw [hmdu, hmtu, hs.mdu]
        · obtain ⟨r, hr, hid, hsame⟩ := hs.up (hadvance.engine.up hs.isInitiator hup)
          exact ⟨r, hr, hid.trans hadvance.engine.linkId.symm, hsame.trans hmtu.symm⟩
      · refine ⟨haccepts.isInitiator.trans hs.isInitiator, ?_, hs.responders,
          fun _ => hs.mtu_of_accepts hauthentic hkeeps haccepts⟩
        dsimp only
        rw [haccepts.mdu, haccepts.mtu]
        cases confirmedMtu with
        | none => exact hs.mdu
        | some mtu => rfl
  · have hsame := h.initiator_step_of_ne P K D fun op hop => hinitiator ⟨op, hop⟩
    refine ⟨hsame ▸ hs.isInitiator, hsame ▸ hs.mdu, hresponders, fun hup => ?_⟩
    rw [hsame] at hup ⊢
    obtain ⟨r, hr, hid, hmtu⟩ := hs.up hup
    obtain ⟨r', hr', hadvance, hkept⟩ :=
      h.responder_kept P K D hr (fun r hr => (hs.responders r hr).isInitiator) e
    have hne : ∀ k mtu, e ≠ .responder k (.setMtu mtu) := by
      rintro k mtu rfl
      cases hkeeps
    exact ⟨r', hr', hadvance.engine.linkId.trans hid, (hkept hne).1.trans hmtu⟩

end Handshake.Sized

theorem LinkOffer.sized_start (o : LinkOffer) : (o.start P K D).Sized where
  isInitiator := rfl
  mdu := rfl
  responders := fun r hr => absurd hr (List.not_mem_nil)
  up := fun hup => by rcases hup with hup | hup <;> cases hup

/-- The ends of a link agree on the MTU if an initiator that is told nothing has the default. -/
theorem mtu_agreement (o : LinkOffer) (es : List HandshakeEvent)
    (hes : (handshake P K D).Meets (fun _ h e => h.authentic P K D e ∧ h.keepsMtu e) []
      (o.start P K D) es) :
    let h := ((handshake P K D).run (o.start P K D) es).1
    ∀ r, (h.responders.filter fun r =>
        r.session.engine.linkId = h.initiator.engine.linkId) = [r] →
      h.initiator.engine.state = .active → r.session.engine.state = .active →
      r.session.mtu = h.initiator.mtu ∧ r.session.mdu = h.initiator.mdu := by
  intro h r hunique hactive _
  have hsized : h.Sized :=
    (handshake P K D).run_keeps (I := Handshake.Sized) (fun _ _ _ hs hok => hs.step hok.1 hok.2)
      (o.sized_start P K D) hes
  obtain ⟨r', hr', hid, hmtu⟩ := hsized.up (.inl hactive)
  obtain rfl := h.eq_of_unique hr' hid hunique
  exact ⟨hmtu, by rw [(hsized.responders r' hr').mdu, hsized.mdu, hmtu]⟩

end

theorem mtu_agreement_echoed :
    let events := handshakeEvents (LinkOffer.sample.made .sample .sample).2
    let h := ((handshake .sample .sample .sample).run (LinkOffer.sample.start .sample .sample .sample)
      events).1
    let r := h.responders.getD 0 ⟨h.initiator, none⟩
    h.initiator.engine.state = .active ∧ r.session.engine.state = .active ∧ h.initiator.mtu = 1000 ∧
      r.session.mtu = h.initiator.mtu ∧ r.session.mdu = h.initiator.mdu := by
  intro events h r
  have hactive : h.initiator.engine.state = .active := by decide +kernel
  have hresponder : r.session.engine.state = .active := by decide +kernel
  exact ⟨hactive, hresponder, by decide +kernel, mtu_agreement .sample .sample .sample .sample events
    (by decide +kernel) r (by decide +kernel) hactive hresponder⟩

/-- The request loses its three bytes on the way: the link id is the same, the responder uses the
default of 500, and the initiator the 1000 it has offered. -/
theorem stripped_signalling_splits_mtu :
    let data := (LinkOffer.sample.made .sample .sample).2.take linkEcpubsize
    let start := LinkOffer.sample.start .sample .sample .sample
    let h := ((handshake .sample .sample .sample).run start (handshakeEvents data)).1
    (handshake .sample .sample .sample).Meets (fun _ h e => h.authentic .sample .sample .sample e ∧
        h.collisionFree .sample (LinkOffer.sample.requested .sample .sample) e) [] start
        (handshakeEvents data) ∧
      h.initiator.engine.state = .active ∧ h.initiator.mtu = 1000 ∧ h.initiator.mdu = 927 ∧
      h.responders.map (fun r => (r.session.engine.state, r.session.engine.linkId)) =
        [(.active, h.initiator.engine.linkId)] ∧
      h.responders.map (fun r => (r.session.mtu, r.session.mdu)) = [(500, 431)] := by
  decide +kernel

end Rns

import Rns.Link.Engine
import Rns.Packet

/-!
# The link handshake

The initiator sends a LINKREQUEST with its keys, the responder answers with an LRPROOF that the
destination signs, and the initiator confirms with an encrypted round-trip time.

A `LinkSession` is a `LinkEngine` of the source in full.  An operation that may fail gives the session
after it and the result apart, since the source writes to the engine on its way to an error.
-/

namespace Rns

open Bytes LinkEngine

/-! ## Keys -/

/-- What the handshake takes from outside crates besides `Primitives`. -/
structure KeyPrimitives where
  x25519Public : Vector UInt8 32 → Vector UInt8 32
  f64ToBeBytes : ℚ → Vector UInt8 8

/-- `clamp` of X25519 scalars. -/
def clamp (bytes : Vector UInt8 32) : Vector UInt8 32 :=
  (bytes.set 0 (bytes[0] &&& 248)).set 31 ((bytes[31] &&& 127) ||| 64)

/-! ## Modes and signalling -/

inductive LinkMode where
  | aes128Cbc
  | aes256Cbc
  deriving Repr, DecidableEq

namespace LinkMode

def modeByte : LinkMode → UInt8
  | .aes128Cbc => 0x00
  | .aes256Cbc => 0x01

def fromByte (b : UInt8) : Except LinkError LinkMode :=
  if b = 0x00 then .ok .aes128Cbc
  else if b = 0x01 then .ok .aes256Cbc
  else .error .unsupportedMode

def derivedKeyLength : LinkMode → ℕ
  | .aes128Cbc => 32
  | .aes256Cbc => 64

end LinkMode

def linkMtuSize : ℕ := 3

def linkMtuBytemask : UInt32 := 0x1FFFFF

def linkModeBytemask : UInt8 := 0xE0

/-- `build_signalling_bytes`: 21 bits of MTU below 3 bits of mode. -/
def buildSignallingBytes (mtu : UInt32) (mode : LinkMode) : Vector UInt8 3 :=
  let modeBits := ((mode.modeByte <<< 5) &&& linkModeBytemask).toUInt32
  let value := (mtu &&& linkMtuBytemask) + (modeBits <<< 16)
  #v[(value >>> 16).toUInt8, (value >>> 8).toUInt8, value.toUInt8]

def parseSignallingBytes (bytes : Vector UInt8 3) : Except LinkError (UInt32 × LinkMode) :=
  let mtu := (bytes[0].toUInt32 <<< 16) ||| (bytes[1].toUInt32 <<< 8) ||| bytes[2].toUInt32
  let modeByte := (bytes[0] &&& linkModeBytemask) >>> 5
  (LinkMode.fromByte modeByte).map fun mode => (mtu &&& linkMtuBytemask, mode)

def signalling (mtu : Option UInt32) (mode : LinkMode) : Bytes :=
  match mtu with
  | none => []
  | some mtu => (buildSignallingBytes mtu mode).toList

def parseSignalling (bytes : Bytes) : Except LinkError (Option UInt32 × LinkMode) :=
  if bytes.length = linkMtuSize then
    (parseSignallingBytes (fixed 3 bytes 0)).map fun (mtu, mode) => (some mtu, mode)
  else .ok (none, .aes256Cbc)

/-! ### Reading the signalling back -/

variable (mtu : UInt32) (mode : LinkMode)

theorem LinkMode.fromByte_modeByte : fromByte mode.modeByte = .ok mode := by
  cases mode <;> rfl

theorem LinkMode.modeByte_le_one : mode.modeByte.toNat ≤ 1 := by
  cases mode <;> decide

theorem toNat_and_linkMtuBytemask : (mtu &&& linkMtuBytemask).toNat = mtu.toNat % 2 ^ 21 := by
  rw [UInt32.toNat_and]
  exact Nat.and_two_pow_sub_one_eq_mod mtu.toNat 21

def signallingValue (mtu : UInt32) (mode : LinkMode) : UInt32 :=
  (mtu &&& linkMtuBytemask) + ((mode.modeByte <<< 5) &&& linkModeBytemask).toUInt32 <<< 16

theorem toNat_signallingValue :
    (signallingValue mtu mode).toNat = mtu.toNat % 2 ^ 21 + mode.modeByte.toNat * 2 ^ 21 := by
  have hmode : (((mode.modeByte <<< 5) &&& linkModeBytemask).toUInt32 <<< 16).toNat =
      mode.modeByte.toNat * 2 ^ 21 := by
    cases mode <;> decide
  have hle := mode.modeByte_le_one
  rw [signallingValue, UInt32.toNat_add, toNat_and_linkMtuBytemask, hmode]
  omega

theorem or_bytes {a b c : ℕ} (hb : b < 256) (hc : c < 256) :
    a <<< 16 ||| b <<< 8 ||| c = a * 65536 + b * 256 + c := by
  have hlow : b <<< 8 < 2 ^ 16 := by
    rw [Nat.shiftLeft_eq]
    omega
  have hhigh : a <<< 16 + b <<< 8 = (a * 256 + b) <<< 8 := by
    simp only [Nat.shiftLeft_eq]
    omega
  rw [← Nat.shiftLeft_add_eq_or_of_lt hlow, hhigh, ← Nat.shiftLeft_add_eq_or_of_lt (by omega),
    Nat.shiftLeft_eq]
  omega

theorem or_toUInt8 {v : UInt32} (hv : v.toNat < 2 ^ 24) :
    ((v >>> 16).toUInt8.toUInt32 <<< 16 ||| (v >>> 8).toUInt8.toUInt32 <<< 8 |||
      v.toUInt8.toUInt32) = v := by
  have hor := or_bytes (a := v.toNat / 65536 % 256) (b := v.toNat / 256 % 256) (c := v.toNat % 256)
    (Nat.mod_lt _ (by decide)) (Nat.mod_lt _ (by decide))
  have hsmall : ∀ x k : ℕ, k ≤ 16 → (x % 256) <<< k % 4294967296 = (x % 256) <<< k := by
    intro x k hk
    have hpow : 2 ^ k ≤ 2 ^ 16 := Nat.pow_le_pow_right (by decide) hk
    rw [Nat.shiftLeft_eq]
    apply Nat.mod_eq_of_lt
    calc x % 256 * 2 ^ k ≤ 255 * 2 ^ 16 := Nat.mul_le_mul (by omega) hpow
      _ < 4294967296 := by decide
  apply UInt32.toNat_inj.1
  simp only [UInt32.toNat_or, UInt32.toNat_shiftLeft, UInt8.toNat_toUInt32, UInt32.toNat_toUInt8,
    UInt32.toNat_shiftRight, UInt32.reduceToNat, Nat.reduceMod, Nat.shiftRight_eq_div_pow,
    Nat.reducePow, hsmall _ _ (show 16 ≤ 16 by decide), hsmall _ _ (show 8 ≤ 16 by decide), hor]
  omega

theorem toNat_modeBits (v : UInt32) :
    (((v >>> 16).toUInt8 &&& linkModeBytemask) >>> 5).toNat = v.toNat / 2 ^ 21 % 8 := by
  have hand : ∀ x : ℕ, (x &&& 224) >>> 5 = x / 32 % 8 := by
    intro x
    rw [Nat.shiftRight_and_distrib, Nat.shiftRight_eq_div_pow]
    exact Nat.and_two_pow_sub_one_eq_mod (x / 2 ^ 5) 3
  simp only [UInt8.toNat_shiftRight, UInt8.toNat_and, UInt32.toNat_toUInt8,
    UInt32.toNat_shiftRight, UInt32.reduceToNat, Nat.reduceMod, linkModeBytemask, UInt8.reduceToNat,
    hand, Nat.shiftRight_eq_div_pow]
  omega

theorem parseSignallingBytes_buildSignallingBytes :
    parseSignallingBytes (buildSignallingBytes mtu mode) = .ok (mtu &&& linkMtuBytemask, mode) := by
  have hvalue := toNat_signallingValue mtu mode
  have hle := mode.modeByte_le_one
  have hmode : ((signallingValue mtu mode >>> 16).toUInt8 &&& linkModeBytemask) >>> 5 =
      mode.modeByte := by
    apply UInt8.toNat_inj.1
    rw [toNat_modeBits, hvalue]
    omega
  have hmtu : signallingValue mtu mode &&& linkMtuBytemask = mtu &&& linkMtuBytemask := by
    apply UInt32.toNat_inj.1
    rw [toNat_and_linkMtuBytemask, toNat_and_linkMtuBytemask, hvalue]
    omega
  change (LinkMode.fromByte
    (((signallingValue mtu mode >>> 16).toUInt8 &&& linkModeBytemask) >>> 5)).map _ = _
  rw [hmode, LinkMode.fromByte_modeByte]
  change Except.ok (((signallingValue mtu mode >>> 16).toUInt8.toUInt32 <<< 16 |||
    (signallingValue mtu mode >>> 8).toUInt8.toUInt32 <<< 8 |||
      (signallingValue mtu mode).toUInt8.toUInt32) &&& linkMtuBytemask, mode) = _
  rw [or_toUInt8 (by rw [hvalue]; omega), hmtu]

theorem and_linkMtuBytemask_of_parse {bytes : Vector UInt8 3} {mtu : UInt32} {mode : LinkMode}
    (h : parseSignallingBytes bytes = .ok (mtu, mode)) : mtu &&& linkMtuBytemask = mtu := by
  unfold parseSignallingBytes at h
  dsimp only at h
  generalize LinkMode.fromByte _ = parsed at h
  cases parsed with
  | error e => cases h
  | ok parsedMode =>
    cases h
    rw [UInt32.and_assoc, UInt32.and_self]

theorem parseSignalling_signalling {bytes : Bytes} {mtu : Option UInt32} {mode : LinkMode}
    (h : parseSignalling bytes = .ok (mtu, mode)) :
    parseSignalling (signalling mtu mode) = .ok (mtu, mode) := by
  unfold parseSignalling at h
  split_ifs at h with hlen
  · cases hparse : parseSignallingBytes (fixed 3 bytes 0) with
    | error e =>
      rw [hparse] at h
      cases h
    | ok parsed =>
      obtain ⟨parsedMtu, parsedMode⟩ := parsed
      rw [hparse] at h
      cases h
      have hecho := parseSignallingBytes_buildSignallingBytes parsedMtu mode
      rw [and_linkMtuBytemask_of_parse hparse] at hecho
      have hfixed : fixed 3 (buildSignallingBytes parsedMtu mode).toList 0 =
          buildSignallingBytes parsedMtu mode := by
        simpa using fixed_append [] (buildSignallingBytes parsedMtu mode) []
      have hthree : (buildSignallingBytes parsedMtu mode).toList.length = linkMtuSize :=
        Vector.length_toList
      rw [signalling, parseSignalling, if_pos hthree, hfixed, hecho]
      rfl
  · cases h
    rfl

/-! ## Messages -/

section

variable (P : Primitives)

/-- `compute_link_id`: the signalling is stripped from the end. -/
def computeLinkId (hashablePart : Bytes) (extraBytesLen : ℕ) : LinkId :=
  let stop := if extraBytesLen > 0 ∧ hashablePart.length > extraBytesLen then
      hashablePart.length - extraBytesLen
    else hashablePart.length
  P.truncatedHash (hashablePart.take stop)

def buildLinkrequestData (pubBytes sigPubBytes : Vector UInt8 32) (mtu : Option UInt32)
    (mode : LinkMode) : Bytes :=
  pubBytes.toList ++ sigPubBytes.toList ++ signalling mtu mode

def parseLinkrequestData (data : Bytes) :
    Except LinkError (Vector UInt8 32 × Vector UInt8 32 × Option UInt32 × LinkMode) :=
  if data.length ≠ linkEcpubsize ∧ data.length ≠ linkEcpubsize + linkMtuSize then .error .invalidData
  else (parseSignalling (data.drop linkEcpubsize)).map fun (mtu, mode) =>
    (fixed 32 data 0, fixed 32 data 32, mtu, mode)

def lrproofSigned (linkId : LinkId) (pubBytes sigPubBytes : Vector UInt8 32) (signalling : Bytes) :
    Bytes :=
  linkId.toList ++ pubBytes.toList ++ sigPubBytes.toList ++ signalling

def buildLrproof (linkId : LinkId) (pubBytes sigPubBytes : Vector UInt8 32)
    (sign : Bytes → Vector UInt8 64) (mtu : Option UInt32) (mode : LinkMode) : Bytes :=
  let signalling := signalling mtu mode
  (sign (lrproofSigned linkId pubBytes sigPubBytes signalling)).toList ++ pubBytes.toList ++ signalling

def lrproofVerifies (proofData : Bytes) (linkId : LinkId) (peerSigPub : Vector UInt8 32) : Bool :=
  P.ed25519Verify peerSigPub (fixed 64 proofData 0)
    (lrproofSigned linkId (fixed 32 proofData 64) peerSigPub (proofData.drop 96))

def validateLrproof (proofData : Bytes) (linkId : LinkId) (peerSigPub : Vector UInt8 32) :
    Except LinkError (Vector UInt8 32 × Option UInt32 × LinkMode) :=
  if proofData.length ≠ 64 + 32 ∧ proofData.length ≠ 64 + 32 + linkMtuSize then .error .invalidData
  else match parseSignalling (proofData.drop 96) with
    | .error e => .error e
    | .ok (mtu, mode) =>
      if lrproofVerifies P proofData linkId peerSigPub then .ok (fixed 32 proofData 64, mtu, mode)
      else .error .invalidSignature

/-- `perform_key_exchange`: the shared secret, salted with the link id. -/
def performKeyExchange (prv peerPubBytes : Vector UInt8 32) (linkId : LinkId) (mode : LinkMode) :
    Except LinkError Bytes :=
  (Hkdf.hkdf P mode.derivedKeyLength (P.x25519Exchange prv peerPubBytes).toList (some linkId.toList)
    none).mapError fun _ => .cryptoError

def createSessionToken (derivedKey : Bytes) : Except LinkError Token :=
  (Token.new derivedKey).mapError fun _ => .cryptoError

def computeEstablishmentTimeout (firstHopTimeout : ℚ) (hops : UInt8) : ℚ :=
  firstHopTimeout + 6 * (max hops 1).toNat

/-- `compute_mdu`; the subtraction wraps below zero, as in a release build. -/
def computeMdu (mtu : ℕ) : ℕ :=
  let size := (mtu - (1 + headerMinSize + 48)) / 16 * 16
  if size = 0 then 2 ^ 64 - 1 else size - 1

end

/-! ## Sessions -/

/-- A link engine with what only the handshake uses. -/
structure LinkSession where
  engine : LinkEngine
  mode : LinkMode
  prv : Vector UInt8 32
  peerPubBytes : Option (Vector UInt8 32)
  peerSigPubBytes : Option (Vector UInt8 32)
  derivedKey : Option Bytes
  destinationHash : Hash16
  mtu : UInt32
  mdu : ℕ
  deriving DecidableEq

namespace LinkSession

variable (P : Primitives) (K : KeyPrimitives)

/-- The fields that both ends start with. -/
def fresh (linkId : LinkId) (isInitiator : Bool) (hops : UInt8) (now : ℚ) : LinkEngine where
  linkId
  state := if isInitiator then .pending else .handshake
  isInitiator
  token := none
  requestTime := now
  activatedAt := none
  lastInbound := now
  lastOutbound := now
  lastKeepalive := now
  lastProof := 0
  rtt := none
  keepaliveInterval := Keepalive.keepaliveMax
  staleTime := Keepalive.keepaliveMax * 2
  establishmentTimeout := computeEstablishmentTimeout 6 hops
  remoteIdentity := none

/-- `new_initiator`: the session and the data of the LINKREQUEST; the link id is not known yet. -/
def newInitiator (destHash : Hash16) (hops : UInt8) (mode : LinkMode) (mtu : Option UInt32) (now : ℚ)
    (random sigPubBytes : Vector UInt8 32) : LinkSession × Bytes :=
  let prv := clamp random
  let linkMtu := mtu.getD (UInt32.ofNat Rns.mtu)
  ({ engine := fresh (.replicate 16 0) true hops now
     mode
     prv
     peerPubBytes := none
     peerSigPubBytes := none
     derivedKey := none
     destinationHash := destHash
     mtu := linkMtu
     mdu := computeMdu linkMtu.toNat },
    buildLinkrequestData (K.x25519Public prv) sigPubBytes mtu mode)

variable (s : LinkSession)

def setLinkIdFromHashable (hashablePart : Bytes) (dataLen : ℕ) : LinkSession :=
  { s with engine := { s.engine with
    linkId := computeLinkId P hashablePart (dataLen - linkEcpubsize) } }

/-- `new_responder`: the session and the data of the LRPROOF. -/
def newResponder (sign : Bytes → Vector UInt8 64) (ownerSigPubBytes : Vector UInt8 32)
    (linkrequestData hashablePart : Bytes) (destHash : Hash16) (hops : UInt8) (now : ℚ)
    (random : Vector UInt8 32) : Except LinkError (LinkSession × Bytes) := do
  let (peerPub, peerSigPub, peerMtu, mode) ← parseLinkrequestData linkrequestData
  let linkId := computeLinkId P hashablePart (linkrequestData.length - linkEcpubsize)
  let prv := clamp random
  let pubBytes := K.x25519Public prv
  let derivedKey ← performKeyExchange P prv peerPub linkId mode
  let token ← createSessionToken derivedKey
  let linkMtu := peerMtu.getD (UInt32.ofNat Rns.mtu)
  let lrproofData := buildLrproof linkId pubBytes ownerSigPubBytes sign peerMtu mode
  return ({
    engine := { fresh linkId false hops now with token := some token }
    mode
    prv
    peerPubBytes := some peerPub
    peerSigPubBytes := some peerSigPub
    derivedKey := some derivedKey
    destinationHash := destHash
    mtu := linkMtu
    mdu := computeMdu linkMtu.toNat }, lrproofData)

def encrypt (plaintext : Bytes) (iv : Block) : Outcome (Except LinkError Bytes) :=
  match s.engine.token with
  | none => .value (.error .noSessionKey)
  | some token => do return .ok (← token.encryptWithIv P plaintext iv)

def setMtu (mtu : UInt32) : LinkSession := { s with mtu, mdu := computeMdu mtu.toNat }

def setRtt (rtt : ℚ) : LinkSession :=
  { s with engine := updateKeepalive { s.engine with rtt := some rtt } }

def packRtt (rtt : ℚ) : Bytes := 0xcb :: (K.f64ToBeBytes rtt).toList

/-- The keys are there: `handle_lrproof` activates the link. -/
def activateInitiator (derivedKey : Bytes) (token : Token) (confirmedMtu : Option UInt32) (now : ℚ) :
    LinkSession :=
  let s := { s with derivedKey := some derivedKey, engine := { s.engine with token := some token } }
  let s := match confirmedMtu with
    | some mtu => s.setMtu mtu
    | none => s
  { s with engine := updateKeepalive { s.engine with
      rtt := some (now - s.engine.requestTime)
      state := .active
      activatedAt := some now
      lastInbound := now } }

/-- The part of `handle_lrproof` after the checks. -/
def acceptProof (peerPub peerSigPubBytes : Vector UInt8 32) (confirmedMtu : Option UInt32) (now : ℚ)
    (iv : Block) : Outcome (LinkSession × Except LinkError (Bytes × List LinkAction)) :=
  let s := { s with peerPubBytes := some peerPub, peerSigPubBytes := some peerSigPubBytes }
  match performKeyExchange P s.prv peerPub s.engine.linkId s.mode with
  | .error e => .value (s, .error e)
  | .ok derivedKey => match createSessionToken derivedKey with
    | .error e => .value (s, .error e)
    | .ok token => do
      let rtt := now - s.engine.requestTime
      let s := s.activateInitiator derivedKey token confirmedMtu now
      let sealedRtt ← s.encrypt P (packRtt K rtt) iv
      return (s, sealedRtt.map fun data => (data,
        [.stateChanged s.engine.linkId .active none, .linkEstablished s.engine.linkId rtt true]))

def handleLrproof (proofData : Bytes) (peerSigPubBytes : Vector UInt8 32) (now : ℚ) (iv : Block) :
    Outcome (LinkSession × Except LinkError (Bytes × List LinkAction)) :=
  if s.engine.state ≠ .pending ∨ ¬s.engine.isInitiator then .value (s, .error .invalidState)
  else match validateLrproof P proofData s.engine.linkId peerSigPubBytes with
    | .error e => .value (s, .error e)
    | .ok (peerPub, confirmedMtu, confirmedMode) =>
      if confirmedMode ≠ s.mode then .value (s, .error .unsupportedMode)
      else s.acceptProof P K peerPub peerSigPubBytes confirmedMtu now iv

/-- An operation of the engine that may fail and does not touch the rest. -/
def onEngine (x : Outcome (Except LinkError (LinkEngine × List LinkAction))) :
    Outcome (LinkSession × Except LinkError (List LinkAction)) := do
  match ← x with
  | .error e => return (s, .error e)
  | .ok (engine, actions) => return ({ s with engine }, .ok actions)

def handleLrrtt (s : LinkSession) (encryptedData : Bytes) (now : ℚ) :
    Outcome (LinkSession × Except LinkError (List LinkAction)) :=
  s.onEngine (s.engine.handleLrrtt P encryptedData now)

def handleIdentify (s : LinkSession) (encryptedData : Bytes) :
    Outcome (LinkSession × Except LinkError (List LinkAction)) :=
  s.onEngine (s.engine.handleIdentify P encryptedData)

end LinkSession

/-! ## Operations -/

/-- The operations on a link engine that has its link id.  The first three handle received data and
may fail. -/
inductive LinkOp where
  | lrproof (proofData : Bytes) (peerSigPubBytes : Vector UInt8 32) (now : ℚ) (iv : Block)
  | lrrtt (encryptedData : Bytes) (now : ℚ)
  | identify (encryptedData : Bytes)
  | recordInbound (now : ℚ)
  | recordProof (now : ℚ)
  | recordOutbound (now : ℚ) (isKeepalive : Bool)
  | tick (now : ℚ)
  | teardown
  | handleTeardown
  | setRtt (rtt : ℚ)
  | setMtu (mtu : UInt32)
  deriving DecidableEq

variable {result : Except LinkError (List LinkAction)} {s s' : LinkSession} {e' : LinkEngine}
  {actions : List LinkAction} {op : LinkOp} {linkrequestData : Bytes} {now : ℚ} {e : LinkError}
  {data : Bytes}

namespace LinkSession

variable (P : Primitives) (K : KeyPrimitives)

/-- The session after an operation, and the error if it failed. -/
def apply (s : LinkSession) : LinkOp → Outcome (LinkSession × Except LinkError (List LinkAction))
  | .lrproof proofData peerSigPubBytes now iv => do
    let (s, result) ← s.handleLrproof P K proofData peerSigPubBytes now iv
    return (s, result.map Prod.snd)
  | .lrrtt encryptedData now => s.handleLrrtt P encryptedData now
  | .identify encryptedData => s.handleIdentify P encryptedData
  | .recordInbound now =>
    let (engine, actions) := s.engine.recordInbound now
    .value ({ s with engine }, .ok actions)
  | .recordProof now => .value ({ s with engine := s.engine.recordProof now }, .ok [])
  | .recordOutbound now isKeepalive =>
    .value ({ s with engine := s.engine.recordOutbound now isKeepalive }, .ok [])
  | .tick now =>
    let (engine, actions) := s.engine.tick now
    .value ({ s with engine }, .ok actions)
  | .teardown =>
    let (engine, actions) := s.engine.teardown
    .value ({ s with engine }, .ok actions)
  | .handleTeardown =>
    let (engine, actions) := s.engine.handleTeardown
    .value ({ s with engine }, .ok actions)
  | .setRtt rtt => .value (s.setRtt rtt, .ok [])
  | .setMtu mtu => .value (s.setMtu mtu, .ok [])

/-! ### What an operation does -/

theorem performKeyExchange_token (prv peerPub : Vector UInt8 32) (linkId : LinkId) (mode : LinkMode) :
    ∃ key token, performKeyExchange P prv peerPub linkId mode = .ok key ∧
      createSessionToken key = .ok token := by
  have hne : (P.x25519Exchange prv peerPub).toList ≠ [] := by
    intro h
    simpa using congrArg List.length h
  have hpos : 1 ≤ mode.derivedKeyLength := by cases mode <;> decide
  obtain ⟨key, hkey, hlen⟩ := Hkdf.hkdf_ok P hpos hne ..
  have hkeyLen : key.length = 32 ∨ key.length = 64 := by
    rw [hlen]
    cases mode
    · exact .inl rfl
    · exact .inr rfl
  obtain ⟨token, htoken⟩ := Token.new_ok_of_length hkeyLen
  exact ⟨key, token, by rw [performKeyExchange, hkey]; rfl, by rw [createSessionToken, htoken]; rfl⟩

/-- What `new_responder` makes of a request it takes. -/
structure Answers (sign : Bytes → Vector UInt8 64) (ownerSigPubBytes : Vector UInt8 32)
    (linkrequestData hashablePart : Bytes) (r : LinkSession) (lrproofData : Bytes)
    (peerPub : Vector UInt8 32) (peerMtu : Option UInt32) (key : Bytes) : Prop where
  linkId : r.engine.linkId = computeLinkId P hashablePart (linkrequestData.length - linkEcpubsize)
  isInitiator : r.engine.isInitiator = false
  state : r.engine.state = .handshake
  size : linkrequestData.length = linkEcpubsize ∨ linkrequestData.length = linkEcpubsize + linkMtuSize
  pub : peerPub = fixed 32 linkrequestData 0
  signalling : parseSignalling (linkrequestData.drop linkEcpubsize) = .ok (peerMtu, r.mode)
  peerPubBytes : r.peerPubBytes = some peerPub
  derivedKey : r.derivedKey = some key
  exchanged : performKeyExchange P r.prv peerPub r.engine.linkId r.mode = .ok key
  mtu : r.mtu = peerMtu.getD (UInt32.ofNat Rns.mtu)
  mdu : r.mdu = computeMdu r.mtu.toNat
  lrproof : lrproofData =
    buildLrproof r.engine.linkId (K.x25519Public r.prv) ownerSigPubBytes sign peerMtu r.mode

theorem newResponder_of_parse {peerPub peerSigPub : Vector UInt8 32} {peerMtu : Option UInt32}
    {mode : LinkMode}
    (hparse : parseLinkrequestData linkrequestData = .ok (peerPub, peerSigPub, peerMtu, mode))
    (sign : Bytes → Vector UInt8 64) (ownerSigPubBytes : Vector UInt8 32) (hashablePart : Bytes)
    (destHash : Hash16) (hops : UInt8) (now : ℚ) (random : Vector UInt8 32) :
    ∃ r lrproofData key, newResponder P K sign ownerSigPubBytes linkrequestData hashablePart destHash
        hops now random = .ok (r, lrproofData) ∧ r.engine.requestTime = now ∧
      r.Answers P K sign ownerSigPubBytes linkrequestData hashablePart lrproofData peerPub peerMtu key := by
  obtain ⟨key, token, hkey, htoken⟩ := performKeyExchange_token P (clamp random) peerPub
    (computeLinkId P hashablePart (linkrequestData.length - linkEcpubsize)) mode
  cases hnew : newResponder P K sign ownerSigPubBytes linkrequestData hashablePart destHash hops now
      random with
  | error e =>
    simp only [newResponder, hparse, bind, Except.bind, hkey, htoken, pure, Except.pure] at hnew
    cases hnew
  | ok made =>
    obtain ⟨r, lrproofData⟩ := made
    refine ⟨r, lrproofData, key, rfl, ?_⟩
    simp only [newResponder, hparse, bind, Except.bind, hkey, htoken, pure, Except.pure,
      Except.ok.injEq, Prod.mk.injEq] at hnew
    obtain ⟨rfl, rfl⟩ := hnew
    unfold parseLinkrequestData at hparse
    split_ifs at hparse with hsize
    cases hsignalling : parseSignalling (linkrequestData.drop linkEcpubsize) with
    | error e =>
      rw [hsignalling] at hparse
      cases hparse
    | ok parsed =>
      simp only [hsignalling, Except.map, Except.ok.injEq, Prod.mk.injEq] at hparse
      obtain ⟨rfl, rfl, rfl, rfl⟩ := hparse
      exact ⟨rfl, {
        linkId := rfl
        isInitiator := rfl
        state := rfl
        size := by tauto
        pub := rfl
        signalling := hsignalling
        peerPubBytes := rfl
        derivedKey := rfl
        exchanged := hkey
        mtu := rfl
        mdu := rfl
        lrproof := rfl }⟩

theorem newResponder_of_parse_error (hparse : parseLinkrequestData linkrequestData = .error e)
    (sign : Bytes → Vector UInt8 64) (ownerSigPubBytes : Vector UInt8 32) (hashablePart : Bytes)
    (destHash : Hash16) (hops : UInt8) (now : ℚ) (random : Vector UInt8 32) :
    newResponder P K sign ownerSigPubBytes linkrequestData hashablePart destHash hops now random =
      .error e := by
  simp only [newResponder, hparse, bind, Except.bind]

theorem newResponder_cases {sign : Bytes → Vector UInt8 64} {ownerSigPubBytes : Vector UInt8 32}
    {linkrequestData hashablePart : Bytes} {destHash : Hash16} {hops : UInt8}
    {random : Vector UInt8 32} {r : LinkSession} {lrproofData : Bytes}
    (h : newResponder P K sign ownerSigPubBytes linkrequestData hashablePart destHash hops now
      random = .ok (r, lrproofData)) :
    ∃ peerPub peerMtu key, r.Answers P K sign ownerSigPubBytes linkrequestData hashablePart lrproofData
      peerPub peerMtu key := by
  cases hparse : parseLinkrequestData linkrequestData with
  | error e =>
    rw [newResponder_of_parse_error P K hparse] at h
    cases h
  | ok parsed =>
    obtain ⟨peerPub, peerSigPub, peerMtu, mode⟩ := parsed
    obtain ⟨r', lrproofData', key, hnew, -, hanswers⟩ := newResponder_of_parse P K hparse ..
    rw [hnew, Except.ok.injEq, Prod.mk.injEq] at h
    obtain ⟨rfl, rfl⟩ := h
    exact ⟨peerPub, peerMtu, key, hanswers⟩

/-- The session after a proof has been accepted. -/
structure Accepts (s : LinkSession) (proofData : Bytes) (peerSigPubBytes : Vector UInt8 32)
    (s' : LinkSession) (peerPub : Vector UInt8 32) (confirmedMtu : Option UInt32) (key : Bytes) :
    Prop where
  pending : s.engine.state = .pending
  initiator : s.engine.isInitiator
  valid : validateLrproof P proofData s.engine.linkId peerSigPubBytes = .ok (peerPub, confirmedMtu, s.mode)
  exchanged : performKeyExchange P s.prv peerPub s.engine.linkId s.mode = .ok key
  linkId : s'.engine.linkId = s.engine.linkId
  isInitiator : s'.engine.isInitiator = s.engine.isInitiator
  state : s'.engine.state = .active
  mode : s'.mode = s.mode
  prv : s'.prv = s.prv
  derivedKey : s'.derivedKey = some key
  mtu : s'.mtu = confirmedMtu.getD s.mtu
  mdu : s'.mdu = (confirmedMtu.map fun mtu => computeMdu mtu.toNat).getD s.mdu

theorem handleLrproof_cases {proofData : Bytes} {peerSigPubBytes : Vector UInt8 32} {iv : Block}
    {result : Except LinkError (Bytes × List LinkAction)}
    (h : s.handleLrproof P K proofData peerSigPubBytes now iv = .value (s', result)) :
    (s' = s ∧ ∃ e, result = .error e) ∨ ((∃ answer, result = .ok answer) ∧
        ∃ peerPub confirmedMtu key, s.Accepts P proofData peerSigPubBytes s' peerPub confirmedMtu key) := by
  unfold handleLrproof at h
  split_ifs at h with hstate
  · cases h
    exact .inl ⟨rfl, _, rfl⟩
  cases hvalid : validateLrproof P proofData s.engine.linkId peerSigPubBytes with
  | error e =>
    rw [hvalid] at h
    cases h
    exact .inl ⟨rfl, _, rfl⟩
  | ok confirmed =>
    obtain ⟨peerPub, confirmedMtu, confirmedMode⟩ := confirmed
    rw [hvalid] at h
    dsimp only at h
    split_ifs at h with hmode
    · cases h
      exact .inl ⟨rfl, _, rfl⟩
    right
    obtain ⟨key, token, hkey, htoken⟩ :=
      performKeyExchange_token P s.prv peerPub s.engine.linkId s.mode
    simp only [not_or, not_not] at hstate hmode
    subst hmode
    simp only [acceptProof, hkey, htoken] at h
    generalize hs : LinkSession.activateInitiator _ key token confirmedMtu now = active at h
    have htok : active.engine.token = some token := by
      rw [← hs]
      cases confirmedMtu <;> rfl
    rw [encrypt, htok] at h
    dsimp only at h
    cases hcipher : token.encryptWithIv P (packRtt K (now - s.engine.requestTime)) iv with
    | panic =>
      rw [hcipher] at h
      cases h
    | value ciphertext =>
      rw [hcipher] at h
      cases h
      subst hs
      exact ⟨⟨_, rfl⟩, peerPub, confirmedMtu, key, {
        pending := hstate.1
        initiator := hstate.2
        valid := hvalid
        exchanged := hkey
        linkId := by cases confirmedMtu <;> rfl
        isInitiator := by cases confirmedMtu <;> rfl
        state := by cases confirmedMtu <;> rfl
        mode := by cases confirmedMtu <;> rfl
        prv := by cases confirmedMtu <;> rfl
        derivedKey := by cases confirmedMtu <;> rfl
        mtu := by cases confirmedMtu <;> rfl
        mdu := by cases confirmedMtu <;> rfl }⟩

end LinkSession

def LinkState.Up (state : LinkState) : Prop := state = .active ∨ state = .stale

def LinkState.Early (state : LinkState) : Prop := state = .pending ∨ state = .handshake

/-- What no operation changes but the acceptance of a proof: the link id, the role and the token, that
a closed link is closed, that an initiator is not up without a proof, and that no link starts anew. -/
structure LinkEngine.Advance (e e' : LinkEngine) : Prop where
  linkId : e'.linkId = e.linkId
  isInitiator : e'.isInitiator = e.isInitiator
  token : e'.token = e.token
  closed : e.state = .closed → e'.state = .closed
  up : e.isInitiator → e'.state.Up → e.state.Up
  early : e'.state.Early → e'.state = e.state

namespace LinkEngine

variable (P : Primitives) {e : LinkEngine}

theorem advance_of_state (hid : e'.linkId = e.linkId) (hrole : e'.isInitiator = e.isInitiator)
    (htoken : e'.token = e.token) (hstate : e'.state = e.state ∨ e'.state = .closed) :
    e.Advance e' := by
  refine ⟨hid, hrole, htoken, fun h => ?_, fun _ h => ?_, fun h => ?_⟩
  · rcases hstate with hstate | hstate
    · rw [hstate, h]
    · exact hstate
  · rcases hstate with hstate | hstate
    · rwa [hstate] at h
    · rw [hstate] at h
      rcases h with h | h <;> cases h
  · rcases hstate with hstate | hstate
    · exact hstate
    · rw [hstate] at h
      rcases h with h | h <;> cases h

theorem Advance.refl (e : LinkEngine) : e.Advance e := advance_of_state rfl rfl rfl (.inl rfl)

theorem Advance.trans {e' e'' : LinkEngine} (h : e.Advance e') (h' : e'.Advance e'') : e.Advance e'' where
  linkId := h'.linkId.trans h.linkId
  isInitiator := h'.isInitiator.trans h.isInitiator
  token := h'.token.trans h.token
  closed := fun hclosed => h'.closed (h.closed hclosed)
  up := fun hrole hup => h.up hrole (h'.up (h.isInitiator ▸ hrole) hup)
  early := fun hearly => (h'.early hearly).trans (h.early (h'.early hearly ▸ hearly))

theorem advance_recordInbound (e : LinkEngine) (now : ℚ) : e.Advance (e.recordInbound now).1 := by
  unfold recordInbound
  split_ifs with hstale
  · exact ⟨rfl, rfl, rfl, fun h => (nomatch hstale.symm.trans h), fun _ _ => .inr hstale,
      (nomatch ·)⟩
  · exact advance_of_state rfl rfl rfl (.inl rfl)

theorem advance_tick (e : LinkEngine) (now : ℚ) : e.Advance (e.tick now).1 := by
  unfold tick
  cases hstate : e.state with
  | pending | handshake =>
    dsimp only
    split_ifs
    · exact advance_of_state rfl rfl rfl (.inr rfl)
    · exact advance_of_state rfl rfl rfl (.inl rfl)
  | active =>
    dsimp only
    split_ifs
    · exact ⟨rfl, rfl, rfl, fun h => (nomatch hstate.symm.trans h), fun _ _ => .inl hstate,
        (nomatch ·)⟩
    · exact advance_of_state rfl rfl rfl (.inl rfl)
  | stale => exact advance_of_state rfl rfl rfl (.inr rfl)
  | closed => exact advance_of_state rfl rfl rfl (.inl rfl)

theorem advance_closeWith (e : LinkEngine) (reason : TeardownReason) :
    e.Advance (e.closeWith reason).1 := by
  unfold closeWith
  split_ifs
  · exact advance_of_state rfl rfl rfl (.inl rfl)
  · exact advance_of_state rfl rfl rfl (.inr rfl)

theorem updateKeepalive_same (e : LinkEngine) :
    e.updateKeepalive.linkId = e.linkId ∧ e.updateKeepalive.isInitiator = e.isInitiator ∧
      e.updateKeepalive.token = e.token ∧ e.updateKeepalive.state = e.state := by
  unfold updateKeepalive
  cases e.rtt <;> exact ⟨rfl, rfl, rfl, rfl⟩

theorem advance_activateResponder (hstate : e.state = .handshake) (hrole : e.isInitiator = false)
    (rtt now : ℚ) : e.Advance (e.activateResponder rtt now).1 := by
  refine ⟨rfl, rfl, rfl, fun hclosed => ?_, fun hinitiator => ?_, (nomatch ·)⟩
  · rw [hstate] at hclosed
    cases hclosed
  · rw [hrole] at hinitiator
    cases hinitiator

theorem advance_handleLrrtt (h : e.handleLrrtt P data now = .value (.ok (e', actions))) :
    e.Advance e' := by
  unfold handleLrrtt at h
  split_ifs at h with hguard
  · cases h
  simp only [not_or, not_not] at hguard
  cases hplain : e.decrypt P data with
  | panic =>
    rw [hplain] at h
    cases h
  | value plaintext =>
    rw [hplain, Outcome.value_bind] at h
    cases plaintext with
    | error e => cases h
    | ok plaintext =>
      dsimp only at h
      cases hrtt : unpackRtt P plaintext with
      | none =>
        rw [hrtt] at h
        cases h
      | some rtt =>
        rw [hrtt] at h
        cases h
        exact advance_activateResponder hguard.1 (by simpa using hguard.2) rtt now

theorem advance_handleIdentify (h : e.handleIdentify P data = .value (.ok (e', actions))) :
    e.Advance e' := by
  unfold handleIdentify at h
  split_ifs at h with hguard
  · cases h
  cases hplain : e.decrypt P data with
  | panic =>
    rw [hplain] at h
    cases h
  | value plaintext =>
    rw [hplain, Outcome.value_bind] at h
    cases plaintext with
    | error e => cases h
    | ok plaintext =>
      dsimp only at h
      cases hvalid : validateIdentifyData P plaintext e.linkId with
      | error err =>
        rw [hvalid] at h
        cases h
      | ok identity =>
        rw [hvalid] at h
        cases h
        exact advance_of_state rfl rfl rfl (.inl rfl)

end LinkEngine

namespace LinkSession

variable (P : Primitives) (K : KeyPrimitives)

/-- What no operation changes but the acceptance of a proof. -/
structure Advance (s s' : LinkSession) : Prop where
  engine : s.engine.Advance s'.engine
  mode : s'.mode = s.mode
  prv : s'.prv = s.prv
  peerPubBytes : s'.peerPubBytes = s.peerPubBytes
  peerSigPubBytes : s'.peerSigPubBytes = s.peerSigPubBytes
  derivedKey : s'.derivedKey = s.derivedKey

theorem advance_engine {s : LinkSession} {engine : LinkEngine} (h : s.engine.Advance engine) :
    s.Advance { s with engine } := ⟨h, rfl, rfl, rfl, rfl, rfl⟩

theorem Advance.refl (s : LinkSession) : s.Advance s := advance_engine (.refl _)

def SameMtu (s s' : LinkSession) : Prop := s'.mtu = s.mtu ∧ s'.mdu = s.mdu

theorem onEngine_cases {x : Outcome (Except LinkError (LinkEngine × List LinkAction))}
    (hx : ∀ engine actions, x = .value (.ok (engine, actions)) → s.engine.Advance engine)
    (h : s.onEngine x = .value (s', result)) :
    s.Advance s' ∧ s.SameMtu s' ∧ ∀ e, result = .error e → s' = s := by
  cases x with
  | panic => cases h
  | value r =>
    cases r with
    | error e =>
      cases h
      exact ⟨.refl s, ⟨rfl, rfl⟩, fun _ _ => rfl⟩
    | ok r =>
      obtain ⟨engine, actions⟩ := r
      cases h
      exact ⟨advance_engine (hx engine actions rfl), ⟨rfl, rfl⟩, fun _ he => nomatch he⟩

theorem apply_cases (h : s.apply P K op = .value (s', result)) :
    (s.Advance s' ∧ ((∀ mtu, op ≠ .setMtu mtu) → s.SameMtu s') ∧ ∀ e, result = .error e → s' = s) ∨
      ∃ proofData key now iv, op = .lrproof proofData key now iv ∧ (∃ actions, result = .ok actions) ∧
        ∃ peerPub confirmedMtu derived, s.Accepts P proofData key s' peerPub confirmedMtu derived := by
  cases op with
  | lrproof proofData key now iv =>
    simp only [apply] at h
    cases hproof : s.handleLrproof P K proofData key now iv with
    | panic =>
      rw [hproof] at h
      cases h
    | value r =>
      obtain ⟨after, answer⟩ := r
      rw [hproof] at h
      cases h
      rcases handleLrproof_cases P K hproof with ⟨rfl, e, rfl⟩ | ⟨⟨answer, rfl⟩, haccepts⟩
      · exact .inl ⟨.refl _, fun _ => ⟨rfl, rfl⟩, fun _ _ => rfl⟩
      · exact .inr ⟨proofData, key, now, iv, rfl, ⟨_, rfl⟩, haccepts⟩
  | lrrtt data now =>
    obtain ⟨hadvance, hmtu, herror⟩ := onEngine_cases (fun _ _ hx => advance_handleLrrtt P hx) h
    exact .inl ⟨hadvance, fun _ => hmtu, herror⟩
  | identify data =>
    obtain ⟨hadvance, hmtu, herror⟩ := onEngine_cases (fun _ _ hx => advance_handleIdentify P hx) h
    exact .inl ⟨hadvance, fun _ => hmtu, herror⟩
  | recordInbound now =>
    cases h
    exact .inl ⟨advance_engine (advance_recordInbound _ _), fun _ => ⟨rfl, rfl⟩,
      fun _ he => nomatch he⟩
  | recordProof _ | recordOutbound _ _ =>
    cases h
    exact .inl ⟨advance_engine (advance_of_state rfl rfl rfl (.inl rfl)), fun _ => ⟨rfl, rfl⟩,
      fun _ he => nomatch he⟩
  | tick now =>
    cases h
    exact .inl ⟨advance_engine (advance_tick _ _), fun _ => ⟨rfl, rfl⟩, fun _ he => nomatch he⟩
  | teardown | handleTeardown =>
    cases h
    exact .inl ⟨advance_engine (advance_closeWith _ _), fun _ => ⟨rfl, rfl⟩, fun _ he => nomatch he⟩
  | setRtt rtt =>
    cases h
    obtain ⟨hid, hrole, htoken, hstate⟩ := updateKeepalive_same { s.engine with rtt := some rtt }
    exact .inl ⟨advance_engine (advance_of_state hid hrole htoken (.inl hstate)),
      fun _ => ⟨rfl, rfl⟩, fun _ he => nomatch he⟩
  | setMtu mtu =>
    cases h
    exact .inl ⟨⟨advance_of_state rfl rfl rfl (.inl rfl), rfl, rfl, rfl, rfl, rfl⟩,
      fun hop => absurd rfl (hop mtu), fun _ he => nomatch he⟩

theorem apply_of_closed (hclosed : s.engine.state = .closed)
    (h : s.apply P K op = .value (s', result)) : s'.engine.state = .closed := by
  rcases apply_cases P K h with ⟨hadvance, -, -⟩ | ⟨_, _, _, _, _, _, _, _, _, haccepts⟩
  · exact hadvance.engine.closed hclosed
  · have hpending := haccepts.pending
    rw [hclosed] at hpending
    cases hpending

theorem apply_of_error (h : s.apply P K op = .value (s', .error e)) : s' = s := by
  rcases apply_cases P K h with ⟨_, _, herror⟩ | ⟨_, _, _, _, _, ⟨_, hok⟩, _⟩
  · exact herror e rfl
  · cases hok

end LinkSession

end Rns

import Rns.Crypto.Identity

/-!
# The link engine

One end of an encrypted link: its lifecycle state, session token and timers.  Times are exact
rationals.  An operation that fails leaves the engine alone.
-/

namespace Rns

abbrev LinkId := Vector UInt8 16

inductive LinkState where
  | pending
  | handshake
  | active
  | stale
  | closed
  deriving Repr, DecidableEq

inductive TeardownReason where
  | timeout
  | initiatorClosed
  | destinationClosed
  deriving Repr, DecidableEq

inductive LinkError where
  | invalidState
  | invalidData
  | invalidSignature
  | unsupportedMode
  | cryptoError
  | noSessionKey
  deriving Repr, DecidableEq

/-- What the engine asks its caller to do. -/
inductive LinkAction where
  | stateChanged (linkId : LinkId) (newState : LinkState) (reason : Option TeardownReason)
  | remoteIdentified (linkId : LinkId) (identityHash : Vector UInt8 16) (publicKey : Vector UInt8 64)
  | linkEstablished (linkId : LinkId) (rtt : ℚ) (isInitiator : Bool)
  deriving DecidableEq

/-! ## Timers -/

namespace Keepalive

def keepaliveMax : ℚ := 360
def keepaliveMin : ℚ := 5
def keepaliveMaxRtt : ℚ := 7 / 4
def staleFactor : ℚ := 2

/-- `compute_keepalive`: proportional to the round-trip time, clamped. -/
def computeKeepalive (rtt : ℚ) : ℚ :=
  max keepaliveMin (min (rtt * (keepaliveMax / keepaliveMaxRtt)) keepaliveMax)

def computeStaleTime (keepalive : ℚ) : ℚ := keepalive * staleFactor

def shouldGoStale (lastInbound staleTime now : ℚ) : Bool := lastInbound + staleTime ≤ now

def shouldSendKeepalive (lastKeepalive keepalive now : ℚ) : Bool := lastKeepalive + keepalive ≤ now

def isEstablishmentTimeout (requestTime timeout now : ℚ) : Bool := requestTime + timeout ≤ now

end Keepalive

/-! ## The engine -/

/-- One end of a link. -/
structure LinkEngine where
  linkId : LinkId
  state : LinkState
  isInitiator : Bool
  token : Option Token
  requestTime : ℚ
  activatedAt : Option ℚ
  lastInbound : ℚ
  lastOutbound : ℚ
  lastKeepalive : ℚ
  lastProof : ℚ
  rtt : Option ℚ
  keepaliveInterval : ℚ
  staleTime : ℚ
  establishmentTimeout : ℚ
  remoteIdentity : Option (Vector UInt8 16 × Vector UInt8 64)
  deriving DecidableEq

namespace LinkEngine

variable (P : Primitives)

/-- `link_decrypt` under the session token. -/
def decrypt (e : LinkEngine) (ciphertext : Bytes) : Outcome (Except LinkError Bytes) :=
  match e.token with
  | none => .value (.error .noSessionKey)
  | some token => do
    let plaintext ← token.decrypt P ciphertext
    return plaintext.mapError fun _ => .cryptoError

/-- `unpack_rtt`: the msgpack float64 that carries the initiator's measurement. -/
def unpackRtt (data : Bytes) : Option ℚ :=
  if data.length = 9 ∧ data.headD 0 = 0xcb then some (P.f64FromBeBytes (Bytes.fixed 8 data 1))
  else none

variable (e : LinkEngine) (now : ℚ)

def updateKeepalive : LinkEngine :=
  match e.rtt with
  | none => e
  | some rtt =>
    let keepalive := Keepalive.computeKeepalive rtt
    { e with keepaliveInterval := keepalive, staleTime := Keepalive.computeStaleTime keepalive }

/-- The responder activates on the initiator's round-trip time; the larger of the two
measurements is kept. -/
def activateResponder (initiatorRtt now : ℚ) : LinkEngine × List LinkAction :=
  let measured := now - e.requestTime
  let rtt := if measured > initiatorRtt then measured else initiatorRtt
  (updateKeepalive
    { e with rtt := some rtt, state := .active, activatedAt := some now, lastInbound := now },
    [.stateChanged e.linkId .active none, .linkEstablished e.linkId rtt false])

def handleLrrtt (encryptedData : Bytes) (now : ℚ) :
    Outcome (Except LinkError (LinkEngine × List LinkAction)) :=
  if e.state ≠ .handshake ∨ e.isInitiator then .value (.error .invalidState)
  else do
    let plaintext ← e.decrypt P encryptedData
    match plaintext with
    | .error err => return .error err
    | .ok plaintext =>
      match unpackRtt P plaintext with
      | none => return .error .invalidData
      | some initiatorRtt => return .ok (e.activateResponder initiatorRtt now)

/-- `validate_identify_data`: public key and signature over link id and key. -/
def validateIdentifyData (plaintext : Bytes) (linkId : LinkId) :
    Except LinkError (Vector UInt8 16 × Vector UInt8 64) :=
  if plaintext.length ≠ 128 then .error .invalidData
  else
    let publicKey := Bytes.fixed 64 plaintext 0
    let signature := Bytes.fixed 64 plaintext 64
    let sigPub := Bytes.fixed 32 publicKey.toList 32
    if P.ed25519Verify sigPub signature (linkId.toList ++ publicKey.toList) then
      .ok (P.truncatedHash publicKey.toList, publicKey)
    else .error .invalidSignature

/-- `handle_identify`: only the responder of an active link accepts it. -/
def handleIdentify (encryptedData : Bytes) :
    Outcome (Except LinkError (LinkEngine × List LinkAction)) :=
  if e.state ≠ .active ∨ e.isInitiator then .value (.error .invalidState)
  else do
    let plaintext ← e.decrypt P encryptedData
    match plaintext with
    | .error err => return .error err
    | .ok plaintext =>
      match validateIdentifyData P plaintext e.linkId with
      | .error err => return .error err
      | .ok (identityHash, publicKey) =>
        return .ok ({ e with remoteIdentity := some (identityHash, publicKey) },
          [.remoteIdentified e.linkId identityHash publicKey])

/-- `record_inbound`: a stale link recovers. -/
def recordInbound : LinkEngine × List LinkAction :=
  if e.state = .stale then
    ({ e with lastInbound := now, state := .active }, [.stateChanged e.linkId .active none])
  else ({ e with lastInbound := now }, [])

def recordProof : LinkEngine := { e with lastProof := now }

def recordOutbound (isKeepalive : Bool) : LinkEngine :=
  { e with
    lastOutbound := now
    lastKeepalive := if isKeepalive then now else e.lastKeepalive }

def lastSign : ℚ := max (max e.lastInbound e.lastProof) (e.activatedAt.getD 0)

/-- `tick`: establishment timeout, staleness, and closing of a stale link. -/
def tick : LinkEngine × List LinkAction :=
  match e.state with
  | .pending | .handshake =>
    if Keepalive.isEstablishmentTimeout e.requestTime e.establishmentTimeout now then
      ({ e with state := .closed }, [.stateChanged e.linkId .closed (some .timeout)])
    else (e, [])
  | .active =>
    if Keepalive.shouldGoStale e.lastSign e.staleTime now then
      ({ e with state := .stale }, [.stateChanged e.linkId .stale none])
    else (e, [])
  | .stale => ({ e with state := .closed }, [.stateChanged e.linkId .closed (some .timeout)])
  | .closed => (e, [])

def needsKeepalive : Bool :=
  e.state = .active ∧ e.lastSign + e.keepaliveInterval ≤ now ∧
    Keepalive.shouldSendKeepalive e.lastKeepalive e.keepaliveInterval now

/-- The body shared by `teardown` and `handle_teardown`: they differ in whom they name. -/
def closeWith (reason : TeardownReason) : LinkEngine × List LinkAction :=
  if e.state = .closed then (e, [])
  else ({ e with state := .closed }, [.stateChanged e.linkId .closed (some reason)])

def teardown : LinkEngine × List LinkAction :=
  e.closeWith (if e.isInitiator then .initiatorClosed else .destinationClosed)

def handleTeardown : LinkEngine × List LinkAction :=
  e.closeWith (if e.isInitiator then .destinationClosed else .initiatorClosed)

/-! ## Which received strings crash the engine -/

theorem decrypt_returns_iff (b : Bytes) :
    (e.decrypt P b).Returns ↔ ∀ token, e.token = some token → ¬token.Misaligned P b := by
  unfold decrypt
  cases e.token with
  | none => simp
  | some token =>
    simp only [Option.some.injEq, forall_eq']
    exact Outcome.returns_bind_value.trans (token.decrypt_returns P b)

theorem handleLrrtt_returns_iff (b : Bytes) (now : ℚ) : (e.handleLrrtt P b now).Returns ↔
      (e.state = .handshake → e.isInitiator = false → (e.decrypt P b).Returns) := by
  unfold handleLrrtt
  split_ifs with hguard
  · refine iff_of_true (Outcome.returns_value _) fun hs hi => ?_
    simp [hs, hi] at hguard
  · have hs : e.state = .handshake := by_contra fun h => hguard (.inl h)
    have hi : e.isInitiator = false := by simpa using fun h => hguard (.inr h)
    simp only [hs, hi, forall_const]
    cases hd : e.decrypt P b with
    | panic => simp
    | value r =>
      refine iff_of_true ?_ (Outcome.returns_value _)
      rcases r with err | plaintext
      · simp
      · rw [Outcome.value_bind]
        dsimp only
        cases unpackRtt P plaintext <;> simp

/-- Received bytes crash decryption exactly when they are a token with a valid MAC whose
ciphertext is not a whole number of blocks; for the activation packet of a link, only in the state
that decrypts it; for an identity, under the key of the exchange with the sender's key. -/
theorem decrypt_never_crashes_iff (e : LinkEngine) (token : Token) (htoken : e.token = some token)
    (id : Identity) (b : Bytes) (now : ℚ) :
    ((e.decrypt P b).Returns ↔ ¬token.Misaligned P b) ∧
      ((e.handleLrrtt P b now).Returns ↔
        ¬(e.state = .handshake ∧ e.isInitiator = false ∧ token.Misaligned P b)) ∧
      ((id.decrypt P b).Returns ↔
        ∀ t, id.tokenFor P b = some t → ¬t.Misaligned P (b.drop 32)) := by
  have hlink : (e.decrypt P b).Returns ↔ ¬token.Misaligned P b := by
    rw [decrypt_returns_iff]
    simp [htoken]
  refine ⟨hlink, ?_, id.decrypt_returns P b⟩
  rw [handleLrrtt_returns_iff, hlink]
  tauto

/-- A responder that has answered a link request and waits for the round-trip time. -/
def waiting (token : Token) : LinkEngine where
  linkId := .replicate 16 0
  state := .handshake
  isInitiator := false
  token := some token
  requestTime := 0
  activatedAt := none
  lastInbound := 0
  lastOutbound := 0
  lastKeepalive := 0
  lastProof := 0
  rtt := none
  keepaliveInterval := Keepalive.keepaliveMax
  staleTime := Keepalive.computeStaleTime Keepalive.keepaliveMax
  establishmentTimeout := 12
  remoteIdentity := none

def zeroToken : Token := ⟨List.replicate 16 0, .aes128 (.replicate 16 0)⟩

/-- Two strings with a valid MAC: the broken block of one crashes all three, the whole blocks of the
other none. -/
theorem decrypt_never_crashes_iff_zeros :
    let e := waiting zeroToken
    let id : Identity := ⟨some (.replicate 32 0), .replicate 16 0⟩
    let broken := List.replicate 81 0
    let whole := List.replicate 96 0
    (¬(e.decrypt .sample broken).Returns ∧ ¬(e.handleLrrtt .sample broken 0).Returns ∧
      ¬(id.decrypt .sample broken).Returns) ∧
    zeroToken.MacValid .sample whole ∧ (e.decrypt .sample whole).Returns ∧
      (e.handleLrrtt .sample whole 0).Returns ∧ (id.decrypt .sample whole).Returns := by
  intro e id broken whole
  have hlink : zeroToken.Misaligned .sample broken := ⟨by decide, by decide +kernel, by decide⟩
  -- the sample MAC is the same under every key
  have hid : ∀ t : Token, t.Misaligned .sample (broken.drop 32) := fun t =>
    ⟨by decide, (by decide +kernel : zeroToken.MacValid .sample (broken.drop 32)), by decide⟩
  have hwhole : ∀ t : Token, ¬t.Misaligned .sample whole ∧ ¬t.Misaligned .sample (whole.drop 32) :=
    fun _ => ⟨fun h => h.2.2 (by decide), fun h => h.2.2 (by decide)⟩
  obtain ⟨t, ht⟩ := Option.isSome_iff_exists.1
    (by decide +kernel : (id.tokenFor .sample broken).isSome)
  obtain ⟨hlink₁, hrtt₁, hid₁⟩ := decrypt_never_crashes_iff .sample e zeroToken rfl id broken 0
  obtain ⟨hlink₂, hrtt₂, hid₂⟩ := decrypt_never_crashes_iff .sample e zeroToken rfl id whole 0
  exact ⟨⟨fun h => hlink₁.1 h hlink, fun h => hrtt₁.1 h ⟨rfl, rfl, hlink⟩,
    fun h => hid₁.1 h t ht (hid t)⟩, by decide +kernel, hlink₂.2 (hwhole _).1,
    hrtt₂.2 fun h => (hwhole _).1 h.2.2, hid₂.2 fun t _ => (hwhole t).2⟩

/-- Whatever the primitives, the peer of the link with the all-zero key crashes it with 49 bytes:
an IV, one byte of ciphertext, and their MAC. -/
theorem peer_crashes_link :
    Token.new (List.replicate 32 0) = .ok zeroToken ∧
      ∀ P : Primitives,
        let b := zeroToken.forge P (.replicate 16 0) [0]
        b.length = 49 ∧ (waiting zeroToken).decrypt P b = .panic ∧
          (waiting zeroToken).handleLrrtt P b 0 = .panic := by
  refine ⟨rfl, fun P => ?_⟩
  have hmis := zeroToken.forge_misaligned P (.replicate 16 0) [0] (by decide)
  have hdec : (waiting zeroToken).decrypt P (zeroToken.forge P (.replicate 16 0) [0]) = .panic := by
    by_contra h
    exact (decrypt_returns_iff P _ _).mp ((Outcome.returns_iff_ne_panic _).mpr h) zeroToken rfl hmis
  refine ⟨by simp [Token.forge], hdec, ?_⟩
  unfold handleLrrtt
  rw [hdec]
  rfl

end LinkEngine

end Rns

import Rns.Crypto.Primitives
import Rns.Git.Access
import Rns.Lib.Lines
import Rns.Lib.Utf8
import Rns.Msgpack

/-!
# Signatures of commits

`rngit` signs commits with Reticulum identities, in the armour of an SSH signature.  The signature
stands in a header of the commit; what it signs is the commit without it.
-/

namespace Rns

def ascii (s : String) : Bytes := s.toList.map fun c => UInt8.ofNat c.toNat

namespace Msgpack

def Error.text : Error → Text
  | unexpectedEof => "Unexpected end of msgpack data".toList
  | unsupportedFormat b => "Unsupported msgpack format: 0x".toList ++ Git.hex [b]
  | invalidUtf8 => "Invalid UTF-8 in msgpack string".toList
  | trailingData => "Trailing data after msgpack value".toList
  | maxDepthExceeded => "Maximum nesting depth exceeded".toList

def Value.asStr : Value → Option Utf8
  | .str s => some s
  | _ => none

end Msgpack

namespace Git

open Msgpack (Value)

/-! ## Base64 -/

/-- The six bits of a character, in the alphabet of base64 or that for URLs. -/
def sextet (c : Char) : Option ℕ :=
  if 'A' ≤ c ∧ c ≤ 'Z' then some (c.toNat - 65)
  else if 'a' ≤ c ∧ c ≤ 'z' then some (c.toNat - 97 + 26)
  else if '0' ≤ c ∧ c ≤ '9' then some (c.toNat - 48 + 52)
  else if c = '+' ∨ c = '-' then some 62
  else if c = '/' ∨ c = '_' then some 63
  else none

/-- The sextets of a chunk with the number of padding characters; after one there are only more. -/
def sextets : ℕ → List Char → Option (ℕ × List ℕ)
  | pad, [] => some (pad, [])
  | pad, c :: cs =>
    if c = '=' then (sextets (pad + 1) cs).map fun (pad, rest) => (pad, 0 :: rest)
    else if pad > 0 then none
    else match sextet c with
      | none => none
      | some v => (sextets pad cs).map fun (pad, rest) => (pad, v :: rest)

/-- The one to three bytes of a chunk. -/
def decodeChunk (chunk : List Char) : Option Bytes :=
  match sextets 0 chunk with
  | none => none
  | some (pad, values) =>
    if pad > 2 then none
    else
      let triple := values.foldl (fun acc v => acc * 64 + v) 0
      some ([UInt8.ofNat (triple / 65536), UInt8.ofNat (triple / 256), UInt8.ofNat triple].take
        (3 - pad))

/-- The loop of `base64_decode` over chunks of four characters. -/
def decodeChunks : List Char → Option Bytes
  | a :: b :: c :: d :: rest => match decodeChunk [a, b, c, d] with
    | none => none
    | some bytes => (decodeChunks rest).map (bytes ++ ·)
  | _ => some []

def base64Decode (s : Text) : Option Bytes :=
  let chars := s.trim.filter fun c => !Text.isWhitespace c
  if chars.length % 4 = 1 then none
  else decodeChunks (chars ++ List.replicate ((4 - chars.length % 4) % 4) '=')

/-! ## The armour -/

/-- The loop of `unarmor_ssh_signature`: the lines between the first two boundaries. -/
def armoredLines : Bool → List Text → Text
  | _, [] => []
  | inSignature, line :: rest =>
    if "BEGIN SSH SIGNATURE".toList <:+: line then armoredLines true rest
    else if "END SSH SIGNATURE".toList <:+: line then []
    else (if inSignature then line.trim else []) ++ armoredLines inSignature rest

/-- `unarmor_ssh_signature`; the errors are their texts. -/
def unarmorSshSignature (armored : Text) : Except Text Bytes :=
  let encoded := armoredLines false armored.lines
  if encoded.isEmpty then .error "no SSH signature data found".toList
  else match base64Decode encoded with
    | none => .error "invalid base64 SSH signature".toList
    | some blob => .ok blob

structure ParsedSshSignature where
  namespace_ : Bytes
  signatureData : Bytes

/-- `read_u32`, with the rest. -/
def readU32 (data : Bytes) : Except Text (ℕ × Bytes) :=
  if data.length < 4 then .error "truncated SSH signature".toList
  else .ok (Bytes.readBe (data.take 4), data.drop 4)

/-- `read_ssh_string`, with the rest. -/
def readSshString (data : Bytes) : Except Text (Bytes × Bytes) := do
  let (len, data) ← readU32 data
  if data.length < len then .error "truncated SSH signature string".toList
  else .ok (data.take len, data.drop len)

def parseSshSignature (blob : Bytes) : Except Text ParsedSshSignature := do
  if ¬(ascii "SSHSIG").isPrefixOf blob then throw "invalid SSH signature magic".toList
  let (version, data) ← readU32 (blob.drop 6)
  if version ≠ 1 then
    throw ("unsupported SSH signature version ".toList ++ (Nat.repr version).toList)
  let (_publicKey, data) ← readSshString data
  let (namespace_, data) ← readSshString data
  let (_reserved, data) ← readSshString data
  let (hashAlgorithm, data) ← readSshString data
  if hashAlgorithm ≠ ascii "sha256" then throw "unsupported SSH signature hash algorithm".toList
  let (signatureData, _) ← readSshString data
  return { namespace_, signatureData }

def parseArmoredSshSignature (armored : Text) : Except Text ParsedSshSignature := do
  parseSshSignature (← unarmorSshSignature armored)

/-! ## The signature -/

variable (P : Primitives)

def required {α : Type} (text : String) : Option α → Except Text α
  | some v => .ok v
  | none => .error text.toList

def rsgEnvelope (rsg : Bytes) : Except Text Value :=
  if rsg.length ≤ 64 then .error "invalid RSG".toList
  else match Msgpack.unpackExact (rsg.drop 64) with
    | .error e => .error ("invalid RSG envelope: ".toList ++ e.text)
    | .ok envelope => .ok envelope

/-- `validate_rsg`: the hash of the message, signed by the key in the envelope. -/
def validateRsg (rsg message : Bytes) : Except Text (Vector UInt8 16) := do
  if rsg.length ≤ 64 then throw "invalid RSG".toList
  let signature := Bytes.fixed 64 rsg 0
  let envelope ← rsgEnvelope rsg
  if ((envelope.mapGet (ascii "hashtype")).bind Value.asStr).map Utf8.bytes ≠ some (ascii "sha256") then
    throw "unsupported RSG hash type".toList
  let signedHash ← required "RSG is missing hash" ((envelope.mapGet (ascii "hash")).bind Value.asBin)
  if signedHash ≠ (P.sha256 message).toList then throw "RSG hash does not match message".toList
  let info ← required "RSG is missing metadata" (envelope.mapGet (ascii "meta"))
  let publicKey ← required "RSG is missing public key" ((info.mapGet (ascii "pubkey")).bind Value.asBin)
  if publicKey.length ≠ 64 then throw "invalid public key length".toList
  let signerHash := P.truncatedHash publicKey
  let signer ← required "RSG is missing signer" ((info.mapGet (ascii "signer")).bind Value.asBin)
  if signer ≠ signerHash.toList then throw "RSG signer does not match public key".toList
  if ¬P.ed25519Verify (Bytes.fixed 32 publicKey 32) signature (rsg.drop 64) then
    throw "invalid signature".toList
  return signerHash

/-! ## Who has to sign -/

/-- The text between the angle brackets of an author or tagger. -/
def bracketed (rest : Bytes) : Option Text :=
  match rest.findIdx? (· = 0x3C), rest.findIdx? (· = 0x3E) with
  | some start, some stop =>
    if stop ≤ start then none
    else Text.ofUtf8 ((rest.take stop).drop (start + 1))
  | _, _ => none

/-- The loop of `extract_commit_author`: the first author before the first empty line. -/
def authorLine : List Bytes → Option Text
  | [] => none
  | line :: rest =>
    if line = [] then none
    else match (ascii "author ").isPrefixOf? line with
      | none => authorLine rest
      | some author => bracketed author

def extractCommitAuthor (message : Bytes) : Option Text := authorLine (message.splitOn 10)

/-- The loop of `extract_tag_tagger`. -/
def taggerLine : Bool → List Bytes → Option Text × Bool
  | isTag, [] => (none, isTag)
  | isTag, line :: rest =>
    if line = [] then (none, isTag)
    else if (ascii "tag ").isPrefixOf line then taggerLine true rest
    else match (ascii "tagger ").isPrefixOf? line with
      | none => taggerLine isTag rest
      | some tagger => (bracketed tagger, isTag)

def extractTagTagger (message : Bytes) : Option Text × Bool := taggerLine false (message.splitOn 10)

def signatureRequiredSigner (message : Bytes) : Option (Text × String) :=
  match extractTagTagger message with
  | (tagger, true) => tagger.map (·, "tag")
  | (_, false) => (extractCommitAuthor message).map (·, "commit")

/-! ## The status -/

structure SignatureStatus where
  signed : Bool
  valid : Bool
  signerHash : Option (Vector UInt8 16)
  authorMatch : Bool
  message : Text
  deriving DecidableEq

def verifyMessageSignatureInner (armored : Text) (message : Bytes) (principal : Option Text) :
    Except Text SignatureStatus := do
  let sig ← parseArmoredSshSignature armored
  if sig.namespace_ ≠ ascii "git" then throw "invalid commit signature namespace".toList
  let signerHash ← validateRsg P sig.signatureData message
  let status (authorMatch : Bool) (message : Text) : SignatureStatus :=
    ⟨true, true, some signerHash, authorMatch, message⟩
  let signer := hex signerHash.toList
  if principal.any (· ≠ signer) then
    return status false "principal mismatch".toList
  let (requiredSigner, objectKind) ← required "could not determine object signer"
    (signatureRequiredSigner message)
  if requiredSigner ≠ signer then
    return status false (objectKind.toList ++ " not signed by expected identity <".toList ++
      requiredSigner ++ "> (actual signer <".toList ++ signer ++ ">)".toList)
  return status true ("Good \"git\" signature for commit, signed with Reticulum Identity key <".toList ++
    signer ++ ">".toList)

def verifyMessageSignature (armored : Text) (message : Bytes) (principal : Option Text) :
    SignatureStatus :=
  match verifyMessageSignatureInner P armored message principal with
  | .ok status => status
  | .error text => ⟨true, false, none, false, text⟩

/-! ## Signing -/

def base64Char (n : ℕ) : Char :=
  "ABCDEFGHIJKLMNOPQRSTUVWXYZabcdefghijklmnopqrstuvwxyz0123456789+/".toList.getD n 'A'

/-- `base64_encode`, three bytes at a time. -/
def base64Encode : Bytes → Text
  | [] => []
  | [a] =>
    let triple := a.toNat * 65536
    [base64Char (triple / 262144), base64Char (triple / 4096 % 64), '=', '=']
  | [a, b] =>
    let triple := a.toNat * 65536 + b.toNat * 256
    [base64Char (triple / 262144), base64Char (triple / 4096 % 64), base64Char (triple / 64 % 64), '=']
  | a :: b :: c :: rest =>
    let triple := a.toNat * 65536 + b.toNat * 256 + c.toNat
    base64Char (triple / 262144) :: base64Char (triple / 4096 % 64) ::
      base64Char (triple / 64 % 64) :: base64Char (triple % 64) :: base64Encode rest

def wrap (width : ℕ) : ℕ → Text → Text
  | _, [] => []
  | 0, _ :: _ => []
  | fuel + 1, c :: cs => (c :: cs).take width ++ '\n' :: wrap width fuel ((c :: cs).drop width)

def armorSshSignature (blob : Bytes) : Text :=
  let encoded := base64Encode blob
  "-----BEGIN SSH SIGNATURE-----\n".toList ++ wrap 70 encoded.length encoded ++
    "-----END SSH SIGNATURE-----\n".toList

/-- `push_ssh_string`. -/
def sshString (data : Bytes) : Bytes := Bytes.be 4 data.length ++ data

def createSshSignature (publicKeyWire namespace_ reserved hashAlgorithm signatureData : Bytes) : Bytes :=
  ascii "SSHSIG" ++ Bytes.be 4 1 ++ sshString publicKeyWire ++ sshString namespace_ ++
    sshString reserved ++ sshString hashAlgorithm ++ sshString signatureData

/-- `create_rsg`, with the public key and the signing of an identity. -/
def createRsg (publicKey : Vector UInt8 64) (sign : Bytes → Vector UInt8 64) (message : Bytes) : Bytes :=
  let envelope := Msgpack.pack (.map [
    (.str ⟨ascii "hashtype", by decide⟩, .str ⟨ascii "sha256", by decide⟩),
    (.str ⟨ascii "hash", by decide⟩, .bin (P.sha256 message).toList),
    (.str ⟨ascii "meta", by decide⟩, .map [
      (.str ⟨ascii "signer", by decide⟩, .bin (P.truncatedHash publicKey.toList).toList),
      (.str ⟨ascii "pubkey", by decide⟩, .bin publicKey.toList)])])
  (sign envelope).toList ++ envelope

def signMessage (publicKey : Vector UInt8 64) (sign : Bytes → Vector UInt8 64) (message : Bytes) :
    Text :=
  let sshPubkey := sshString (ascii "ssh-ed25519") ++ sshString (publicKey.toList.drop 32)
  armorSshSignature (createSshSignature sshPubkey (ascii "git") [] (ascii "sha256")
    (createRsg P publicKey sign message))

/-! ## The split -/

def stripLf (line : Text) : Text := if line.getLast? = some '\n' then line.dropLast else line

def signatureStart (line : Text) : Option Text :=
  ("gpgsig ".toList.isPrefixOf? line).or ("gpgsig-sha256 ".toList.isPrefixOf? line)

/-- The loop of `split_commit_signature`: the lines of the signature, and what is signed. -/
def splitLines : Bool → List Text → List Text × Text
  | _, [] => ([], [])
  | inSignature, line :: rest =>
    match signatureStart (stripLf line) with
    | some start =>
      let (signature, signed) := splitLines true rest
      (start :: signature, signed)
    | none =>
      match if inSignature then " ".toList.isPrefixOf? (stripLf line) else none with
      | some more =>
        let (signature, signed) := splitLines true rest
        (more :: signature, signed)
      | none =>
        let (signature, signed) := splitLines false rest
        (signature, line ++ signed)

def splitCommitSignature (commit : Bytes) : Option Text × Bytes :=
  match Text.ofUtf8 commit with
  | none => (none, commit)
  | some text =>
    let (signature, signed) := splitLines false (splitInclusive '\n' text)
    (if signature = [] then none else some (['\n'].intercalate signature), signed.toUtf8)

end Git

end Rns

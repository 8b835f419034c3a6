import Rns.Lib.Bytes
import Rns.Lib.Confined
import Rns.Git.Names

/-!
# Access rules

`Access`: who may do what with which repository.  Rules come from the configuration and from rule
files next to the repositories; a rule file that is executable is run and its output is read.
-/

namespace Rns.Git

open FsPath

abbrev Id := Vector UInt8 16

/-- How a call can stop: with an error, or with a panic. -/
inductive Fault where
  | error (e : Error)
  | panic
  deriving DecidableEq

def Fault.msg (s : String) : Fault := .error (.msg s.toList)

inductive Operation where
  | read
  | write
  | create
  | stats
  | release
  | interact
  | propose
  | admin
  deriving Repr, DecidableEq

def Operation.all : List Operation :=
  [.read, .write, .create, .stats, .release, .interact, .propose, .admin]

inductive Rule where
  | none
  | all
  | identities (ids : List Id)
  deriving DecidableEq

/-! ## Hexadecimal identities -/

def hexChar (n : ℕ) : Char := "0123456789abcdef".toList.getD n '0'

def hex (bytes : Bytes) : Text :=
  bytes.flatMap fun b => [hexChar (b.toNat / 16), hexChar (b.toNat % 16)]

/-- `char::to_digit(16)`. -/
def hexDigit (c : Char) : Option ℕ :=
  if '0' ≤ c ∧ c ≤ '9' then some (c.toNat - '0'.toNat)
  else if 'a' ≤ c ∧ c ≤ 'f' then some (c.toNat - 'a'.toNat + 10)
  else if 'A' ≤ c ∧ c ≤ 'F' then some (c.toNat - 'A'.toNat + 10)
  else none

/-- `u8::from_str_radix(_, 16)` on at most two bytes: one leading `+` is let through. -/
def parseHexByte (s : Text) : Except Fault UInt8 :=
  let digits := match s with
    | '+' :: d :: ds => d :: ds
    | s => s
  match digits.isEmpty, digits.mapM hexDigit with
  | false, some ds => .ok (UInt8.ofNat (ds.foldl (fun n d => 16 * n + d) 0))
  | _, _ => .error (.msg "invalid hex")

/-- The slice of the first `n` bytes and the rest, when that is a character boundary. -/
def splitBytes : ℕ → Text → Option (Text × Text)
  | 0, s => some ([], s)
  | _ + 1, [] => none
  | n + 1, c :: cs =>
    if c.utf8Size ≤ n + 1 then
      (splitBytes (n + 1 - c.utf8Size) cs).map fun (s, rest) => (c :: s, rest)
    else none

/-- The loop of `parse_hex_16`: `count` slices of two bytes; a slice that does not end at a
character boundary panics. -/
def parseHexBytes : ℕ → Text → Except Fault Bytes
  | 0, _ => .ok []
  | count + 1, s => match splitBytes 2 s with
    | none => .error .panic
    | some (digits, rest) => do
      let b ← parseHexByte digits
      return b :: (← parseHexBytes count rest)

def parseHex16 (s : Text) : Except Fault Id :=
  let clean := s.trim
  if clean.utf8Len ≠ 32 then .error (.msg "expected 32 hex characters")
  else do
    let bytes ← parseHexBytes 16 clean
    return Bytes.fixed 16 bytes 0

/-! ## Rules -/

abbrev Aliases := Text → Option Id

def parseIdentityRef (value : Text) (aliases : Aliases) : Except Fault Id :=
  match aliases value.trim with
  | some id => .ok id
  | none => parseHex16 value

def Rule.parse (values : List Text) (aliases : Aliases) : Except Fault Rule :=
  if values.any (Text.eqIgnoreAsciiCase · "all".toList) then .ok .all
  else do
    let ids ← (values.filter (!Text.eqIgnoreAsciiCase · "none".toList)).mapM
      (parseIdentityRef · aliases)
    return if ids.isEmpty then .none else .identities ids

def Rule.allows (rule : Rule) (identity : Option Id) : Bool :=
  match rule with
  | .none => false
  | .all => true
  | .identities ids => identity.any ids.contains

/-- The operations a key of a rule file stands for. -/
def operationsOfKey (key : Text) : Option (List Operation) :=
  if key = "r".toList ∨ key = "read".toList then some [.read]
  else if key = "w".toList ∨ key = "write".toList then some [.write]
  else if key = "rw".toList ∨ key = "readwrite".toList then some [.read, .write]
  else if key = "c".toList ∨ key = "create".toList then some [.create]
  else if key = "s".toList ∨ key = "stats".toList then some [.stats]
  else if key = "rel".toList ∨ key = "release".toList then some [.release]
  else if key = "i".toList ∨ key = "interact".toList then some [.interact]
  else if key = "p".toList ∨ key = "propose".toList then some [.propose]
  else if key = "adm".toList ∨ key = "admin".toList then some [.admin]
  else none

/-- One line of a rule file: which targets it names for which operations. -/
def parseLine (raw : Text) : Except Fault (List (Operation × Text)) :=
  let line := Text.trim ((raw.splitOn '#').headD [])
  if line = [] then .ok []
  else
    let keyValue := ((Text.splitOnce '=' line).orElse fun _ => Text.splitOnce ':' line).getD
      ("read".toList, line)
    let rawKey := Text.toAsciiLowercase (Text.trim keyValue.1)
    match operationsOfKey rawKey with
    | none => .error (.error (.msg ("invalid permission \"".toList ++ rawKey ++ "\"".toList)))
    | some ops => .ok (ops.flatMap fun op => (keyValue.2.splitOn ',').map fun v => (op, Text.trim v))

def targetsOf (entries : List (Operation × Text)) (op : Operation) : List Text :=
  entries.filterMap fun (o, v) => if o = op then some v else none

/-- `parse_allowed_file_with_aliases`: every operation that is named gets its rule.  The source
collects them through a hash map; the order only decides which of several errors is reported. -/
def parseAllowedFile (input : Text) (aliases : Aliases) :
    Except Fault (List (Operation × Rule)) := do
  let entries ← input.lines.mapM parseLine
  let named := Operation.all.filter fun op => targetsOf entries.flatten op ≠ []
  named.mapM fun op => do return (op, ← Rule.parse (targetsOf entries.flatten op) aliases)

/-! ## Rule files -/

/-- The data of a file: its text, when it is valid UTF-8, and its executable bits. -/
structure FileData where
  content : Option Text
  executable : Bool
  deriving DecidableEq

/-- What came of running an executable rule file. -/
inductive RunResult where
  | ioError
  | failed (status : Text)
  | output (stdout : Text)
  deriving DecidableEq

abbrev Tree := FileTree FileData

abbrev Fs := FsM FileData Fault

structure Access where
  rules : Operation → Rule
  aliases : Aliases
  blocked : List Id
  repositoriesDir : Text

abbrev Runner := FileData → RunResult

/-- `allowed_input` of an existing path. -/
def allowedInput (run : Runner) (path : Text) : Node FileData → Except Fault Text
  | .dir => .error (.error .io)
  | .file data =>
    if data.executable then match run data with
      | .ioError => .error (.error .io)
      | .failed status => .error (.error (.msg ("allowed file ".toList ++ path ++
          " exited with status ".toList ++ status)))
      | .output stdout => .ok stdout
    else match data.content with
      | some text => .ok text
      | none => .error (.error .io)

/-- Whether the rules read from one existing rule file let the identity through. -/
def fileAllows (run : Runner) (aliases : Aliases) (op : Operation) (identity : Option Id)
    (path : Text) (node : Node FileData) : Except Fault Bool := do
  let rules ← parseAllowedFile (← allowedInput run path node) aliases
  return match rules.lookup op with
    | none => false
    | some rule => rule.allows identity

namespace Access

variable (run : Runner) (access : Access)

/-- The loop of `repo_allowed` over the rule files. -/
def anyFileAllows (op : Operation) (identity : Option Id) : List Text → Fs Bool
  | [] => return false
  | path :: rest => do
    match ← FsM.node (components path) with
    | none => anyFileAllows op identity rest
    | some node =>
      if ← FsM.ofExcept (fileAllows run access.aliases op identity path node) then return true
      else anyFileAllows op identity rest

def repoAllowed (op : Operation) (repository : Text) (identity : Option Id) : Fs Bool :=
  access.anyFileAllows run op identity (allowedFiles access.repositoriesDir repository)

/-- The first test of `allows`: administrators may do everything else. -/
def adminAllows (op : Operation) (repository : Text) (identity : Option Id) : Fs Bool := do
  if op = .admin then return false
  else if ← access.repoAllowed run .admin repository identity then return true
  else return (access.rules .admin).allows identity

/-- `allows`: blocked identities may do nothing. -/
def allows (op : Operation) (repository : Text) (identity : Option Id) : Fs Bool := do
  FsM.ofExcept ((validateRepoName repository).mapError .error)
  if identity.any access.blocked.contains then return false
  else if ← access.adminAllows run op repository identity then return true
  else if ← access.repoAllowed run op repository identity then return true
  else return (access.rules op).allows identity

end Access

end Rns.Git

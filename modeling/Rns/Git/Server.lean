import Rns.Git.Access

/-!
# Request handlers of the repository server

The handlers on decoded requests.  Git itself is a parameter: the commands see the directory of the
repository they are run on and nothing else.
-/

namespace Rns.Git

open FsPath FsM

/-! ## Git -/

/-- A change of one reference in a push. -/
structure RefUpdate where
  refname : Text
  old : Option Text
  new : Option Text
  force : Bool
  deriving DecidableEq

/-- The commands the server runs: whether initialising and cloning succeed, and what the others
answer from (and leave in) the directory of the repository. -/
structure GitTool where
  init : Text → Bool
  clone : Text → Text → Bool
  listRefs : Tree → Except Error Text
  bundle : Tree → List Text → List Text → Except Error Bytes
  applyPush : Bytes → List RefUpdate → Tree → Except Error Unit × Tree

def isValidSha (sha : Text) : Bool :=
  sha.utf8Len ≥ 40 ∧ sha.utf8Len % 2 = 0 ∧ sha.all fun c => (hexDigit c).isSome

def containsText (s pattern : Text) : Bool := s.tails.any pattern.isPrefixOf

def isValidRefname (refname : Text) : Bool :=
  !(refname.isEmpty || refname.head? == some '-' || refname.head? == some '/' ||
      refname.getLast? == some '/' || refname.getLast? == some '.' || !refname.contains '/' ||
      refname.contains ' ' || containsText refname "..".toList || containsText refname "/.".toList ||
      containsText refname "//".toList || refname.contains '\\' || refname.contains '~' ||
      refname.contains '^' || refname.contains ':' || refname.contains '?' ||
      refname.contains '*' || refname.contains '[' || containsText refname "@\x7b".toList ||
      refname == "@".toList) &&
    !((refname.splitOn '/').any fun c => c.isEmpty || ".lock".toList.isSuffixOf c) &&
    refname.all fun c => 40 ≤ c.toNat && c.toNat != 0x7f

def validateShas (shas : List Text) : Except Error Unit :=
  if shas.all isValidSha then .ok () else .error (.msg "invalid SHA".toList)

def validateNamespacedRef (refname : Text) : Except Error Unit :=
  if isValidRefname refname ∧ "refs/".toList.isPrefixOf refname then .ok ()
  else .error (.msg "invalid ref".toList)

def validateRefUpdates (updates : List RefUpdate) : Except Error Unit :=
  updates.forM fun update => do
    validateNamespacedRef update.refname
    validateShas (update.old.toList ++ update.new.toList)

/-! ## Responses -/

inductive Status where
  | ok
  | disallowed
  | invalidReq
  | notFound
  | remoteFail
  deriving Repr, DecidableEq

/-- A response: a status with its text, or a bundle sent as a resource. -/
inductive Response where
  | status (code : Status) (body : Text)
  | resource (data : Bytes)
  deriving DecidableEq

def Response.of (code : Status) (body : String) : Response := .status code body.toList

/-- `remote_error_response`. -/
def remoteError : Response := .of .remoteFail "Remote error"

/-! ## Handlers -/

namespace Server

variable (run : Runner) (git : GitTool) (access : Access)

def isBareRepository (path : Text) : Fs Bool := do
  let head ← node (components (join path "HEAD".toList))
  let objects ← node (components (join path "objects".toList))
  return head.isSome && objects = some .dir

/-- Make the directories on the way, then run a git command that makes the repository directory
when it succeeds. -/
def makeRepository (succeeds : Bool) (path : Text) : Fs (Except Error Unit) := do
  if ← attempt fun t => t.createDirAll (components path).dropLast then
    if succeeds then
      if ← attempt fun t => t.createDirAll (components path) then return .ok ()
      else return .error .io
    else return .error (.msg "git command failed".toList)
  else return .error .io

def ensureBareRepository (path : Text) : Fs (Except Error Unit) := do
  if ← isBareRepository path then return .ok ()
  else makeRepository (git.init path) path

/-- `clone_remote_bare`, as far as it is not about git: the repository appears at the end. -/
def cloneRemoteBare (source path : Text) : Fs (Except Error Unit) := do
  if source.trim.isEmpty then return .error (.msg "missing source".toList)
  else if (← node (components path)).isSome then
    return .error (.msg "repository already exists".toList)
  else makeRepository (git.clone source path) path

variable (repo : Text) (remote : Option Id)

def handleList : Fs Response := do
  if !(← access.allows run .read repo remote) then return .of .disallowed "read denied"
  else
    let path ← FsM.ofExcept ((repositoryPath access.repositoriesDir repo).mapError .error)
    if ← isBareRepository path then
      match git.listRefs (← subtree (components path)) with
      | .ok refs => return .status .ok refs
      | .error err =>
        if err = .msg "repository not found".toList then
          return .of .notFound "repository not found"
        else return remoteError
    else return .of .notFound "repository not found"

def handleFetch (haves : List Text) (refs : List (Text × Text)) (remote : Option Id) :
    Fs Response := do
  if !(← access.allows run .read repo remote) then return .of .disallowed "read denied"
  else match (do validateShas haves; validateShas (refs.map Prod.fst)
                 (refs.map Prod.snd).forM validateNamespacedRef : Except Error Unit) with
    | .error (.msg text) => return .status .invalidReq text
    | .error .io => return remoteError
    | .ok () =>
      let path ← FsM.ofExcept ((repositoryPath access.repositoriesDir repo).mapError .error)
      if ← isBareRepository path then
        match git.bundle (← subtree (components path)) haves (refs.map Prod.snd) with
        | .ok bundle => return if bundle.isEmpty then .of .ok "" else .resource bundle
        | .error err =>
          if err = .msg "repository not found".toList then
            return .of .notFound "repository not found"
          else return remoteError
      else return .of .notFound "repository not found"

def applyPush (path : Text) (bundle : Bytes) (updates : List RefUpdate) : Fs (Except Error Unit) := do
  match ← ensureBareRepository git path with
  | .error err => return .error err
  | .ok () =>
    match ← within (components path) (git.applyPush bundle updates) with
    | none => return .error .io
    | some result => return result

/-- `handle_push`: a push to a repository that is not there creates it. -/
def handlePush (bundle : Bytes) (updates : List RefUpdate) (remote : Option Id) : Fs Response := do
  let path ← FsM.ofExcept ((repositoryPath access.repositoriesDir repo).mapError .error)
  match validateRefUpdates updates with
  | .error (.msg text) => return .status .invalidReq text
  | .error .io => return remoteError
  | .ok () =>
    let op := if ← isBareRepository path then Operation.write else Operation.create
    if !(← access.allows run op repo remote) then
      return .of .disallowed (if op = .create then "create denied" else "write denied")
    else match ← applyPush git path bundle updates with
      | .ok () => return .of .ok "ok"
      | .error _ => return remoteError

def handleDelete : Fs Response := do
  if !(← access.allows run .write repo remote) then return .of .disallowed "write denied"
  else
    let path ← FsM.ofExcept ((repositoryPath access.repositoriesDir repo).mapError .error)
    if (← node (components path)).isNone then return .of .notFound "repository not found"
    else if ← attempt fun t => t.removeDirAll (components path) then return .of .ok "deleted"
    else return remoteError

def isExecutable : Option (Node FileData) → Bool
  | some (.file data) => data.executable
  | _ => false

/-- The end of a creation: make the repository and write the rule file that makes its creator the
administrator; undo the first when the second fails. -/
def makeAndGrant (make : Text → Fs (Except Error Unit)) (repo path : Text) (remote : Id) :
    Fs Response := do
  match ← make path with
  | .error _ =>
    let _ ← attempt fun t => t.removeDirAll (components path)
    return remoteError
  | .ok () =>
    let allowedPath := components (join access.repositoriesDir (repo ++ ".allowed".toList))
    let permissions := "adm:".toList ++ hex remote.toList ++ ['\n']
    -- writing over an existing file keeps its mode
    let executable := isExecutable (← node allowedPath)
    if ← attempt fun t => t.write allowedPath ⟨some permissions, executable⟩ then
      return .of .ok "ok"
    else
      let _ ← attempt fun t => t.removeDirAll (components path)
      return remoteError

/-- What `handle_create` and `handle_remote_clone` do once the request is read; they differ in how
the repository is made. -/
def handleNew (make : Text → Fs (Except Error Unit)) (repo : Text) (remote : Id) :
    Fs Response := do
  match Text.splitOnce '/' repo with
  | none => return .of .invalidReq "invalid request"
  | some (groupName, name) =>
    if groupName.isEmpty ∨ name.isEmpty ∨ name.contains '/' then
      return .of .invalidReq "invalid request"
    else if (← node (components (join access.repositoriesDir groupName))) ≠ some .dir then
      return .of .notFound "not found"
    else
      let readAccess ← access.allows run .read repo (some remote)
      let createAccess ← access.allows run .create repo (some remote)
      if !createAccess then
        return if readAccess then .of .disallowed "not allowed" else .of .notFound "not found"
      else
        let path ← FsM.ofExcept ((repositoryPath access.repositoriesDir repo).mapError .error)
        if (← node (components path)).isSome then
          return if readAccess then .of .disallowed "repository already exists"
            else .of .notFound "not found"
        else makeAndGrant access make repo path remote

def handleCreate : Fs Response := do
  match remote with
  | none => return .of .disallowed "not identified"
  | some remote => handleNew run access (ensureBareRepository git) repo remote

/-- `handle_remote_clone`, the body of `handle_fork` and `handle_mirror`; the repository type they
differ in goes into the new repository's git configuration. -/
def handleRemoteClone (source : Text) (remote : Option Id) : Fs Response := do
  match remote with
  | none => return .of .disallowed "not identified"
  | some remote => handleNew run access (cloneRemoteBare git source) repo remote

end Server

end Rns.Git

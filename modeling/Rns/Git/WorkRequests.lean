import Rns.Lib.Machine
import Rns.Git.Work

/-!
# Requests about work documents

`handle_work`: a request names an operation, who may do it is asked of the access rules and of the
permissions of the document, and a signature is checked against the public key of the caller.
-/

namespace Rns.Git

abbrev PublicKey := Vector UInt8 64

inductive WorkOperation where
  | list
  | view
  | create
  | propose
  | edit
  | delete
  | comment
  | complete
  | activate
  | perms
  | unknown
  deriving Repr, DecidableEq

structure WorkRequest where
  operation : WorkOperation
  step : Option Text
  scope : Option Text
  docId : Option ℕ
  title : Option Text
  content : Option Text
  format : Option Text
  signature : Option Bytes
  deriving DecidableEq

/-- A request with what is outside of the store: the caller, the clock, the repository and the answers of
the access rules. -/
structure WorkAsk where
  request : WorkRequest
  remote : Id
  now : ℕ
  isBare : Bool
  allows : Operation → Except Fault Bool

inductive WorkAnswer where
  | status (code : Status) (body : Text)
  | lists (active completed proposed : List WorkSummary)
  | document (document : WorkDocument)
  | placed (docId : ℕ) (scope : WorkScope)
  | comment (commentId : ℕ)
  | permissions (content : Text)
  deriving DecidableEq

def WorkAnswer.of (code : Status) (body : String) : WorkAnswer := .status code body.toList

/-! ## Scopes and errors -/

def WorkScope.parse (value : Text) : Option WorkScope :=
  if value = "active".toList then some .active
  else if value = "completed".toList then some .completed
  else if value = "proposed".toList then some .proposed
  else none

def workScope (scope : Option Text) : Except Fault WorkScope :=
  match scope with
  | none => .ok .active
  | some value => match WorkScope.parse value with
    | some scope => .ok scope
    | none => .error (.msg "invalid scope")

def workScopeForDocument (s : WorkStore) (scope : Option Text) (docId : ℕ) :
    Except Fault (Option WorkScope) :=
  if scope.getD "active".toList = "all".toList then .ok (s.findDocumentScope docId)
  else match WorkScope.parse (scope.getD "active".toList) with
    | some scope => .ok (some scope)
    | none => .error (.msg "invalid scope")

/-- `work_error_response`; the text of an error of the file system is left out. -/
def workErrorResponse : Error → WorkAnswer
  | .io => .of .remoteFail ""
  | .msg message =>
    if "invalid permission".toList <+: message ∨ "invalid hex".toList <+: message ∨
        "expected 32 hex characters".toList <+: message then .status .invalidReq message
    else if message = "document not found".toList then .status .notFound message
    else if message = "no access, not author".toList then .of .disallowed "not allowed"
    else if message ∈ ["title is required".toList, "content is required".toList,
        "no signature provided".toList, "invalid signature".toList, "content limit exceeded".toList,
        "no changes specified".toList] then .status .invalidReq message
    else .status .remoteFail message

/-- `work_status_result`: errors become answers, a panic goes on. -/
def workStatusResult (result : Except Fault WorkAnswer) : Except Fault WorkAnswer :=
  match result with
  | .error (.error e) => .ok (workErrorResponse e)
  | result => result

def workPermissionsAllowed (s : WorkStore) (docId : ℕ) (remote : Id) (manageAccess : Bool) :
    Except Fault Bool := do
  let author ← s.documentAuthor docId
  let docAdmin ← s.documentPermissionAllows docId .admin (some remote)
  return (author = remote && manageAccess) || docAdmin

/-! ## The handler -/

/-- The rights of a caller: to interact, to propose and to write. -/
structure WorkRights where
  interact : Bool
  propose : Bool
  write : Bool

/-- The rights that the access rules and, for comments and edits, the permissions of the document give. -/
def workRights (s : WorkStore) (ask : WorkAsk) : Except Fault WorkRights := do
  let granted (op : Operation) : Except Fault Bool :=
    match ask.request.docId with
    | none => .ok false
    | some docId => s.documentPermissionAllows docId op (some ask.remote)
  let interact ← ask.allows .interact
  let propose ← ask.allows .propose
  let interact ←
    if ask.request.operation = .comment then (return interact || (← granted .interact)) else pure interact
  let write ← ask.allows .write
  if ask.request.operation = .edit then
    return ⟨interact || (← granted .interact), propose, write || (← granted .write)⟩
  else return ⟨interact, propose, write⟩

/-- Whether the operation is permitted with these rights. -/
def WorkRights.permit (rights : WorkRights) : WorkOperation → Bool
  | .list | .view | .perms => true
  | .comment => rights.interact
  | .propose => rights.propose
  | .create | .edit | .delete | .complete | .activate => rights.interact && rights.write
  | .unknown => false

section Handler

variable (verify : PublicKey → Bytes → Text → Bool) (keyOf : Id → PublicKey)

/-- `validate_work_signature`: the key of the caller, when there is a signature. -/
def validateWorkSignature (content : Text) (signature : Option Bytes) (remote : Id) :
    Except Fault (Option Bytes) :=
  match signature with
  | none => .ok none
  | some signature =>
    if signature.length ≠ 64 then .error (.msg "invalid signature")
    else if !verify (keyOf remote) signature content.trim then .error (.msg "invalid signature")
    else .ok (some (keyOf remote).toList)

variable (s : WorkStore) (ask : WorkAsk)

/-- The input of a request to create or propose a document. -/
def WorkAsk.input (identity : Option Bytes) : WorkInput where
  title := ask.request.title.getD []
  content := ask.request.content.getD []
  format := ask.request.format.getD "markdown".toList
  signature := ask.request.signature
  identity
  author := ask.remote

def workReply {α : Type} (reply : α → WorkAnswer) (result : Except Fault α × WorkStore) :
    Except Fault WorkAnswer × WorkStore :=
  (workStatusResult (result.1.map reply), result.2)

/-- The operations that need the number of a document. -/
def WorkAsk.withDocument (next : ℕ → Except Fault WorkAnswer × WorkStore) :
    Except Fault WorkAnswer × WorkStore :=
  match ask.request.docId with
  | none => (.error (.msg "no document ID specified"), s)
  | some docId => next docId

/-- The operations that name a scope for their document. -/
def WorkAsk.withScope (next : WorkScope → Except Fault WorkAnswer × WorkStore) :
    Except Fault WorkAnswer × WorkStore :=
  match workScope ask.request.scope with
  | .error e => (.error e, s)
  | .ok scope => next scope

/-- `list_response`. -/
def workList : Except Fault WorkAnswer × WorkStore :=
  let part (shown : Bool) (scope : WorkScope) := if shown then s.listScope scope else []
  if ask.request.scope = some "all".toList then
    (.ok (.lists (s.listScope .active) (s.listScope .completed) (s.listScope .proposed)), s)
  else ask.withScope s fun scope =>
    (.ok (.lists (part (scope = .active) .active) (part (scope = .completed) .completed)
      (part (scope = .proposed) .proposed)), s)

def workView : Except Fault WorkAnswer × WorkStore :=
  ask.withDocument s fun docId =>
    match workScopeForDocument s ask.request.scope docId with
    | .error e => (.error e, s)
    | .ok none => (.ok (.of .notFound "not found"), s)
    | .ok (some scope) => match s.viewDocument scope docId with
      | some document => (.ok (.document document), s)
      | none => (.ok (.of .notFound "document not found"), s)

def workCreate : Except Fault WorkAnswer × WorkStore :=
  match validateWorkSignature verify keyOf (ask.request.content.getD []) ask.request.signature ask.remote with
  | .error e => (workStatusResult (.error e), s)
  | .ok identity =>
    workReply (fun created => .placed created.id created.scope) (s.createDocument (ask.input identity) ask.now)

def workPropose : Except Fault WorkAnswer × WorkStore :=
  match validateWorkSignature verify keyOf (ask.request.content.getD []) ask.request.signature ask.remote with
  | .error e => (workStatusResult (.error e), s)
  | .ok none => (workStatusResult (.error (.msg "no signature provided")), s)
  | .ok (some identity) =>
    workReply (fun created => .placed created.id created.scope)
      (s.proposeDocument (ask.input (some identity)) ask.now)

def editIdentity : Except Fault (Option Bytes) :=
  match ask.request.content with
  | some content => validateWorkSignature verify keyOf content ask.request.signature ask.remote
  | none => .ok none

def workEdit : Except Fault WorkAnswer × WorkStore :=
  ask.withDocument s fun docId =>
    match editIdentity verify keyOf ask with
    | .error e => (workStatusResult (.error e), s)
    | .ok identity => match workScopeForDocument s ask.request.scope docId with
      | .error e => (.error e, s)
      | .ok none => (.ok (.of .notFound "not found"), s)
      | .ok (some scope) => workReply (fun _ => .of .ok "") (s.editDocument scope docId ask.remote
          ⟨ask.request.title, ask.request.content, ask.request.signature, identity⟩ ask.now)

def workDelete : Except Fault WorkAnswer × WorkStore :=
  ask.withDocument s fun docId => ask.withScope s fun scope =>
    workReply (fun _ => .of .ok "") (s.deleteDocument scope docId ask.remote)

def workComment : Except Fault WorkAnswer × WorkStore :=
  ask.withDocument s fun docId => ask.withScope s fun scope =>
    workReply .comment (s.addComment scope docId ⟨ask.request.content.getD [],
      ask.request.format.getD "markdown".toList, ask.request.signature, ask.remote⟩ ask.now)

def workComplete : Except Fault WorkAnswer × WorkStore :=
  ask.withDocument s fun docId =>
    workReply (fun _ => .placed docId .completed) (s.completeDocument docId ask.remote)

def workActivate : Except Fault WorkAnswer × WorkStore :=
  ask.withDocument s fun docId =>
    workReply (fun _ => .placed docId .active) (s.activateDocument docId ask.remote)

def workPerms (rights : WorkRights) : Except Fault WorkAnswer × WorkStore :=
  ask.withDocument s fun docId =>
    match workPermissionsAllowed s docId ask.remote (rights.interact && rights.write) with
    | .error e => (workStatusResult (.error e), s)
    | .ok false => (.ok (.of .disallowed "not allowed"), s)
    | .ok true =>
      if ask.request.step = some "get".toList then
        (workStatusResult ((s.getDocumentPermissions docId).map .permissions), s)
      else if ask.request.step = some "set".toList then
        workReply (fun _ => .of .ok "") (s.setDocumentPermissions docId (ask.request.content.getD []))
      else if ask.request.step.isSome then (.ok (.of .invalidReq "invalid step"), s)
      else (.ok (.of .invalidReq "invalid request"), s)

/-- The operation of a permitted request. -/
def workDispatch (rights : WorkRights) : Except Fault WorkAnswer × WorkStore :=
  match ask.request.operation with
  | .list => workList s ask
  | .view => workView s ask
  | .create => workCreate verify keyOf s ask
  | .propose => workPropose verify keyOf s ask
  | .edit => workEdit verify keyOf s ask
  | .delete => workDelete s ask
  | .comment => workComment s ask
  | .complete => workComplete s ask
  | .activate => workActivate s ask
  | .perms => workPerms s ask rights
  | .unknown => (.ok (.of .invalidReq "invalid request"), s)

/-- `handle_work` of an identified caller. -/
def handleWork : Except Fault WorkAnswer × WorkStore :=
  match ask.allows .read with
  | .error e => (.error e, s)
  | .ok false => (.ok (.of .notFound "not found"), s)
  | .ok true =>
    if !ask.isBare then (.ok (.of .notFound "repository not found"), s)
    else match workRights s ask with
      | .error e => (.error e, s)
      | .ok rights =>
        if !rights.permit ask.request.operation then (.ok (.of .disallowed "not allowed"), s)
        else workDispatch verify keyOf s ask rights

end Handler

end Rns.Git

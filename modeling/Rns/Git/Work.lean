import Rns.Git.RuleText
import Rns.Git.Server

/-!
# Work documents

The documents kept beside a repository, and the permissions given for a document, which are kept apart
from it under its number.  Operations of the file system are taken to succeed.
-/

namespace Rns.Git

inductive WorkScope where
  | active
  | completed
  | proposed
  deriving Repr, DecidableEq

structure StoredDocument where
  content : Text
  title : Option Text
  format : Text
  created : ℕ
  edited : ℕ
  author : Id
  signature : Option Bytes
  identity : Option Bytes
  deriving DecidableEq

/-- The folder of a document: its root and its numbered comments. -/
structure WorkEntry where
  root : StoredDocument
  comments : Std.ExtTreeMap ℕ StoredDocument

structure WorkStore where
  documents : WorkScope → Std.ExtTreeMap ℕ WorkEntry
  permissions : Std.ExtTreeMap ℕ Text

def WorkStore.empty : WorkStore := ⟨fun _ => ∅, ∅⟩

structure WorkInput where
  title : Text
  content : Text
  format : Text
  signature : Option Bytes
  identity : Option Bytes
  author : Id
  deriving DecidableEq

structure WorkEdit where
  title : Option Text
  content : Option Text
  signature : Option Bytes
  identity : Option Bytes
  deriving DecidableEq

structure WorkCommentInput where
  content : Text
  format : Text
  signature : Option Bytes
  author : Id
  deriving DecidableEq

structure WorkCreated where
  id : ℕ
  scope : WorkScope
  deriving DecidableEq

structure WorkSummary where
  id : ℕ
  title : Text
  created : ℕ
  edited : ℕ
  author : Text
  format : Text
  comments : ℕ
  deriving DecidableEq

structure WorkDocument where
  id : ℕ
  scope : WorkScope
  root : StoredDocument
  comments : List (ℕ × StoredDocument)
  deriving DecidableEq

/-! ## Checks -/

def workDocLimit : ℕ := 256 * 1024

def normalizeFormat (value : Text) : Text :=
  if value = "micron".toList then "micron".toList else "markdown".toList

def nonEmptyTrimmed (value : Text) (message : String) : Except Fault Text :=
  if value.trim.isEmpty then .error (.msg message) else .ok value.trim

def validateLimit (size : ℕ) : Except Fault Unit :=
  if size > workDocLimit then .error (.msg "content limit exceeded") else .ok ()

def validateSignature (signature : Option Bytes) : Except Fault Unit :=
  if signature.any (·.length ≠ 64) then .error (.msg "invalid signature") else .ok ()

def ensureAuthor (document : StoredDocument) (author : Id) : Except Fault Unit :=
  if document.author = author then .ok () else .error (.msg "no access, not author")

/-- `allowed_input_allows`: no aliases. -/
def allowedInputAllows (input : Text) (op : Operation) (identity : Option Id) : Except Fault Bool := do
  let rules ← parseAllowedFile input fun _ => none
  return match rules.lookup op with
    | none => false
    | some rule => rule.allows identity

def validateAllowedInput (input : Text) : Except Fault Unit := do
  let _ ← parseAllowedFile input fun _ => none
  return ()

namespace WorkStore

variable (s : WorkStore)

/-! ## Looking -/

/-- `next_numeric_child` of a map from numbers. -/
def nextNumericChild {α : Type} (children : Std.ExtTreeMap ℕ α) : ℕ := children.keys.foldl max 0 + 1

def nextDocumentId : ℕ :=
  max (max (nextNumericChild (s.documents .active)) (nextNumericChild (s.documents .completed)))
    (nextNumericChild (s.documents .proposed))

variable (scope : WorkScope) (input : WorkInput) (now docId : ℕ) (author : Id)

def findDocumentScope : Option WorkScope :=
  [WorkScope.active, .completed, .proposed].find? fun scope => (s.documents scope).contains docId

def readExistingDocument : Except Fault WorkEntry :=
  match (s.documents scope)[docId]? with
  | none => .error (.msg "document not found")
  | some entry => .ok entry

def documentAuthor : Except Fault Id :=
  match s.findDocumentScope docId with
  | none => .error (.msg "document not found")
  | some scope => (s.readExistingDocument scope docId).map (·.root.author)

def documentPermissionAllows (op : Operation) (identity : Option Id) : Except Fault Bool :=
  match s.permissions[docId]? with
  | none => .ok false
  | some content => do
    if op ≠ .admin then
      if ← allowedInputAllows content .admin identity then return true
    allowedInputAllows content op identity

def getDocumentPermissions : Except Fault Text :=
  match s.findDocumentScope docId with
  | none => .error (.msg "document not found")
  | some _ => .ok ((s.permissions[docId]?).getD [])

def untitled : Text := "Untitled".toList

/-- A line of `list_scope`. -/
def summary (entry : WorkEntry) : WorkSummary where
  id := docId
  title := entry.root.title.getD untitled
  created := entry.root.created
  edited := entry.root.edited
  author := hex entry.root.author.toList
  format := entry.root.format
  comments := entry.comments.size

/-- `list_scope`: the last changed first, then the higher number. -/
def listScope : List WorkSummary :=
  ((s.documents scope).toList.map fun (docId, entry) => summary docId entry).mergeSort fun a b =>
    max a.created a.edited > max b.created b.edited ∨
      max a.created a.edited = max b.created b.edited ∧ a.id ≥ b.id

def viewDocument : Option WorkDocument :=
  ((s.documents scope)[docId]?).map fun entry =>
    ⟨docId, scope, { entry.root with title := some (entry.root.title.getD untitled) },
      entry.comments.toList⟩

/-! ## Changing -/

def put (entry : WorkEntry) : WorkStore :=
  { s with documents := Function.update s.documents scope ((s.documents scope).insert docId entry) }

def remove : WorkStore :=
  { s with documents := Function.update s.documents scope ((s.documents scope).erase docId) }

theorem documents_put (other : WorkScope) (docId id : ℕ) (entry : WorkEntry) :
    ((s.put scope docId entry).documents other)[id]? =
      if other = scope ∧ id = docId then some entry else (s.documents other)[id]? := by
  by_cases hscope : other = scope
  · subst hscope
    simp only [put, Function.update_self, Std.ExtTreeMap.getElem?_insert, Std.compare_eq_iff_eq, true_and,
      eq_comm (a := docId)]
  · simp only [put, Function.update_of_ne hscope, hscope, false_and, if_false]

theorem documents_remove (other : WorkScope) (docId id : ℕ) :
    ((s.remove scope docId).documents other)[id]? =
      if other = scope ∧ id = docId then none else (s.documents other)[id]? := by
  by_cases hscope : other = scope
  · subst hscope
    simp only [remove, Function.update_self, Std.ExtTreeMap.getElem?_erase, Std.compare_eq_iff_eq, true_and,
      eq_comm (a := docId)]
  · simp only [remove, Function.update_of_ne hscope, hscope, false_and, if_false]

/-- The document that `create_document_in_scope` writes. -/
def newDocument : Except Fault StoredDocument := do
  let title ← nonEmptyTrimmed input.title "title is required"
  let content ← nonEmptyTrimmed input.content "content is required"
  let format := normalizeFormat input.format
  validateSignature input.signature
  validateLimit (title.utf8Len + content.utf8Len + format.utf8Len)
  return {
    content
    title := some title
    format
    created := now
    edited := now
    author := input.author
    signature := input.signature
    identity := input.identity }

def createDocumentInScope : Except Fault WorkCreated × WorkStore :=
  match newDocument input now with
  | .error e => (.error e, s)
  | .ok document => (.ok ⟨s.nextDocumentId, scope⟩, s.put scope s.nextDocumentId ⟨document, ∅⟩)

def createDocument : Except Fault WorkCreated × WorkStore :=
  s.createDocumentInScope .active input now

def setDocumentPermissions (content : Text) : Except Fault Unit × WorkStore :=
  match s.findDocumentScope docId with
  | none => (.error (.msg "document not found"), s)
  | some _ => match validateAllowedInput content with
    | .error e => (.error e, s)
    | .ok () => (.ok (), { s with permissions := s.permissions.insert docId content })

def proposalPermissions : Text :=
  "interact = ".toList ++ hex author.toList ++ "\nwrite = ".toList ++ hex author.toList ++ "\n".toList

theorem parseAllowedFile_proposalPermissions :
    parseAllowedFile (proposalPermissions author) (fun _ => none) =
      .ok [(.write, .identities [author]), (.interact, .identities [author])] := by
  have hinteractKey : operationsOfKey (Text.toAsciiLowercase (Text.trim "interact ".toList)) =
      some [.interact] := by decide
  have hinteract : parseLine (grantLine "interact ".toList author) = .ok [(.interact, hex author.toList)] :=
    parseLine_grantLine author hinteractKey ⟨'i', by decide, by decide⟩ (by decide)
  have hwriteKey : operationsOfKey (Text.toAsciiLowercase (Text.trim "write ".toList)) = some [.write] := by
    decide
  have hwrite : parseLine (grantLine "write ".toList author) = .ok [(.write, hex author.toList)] :=
    parseLine_grantLine author hwriteKey ⟨'w', by decide, by decide⟩ (by decide)
  have htext : proposalPermissions author =
      [grantLine "interact ".toList author, grantLine "write ".toList author].flatMap (· ++ ['\n']) := by
    have hfirst : "interact = ".toList = "interact ".toList ++ ['=', ' '] := by decide
    have hsecond : "\nwrite = ".toList = '\n' :: ("write ".toList ++ ['=', ' ']) := by decide
    have hend : "\n".toList = ['\n'] := by decide
    unfold proposalPermissions grantLine
    generalize "interact = ".toList = a at *
    generalize "\nwrite = ".toList = b at *
    generalize "\n".toList = c at *
    subst hfirst hsecond hend
    generalize "interact ".toList = first
    generalize "write ".toList = second
    simp
  have hlines : (proposalPermissions author).lines =
      [grantLine "interact ".toList author, grantLine "write ".toList author] := by
    rw [htext]
    refine Text.lines_ended fun l hl => ?_
    rcases List.mem_pair.1 hl with rfl | rfl <;>
      exact ⟨grantLine_plain author (.inl rfl) (by decide), grantLine_plain author (.inr rfl) (by decide)⟩
  have hentries : [grantLine "interact ".toList author, grantLine "write ".toList author].mapM parseLine =
      .ok [[(.interact, hex author.toList)], [(.write, hex author.toList)]] := by
    simp only [List.mapM_cons, List.mapM_nil, hinteract, hwrite]
    rfl
  have hnamed : Operation.all.filter (fun op => decide (targetsOf
      [(.interact, hex author.toList), (.write, hex author.toList)] op ≠ [])) = [.write, .interact] := by
    simp [Operation.all, targetsOf]
  rw [parseAllowedFile, hlines, hentries]
  simp only [bind, Except.bind, List.flatten_cons, List.flatten_nil, List.append_nil, List.singleton_append]
  rw [hnamed]
  simp [targetsOf, parse_identity]
  rfl

def proposeDocument : Except Fault WorkCreated × WorkStore :=
  match s.createDocumentInScope .proposed input now with
  | (.error e, s) => (.error e, s)
  | (.ok created, s) =>
    match s.setDocumentPermissions created.id (proposalPermissions input.author) with
    | (.error e, s) => (.error e, s)
    | (.ok (), s) => (.ok created, s)

def edited (document : StoredDocument) (edit : WorkEdit) (now : ℕ) : StoredDocument :=
  let document := { document with
    title := match edit.title with
      | some title => some title.trim
      | none => document.title
    content := match edit.content with
      | some content => content.trim
      | none => document.content
    edited := now }
  if edit.content.isSome ∨ edit.signature.isSome ∨ edit.identity.isSome then
    { document with signature := edit.signature, identity := edit.identity }
  else document

def ownDocument : Except Fault WorkEntry := do
  let entry ← s.readExistingDocument scope docId
  ensureAuthor entry.root author
  return entry

/-- The checks of `edit_document`. -/
def editableDocument (edit : WorkEdit) : Except Fault WorkEntry := do
  if edit.title.isNone ∧ edit.content.isNone then throw (.msg "no changes specified")
  validateSignature edit.signature
  validateLimit ((edit.title.map Text.utf8Len).getD 0 + (edit.content.map Text.utf8Len).getD 0)
  s.ownDocument scope docId author

def editDocument (edit : WorkEdit) (now : ℕ) : Except Fault Unit × WorkStore :=
  match s.editableDocument scope docId author edit with
  | .error e => (.error e, s)
  | .ok entry => (.ok (), s.put scope docId { entry with root := edited entry.root edit now })

/-- `delete_document`: the folder goes. -/
def deleteDocument : Except Fault Unit × WorkStore :=
  match s.ownDocument scope docId author with
  | .error e => (.error e, s)
  | .ok _ => (.ok (), s.remove scope docId)

/-- `move_document`: a folder that is there is not replaced. -/
def moveDocument (source target : WorkScope) (docId : ℕ) (author : Id) : Except Fault Unit × WorkStore :=
  match s.ownDocument source docId author with
  | .error e => (.error e, s)
  | .ok entry =>
    if (s.documents target).contains docId then (.error (.error .io), s)
    else (.ok (), (s.remove source docId).put target docId entry)

def completeDocument : Except Fault Unit × WorkStore :=
  s.moveDocument .active .completed docId author

def activateDocument : Except Fault Unit × WorkStore :=
  s.moveDocument .completed .active docId author

def acceptProposal : Except Fault Unit × WorkStore :=
  s.moveDocument .proposed .active docId author

/-- The comment that `add_comment` writes. -/
def newComment (input : WorkCommentInput) (now : ℕ) : Except Fault StoredDocument := do
  let content ← nonEmptyTrimmed input.content "content is required"
  validateSignature input.signature
  validateLimit content.utf8Len
  return {
    content
    title := none
    format := normalizeFormat input.format
    created := now
    edited := now
    author := input.author
    signature := input.signature
    identity := none }

def addComment (input : WorkCommentInput) (now : ℕ) : Except Fault ℕ × WorkStore :=
  match newComment input now, s.readExistingDocument scope docId with
  | .error e, _ => (.error e, s)
  | .ok _, .error e => (.error e, s)
  | .ok comment, .ok entry =>
    let commentId := nextNumericChild entry.comments
    (.ok commentId, s.put scope docId { entry with comments := entry.comments.insert commentId comment })

/-! ## What a change leaves -/

variable {s} {scope target : WorkScope} {docId : ℕ} {author : Id} {entry : WorkEntry}

theorem readExistingDocument_eq_ok :
    s.readExistingDocument scope docId = .ok entry ↔ (s.documents scope)[docId]? = some entry := by
  unfold readExistingDocument
  cases (s.documents scope)[docId]? <;> simp

theorem ownDocument_eq_ok : s.ownDocument scope docId author = .ok entry ↔
    (s.documents scope)[docId]? = some entry ∧ entry.root.author = author := by
  rw [← readExistingDocument_eq_ok]
  unfold ownDocument ensureAuthor
  cases s.readExistingDocument scope docId with
  | error e => simp [bind, Except.bind]
  | ok found =>
    by_cases hauthor : found.root.author = author
    · simp only [bind, Except.bind, if_pos hauthor, pure, Except.pure, Except.ok.injEq]
      constructor
      · rintro rfl
        exact ⟨rfl, hauthor⟩
      · exact And.left
    · simp only [bind, Except.bind, if_neg hauthor, reduceCtorEq, Except.ok.injEq, false_iff]
      rintro ⟨rfl, h⟩
      exact hauthor h

theorem own_of_editable {edit : WorkEdit} (h : s.editableDocument scope docId author edit = .ok entry) :
    s.ownDocument scope docId author = .ok entry := by
  unfold editableDocument at h
  split_ifs at h
  · cases h
  · cases hsig : validateSignature edit.signature with
    | error e => simp [hsig, bind, Except.bind] at h
    | ok u =>
      cases hlimit : validateLimit
          ((edit.title.map Text.utf8Len).getD 0 + (edit.content.map Text.utf8Len).getD 0) with
      | error e => simp [hsig, hlimit, bind, Except.bind] at h
      | ok u => simpa [hsig, hlimit, bind, Except.bind] using h

end WorkStore

/-! ## Calls -/

inductive WorkCall where
  | create (input : WorkInput) (now : ℕ)
  | propose (input : WorkInput) (now : ℕ)
  | edit (scope : WorkScope) (docId : ℕ) (author : Id) (edit : WorkEdit) (now : ℕ)
  | comment (scope : WorkScope) (docId : ℕ) (input : WorkCommentInput) (now : ℕ)
  | complete (docId : ℕ) (author : Id)
  | activate (docId : ℕ) (author : Id)
  | accept (docId : ℕ) (author : Id)
  | delete (scope : WorkScope) (docId : ℕ) (author : Id)
  | setPermissions (docId : ℕ) (content : Text)

namespace WorkCall

/-- The store after a call, whatever the call answers. -/
def apply (s : WorkStore) : WorkCall → WorkStore
  | create input now => (s.createDocument input now).2
  | propose input now => (s.proposeDocument input now).2
  | edit scope docId author changes now => (s.editDocument scope docId author changes now).2
  | comment scope docId input now => (s.addComment scope docId input now).2
  | complete docId author => (s.completeDocument docId author).2
  | activate docId author => (s.activateDocument docId author).2
  | accept docId author => (s.acceptProposal docId author).2
  | delete scope docId author => (s.deleteDocument scope docId author).2
  | setPermissions docId content => (s.setDocumentPermissions docId content).2

end WorkCall

/-- Where a document that a call leaves comes from. -/
inductive WorkOrigin (s : WorkStore) (call : WorkCall) (docId : ℕ) (root : StoredDocument) : Prop where
  | kept (scope : WorkScope) (entry : WorkEntry) (there : (s.documents scope)[docId]? = some entry)
      (same : root = entry.root)
  | made (input : WorkInput) (now : ℕ) (asked : call = .create input now ∨ call = .propose input now)
      (new : WorkStore.newDocument input now = .ok root) (fresh : docId = s.nextDocumentId)
  | edited (scope : WorkScope) (author : Id) (edit : WorkEdit) (now : ℕ) (entry : WorkEntry)
      (asked : call = .edit scope docId author edit now) (there : (s.documents scope)[docId]? = some entry)
      (own : entry.root.author = author) (root_eq : root = WorkStore.edited entry.root edit now)

namespace WorkOrigin

variable {s s' : WorkStore} {call : WorkCall} {scope other target : WorkScope} {docId id : ℕ}
  {entry new : WorkEntry} {author : Id}

theorem of_same (h : (s.documents other)[id]? = some new) : WorkOrigin s call id new.root :=
  .kept other new h rfl

theorem of_put (hnew : ∀ root, root = new.root → WorkOrigin s call docId root)
    (h : ((s.put scope docId new).documents other)[id]? = some entry) : WorkOrigin s call id entry.root := by
  rw [WorkStore.documents_put] at h
  split_ifs at h with hid
  · obtain ⟨-, rfl⟩ := hid
    obtain rfl := Option.some.inj h
    exact hnew _ rfl
  · exact of_same h

theorem of_remove (h : ((s.remove scope docId).documents other)[id]? = some entry) :
    WorkOrigin s call id entry.root := by
  rw [WorkStore.documents_remove] at h
  split_ifs at h
  exact of_same h

theorem of_moveDocument
    (h : (((s.moveDocument scope target docId author).2).documents other)[id]? = some entry) :
    WorkOrigin s call id entry.root := by
  unfold WorkStore.moveDocument at h
  split at h
  · exact of_same h
  · rename_i found hown
    split_ifs at h
    · exact of_same h
    · rw [WorkStore.documents_put] at h
      split_ifs at h with hid
      · obtain ⟨-, rfl⟩ := hid
        obtain rfl := Option.some.inj h
        exact of_same (WorkStore.ownDocument_eq_ok.1 hown).1
      · exact of_remove h

theorem of_createDocumentInScope {input : WorkInput} {now : ℕ}
    (hcall : call = .create input now ∨ call = .propose input now)
    (h : (((s.createDocumentInScope scope input now).2).documents other)[id]? = some entry) :
    WorkOrigin s call id entry.root := by
  unfold WorkStore.createDocumentInScope at h
  split at h
  · exact of_same h
  · rename_i document hnew
    refine of_put (fun root hroot => ?_) h
    exact .made input now hcall (hroot ▸ hnew) rfl

end WorkOrigin

theorem WorkStore.documents_setDocumentPermissions (s : WorkStore) (docId : ℕ) (content : Text) :
    (s.setDocumentPermissions docId content).2.documents = s.documents := by
  unfold WorkStore.setDocumentPermissions
  split
  · rfl
  · split <;> rfl

theorem WorkStore.documents_proposeDocument (s : WorkStore) (input : WorkInput) (now : ℕ) :
    (s.proposeDocument input now).2.documents = (s.createDocumentInScope .proposed input now).2.documents := by
  unfold WorkStore.proposeDocument
  split
  · rename_i hcreate
    rw [hcreate]
  · rename_i created after hcreate
    have hset := after.documents_setDocumentPermissions created.id (proposalPermissions input.author)
    rw [hcreate]
    split <;> simp_all

theorem WorkCall.origin {s : WorkStore} {call : WorkCall} {scope : WorkScope} {docId : ℕ} {entry : WorkEntry}
    (h : ((call.apply s).documents scope)[docId]? = some entry) : WorkOrigin s call docId entry.root := by
  cases call with
  | create input now => exact .of_createDocumentInScope (.inl rfl) h
  | propose input now =>
    rw [apply, WorkStore.documents_proposeDocument] at h
    exact .of_createDocumentInScope (.inr rfl) h
  | edit target id author edit now =>
    simp only [apply, WorkStore.editDocument] at h
    split at h
    · exact .of_same h
    · rename_i found hedit
      have hown := WorkStore.ownDocument_eq_ok.1 (WorkStore.own_of_editable hedit)
      exact .of_put (fun root hroot => .edited target author edit now found rfl hown.1 hown.2 hroot) h
  | comment target id input now =>
    simp only [apply, WorkStore.addComment] at h
    split at h
    · exact .of_same h
    · exact .of_same h
    · rename_i comment found hcomment hread
      refine .of_put (fun root hroot => ?_) h
      exact .kept target found (WorkStore.readExistingDocument_eq_ok.1 hread) hroot
  | complete | activate | accept => exact .of_moveDocument h
  | delete target id author =>
    simp only [apply, WorkStore.deleteDocument] at h
    split at h
    · exact .of_same h
    · exact .of_remove h
  | setPermissions id content =>
    rw [apply, WorkStore.documents_setDocumentPermissions] at h
    exact .of_same h

end Rns.Git

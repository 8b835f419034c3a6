import Rns.Git.WorkRequests

/-!
# Signatures of work documents

A signature that is stored with a document is one of its author over its content, as long as no edit
replaces the signature and keeps the content.
-/

namespace Rns.Git

variable (verify : PublicKey → Bytes → Text → Bool) (keyOf : Id → PublicKey)

def SignedBy (author : Id) (content : Text) (signature identity : Option Bytes) : Prop :=
  ∀ sig, signature = some sig →
    identity = some (keyOf author).toList ∧ verify (keyOf author) sig content = true

def WorkStore.Signed (s : WorkStore) : Prop :=
  ∀ (scope : WorkScope) (docId : ℕ) (entry : WorkEntry), (s.documents scope)[docId]? = some entry →
    SignedBy verify keyOf entry.root.author entry.root.content entry.root.signature entry.root.identity

/-- A call that the handler has checked: an edit without content has no signature either. -/
def WorkCall.Checked : WorkCall → Prop
  | create input _ | propose input _ =>
    SignedBy verify keyOf input.author input.content.trim input.signature input.identity
  | edit _ _ author changes _ =>
    match changes.content with
    | some content => SignedBy verify keyOf author content.trim changes.signature changes.identity
    | none => changes.signature = none ∧ changes.identity = none
  | _ => True

def WorkAsk.SignsContent (ask : WorkAsk) : Prop :=
  ask.request.operation = .edit → ask.request.content = none → ask.request.signature = none

variable {verify keyOf} {s : WorkStore}

/-! ## One call -/

theorem WorkStore.newDocument_fields {input : WorkInput} {now : ℕ} {document : StoredDocument}
    (h : newDocument input now = .ok document) :
    document.author = input.author ∧ document.content = input.content.trim ∧
      document.signature = input.signature ∧ document.identity = input.identity := by
  unfold newDocument nonEmptyTrimmed validateSignature validateLimit at h
  simp only [bind, Except.bind, pure, Except.pure] at h
  split_ifs at h
  simp only at h
  split_ifs at h
  obtain rfl := Except.ok.inj h
  exact ⟨rfl, rfl, rfl, rfl⟩

theorem WorkStore.edited_signed {document : StoredDocument} {changes : WorkEdit} {now : ℕ}
    (h : SignedBy verify keyOf document.author document.content document.signature document.identity)
    (hchecked : match changes.content with
      | some content => SignedBy verify keyOf document.author content.trim changes.signature changes.identity
      | none => changes.signature = none ∧ changes.identity = none) :
    SignedBy verify keyOf (edited document changes now).author (edited document changes now).content
      (edited document changes now).signature (edited document changes now).identity := by
  cases hcontent : changes.content with
  | none =>
    rw [hcontent] at hchecked
    simpa [edited, hcontent, hchecked.1, hchecked.2] using h
  | some content =>
    rw [hcontent] at hchecked
    simpa [edited, hcontent] using hchecked

theorem WorkCall.signed_apply {call : WorkCall} (h : s.Signed verify keyOf)
    (hchecked : call.Checked verify keyOf) : (call.apply s).Signed verify keyOf := by
  intro scope docId entry hget
  cases origin hget with
  | kept scope found there same =>
    rw [same]
    exact h scope docId found there
  | made input now asked new fresh =>
    obtain ⟨hauthor, hcontent, hsignature, hidentity⟩ := WorkStore.newDocument_fields new
    rw [hauthor, hcontent, hsignature, hidentity]
    rcases asked with rfl | rfl <;> exact hchecked
  | edited scope author changes now found asked there own root_eq =>
    subst asked own
    rw [root_eq]
    exact WorkStore.edited_signed (h scope docId found there) hchecked

/-! ## One request -/

theorem validateWorkSignature_signed {content : Text} {signature identity : Option Bytes} {remote : Id}
    (h : validateWorkSignature verify keyOf content signature remote = .ok identity) :
    SignedBy verify keyOf remote content.trim signature identity := by
  rintro sig rfl
  unfold validateWorkSignature at h
  simp only at h
  split_ifs at h with hlength hverify
  obtain rfl := Except.ok.inj h
  exact ⟨rfl, by simpa using hverify⟩

variable (verify keyOf) in
def Answers (s : WorkStore) (result : Except Fault WorkAnswer × WorkStore) : Prop :=
  result.2 = s ∨ ∃ call : WorkCall, call.Checked verify keyOf ∧ result.2 = call.apply s

variable {ask : WorkAsk}

theorem answers_same (answer : Except Fault WorkAnswer) : Answers verify keyOf s (answer, s) := .inl rfl

theorem answers_call {result : Except Fault WorkAnswer × WorkStore} (call : WorkCall)
    (hchecked : call.Checked verify keyOf) (h : result.2 = call.apply s) : Answers verify keyOf s result :=
  .inr ⟨call, hchecked, h⟩

theorem answers_withDocument {next : ℕ → Except Fault WorkAnswer × WorkStore}
    (h : ∀ docId, Answers verify keyOf s (next docId)) :
    Answers verify keyOf s (ask.withDocument s next) := by
  unfold WorkAsk.withDocument
  split
  · exact answers_same _
  · exact h _

theorem answers_withScope {next : WorkScope → Except Fault WorkAnswer × WorkStore}
    (h : ∀ scope, Answers verify keyOf s (next scope)) : Answers verify keyOf s (ask.withScope s next) := by
  unfold WorkAsk.withScope
  split
  · exact answers_same _
  · exact h _

theorem answers_workList : Answers verify keyOf s (workList s ask) := by
  unfold workList
  split_ifs
  · exact answers_same _
  · exact answers_withScope fun scope => answers_same _

theorem answers_workView : Answers verify keyOf s (workView s ask) := by
  refine answers_withDocument fun docId => ?_
  split
  · exact answers_same _
  · exact answers_same _
  · split <;> exact answers_same _

theorem answers_workCreate : Answers verify keyOf s (workCreate verify keyOf s ask) := by
  unfold workCreate
  split
  · exact answers_same _
  · rename_i identity hvalid
    exact answers_call (.create (ask.input identity) ask.now) (validateWorkSignature_signed hvalid) rfl

theorem answers_workPropose : Answers verify keyOf s (workPropose verify keyOf s ask) := by
  unfold workPropose
  split
  · exact answers_same _
  · exact answers_same _
  · rename_i identity hvalid
    exact answers_call (.propose (ask.input (some identity)) ask.now) (validateWorkSignature_signed hvalid) rfl

theorem answers_workEdit (hask : ask.request.content = none → ask.request.signature = none) :
    Answers verify keyOf s (workEdit verify keyOf s ask) := by
  refine answers_withDocument fun docId => ?_
  split
  · exact answers_same _
  · rename_i identity hidentity
    split
    · exact answers_same _
    · exact answers_same _
    · rename_i scope hscope
      refine answers_call (.edit scope docId ask.remote
        ⟨ask.request.title, ask.request.content, ask.request.signature, identity⟩ ask.now) ?_ rfl
      unfold editIdentity at hidentity
      cases hcontent : ask.request.content with
      | none =>
        rw [hcontent] at hidentity
        exact ⟨hask hcontent, (Except.ok.inj hidentity).symm⟩
      | some content =>
        rw [hcontent] at hidentity
        exact validateWorkSignature_signed hidentity

theorem answers_workPerms (rights : WorkRights) : Answers verify keyOf s (workPerms s ask rights) := by
  refine answers_withDocument fun docId => ?_
  split
  · exact answers_same _
  · exact answers_same _
  · split_ifs
    · exact answers_same _
    · exact answers_call (.setPermissions docId (ask.request.content.getD [])) trivial rfl
    · exact answers_same _
    · exact answers_same _

theorem answers_handleWork (hask : ask.SignsContent) :
    Answers verify keyOf s (handleWork verify keyOf s ask) := by
  unfold handleWork
  split
  · exact answers_same _
  · exact answers_same _
  · split_ifs
    · exact answers_same _
    · split
      · exact answers_same _
      · rename_i rights hrights
        split_ifs
        · exact answers_same _
        · unfold workDispatch
          cases hop : ask.request.operation with
          | list => exact answers_workList
          | view => exact answers_workView
          | create => exact answers_workCreate
          | propose => exact answers_workPropose
          | edit => exact answers_workEdit (hask hop)
          | delete =>
            exact answers_withDocument fun docId => answers_withScope fun scope =>
              answers_call (.delete scope docId ask.remote) trivial rfl
          | comment =>
            exact answers_withDocument fun docId => answers_withScope fun scope =>
              answers_call (.comment scope docId _ ask.now) trivial rfl
          | complete =>
            exact answers_withDocument fun docId => answers_call (.complete docId ask.remote) trivial rfl
          | activate =>
            exact answers_withDocument fun docId => answers_call (.activate docId ask.remote) trivial rfl
          | perms => exact answers_workPerms rights
          | unknown => exact answers_same _

theorem signed_handleWork (h : s.Signed verify keyOf) (hask : ask.SignsContent) :
    (handleWork verify keyOf s ask).2.Signed verify keyOf := by
  have hanswers : Answers verify keyOf s (handleWork verify keyOf s ask) := answers_handleWork hask
  rcases hanswers with heq | ⟨call, hchecked, heq⟩
  · rwa [heq]
  · rw [heq]
    exact call.signed_apply h hchecked

/-! ## Runs -/

variable (verify keyOf)

def workServer : Machine WorkStore WorkAsk (Except Fault WorkAnswer) where
  step s ask := ((handleWork verify keyOf s ask).2, [(handleWork verify keyOf s ask).1])

/-- Whatever the requests, as long as no edit brings a signature without the content it signs, each stored
signature comes with the key of the author and verifies over the stored content. -/
theorem stored_signatures_valid (asks : List WorkAsk) (h : ∀ ask ∈ asks, ask.SignsContent) :
    ((workServer verify keyOf).run .empty asks).1.Signed verify keyOf := by
  have hempty : WorkStore.empty.Signed verify keyOf := fun scope docId entry hget => by
    simp [WorkStore.empty] at hget
  have hmeets : (workServer verify keyOf).Meets (fun _ _ ask => ask.SignsContent) [] .empty asks :=
    .of_forall h
  have hstep : ∀ (past : List WorkAsk) (s : WorkStore) (ask : WorkAsk), s.Signed verify keyOf →
      ask.SignsContent → ((workServer verify keyOf).step s ask).1.Signed verify keyOf :=
    fun _ s ask hs hask => signed_handleWork hs hask
  exact Machine.run_keeps _ hstep hempty hmeets

def sampleAsk (request : WorkRequest) : WorkAsk :=
  ⟨request, Vector.replicate 16 1, 0, true, fun _ => .ok true⟩

def sampleVerify (_ : PublicKey) (signature : Bytes) (_ : Text) : Bool := signature = List.replicate 64 1

def sampleCreate : WorkRequest :=
  ⟨.create, none, none, none, some "a".toList, some "b".toList, none, some (List.replicate 64 1)⟩

def sampleRetitle (signature : Option Bytes) : WorkRequest :=
  ⟨.edit, none, none, some 1, some "c".toList, none, none, signature⟩

/-- A signed note stays signed when its title changes. -/
theorem stored_signatures_valid_retitled :
    let asks := [sampleAsk sampleCreate, sampleAsk (sampleRetitle none)]
    let after := ((workServer sampleVerify fun _ => Vector.replicate 64 7).run .empty asks).1
    after.Signed sampleVerify (fun _ => Vector.replicate 64 7) ∧
      ((after.documents .active)[1]?).map (fun entry => (entry.root.title, entry.root.signature)) =
        some (some "c".toList, some (List.replicate 64 1)) :=
  ⟨stored_signatures_valid _ _ _ (by
      intro ask hask
      rcases List.mem_pair.1 hask with rfl | rfl
      · exact fun hop => by cases hop
      · exact fun _ _ => rfl),
    by decide +kernel⟩

/-- An edit of the title stores a signature that nobody has checked, without a key. -/
theorem retitle_stores_unchecked_signature :
    let asks := [sampleAsk sampleCreate, sampleAsk (sampleRetitle (some (List.replicate 64 0)))]
    let after := ((workServer sampleVerify fun _ => Vector.replicate 64 7).run .empty asks).1
    ¬after.Signed sampleVerify fun _ => Vector.replicate 64 7 := by
  intro asks after hsigned
  have hstored : ((after.documents .active)[1]?).map (fun entry => (entry.root.signature, entry.root.identity)) =
      some (some (List.replicate 64 0), none) := by decide +kernel
  obtain ⟨entry, hentry, hfields⟩ := Option.map_eq_some_iff.1 hstored
  obtain ⟨hsignature, hidentity⟩ := Prod.mk.inj hfields
  have hkey := (hsigned .active 1 entry hentry _ hsignature).1
  rw [hidentity] at hkey
  cases hkey

end Rns.Git

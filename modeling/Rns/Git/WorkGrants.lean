import Rns.Lib.Machine
import Rns.Git.Work

/-!
# How long a grant lives

Permissions are kept under the number of a document and outlive it, and numbers are given again.  The calls
on a store are recorded with the moment each document was created and each grant was written.
-/

namespace Rns.Git

open WorkStore WorkCall
open Except (toOption)

namespace WorkCall

def creates (s : WorkStore) : WorkCall → Option ℕ
  | create input now | propose input now =>
    (newDocument input now).toOption.map fun _ => s.nextDocumentId
  | _ => none

def grants (s : WorkStore) : WorkCall → Option ℕ
  | propose input now => (s.proposeDocument input now).1.toOption.map (·.id)
  | setPermissions docId content => (s.setDocumentPermissions docId content).1.toOption.map fun _ => docId
  | _ => none

def Clean (s : WorkStore) : WorkCall → Prop
  | create input now => (newDocument input now).toOption.isSome →
    (s.permissions[s.nextDocumentId]?).getD [] = []
  | _ => True

end WorkCall

/-! ## What a call can do -/

namespace WorkStore

variable {s : WorkStore} {input : WorkInput} {scope : WorkScope} {docId id : ℕ}

def Holds (s : WorkStore) (docId : ℕ) : Prop := ∃ scope entry, (s.documents scope)[docId]? = some entry

theorem findDocumentScope_of_holds (h : s.Holds docId) : (s.findDocumentScope docId).isSome := by
  obtain ⟨scope, entry, hget⟩ := h
  have hmem : (s.documents scope).contains docId = true := by
    rw [Std.ExtTreeMap.contains_eq_isSome_getElem?, hget, Option.isSome_some]
  rw [findDocumentScope, List.find?_isSome]
  exact ⟨scope, by cases scope <;> simp, hmem⟩

theorem permissions_setDocumentPermissions (content : Text)
    (h : (s.setDocumentPermissions docId content).1.toOption.map (fun _ => docId) ≠ some id) :
    (s.setDocumentPermissions docId content).2.permissions[id]? = s.permissions[id]? := by
  revert h
  unfold setDocumentPermissions
  split
  · exact fun _ => rfl
  · split
    · exact fun _ => rfl
    · intro h
      have hne : docId ≠ id := by simpa [toOption] using h
      simp [Std.ExtTreeMap.getElem?_insert, hne]

theorem proposeDocument_of_new {now : ℕ} {document : StoredDocument}
    (h : newDocument input now = .ok document) :
    s.proposeDocument input now = (.ok ⟨s.nextDocumentId, .proposed⟩,
      { s.put .proposed s.nextDocumentId ⟨document, ∅⟩ with
        permissions := s.permissions.insert s.nextDocumentId (proposalPermissions input.author) }) := by
  have hthere : (s.put .proposed s.nextDocumentId ⟨document, ∅⟩).Holds s.nextDocumentId :=
    ⟨.proposed, ⟨document, ∅⟩, by rw [documents_put, if_pos ⟨rfl, rfl⟩]⟩
  obtain ⟨scope, hscope⟩ := Option.isSome_iff_exists.1 (findDocumentScope_of_holds hthere)
  have hvalid : validateAllowedInput (proposalPermissions input.author) = .ok () := by
    rw [validateAllowedInput, parseAllowedFile_proposalPermissions]
    rfl
  simp only [proposeDocument, createDocumentInScope, h, setDocumentPermissions, hscope, hvalid]
  rfl

theorem proposeDocument_of_invalid {now : ℕ} {e : Fault} (h : newDocument input now = .error e) :
    s.proposeDocument input now = (.error e, s) := by
  simp only [proposeDocument, createDocumentInScope, h]

end WorkStore

namespace WorkCall

variable {s : WorkStore} {call : WorkCall} {docId : ℕ}

theorem holds_before (h : (call.apply s).Holds docId) : s.Holds docId ∨ call.creates s = some docId := by
  obtain ⟨scope, entry, hget⟩ := h
  cases origin hget with
  | kept scope entry there same => exact .inl ⟨scope, entry, there⟩
  | made input now asked new fresh =>
    rcases asked with rfl | rfl <;> exact .inr (by simp [creates, new, fresh, toOption])
  | edited scope author edit now entry asked there own root_eq => exact .inl ⟨scope, entry, there⟩

theorem creates_eq_some (h : call.creates s = some docId) : ∃ input now document,
    (call = .create input now ∨ call = .propose input now) ∧
      WorkStore.newDocument input now = .ok document ∧ s.nextDocumentId = docId := by
  cases call with
  | create input now | propose input now =>
    cases hnew : newDocument input now with
    | error e => simp [creates, hnew, toOption] at h
    | ok document => exact ⟨input, now, document, by simp, hnew, by simpa [creates, hnew, toOption] using h⟩
  | _ => cases h

theorem holds_of_creates (h : call.creates s = some docId) : (call.apply s).Holds docId := by
  have hput : ∀ scope entry, (s.put scope s.nextDocumentId entry).Holds s.nextDocumentId := fun scope entry =>
    ⟨scope, entry, by rw [documents_put, if_pos ⟨rfl, rfl⟩]⟩
  obtain ⟨input, now, document, rfl | rfl, hnew, rfl⟩ := creates_eq_some h
  · simp only [apply, createDocument, createDocumentInScope, hnew]
    exact hput _ _
  · rw [apply, proposeDocument_of_new hnew]
    exact hput _ _

theorem permissions_apply (h : call.grants s ≠ some docId) :
    (call.apply s).permissions[docId]? = s.permissions[docId]? := by
  have hmove : ∀ source target id author,
      (s.moveDocument source target id author).2.permissions = s.permissions := by
    intro source target id author
    unfold moveDocument
    split
    · rfl
    · split_ifs <;> rfl
  cases call with
  | create input now =>
    simp only [apply, createDocument, createDocumentInScope]
    split <;> rfl
  | propose input now =>
    cases hnew : newDocument input now with
    | error e => rw [apply, proposeDocument_of_invalid hnew]
    | ok document =>
      simp only [grants, proposeDocument_of_new hnew] at h
      have hne : s.nextDocumentId ≠ docId := by simpa [toOption] using h
      simp [apply, proposeDocument_of_new hnew, Std.ExtTreeMap.getElem?_insert, hne]
  | edit scope id author edit now =>
    simp only [apply, editDocument]
    split <;> rfl
  | comment scope id input now =>
    simp only [apply, addComment]
    split <;> rfl
  | complete id author => rw [apply, completeDocument, hmove]
  | activate id author => rw [apply, activateDocument, hmove]
  | accept id author => rw [apply, acceptProposal, hmove]
  | delete scope id author =>
    simp only [apply, deleteDocument]
    split <;> rfl
  | setPermissions id content => exact permissions_setDocumentPermissions content h

theorem grants_of_creates (h : call.creates s = some docId) :
    call.grants s = some docId ∧ call.Clean s ∨
      call.grants s = none ∧ (call.Clean s ↔ (s.permissions[docId]?).getD [] = []) := by
  obtain ⟨input, now, document, rfl | rfl, hnew, rfl⟩ := creates_eq_some h
  · exact .inr ⟨rfl, by simp [Clean, hnew, toOption]⟩
  · exact .inl ⟨by simp [grants, proposeDocument_of_new hnew, toOption], trivial⟩

theorem clean_of_not_creates (h : call.creates s = none) : call.Clean s := by
  cases call with
  | create input now =>
    intro hnew
    obtain ⟨document, hdocument⟩ := Option.isSome_iff_exists.1 hnew
    simp [creates, hdocument] at h
  | _ => trivial

end WorkCall

/-! ## Runs -/

/-- A store with the moments at which documents were created and grants were written, by number. -/
structure GrantLog where
  store : WorkStore
  clock : ℕ
  created : ℕ → ℕ
  written : ℕ → ℕ

namespace GrantLog

def note (moments : ℕ → ℕ) (clock : ℕ) : Option ℕ → ℕ → ℕ
  | some id => Function.update moments id clock
  | none => moments

def step (s : GrantLog) (call : WorkCall) : GrantLog where
  store := call.apply s.store
  clock := s.clock + 1
  created := note s.created s.clock (call.creates s.store)
  written := note s.written s.clock (call.grants s.store)

def machine : Machine GrantLog WorkCall Empty where
  step s call := (s.step call, [])

def start : GrantLog := ⟨.empty, 1, fun _ => 0, fun _ => 0⟩

def Fresh (s : GrantLog) : Prop :=
  ∀ docId, s.store.Holds docId →
    (s.store.permissions[docId]?).getD [] = [] ∨ s.created docId ≤ s.written docId

def Noted (s : GrantLog) : Prop := ∀ docId, s.created docId < s.clock ∧ s.written docId < s.clock

variable {s : GrantLog} {moments : ℕ → ℕ}

theorem note_lt {clock : ℕ} (h : ∀ id, moments id < clock) (event : Option ℕ) (docId : ℕ) :
    note moments clock event docId < clock + 1 := by
  cases event with
  | none => exact Nat.lt_succ_of_lt (h docId)
  | some id =>
    by_cases hid : docId = id
    · simp [note, hid]
    · simpa [note, Function.update_of_ne hid] using Nat.lt_succ_of_lt (h docId)

theorem note_self (moments : ℕ → ℕ) (clock docId : ℕ) : note moments clock (some docId) docId = clock :=
  Function.update_self ..

theorem note_of_ne {clock docId : ℕ} {event : Option ℕ} (h : event ≠ some docId) :
    note moments clock event docId = moments docId := by
  cases event with
  | none => rfl
  | some id => exact Function.update_of_ne (fun hid => h (congrArg some hid.symm)) ..

theorem noted_step (h : s.Noted) (call : WorkCall) : (s.step call).Noted :=
  fun docId => ⟨note_lt (fun id => (h id).1) _ docId, note_lt (fun id => (h id).2) _ docId⟩

theorem fresh_step_iff (hnoted : s.Noted) (h : s.Fresh) (call : WorkCall) :
    (s.step call).Fresh ↔ call.Clean s.store := by
  constructor
  · intro hfresh
    cases hcreates : call.creates s.store with
    | none => exact clean_of_not_creates hcreates
    | some docId =>
      rcases grants_of_creates hcreates with ⟨-, hclean⟩ | ⟨hgrants, hclean⟩
      · exact hclean
      · have hkept : (call.apply s.store).permissions[docId]? = s.store.permissions[docId]? :=
          permissions_apply (by simp [hgrants])
        rcases hfresh docId (holds_of_creates hcreates) with hempty | hle
        · exact hclean.2 (by rwa [← hkept])
        · -- The grant that is left was written before the document was created.
          have hold := (hnoted docId).2
          simp only [step, hcreates, hgrants, note, Function.update_self] at hle
          omega
  · intro hclean docId hholds
    by_cases hgrants : call.grants s.store = some docId
    · right
      have hcreated := note_lt (fun id => (hnoted id).1) (call.creates s.store) docId
      simp only [step, hgrants, note_self]
      omega
    · have hkept : (s.step call).store.permissions[docId]? = s.store.permissions[docId]? :=
        permissions_apply hgrants
      by_cases hcreates : call.creates s.store = some docId
      · rcases grants_of_creates hcreates with ⟨hgranted, -⟩ | ⟨-, hempty⟩
        · exact absurd hgranted hgrants
        · exact .inl (by rw [hkept]; exact hempty.1 hclean)
      · have hbefore := (holds_before hholds).resolve_right hcreates
        rw [hkept]
        simp only [step, note_of_ne hcreates, note_of_ne hgrants]
        exact h docId hbefore

/-- In a run of calls on an empty store, every document is without permissions or has permissions written
for it, in every state that is reached, exactly when no call creates a document under a number that a
deleted one left permissions for. -/
theorem grants_die_iff (calls : List WorkCall) :
    machine.Meets (fun _ s call => (s.step call).Fresh) [] start calls ↔
      machine.Meets (fun _ s call => call.Clean s.store) [] start calls := by
  have hstart : start.Noted ∧ start.Fresh := by
    refine ⟨fun _ => ⟨Nat.one_pos, Nat.one_pos⟩, fun docId ⟨scope, entry, h⟩ => ?_⟩
    simp [start, WorkStore.empty] at h
  have hgood : ∀ (s : GrantLog) (call : WorkCall), s.Noted ∧ s.Fresh →
      ((s.step call).Fresh ↔ call.Clean s.store) := fun s call h => fresh_step_iff h.1 h.2 call
  have hkeep : ∀ (s : GrantLog) (call : WorkCall), s.Noted ∧ s.Fresh → call.Clean s.store →
      (s.step call).Noted ∧ (s.step call).Fresh := fun s call h hclean =>
    ⟨noted_step h.1 call, (hgood s call h).2 hclean⟩
  exact machine.meets_iff_of_invariant hgood hkeep hstart [] calls

def inheriting (author : Id) (permissions : Text) : List WorkCall :=
  let input : WorkInput := ⟨"a".toList, "b".toList, [], none, none, author⟩
  [.create input 0, .setPermissions 1 permissions, .delete .active 1 author, .create input 1]

/-- The second note is open to that identity. -/
theorem inherits_grants :
    let author : Id := Vector.replicate 16 1
    let other : Id := Vector.replicate 16 2
    let after := (machine.run start (inheriting author (WorkStore.proposalPermissions other))).1
    ¬after.Fresh ∧ after.store.documentPermissionAllows 1 .write (some other) = .ok true := by
  intro author other after
  have hthere : (after.store.documents .active)[1]?.isSome := by decide +kernel
  have hold : ¬((after.store.permissions[1]?).getD [] = [] ∨ after.created 1 ≤ after.written 1) := by
    decide +kernel
  obtain ⟨entry, hentry⟩ := Option.isSome_iff_exists.1 hthere
  exact ⟨fun hfresh => hold (hfresh 1 ⟨.active, entry, hentry⟩), by decide +kernel⟩

end GrantLog

end Rns.Git

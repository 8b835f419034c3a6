import Rns.Git.CommitSignatures

/-!
# What a commit signature covers

A signature is meant to cover the commit but for the headers that hold signatures.  The split does not
stop at the empty line, so lines of the message that look like such headers are not covered either.
-/

namespace Rns.Git

open Text List

/-! ## The meaning -/

def StartsSignature (line : Text) : Prop :=
  "gpgsig ".toList <+: line ∨ "gpgsig-sha256 ".toList <+: line

instance : DecidablePred StartsSignature := fun line =>
  inferInstanceAs (Decidable ("gpgsig ".toList <+: line ∨ "gpgsig-sha256 ".toList <+: line))

def Continues (line : Text) : Prop := " ".toList <+: line

instance : DecidablePred Continues := fun line =>
  inferInstanceAs (Decidable (" ".toList <+: line))

/-- The lines without signature headers and the lines that continue them. -/
def dropSignatures : List Text → List Text
  | [] => []
  | line :: rest =>
    if StartsSignature line then dropSignatures (rest.dropWhile Continues)
    else line :: dropSignatures rest
termination_by lines => lines.length
decreasing_by
  · exact Nat.lt_add_one_of_le (dropWhile_suffix _).length_le
  · exact Nat.lt_add_one _

variable (commit : Text)

def headerLines : List Text :=
  (splitInclusive '\n' commit).takeWhile (· ≠ ['\n'])

def afterHeaders : List Text :=
  (splitInclusive '\n' commit).dropWhile (· ≠ ['\n'])

def withoutSignatureHeaders : Text :=
  (dropSignatures (headerLines commit) ++ afterHeaders commit).flatten

def messageLines : List Text := (afterHeaders commit).drop 1

def messageBody : Text := (messageLines commit).flatten

def PlainMessage : Prop := ∀ line ∈ messageLines commit, ¬StartsSignature line

instance (commit : Text) : Decidable (PlainMessage commit) :=
  inferInstanceAs (Decidable (∀ line ∈ messageLines commit, ¬StartsSignature line))

def ShownSigned (P : Primitives) (commit content : Bytes) : Prop :=
  ∃ signature, splitCommitSignature commit = (some signature, content) ∧
    (verifyMessageSignature P signature content none).valid = true

/-! ## Lines -/

variable (header body : List Text) (commit : Text) {start : Text} (lines : List Text) {line : Text}

theorem isPrefix_stripLf_iff (hlf : '\n' ∉ start) (line : Text) :
    start <+: stripLf line ↔ start <+: line := by
  unfold stripLf
  split_ifs with hlast
  · obtain ⟨init, rfl⟩ := getLast?_eq_some_iff.mp hlast
    rw [dropLast_concat, prefix_concat_iff]
    refine ⟨.inr, fun h => h.resolve_left ?_⟩
    rintro rfl
    exact hlf (by simp)
  · rfl

theorem isPrefixOf?_isSome_iff : (start.isPrefixOf? line).isSome ↔ start <+: line := by
  rw [Option.isSome_iff_exists]
  exact exists_congr fun rest => isPrefixOf?_eq_some_iff_append_eq

theorem signatureStart_isSome_iff (line : Text) :
    (signatureStart (stripLf line)).isSome ↔ StartsSignature line := by
  rw [signatureStart, Option.isSome_or, Bool.or_eq_true, isPrefixOf?_isSome_iff,
    isPrefixOf?_isSome_iff, isPrefix_stripLf_iff (by decide), isPrefix_stripLf_iff (by decide)]
  rfl

theorem continuation_isSome_iff (line : Text) :
    (" ".toList.isPrefixOf? (stripLf line)).isSome ↔ Continues line := by
  rw [isPrefixOf?_isSome_iff, isPrefix_stripLf_iff (by decide)]
  rfl

/-! ## What the loop leaves -/

theorem signed_of_starts (h : StartsSignature line) (inSignature : Bool) (rest : List Text) :
    (splitLines inSignature (line :: rest)).2 = (splitLines true rest).2 := by
  obtain ⟨start, hstart⟩ := Option.isSome_iff_exists.mp ((signatureStart_isSome_iff line).mpr h)
  rw [splitLines, hstart]

theorem signed_of_continues (h : Continues line) (hstarts : ¬StartsSignature line) (rest : List Text) :
    (splitLines true (line :: rest)).2 = (splitLines true rest).2 := by
  obtain ⟨more, hmore⟩ := Option.isSome_iff_exists.mp ((continuation_isSome_iff line).mpr h)
  rw [← signatureStart_isSome_iff, Option.not_isSome_iff_eq_none] at hstarts
  rw [splitLines, hstarts]
  dsimp only
  rw [if_pos rfl, hmore]

theorem signed_of_other (hstarts : ¬StartsSignature line) (inSignature : Bool)
    (h : inSignature → ¬Continues line) (rest : List Text) :
    (splitLines inSignature (line :: rest)).2 = line ++ (splitLines false rest).2 := by
  rw [← signatureStart_isSome_iff, Option.not_isSome_iff_eq_none] at hstarts
  rw [splitLines, hstarts]
  cases inSignature with
  | false => rfl
  | true =>
    have hnone := h rfl
    rw [← continuation_isSome_iff, Option.not_isSome_iff_eq_none] at hnone
    dsimp only
    rw [if_pos rfl, hnone]

theorem not_startsSignature_of_continues (h : Continues line) : ¬StartsSignature line := by
  obtain ⟨rest, rfl⟩ := h
  rintro (⟨rest', h⟩ | ⟨rest', h⟩) <;> simp at h

theorem signed_inSignature :
    (splitLines true lines).2 = (splitLines false (lines.dropWhile Continues)).2 := by
  induction lines with
  | nil => rfl
  | cons line rest ih =>
    by_cases hcontinues : Continues line
    · rw [signed_of_continues hcontinues (not_startsSignature_of_continues hcontinues), ih,
        dropWhile_cons_of_pos (by simpa using hcontinues)]
    · rw [dropWhile_cons_of_neg (by simpa using hcontinues)]
      by_cases hstarts : StartsSignature line
      · rw [signed_of_starts hstarts, signed_of_starts hstarts]
      · rw [signed_of_other hstarts true fun _ => hcontinues, signed_of_other hstarts false nofun]

theorem signed_eq : (splitLines false lines).2 = (dropSignatures lines).flatten := by
  fun_induction dropSignatures lines with
  | case1 => rfl
  | case2 line rest hstarts ih => rw [signed_of_starts hstarts, signed_inSignature, ih]
  | case3 line rest hstarts ih =>
    rw [signed_of_other hstarts false nofun, ih, flatten_cons]

/-! ## Headers and message -/

theorem dropWhile_continues_append : (header ++ ['\n'] :: body).dropWhile Continues =
      header.dropWhile Continues ++ ['\n'] :: body := by
  have hempty : ¬Continues ['\n'] := by decide
  induction header with
  | nil => exact dropWhile_cons_of_neg (by simpa using hempty)
  | cons line header ih =>
    rw [cons_append]
    by_cases hline : Continues line
    · rw [dropWhile_cons_of_pos (by simpa using hline),
        dropWhile_cons_of_pos (by simpa using hline), ih]
    · rw [dropWhile_cons_of_neg (by simpa using hline),
        dropWhile_cons_of_neg (by simpa using hline), cons_append]

theorem dropSignatures_append : dropSignatures (header ++ ['\n'] :: body) =
      dropSignatures header ++ ['\n'] :: dropSignatures body := by
  fun_induction dropSignatures header with
  | case1 =>
    have hempty : ¬StartsSignature ['\n'] := by decide
    rw [nil_append, dropSignatures, if_neg hempty, nil_append]
  | case2 line rest hstarts ih =>
    rw [cons_append, dropSignatures, if_pos hstarts, dropWhile_continues_append, ih]
  | case3 line rest hstarts ih =>
    rw [cons_append, dropSignatures, if_neg hstarts, ih, cons_append]

theorem dropSignatures_sublist : (dropSignatures lines).Sublist lines := by
  fun_induction dropSignatures lines with
  | case1 => exact Sublist.refl _
  | case2 line rest hstarts ih =>
    exact (ih.trans (dropWhile_sublist _)).trans (sublist_cons_self _ _)
  | case3 line rest hstarts ih => exact ih.cons_cons line

theorem dropSignatures_eq_self {lines : List Text} (h : ∀ line ∈ lines, ¬StartsSignature line) :
    dropSignatures lines = lines := by
  induction lines with
  | nil => rw [dropSignatures]
  | cons line rest ih =>
    rw [dropSignatures, if_neg (h line mem_cons_self),
      ih fun line hline => h line (mem_cons_of_mem _ hline)]

theorem not_starts_of_flatten_eq {lines : List Text} (hne : ∀ line ∈ lines, line ≠ [])
    (h : (dropSignatures lines).flatten = lines.flatten) :
    ∀ line ∈ lines, ¬StartsSignature line := by
  induction lines with
  | nil => exact nofun
  | cons line rest ih =>
    rw [dropSignatures] at h
    by_cases hstarts : StartsSignature line
    · rw [if_pos hstarts] at h
      -- what is left is shorter by the line at least
      have hsub := (dropSignatures_sublist (rest.dropWhile Continues)).trans
        (dropWhile_sublist _)
      have hless := hsub.flatten.length_le
      have hline := length_pos_iff.mpr (hne line mem_cons_self)
      have hlength := congrArg length h
      rw [flatten_cons, length_append] at hlength
      omega
    · rw [if_neg hstarts, flatten_cons, flatten_cons, append_cancel_left_eq] at h
      have hrest := ih (fun line hline => hne line (mem_cons_of_mem _ hline)) h
      intro line' hline'
      rcases mem_cons.mp hline' with rfl | hline'
      · exact hstarts
      · exact hrest line' hline'

theorem lines_cases : afterHeaders commit = [] ∧ splitInclusive '\n' commit = headerLines commit ∨
      afterHeaders commit = ['\n'] :: messageLines commit ∧
        splitInclusive '\n' commit = headerLines commit ++ ['\n'] :: messageLines commit := by
  have hlines : headerLines commit ++ afterHeaders commit = splitInclusive '\n' commit :=
    takeWhile_append_dropWhile
  unfold messageLines
  cases hafter : afterHeaders commit with
  | nil =>
    rw [hafter, append_nil] at hlines
    exact .inl ⟨rfl, hlines.symm⟩
  | cons first rest =>
    have hfirst : first = ['\n'] := by
      have hhead := head?_dropWhile_not (· ≠ ['\n']) (splitInclusive '\n' commit)
      rw [show (splitInclusive '\n' commit).dropWhile (· ≠ ['\n']) = _ from hafter] at hhead
      simpa using hhead
    subst hfirst
    rw [hafter] at hlines
    exact .inr ⟨rfl, hlines.symm⟩

theorem messageBody_withoutSignatureHeaders :
    messageBody (withoutSignatureHeaders commit) = messageBody commit := by
  have hsub : (dropSignatures (headerLines commit) ++ afterHeaders commit).Sublist
      (splitInclusive '\n' commit) := by
    have hlines : headerLines commit ++ afterHeaders commit = splitInclusive '\n' commit :=
      takeWhile_append_dropWhile
    rw [← hlines]
    exact (dropSignatures_sublist _).append (Sublist.refl _)
  have hsplit : splitInclusive '\n' (withoutSignatureHeaders commit) =
      dropSignatures (headerLines commit) ++ afterHeaders commit :=
    ((lines_splitInclusive commit).sublist hsub).splitInclusive_flatten
  have hheader : ∀ line ∈ dropSignatures (headerLines commit), line ≠ ['\n'] := by
    intro line hline
    have hmem := (dropSignatures_sublist _).subset hline
    simpa using mem_takeWhile_imp hmem
  have hafter : afterHeaders (withoutSignatureHeaders commit) = afterHeaders commit := by
    unfold afterHeaders at hsplit ⊢
    rw [hsplit, dropWhile_append_of_pos (by simpa using hheader)]
    exact dropWhile_idempotent _ _
  rw [messageBody, messageLines, hafter]
  rfl

/-! ## Commits shown as signed -/

variable {signature : Option Text} {text : Text}

section

variable {commit content : Bytes} (htext : ofUtf8 commit = some text)
  (h : splitCommitSignature commit = (signature, content))
include htext h

theorem splitCommitSignature_content :
    content = toUtf8 (dropSignatures (splitInclusive '\n' text)).flatten := by
  rw [splitCommitSignature, htext] at h
  rw [← (Prod.mk.inj h).2, signed_eq]

/-- What is signed is the commit without its signature headers exactly if no line of the message looks
like one. -/
theorem content_eq_iff : content = toUtf8 (withoutSignatureHeaders text) ↔ PlainMessage text := by
  rw [splitCommitSignature_content htext h, toUtf8_injective.eq_iff, withoutSignatureHeaders]
  rcases lines_cases text with ⟨hafter, hlines⟩ | ⟨hafter, hlines⟩
  · rw [hlines, hafter, append_nil]
    refine iff_of_true rfl ?_
    unfold PlainMessage messageLines
    rw [hafter]
    exact nofun
  · rw [hlines, hafter, dropSignatures_append, flatten_append, flatten_append,
      append_cancel_left_eq, flatten_cons, flatten_cons, append_cancel_left_eq]
    refine ⟨not_starts_of_flatten_eq fun line hline => ?_, fun hplain => ?_⟩
    · have hmem : line ∈ splitInclusive '\n' text := by
        rw [hlines]
        exact mem_append_right _ (mem_cons_of_mem _ hline)
      exact (lines_splitInclusive text).ne_nil line hmem
    · rw [dropSignatures_eq_self hplain]

end

/-- For every commit that is shown as validly signed: the signature covers the commit but for its
signature headers exactly if no line of the message looks like one; and two such commits with the same
signed content have the same message. -/
theorem signature_covers_commit_iff (P : Primitives) {commit content : Bytes} {text : Text}
    (htext : Text.ofUtf8 commit = some text) (hshown : ShownSigned P commit content) :
    (content = Text.toUtf8 (withoutSignatureHeaders text) ↔ PlainMessage text) ∧
      ∀ (other : Bytes) (text' : Text), Text.ofUtf8 other = some text' →
        ShownSigned P other content → PlainMessage text → PlainMessage text' →
          Text.toUtf8 (messageBody text) = Text.toUtf8 (messageBody text') := by
  obtain ⟨signature, hsplit, -⟩ := hshown
  have hcovers := content_eq_iff htext hsplit
  refine ⟨hcovers, fun other text' htext' ⟨signature', hsplit', _⟩ hplain hplain' => ?_⟩
  have hsame : withoutSignatureHeaders text = withoutSignatureHeaders text' :=
    Text.toUtf8_injective ((hcovers.mpr hplain).symm.trans
      ((content_eq_iff htext' hsplit').mpr hplain'))
  rw [← messageBody_withoutSignatureHeaders text, hsame, messageBody_withoutSignatureHeaders]

def signedCommit (signature more : Text) : Text :=
  "tree 0\n".toList ++ "gpgsig ".toList ++
    (signature.flatMap fun c => if c = '\n' then ['\n', ' '] else [c]) ++
    "\nauthor A <00000000000000000000000000000000> 0 +0000\n\nmessage\n".toList ++ more

def sampleContent : Text := "tree 0\nauthor A <00000000000000000000000000000000> 0 +0000\n\nmessage\n".toList

def sampleSignature : Text :=
  signMessage .sample (.replicate 64 0) (fun envelope => (Vector.replicate 64 0).set! 32 (envelope.headD 0))
    (toUtf8 sampleContent)

theorem shownSigned_of_split {text content : Text} {split : List Text × Text}
    (hsplit : splitLines false (splitInclusive '\n' text) = split)
    (hvalid : split.1 ≠ [] ∧ split.2 = content ∧ (verifyMessageSignature .sample
      (['\n'].intercalate split.1) (toUtf8 content) none).valid = true) :
    ShownSigned .sample (toUtf8 text) (toUtf8 content) := by
  obtain ⟨hparts, rfl, hvalid⟩ := hvalid
  refine ⟨_, ?_, hvalid⟩
  rw [splitCommitSignature, ofUtf8_toUtf8]
  dsimp only
  rw [hsplit, if_neg hparts]

def honestCommit : Text := signedCommit sampleSignature []

def alteredCommit : Text := signedCommit sampleSignature "gpgsig or rather\n anything at all\n".toList

theorem shownSigned_honestCommit :
    ShownSigned .sample (toUtf8 honestCommit) (toUtf8 sampleContent) :=
  shownSigned_of_split rfl (by decide +kernel)

theorem shownSigned_alteredCommit :
    ShownSigned .sample (toUtf8 alteredCommit) (toUtf8 sampleContent) :=
  shownSigned_of_split rfl (by decide +kernel)

/-- The honest commit has a message that is covered. -/
theorem signature_covers_honestCommit : PlainMessage honestCommit ∧
    Text.toUtf8 sampleContent = Text.toUtf8 (withoutSignatureHeaders honestCommit) := by
  have hplain : PlainMessage honestCommit := by decide +kernel
  exact ⟨hplain, (signature_covers_commit_iff .sample (Text.ofUtf8_toUtf8 honestCommit)
    shownSigned_honestCommit).1.mpr hplain⟩

/-- Lines that look like a signature can be added to the message of a signed commit: it is shown as
validly signed, with the same signed content, and its message is another. -/
theorem message_lines_not_covered :
    ShownSigned .sample (Text.toUtf8 honestCommit) (Text.toUtf8 sampleContent) ∧
      ShownSigned .sample (Text.toUtf8 alteredCommit) (Text.toUtf8 sampleContent) ∧
      messageBody honestCommit ≠ messageBody alteredCommit ∧
      Text.toUtf8 sampleContent ≠ Text.toUtf8 (withoutSignatureHeaders alteredCommit) := by
  refine ⟨shownSigned_honestCommit, shownSigned_alteredCommit, by decide +kernel, fun heq => ?_⟩
  obtain ⟨signature, hsplit, -⟩ := shownSigned_alteredCommit
  have hplain := (content_eq_iff (Text.ofUtf8_toUtf8 alteredCommit) hsplit).mp heq
  have hnot : ¬PlainMessage alteredCommit := by decide +kernel
  exact hnot hplain

end Rns.Git

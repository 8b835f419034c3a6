import Rns.Lib.Machine
import Rns.Packet

/-!
# HDLC framing

Over TCP a packet is sent between two flags.  The decoder yields what stands between two flags if it is
long enough for a packet, and the flag that ends a frame can begin the next.
-/

namespace Rns.Hdlc

open List

def flag : UInt8 := 0x7e

def esc : UInt8 := 0x7d

def escMask : UInt8 := 0x20

variable (data : Bytes)

def escape : Bytes :=
  data.flatMap fun b => if b = esc ∨ b = flag then [esc, b ^^^ escMask] else [b]

def frame : Bytes := flag :: escape data ++ [flag]

def unescape : Bytes → Bytes
  | b :: c :: rest =>
    if b = esc then (c ^^^ escMask) :: unescape rest else b :: unescape (c :: rest)
  | data => data

/-- The loop of `feed`: what stays in the buffer, and the frames. -/
def scan (buffer : Bytes) : Bytes × List Bytes :=
  -- empty without a flag
  let opened := buffer.dropWhile (· != flag)
  if flag ∈ opened.tail then
    let between := unescape (opened.tail.takeWhile (· != flag))
    let (left, frames) := scan (opened.tail.dropWhile (· != flag))
    (left, if headerMinSize ≤ between.length then between :: frames else frames)
  else (opened, [])
termination_by buffer.length
decreasing_by
  rename_i hflag
  have hpos : 0 < (buffer.dropWhile (· != flag)).tail.length := length_pos_of_mem hflag
  have hopened := length_dropWhile_le (· != flag) buffer
  have hrest := length_dropWhile_le (· != flag) (buffer.dropWhile (· != flag)).tail
  rw [length_tail] at hpos hrest
  omega

/-- `feed`, with the buffer as the state of the decoder. -/
def decoder : Machine Bytes Bytes Bytes where
  step buffer chunk := scan (buffer ++ chunk)

/-! ## Frames -/

theorem flag_notMem_escape : flag ∉ escape data := by
  simp only [escape, mem_flatMap, not_exists, not_and]
  intro b _
  split_ifs with hb
  · rcases hb with rfl | rfl <;> decide
  · simpa using fun h : flag = b => hb (.inr h.symm)

theorem unescape_cons {b : UInt8} (h : b ≠ esc) (data : Bytes) :
    unescape (b :: data) = b :: unescape data := by
  cases data <;> simp [unescape, h]

theorem unescape_escape : unescape (escape data) = data := by
  induction data with
  | nil => rfl
  | cons b data ih =>
    rw [escape, flatMap_cons, ← escape]
    split_ifs with hb
    · simp [unescape, ih]
    · rw [singleton_append, unescape_cons (fun h => hb (.inl h)), ih]

variable {mid : Bytes}

theorem bne_flag (h : flag ∉ mid) : ∀ b ∈ mid, (b != flag) = true :=
  fun _ hb => bne_iff_ne.2 fun heq => h (heq ▸ hb)

theorem scan_append_left (h : flag ∉ mid) (rest : Bytes) : scan (mid ++ rest) = scan rest := by
  unfold scan
  rw [dropWhile_append_of_pos (bne_flag h)]

theorem scan_opened (h : flag ∉ mid) : scan (flag :: mid) = (flag :: mid, []) := by
  rw [scan]
  simp [h]

theorem scan_closed (h : flag ∉ mid) (rest : Bytes) : scan (flag :: mid ++ flag :: rest) =
    ((scan (flag :: rest)).1, if headerMinSize ≤ (unescape mid).length
      then unescape mid :: (scan (flag :: rest)).2 else (scan (flag :: rest)).2) := by
  rw [scan]
  simp [dropWhile_append_of_pos (bne_flag h), takeWhile_append_of_pos (bne_flag h)]

/-- What a decoder keeps: nothing, or the beginning of a frame. -/
def Waiting (left : Bytes) : Prop := left = [] ∨ ∃ mid, flag ∉ mid ∧ left = flag :: mid

theorem Waiting.scan_eq {left : Bytes} (h : Waiting left) : scan left = (left, []) := by
  rcases h with rfl | ⟨mid, hmid, rfl⟩
  · rw [scan]; rfl
  · exact scan_opened hmid

theorem scan_append (b : Bytes) : Waiting (scan b).1 ∧ ∀ chunk, scan (b ++ chunk) =
    ((scan ((scan b).1 ++ chunk)).1, (scan b).2 ++ (scan ((scan b).1 ++ chunk)).2) := by
  induction hn : b.length using Nat.strong_induction_on generalizing b with
  | _ n ih =>
    by_cases hflag : flag ∈ b
    · obtain ⟨garbage, rest, rfl, hgarbage⟩ := eq_append_cons_of_mem hflag
      simp only [append_assoc, scan_append_left hgarbage]
      by_cases hflag : flag ∈ rest
      · obtain ⟨mid, rest, rfl, hmid⟩ := eq_append_cons_of_mem hflag
        have hlt : (flag :: rest).length < n := by
          simp only [← hn, length_append, length_cons]
          omega
        obtain ⟨hleft, happend⟩ := ih _ hlt _ rfl
        have hclosed := scan_closed hmid
        simp only [cons_append, append_assoc] at hclosed happend ⊢
        simp only [hclosed, happend]
        exact ⟨hleft, fun _ => by split_ifs <;> rfl⟩
      · rw [scan_opened hflag]
        exact ⟨.inr ⟨rest, hflag, rfl⟩, fun _ => rfl⟩
    · have hnone : scan b = ([], []) := by
        rw [← append_nil b, scan_append_left hflag]
        exact Waiting.scan_eq (.inl rfl)
      rw [hnone]
      exact ⟨.inl rfl, fun _ => scan_append_left hflag _⟩

theorem run_eq {b : Bytes} (h : Waiting b) (chunks : List Bytes) :
    decoder.run b chunks = scan (b ++ chunks.flatten) := by
  induction chunks generalizing b with
  | nil => rw [flatten_nil, append_nil, h.scan_eq]; rfl
  | cons chunk chunks ih =>
    obtain ⟨hleft, happend⟩ := scan_append (b ++ chunk)
    rw [flatten_cons, ← append_assoc, happend, ← ih hleft]
    rfl

theorem scan_frames {payloads : List Bytes} (h : ∀ p ∈ payloads, headerMinSize ≤ p.length) :
    (scan (flag :: payloads.flatMap frame)).2 = payloads ∧
      (scan (payloads.flatMap frame)).2 = payloads := by
  induction payloads with
  | nil => exact ⟨by rw [flatMap_nil, scan_opened not_mem_nil], by rw [scan]; rfl⟩
  | cons p payloads ih =>
    have hframe : (scan ((p :: payloads).flatMap frame)).2 = p :: payloads := by
      rw [flatMap_cons, frame, append_assoc, singleton_append,
        scan_closed (flag_notMem_escape p), unescape_escape, if_pos (h p mem_cons_self),
        (ih fun q hq => h q (mem_cons_of_mem p hq)).1]
    refine ⟨?_, hframe⟩
    exact (congrArg Prod.snd (scan_closed not_mem_nil _)).trans hframe

theorem Waiting.suffix {left : Bytes} (h : Waiting left) {payloads : List Bytes}
    (hlong : ∀ p ∈ payloads, headerMinSize ≤ p.length) :
    payloads <:+ (scan (left ++ payloads.flatMap frame)).2 := by
  have hframes := (scan_frames hlong).2
  rcases h with rfl | ⟨mid, hmid, rfl⟩
  · exact hframes.symm ▸ suffix_rfl
  cases payloads with
  | nil => exact nil_suffix
  | cons p payloads =>
    have hclosed := scan_closed hmid (escape p ++ [flag] ++ payloads.flatMap frame)
    change scan (flag :: mid ++ (p :: payloads).flatMap frame) = _ at hclosed
    change (scan (flag :: (escape p ++ [flag] ++ payloads.flatMap frame))).2 = _ at hframes
    rw [hclosed, hframes]
    dsimp only
    split_ifs
    · exact suffix_cons _ _
    · exact suffix_rfl

/-- Whatever a decoder was fed before, it ends with the payloads of the frames it is fed, it yields
nothing else if it is fresh and no flag comes before them, and the chunks do not matter. -/
theorem decoder_synchronises (before : List Bytes) (garbage : Bytes) {payloads chunks : List Bytes}
    (hlong : ∀ p ∈ payloads, headerMinSize ≤ p.length)
    (hchunks : chunks.flatten = garbage ++ payloads.flatMap frame) :
    let buffer := (decoder.run [] before).1
    payloads <:+ (decoder.run buffer chunks).2 ∧
      (buffer = [] → flag ∉ garbage → (decoder.run buffer chunks).2 = payloads) ∧
      ∀ chunks', chunks'.flatten = chunks.flatten →
        (decoder.run buffer chunks').2 = (decoder.run buffer chunks).2 := by
  intro buffer
  have hwaiting : Waiting buffer := by
    rw [show buffer = _ from congrArg Prod.fst (run_eq (.inl rfl) before)]
    exact (scan_append _).1
  simp only [run_eq hwaiting]
  refine ⟨?_, fun hfresh hgarbage => ?_, fun chunks' hsame => by rw [hsame]⟩
  · obtain ⟨hleft, happend⟩ := scan_append (buffer ++ garbage)
    rw [hchunks, ← List.append_assoc, happend]
    exact (hleft.suffix hlong).trans (List.suffix_append _ _)
  · rw [hfresh, hchunks, List.nil_append, scan_append_left hgarbage, (scan_frames hlong).2]

theorem decoder_synchronises_sample :
    let payloads := [0x7e :: List.replicate 18 3, 0x7d :: List.replicate 18 4]
    let chunks := [[1, 0x7e], 0x7d :: 0x5e :: List.replicate 18 3, [0x7e, 0x7e, 0x7d],
      0x5d :: List.replicate 18 4 ++ [0x7e]]
    (decoder.run [] chunks).2 = payloads ∧
      payloads <:+ (decoder.run (decoder.run [] [[2, 0x7e, 5]]).1 chunks).2 :=
  ⟨(decoder_synchronises [] [1] (by decide) (by decide)).2.1 rfl (by decide),
    (decoder_synchronises [[2, 0x7e, 5]] [1] (by decide) (by decide)).1⟩

end Rns.Hdlc

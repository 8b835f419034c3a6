import Rns.Lib.Bytes
import Rns.Lib.Simulation

/-!
# KISS framing

On serial lines and radios a frame stands between two `FEND` bytes, a command byte first.  The decoder
takes one byte at a time and keeps no more than the frame it is in.
-/

namespace Rns.Kiss

open Machine

def fend : UInt8 := 0xC0
def fesc : UInt8 := 0xDB
def tfend : UInt8 := 0xDC
def tfesc : UInt8 := 0xDD

def cmdData : UInt8 := 0x00
def cmdReady : UInt8 := 0x0F
def cmdUnknown : UInt8 := 0xFE

def escape (data : Bytes) : Bytes :=
  data.flatMap fun b => if b = fesc then [fesc, tfesc] else if b = fend then [fesc, tfend] else [b]

def commandFrame (cmd : UInt8) (value : Bytes) : Bytes := fend :: cmd :: (escape value ++ [fend])

def frame (data : Bytes) : Bytes := commandFrame cmdData data

/-- A byte of a payload, after an escape or not: the flag and the buffer after it. -/
def collect (escape : Bool) (buffer : Bytes) (byte : UInt8) : Bool × Bytes :=
  if byte = fesc then (true, buffer)
  else if escape then
    (false, buffer ++ [if byte = tfend then fend else if byte = tfesc then fesc else byte])
  else (false, buffer ++ [byte])

inductive KissEvent where
  | dataFrame (data : Bytes)
  | ready
  deriving DecidableEq

structure Decoder where
  inFrame : Bool
  escape : Bool
  command : UInt8
  buffer : Bytes

namespace Decoder

def new : Decoder := ⟨false, false, cmdUnknown, []⟩

/-- `feed` for one byte. -/
def step (d : Decoder) (byte : UInt8) : Decoder × List KissEvent :=
  if d.inFrame ∧ byte = fend ∧ d.command = cmdData then
    ({ d with inFrame := false, buffer := [] }, if d.buffer = [] then [] else [.dataFrame d.buffer])
  else if byte = fend then (⟨true, false, cmdUnknown, []⟩, [])
  else if d.inFrame then
    if d.buffer = [] ∧ d.command = cmdUnknown then ({ d with command := byte &&& 0x0F }, [])
    else if d.command = cmdData then
      let (escape, buffer) := collect d.escape d.buffer byte
      ({ d with escape, buffer }, [])
    else if d.command = cmdReady then
      ({ d with command := cmdUnknown, inFrame := false }, [.ready])
    else (d, [])
  else (d, [])

end Decoder

def bytes : Machine Decoder UInt8 KissEvent where
  step := Decoder.step

/-- `feed`. -/
def decoder : Machine Decoder Bytes KissEvent := bytes.inChunks

/-- A machine that collects the bytes of a payload collects what was escaped. -/
theorem run_escape {σ ο : Type*} {M : Machine σ UInt8 ο} {f : Bool → Bytes → σ}
    (hstep : ∀ escape buffer b, b ≠ fend → M.step (f escape buffer) b =
      (f (collect escape buffer b).1 (collect escape buffer b).2, [])) (data buffer : Bytes) :
    M.run (f false buffer) (escape data) = (f false (buffer ++ data), []) := by
  induction data generalizing buffer with
  | nil => simp [escape, run]
  | cons b data ih =>
    have hone : M.run (f false buffer) (if b = fesc then [fesc, tfesc]
        else if b = fend then [fesc, tfend] else [b]) = (f false (buffer ++ [b]), []) := by
      have hesc := hstep false buffer fesc (by decide)
      split_ifs with hb hend
      · rw [run, hesc, run, hstep _ _ _ (by decide), hb]
        rfl
      · rw [run, hesc, run, hstep _ _ _ (by decide), hend]
        rfl
      · rw [run, hstep _ _ _ hend, collect, if_neg hb]
        rfl
    rw [escape, List.flatMap_cons, ← escape, run_append_eq, hone, ih]
    simp

theorem fend_notMem_escape (data : Bytes) : fend ∉ escape data := by
  simp only [escape, List.mem_flatMap, not_exists, not_and]
  intro b _
  split_ifs with hesc hend
  · decide
  · decide
  · simpa using Ne.symm hend

variable {d : Decoder}

theorem run_outside (hout : d.inFrame = false) {mid : Bytes} (h : fend ∉ mid) :
    bytes.run d mid = (d, []) := by
  induction mid with
  | nil => rfl
  | cons b mid ih =>
    rw [List.mem_cons, not_or] at h
    have hstep : bytes.step d b = (d, []) := by simp [bytes, Decoder.step, hout, Ne.symm h.1]
    rw [run, hstep, ih h.2]
    rfl

theorem run_frame (h : ¬(d.inFrame ∧ d.command = cmdData)) {p : Bytes} (hp : p ≠ []) :
    bytes.run d (frame p) = (⟨false, false, cmdData, []⟩, [.dataFrame p]) := by
  have hopen : bytes.step d fend = (⟨true, false, cmdUnknown, []⟩, []) := by
    simp [bytes, Decoder.step, h]
  have hcommand : bytes.step ⟨true, false, cmdUnknown, []⟩ cmdData =
      (⟨true, false, cmdData, []⟩, []) := rfl
  have hescape := run_escape (M := bytes) (f := fun escape buffer => ⟨true, escape, cmdData, buffer⟩)
    (fun escape buffer b hb => by simp [bytes, Decoder.step, hb, cmdData, cmdUnknown]) p []
  rw [frame, commandFrame, run, hopen, run, hcommand, run_append_eq, hescape]
  simp [run, bytes, Decoder.step, hp]

/-- A frame that begins inside another ends it, and is lost itself. -/
theorem run_cut (h : d.inFrame ∧ d.command = cmdData) (p : Bytes) :
    ∃ cut : Option KissEvent, bytes.run d (frame p) = (⟨true, false, cmdUnknown, []⟩, cut.toList) := by
  have hclose : bytes.step d fend = ({ d with inFrame := false, buffer := [] },
      if d.buffer = [] then [] else [.dataFrame d.buffer]) := by
    simp [bytes, Decoder.step, h]
  have hskip : fend ∉ cmdData :: escape p := by
    rw [List.mem_cons, not_or]
    exact ⟨by decide, fend_notMem_escape p⟩
  refine ⟨if d.buffer = [] then none else some (.dataFrame d.buffer), ?_⟩
  rw [frame, commandFrame, run, hclose, ← List.cons_append, run_append_eq, run_outside rfl hskip]
  split_ifs <;> rfl

theorem run_frames (h : ¬(d.inFrame ∧ d.command = cmdData)) {payloads : List Bytes}
    (hne : ∀ p ∈ payloads, p ≠ []) :
    (bytes.run d (payloads.flatMap frame)).2 = payloads.map .dataFrame := by
  induction payloads generalizing d with
  | nil => rfl
  | cons p payloads ih =>
    rw [List.flatMap_cons, run_append_snd, run_frame h (hne p List.mem_cons_self),
      ih (by simp) fun q hq => hne q (List.mem_cons_of_mem p hq)]
    rfl

/-- However they are cut into chunks, frames yield their payloads, and after anything else all of them
or all but the first. -/
theorem decoder_yields {payloads chunks : List Bytes} (hne : ∀ p ∈ payloads, p ≠ [])
    (hchunks : chunks.flatten = payloads.flatMap frame) (before : List Bytes) :
    (decoder.run .new chunks).2 = payloads.map .dataFrame ∧
      let d := (decoder.run .new before).1
      (decoder.run d chunks).2 = payloads.map .dataFrame ∨
        ∃ cut : Option KissEvent,
          (decoder.run d chunks).2 = cut.toList ++ payloads.tail.map .dataFrame := by
  simp only [decoder, run_inChunks, hchunks]
  generalize (bytes.run .new before.flatten).1 = d
  refine ⟨run_frames (by decide) hne, ?_⟩
  by_cases h : d.inFrame ∧ d.command = cmdData
  · right
    cases payloads with
    | nil => exact ⟨none, rfl⟩
    | cons p payloads =>
      obtain ⟨cut, hcut⟩ := run_cut h p
      refine ⟨cut, ?_⟩
      rw [List.flatMap_cons, run_append_snd, hcut,
        run_frames (by simp [cmdUnknown, cmdData]) fun q hq => hne q (List.mem_cons_of_mem p hq)]
      rfl
  · exact .inl (run_frames h hne)

theorem decoder_yields_sample :
    let chunks := [[0xC0, 0, 0xDB], [0xDD, 7, 0xC0, 0xC0], [0, 8, 0xC0]]
    (decoder.run .new chunks).2 = [.dataFrame [0xDB, 7], .dataFrame [8]] ∧
      let d := (decoder.run .new [[0xC0, 0, 5]]).1
      (decoder.run d chunks).2 = [.dataFrame [0xDB, 7], .dataFrame [8]] ∨
        ∃ cut : Option KissEvent, (decoder.run d chunks).2 = cut.toList ++ [.dataFrame [8]] :=
  decoder_yields (by decide : ∀ p ∈ ([[0xDB, 7], [8]] : List Bytes), p ≠ []) (by decide) [[0xC0, 0, 5]]

end Rns.Kiss

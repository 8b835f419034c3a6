import Rns.Kiss

/-!
# Frames of RNode devices

A device with several radios numbers them by the command byte of a data frame.  The other commands
report on the device.
-/

namespace Rns.RNode

open Kiss Machine

/-- The commands of data frames, by subinterface. -/
def dataCmds : List UInt8 :=
  [0x00, 0x10, 0x20, 0x70, 0x75, 0x90, 0xA0, 0xB0, 0xC0, 0xD0, 0xE0, 0xF0]

def dataCmdToIndex (cmd : UInt8) : Option ℕ := dataCmds.findIdx? (· == cmd)

/-- What the decoder yields; a firmware detail is kept as the bytes of its text. -/
inductive RNodeEvent where
  | dataFrame (index : ℕ) (data : Bytes)
  | detected (found : Bool)
  | firmwareVersion (major minor : UInt8)
  | platform (byte : UInt8)
  | mcu (byte : UInt8)
  | interfaceType (index typeByte : UInt8)
  | frequency (hz : UInt32)
  | bandwidth (hz : UInt32)
  | txPower (dbm : Int8)
  | spreadingFactor (sf : UInt8)
  | codingRate (cr : UInt8)
  | radioState (state : UInt8)
  | statRssi (rssi : UInt8)
  | statSnr (snr : Int8)
  | stAlock (value : UInt16)
  | ltAlock (value : UInt16)
  | ready
  | selectedInterface (index : UInt8)
  | firmwareDetail (text : Bytes)
  | error (code : UInt8)
  deriving DecidableEq

def cmdSelInt : UInt8 := 0x1F
def cmdFwDetail : UInt8 := 0x51
def detectResp : UInt8 := 0x46

/-- `parse_command`: the event of a complete response. -/
def response (command : UInt8) (buf : Bytes) : Option RNodeEvent :=
  match command.toNat, buf with
  | 0x08, a :: _ => some (.detected (a = detectResp))
  | 0x50, a :: b :: _ => some (.firmwareVersion a b)
  | 0x48, a :: _ => some (.platform a)
  | 0x49, a :: _ => some (.mcu a)
  | 0x71, a :: b :: _ => some (.interfaceType a b)
  | 0x01, a :: b :: c :: d :: _ => some (.frequency (word a b c d))
  | 0x02, a :: b :: c :: d :: _ => some (.bandwidth (word a b c d))
  | 0x03, a :: _ => some (.txPower a.toInt8)
  | 0x04, a :: _ => some (.spreadingFactor a)
  | 0x05, a :: _ => some (.codingRate a)
  | 0x06, a :: _ => some (.radioState a)
  | 0x23, a :: _ => some (.statRssi a)
  | 0x24, a :: _ => some (.statSnr a.toInt8)
  | 0x0B, a :: b :: _ => some (.stAlock (a.toUInt16 <<< 8 ||| b.toUInt16))
  | 0x0C, a :: b :: _ => some (.ltAlock (a.toUInt16 <<< 8 ||| b.toUInt16))
  | 0x0F, _ => some .ready
  | 0x1F, a :: _ => some (.selectedInterface a)
  | 0x90, a :: _ => some (.error a)
  | _, _ => none
where
  word (a b c d : UInt8) : UInt32 :=
    a.toUInt32 <<< 24 ||| b.toUInt32 <<< 16 ||| c.toUInt32 <<< 8 ||| d.toUInt32

structure RNodeDecoder where
  inFrame : Bool
  escape : Bool
  command : UInt8
  dataBuffer : Bytes
  commandBuffer : Bytes
  selectedIndex : UInt8

namespace RNodeDecoder

def new : RNodeDecoder := ⟨false, false, cmdUnknown, [], [], 0⟩

variable (d : RNodeDecoder)

/-- What the end of a frame yields. -/
def finish : List RNodeEvent :=
  if d.dataBuffer = [] then []
  else match dataCmdToIndex d.command with
  | some index => [.dataFrame index d.dataBuffer]
  | none =>
    if d.command = cmdData then [.dataFrame d.selectedIndex.toNat d.dataBuffer]
    else if d.command = cmdFwDetail then [.firmwareDetail d.dataBuffer]
    else []

/-- `feed` for one byte. -/
def step (byte : UInt8) : RNodeDecoder × List RNodeEvent :=
  if byte = fend then
    (⟨true, false, cmdUnknown, [], [], d.selectedIndex⟩, if d.inFrame then d.finish else [])
  else if ¬d.inFrame then (d, [])
  else if d.dataBuffer = [] ∧ d.commandBuffer = [] ∧ d.command = cmdUnknown then
    ({ d with command := byte }, [])
  else if d.command = cmdData ∨ d.command = cmdFwDetail ∨ (dataCmdToIndex d.command).isSome then
    let (escape, dataBuffer) := collect d.escape d.dataBuffer byte
    ({ d with escape, dataBuffer }, [])
  else
    let (escape, commandBuffer) := collect d.escape d.commandBuffer byte
    -- an escape alone completes nothing
    let d := { d with escape, commandBuffer }
    match if byte = fesc then none else response d.command commandBuffer with
    | none => (d, [])
    | some event =>
      ({ d with
        command := cmdUnknown
        inFrame := false
        selectedIndex := if d.command = cmdSelInt then commandBuffer.headD 0 else d.selectedIndex },
        [event])

end RNodeDecoder

def bytes : Machine RNodeDecoder UInt8 RNodeEvent where
  step := RNodeDecoder.step

/-- `feed`. -/
def decoder : Machine RNodeDecoder Bytes RNodeEvent := bytes.inChunks

def rnodeDataFrame (index : ℕ) (data : Bytes) : Bytes := commandFrame (dataCmds.getD index 0x00) data

theorem run_dataFrame {index : ℕ} (hindex : index < 12) (h8 : index ≠ 8) {p : Bytes} (hp : p ≠ []) :
    (bytes.run .new (rnodeDataFrame index p)).2 = [.dataFrame index p] := by
  have hcmd : ∀ i < 12, i ≠ 8 → dataCmds.getD i 0 ≠ fend ∧ dataCmds.getD i 0 ≠ cmdUnknown ∧
      dataCmdToIndex (dataCmds.getD i 0) = some i := by decide
  obtain ⟨hfend, hunknown, hknown⟩ := hcmd index hindex h8
  rw [rnodeDataFrame]
  generalize dataCmds.getD index 0 = cmd at hfend hunknown hknown ⊢
  have hopen : bytes.step .new fend = (⟨true, false, cmdUnknown, [], [], 0⟩, []) := rfl
  have hcommand : bytes.step ⟨true, false, cmdUnknown, [], [], 0⟩ cmd =
      (⟨true, false, cmd, [], [], 0⟩, []) := by
    simp [bytes, RNodeDecoder.step, hfend]
  have hescape := run_escape (M := bytes) (f := fun escape data => ⟨true, escape, cmd, data, [], 0⟩)
    (fun escape data b hb => by simp [bytes, RNodeDecoder.step, hb, hunknown, hknown]) p []
  rw [commandFrame, run, hopen, run, hcommand, run_append_eq, hescape]
  simp [run, bytes, RNodeDecoder.step, RNodeDecoder.finish, hp, hknown]

variable {d : RNodeDecoder}

theorem finish_none (h : d.command ≠ fend) (data : Bytes) :
    .dataFrame 8 data ∉ d.finish := by
  have hindex : dataCmdToIndex d.command ≠ some 8 := by
    intro h8
    obtain ⟨_, heq, -⟩ := List.findIdx?_eq_some_iff_getElem.1 h8
    exact h (beq_iff_eq.1 heq).symm
  unfold RNodeDecoder.finish
  split
  · exact List.not_mem_nil
  split
  · next index hknown =>
    rintro hmem
    cases List.mem_singleton.1 hmem
    exact hindex hknown
  · next hnone =>
    split_ifs with hcmd
    · rw [hcmd] at hnone
      cases hnone
    · simp
    · simp

theorem response_ne {command : UInt8} {buf data : Bytes} {index : ℕ} :
    response command buf ≠ some (.dataFrame index data) := by
  unfold response
  split <;> simp

/-- No byte that ends a frame becomes a command, so that nothing is decoded for the subinterface that
it stands for. -/
theorem step_none (h : d.command ≠ fend) (b : UInt8) :
    (bytes.step d b).1.command ≠ fend ∧ ∀ data, .dataFrame 8 data ∉ (bytes.step d b).2 := by
  have hunknown : cmdUnknown ≠ fend := by decide
  simp only [bytes, RNodeDecoder.step]
  split
  · refine ⟨hunknown, fun data => ?_⟩
    dsimp only
    split
    · exact finish_none h data
    · exact List.not_mem_nil
  split
  · exact ⟨h, fun _ => List.not_mem_nil⟩
  split
  · exact ⟨‹_›, fun _ => List.not_mem_nil⟩
  split
  · exact ⟨h, fun _ => List.not_mem_nil⟩
  split
  · exact ⟨h, fun _ => List.not_mem_nil⟩
  · next hsome =>
    refine ⟨hunknown, fun data hmem => ?_⟩
    rw [← List.mem_singleton.1 hmem] at hsome
    split_ifs at hsome
    exact response_ne hsome

theorem run_none (h : d.command ≠ fend) (bs data : Bytes) :
    .dataFrame 8 data ∉ (bytes.run d bs).2 := by
  induction bs generalizing d with
  | nil => exact List.not_mem_nil
  | cons b bs ih =>
    obtain ⟨hnext, hnone⟩ := step_none h b
    rw [run, List.mem_append, not_or]
    exact ⟨hnone data, ih hnext⟩

/-- A data frame yields its payload whatever the chunks, unless it is for the subinterface whose
command ends a frame. -/
theorem data_frame_decodes_iff {index : ℕ} (hindex : index < 12) {payload : Bytes}
    (hne : payload ≠ []) : (∀ chunks : List Bytes, chunks.flatten = rnodeDataFrame index payload →
      (decoder.run .new chunks).2 = [.dataFrame index payload]) ↔ index ≠ 8 := by
  simp only [decoder, run_inChunks]
  constructor
  · rintro h rfl
    have hall := h [rnodeDataFrame 8 payload] (by simp)
    exact run_none (by decide) _ payload (hall ▸ List.mem_singleton_self _)
  · intro h8 chunks hchunks
    rw [hchunks]
    exact run_dataFrame hindex h8 hne

theorem data_frame_decodes_iff_sample :
    (∀ chunks : List Bytes, chunks.flatten = rnodeDataFrame 3 [7] →
      (decoder.run .new chunks).2 = [.dataFrame 3 [7]]) ↔ 3 ≠ 8 :=
  data_frame_decodes_iff (by decide) (by decide)

/-- The frame of a payload for subinterface 8 yields nothing. -/
theorem interface_8_lost : (decoder.run .new [rnodeDataFrame 8 [1, 2]]).2 = [] := by
  decide +kernel

end Rns.RNode

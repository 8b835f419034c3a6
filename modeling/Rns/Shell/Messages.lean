import Rns.Lib.Utf8

/-!
# Messages of the remote shell

Output of a process travels as stream data in chunks that fit a channel message.
-/

namespace Rns.Shell

open Bytes

/-! ## Packed values -/

inductive MsgValue where
  | nil
  | bool (v : Bool)
  | int (v : Int64)
  | string (s : Text)
  | bytes (data : Bytes)
  | array (items : List MsgValue)
  | map (items : List (MsgValue × MsgValue))

/-- Integers between 0 and 127 and between -32 and -1 are one byte, all others signed. -/
def packMsgpackInt (v : Int64) : Bytes :=
  if 0 ≤ v ∧ v ≤ 0x7f then [v.toUInt64.toUInt8]
  else if -32 ≤ v ∧ v < 0 then [v.toUInt64.toUInt8]
  else if -128 ≤ v ∧ v ≤ 127 then 0xd0 :: be 1 v.toUInt64.toNat
  else if -32768 ≤ v ∧ v ≤ 32767 then 0xd1 :: be 2 v.toUInt64.toNat
  else if -2147483648 ≤ v ∧ v ≤ 2147483647 then 0xd2 :: be 4 v.toUInt64.toNat
  else 0xd3 :: be 8 v.toUInt64.toNat

def packMsgpackStr (bytes : Bytes) (utf8 : Bool) : Bytes :=
  let len := bytes.length
  (if utf8 then
    if len < 32 then [0xa0 ||| UInt8.ofNat len]
    else if len ≤ 0xff then 0xd9 :: be 1 len
    else if len ≤ 0xffff then 0xda :: be 2 len
    else 0xdb :: be 4 len
  else if len ≤ 0xff then 0xc4 :: be 1 len
  else if len ≤ 0xffff then 0xc5 :: be 2 len
  else 0xc6 :: be 4 len) ++ bytes

def packArrayLen (len : ℕ) : Bytes :=
  if len < 16 then [0x90 ||| UInt8.ofNat len]
  else if len ≤ 0xffff then 0xdc :: be 2 len
  else 0xdd :: be 4 len

def packMapLen (len : ℕ) : Bytes :=
  if len < 16 then [0x80 ||| UInt8.ofNat len] else 0xde :: be 2 len

mutual

def msgpackPack : MsgValue → Bytes
  | .nil => [0xc0]
  | .bool false => [0xc2]
  | .bool true => [0xc3]
  | .int v => packMsgpackInt v
  | .string s => packMsgpackStr (Text.toUtf8 s) true
  | .bytes data => packMsgpackStr data false
  | .array items => packArrayLen items.length ++ packMsgItems items
  | .map items => packMapLen items.length ++ packMsgEntries items

def packMsgItems : List MsgValue → Bytes
  | [] => []
  | item :: items => msgpackPack item ++ packMsgItems items

def packMsgEntries : List (MsgValue × MsgValue) → Bytes
  | [] => []
  | (key, value) :: items => msgpackPack key ++ msgpackPack value ++ packMsgEntries items

end

/-! ## Messages -/

/-- `MSG_MAGIC`, in the upper byte of every message type. -/
def msgMagic : UInt16 := 0xac

def protocolVersion : UInt64 := 1

def streamStdin : UInt16 := 0

def streamStdout : UInt16 := 1

structure WindowSize where
  rows : Option UInt16
  cols : Option UInt16
  hpix : Option UInt16
  vpix : Option UInt16

structure ExecuteCommand where
  cmdline : List Text
  pipeStdin : Bool
  pipeStdout : Bool
  pipeStderr : Bool
  term : Option Text
  rows : Option UInt16
  cols : Option UInt16
  hpix : Option UInt16
  vpix : Option UInt16

structure StreamDataMessage where
  streamId : UInt16
  compressed : Bool
  eof : Bool
  data : Bytes

/-- `StreamDataMessage::pack`: the flags are in the upper bits of the stream id. -/
def StreamDataMessage.pack (message : StreamDataMessage) : Bytes :=
  let header := message.streamId &&& 0x3FFF
  let header := if message.eof then header ||| 0x8000 else header
  let header := if message.compressed then header ||| 0x4000 else header
  be16 header.toNat ++ message.data

inductive RnshMessage where
  | noop
  | windowSize (size : WindowSize)
  | executeCommand (command : ExecuteCommand)
  | streamData (message : StreamDataMessage)
  | versionInfo (swVersion : Text) (protocolVersion : UInt64)
  | error (msg : Text) (fatal : Bool)
  | commandExited (code : Int32)

namespace RnshMessage

def msgtype (message : RnshMessage) : UInt16 :=
  msgMagic <<< 8 ||| match message with
    | .noop => 0
    | .windowSize _ => 2
    | .executeCommand _ => 3
    | .streamData _ => 4
    | .versionInfo _ _ => 5
    | .error _ _ => 6
    | .commandExited _ => 7

def optU16 (value : Option UInt16) : MsgValue :=
  value.elim .nil fun v => .int (Int64.ofNat v.toNat)

def pack : RnshMessage → Bytes
  | .noop => []
  | .streamData message => message.pack
  | .versionInfo swVersion protocolVersion =>
    msgpackPack (.array [.string swVersion, .int protocolVersion.toInt64])
  | .windowSize size =>
    msgpackPack (.array [optU16 size.rows, optU16 size.cols, optU16 size.hpix, optU16 size.vpix])
  | .executeCommand command => msgpackPack (.array
      [.array (command.cmdline.map .string), .bool command.pipeStdin, .bool command.pipeStdout,
        .bool command.pipeStderr, .nil, command.term.elim .nil .string, optU16 command.rows,
        optU16 command.cols, optU16 command.hpix, optU16 command.vpix])
  | .error msg fatal => msgpackPack (.array [.string msg, .bool fatal, .nil])
  | .commandExited code => msgpackPack (.int code.toInt64)

end RnshMessage

end Rns.Shell

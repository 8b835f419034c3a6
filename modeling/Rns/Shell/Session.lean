import Rns.Packet
import Rns.Shell.Messages

/-!
# Sessions of the remote shell listener

Each link to the listener has a session.  What a session wants done comes back as a list of errands for
the event loop, in the order of the sources.
-/

namespace Rns.Shell

inductive ListenerState where
  | waitIdent
  | waitVersion
  | waitCommand
  | running
  | closed
  deriving DecidableEq

structure ListenerConfig where
  defaultCommand : List Text
  allowAll : Bool
  allowed : List Hash16
  allowRemoteCommand : Bool
  remoteCommandAsArgs : Bool

/-- A session; `process` says whether a process was started for it. -/
structure ListenerSession where
  linkId : Hash16
  state : ListenerState
  remoteIdentity : Option Hash16
  config : ListenerConfig
  process : Bool

/-- What is done to the process of a session. -/
inductive ProcessCommand where
  | setWinsize (size : WindowSize)
  | writeStdin (data : Bytes)
  | closeStdin
  | terminate

/-- What the event loop does over its node and its table of sessions. -/
inductive Errand where
  /-- A message whose failure is ignored. -/
  | sendMessage (linkId : Hash16) (message : RnshMessage)
  /-- A chunk of a stream whose failure is returned. -/
  | sendChunk (linkId : Hash16) (message : StreamDataMessage)
  | teardown (linkId : Hash16)
  | process (linkId : Hash16) (command : ProcessCommand)
  | removeSession (linkId : Hash16)

/-- What depends on the build and on the codec: the version text and the decoder of messages. -/
structure ShellEnv where
  version : Text
  unpack : UInt16 → Bytes → Except Text RnshMessage

/-- How starting a process ends, for the identity of the peer, the arguments and the flags: with an
error or not. -/
abbrev Spawn := Option Hash16 → List Text → ExecuteCommand → Option Text

def ListenerConfig.argv (config : ListenerConfig) (command : ExecuteCommand) : List Text :=
  if config.remoteCommandAsArgs ∧ command.cmdline ≠ [] then config.defaultCommand ++ command.cmdline
  else if command.cmdline ≠ [] then command.cmdline
  else config.defaultCommand

namespace ListenerSession

def new (linkId : Hash16) (config : ListenerConfig) : ListenerSession where
  linkId
  state := if config.allowAll then .waitVersion else .waitIdent
  remoteIdentity := none
  config
  process := false

variable (s : ListenerSession)

def remoteIdentified (identityHash : Hash16) : ListenerSession × List Errand :=
  if ¬s.config.allowAll ∧ identityHash ∉ s.config.allowed then
    ({ s with state := .closed },
      [.sendMessage s.linkId (.error "Identity is not allowed.".toList true), .teardown s.linkId])
  else
    ({ s with
        remoteIdentity := some identityHash
        state := if s.state = .waitIdent then .waitVersion else s.state }, [])

def protocolError (message : Text) : ListenerSession × List Errand :=
  ({ s with state := .closed },
    [.sendMessage s.linkId (.error message true), .teardown s.linkId] ++
      if s.process then [.process s.linkId .terminate] else [])

def startCommand (spawn : Spawn) (command : ExecuteCommand) :
    Except Text ListenerSession × List Errand :=
  if ¬s.config.allowRemoteCommand ∧ command.cmdline ≠ [] then
    (.error "remote command line not allowed by listener".toList,
      [.sendMessage s.linkId (.error "Remote command line not allowed by listener".toList true)])
  else
    let argv := s.config.argv command
    let failure := if argv = [] then some "empty command".toList
      else spawn s.remoteIdentity argv command
    match failure with
    | some error => (.error error, [])
    | none => (.ok { s with process := true }, [.process s.linkId
        (.setWinsize ⟨command.rows, command.cols, command.hpix, command.vpix⟩)])

/-- A message that opens the session: the version has to agree. -/
def handleVersion (version : Text) : RnshMessage → ListenerSession × List Errand
  | .versionInfo _ protocol =>
    if protocol = protocolVersion then
      ({ s with state := .waitCommand },
        [.sendMessage s.linkId (.versionInfo version protocolVersion)])
    else s.protocolError "Incompatible protocol".toList
  | _ => s.protocolError "expected version info".toList

/-- The message that names the command. -/
def handleCommand (spawn : Spawn) : RnshMessage → ListenerSession × List Errand
  | .executeCommand command =>
    let (result, errands) := s.startCommand spawn command
    match result with
    | .error error =>
      let (s, more) := s.protocolError ("Unable to start process: ".toList ++ error)
      (s, errands ++ more)
    | .ok s => ({ s with state := .running }, errands)
  | _ => s.protocolError "expected execute command".toList

/-- A message while the process runs. -/
def handleRunning : RnshMessage → ListenerSession × List Errand
  | .windowSize size => (s, if s.process then [.process s.linkId (.setWinsize size)] else [])
  | .noop => (s, [.sendMessage s.linkId .noop])
  | .streamData message =>
    if message.streamId = streamStdin then
      (s, if s.process then
        (if message.data ≠ [] then [.process s.linkId (.writeStdin message.data)] else []) ++
          if message.eof then [.process s.linkId .closeStdin] else []
      else [])
    else s.protocolError "unexpected message while running".toList
  | _ => s.protocolError "unexpected message while running".toList

def handleMessage (E : ShellEnv) (spawn : Spawn) (msgtype : UInt16) (payload : Bytes) :
    ListenerSession × List Errand :=
  if s.state = .waitIdent then (s, [])
  else match E.unpack msgtype payload with
    | .error error => s.protocolError error
    | .ok message => match s.state with
      | .waitVersion => s.handleVersion E.version message
      | .waitCommand => s.handleCommand spawn message
      | .running => s.handleRunning message
      | .waitIdent | .closed => (s, [])

end ListenerSession

end Rns.Shell

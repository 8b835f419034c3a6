import Rns.LinkManager.Moves
import Rns.Shell.Session

/-!
# The event loop of the remote shell listener

One loop serves all sessions: it takes events from a queue and does what they ask for, one errand at a
time.  A chunk that the channel of a link does not take ends the loop, for all sessions.
-/

namespace Rns.Shell

open Std
open Function (update update_of_ne update_self)

/-- `STREAM_CHUNK_MAX`: what is left of `LINK_MDU` for the data of a stream. -/
def streamChunkMax : ℕ := 431 - channelEnvelopeOverhead - 2

def readerBufferSize : ℕ := 4096

/-- What the callbacks of the node and the threads that wait for processes put into the queue. -/
inductive Notice where
  | linkEstablished (linkId : Hash16) (isInitiator : Bool)
  | linkClosed (linkId : Hash16)
  | remoteIdentified (linkId : Hash16) (identityHash : Hash16)
  | channelMessage (linkId : Hash16) (msgtype : UInt16) (payload : Bytes)
  | processExited (linkId : Hash16) (code : Int32)
  /-- The events that the listener passes by: announces and local input. -/
  | ignored

inductive RnshEvent where
  | notice (n : Notice)
  | processOutput (linkId : Hash16) (streamId : UInt16) (data : Bytes)

/-- The listener with its node and the pipes of its processes.  `errands` is what is left of the event at
hand; `written` and `accepted` record what processes wrote to their standard output, without what was
unread when their link closed, and what the channels took of it. -/
structure Listener where
  manager : LinkManager
  sessions : ExtTreeMap Hash16 ListenerSession
  events : List RnshEvent
  errands : List Errand
  returned : Bool
  pipes : Hash16 → UInt16 → Bytes
  written : Hash16 → Bytes
  accepted : Hash16 → Bytes

def sendStreamChunks (linkId : Hash16) (streamId : UInt16) (data : Bytes) (eof : Bool) : List Errand :=
  (ManagedLink.chunks streamChunkMax data).map
      (fun chunk => .sendChunk linkId ⟨streamId, false, false, chunk⟩) ++
    if eof then [.sendChunk linkId ⟨streamId, false, true, []⟩] else []

namespace Listener

/-- Nothing has happened to the listener yet; its node is in any state. -/
def start (manager : LinkManager) : Listener where
  manager
  sessions := ∅
  events := []
  errands := []
  returned := false
  pipes _ _ := []
  written _ := []
  accepted _ := []

section Step

variable (S : ShellEnv) (config : ListenerConfig)

def onSession (s : Listener) (linkId : Hash16)
    (handle : ListenerSession → ListenerSession × List Errand) : Listener :=
  match s.sessions[linkId]? with
  | none => s
  | some session => { s with
      sessions := s.sessions.insert linkId (handle session).1
      errands := (handle session).2 }

/-- `ChildProcess::drop`: what was not read is lost with the pipes. -/
def dropPipes (s : Listener) (linkId : Hash16) : Listener :=
  { s with
    pipes := update s.pipes linkId fun _ => []
    written := update s.written linkId
      ((s.written linkId).rdrop (s.pipes linkId streamStdout).length) }

/-- The arms of the loop. -/
def handleNotice (s : Listener) (spawn : Spawn) : Notice → Listener
  | .linkEstablished linkId isInitiator =>
    if isInitiator ∨ linkId ∈ s.sessions then s
    else { s with sessions := s.sessions.insert linkId (.new linkId config) }
  | .remoteIdentified linkId identityHash => s.onSession linkId (·.remoteIdentified identityHash)
  | .channelMessage linkId msgtype payload =>
    s.onSession linkId (·.handleMessage S spawn msgtype payload)
  | .processExited linkId code => { s with
      errands := sendStreamChunks linkId streamStdout [] true ++
        [.sendMessage linkId (.commandExited code), .removeSession linkId] }
  | .linkClosed linkId => match s.sessions[linkId]? with
    | none => s
    | some session =>
      let s := { s with sessions := s.sessions.erase linkId }
      if session.process then { s.dropPipes linkId with errands := [.process linkId .terminate] } else s
  | .ignored => s

def handleEvent (s : Listener) (spawn : Spawn) : RnshEvent → Listener
  | .notice n => s.handleNotice S config spawn n
  | .processOutput linkId streamId data =>
    { s with errands := sendStreamChunks linkId streamId data false }

end Step

section Errands

variable (P : Primitives) (E : LinkEnv)

/-- One errand; a message that is refused is ignored, a chunk that is refused ends the loop. -/
def runErrand (s : Listener) (rng : Entropy) (now : ℚ) : Errand → Listener × List LinkManagerAction
  | .sendMessage linkId message =>
    match s.manager.sendChannelMessage P E linkId message.msgtype message.pack rng now with
    | .error _ => (s, [])
    | .ok (manager, out) => ({ s with manager }, out)
  | .sendChunk linkId message =>
    let msgtype := (RnshMessage.streamData message).msgtype
    match s.manager.sendChannelMessage P E linkId msgtype message.pack rng now with
    | .error _ => ({ s with returned := true }, [])
    | .ok (manager, out) => ({ s with
        manager
        accepted := if message.streamId = streamStdout then
          update s.accepted linkId (s.accepted linkId ++ message.data) else s.accepted }, out)
  | .teardown linkId =>
    let (manager, out) := s.manager.onLink linkId fun l => l.teardown P linkId
    ({ s with manager }, out)
  | .process _ _ => (s, [])
  | .removeSession linkId => ({ s with sessions := s.sessions.erase linkId }, [])

end Errands

end Listener

/-- What happens around the loop, and its own turns: the node handles another call, a process writes to
one of its pipes, a reader takes bytes from a pipe, a notice arrives, or the loop does its next errand or
takes its next event. -/
inductive ListenerInput where
  | call (c : LinkCall)
  | write (linkId : Hash16) (streamId : UInt16) (data : Bytes)
  | read (linkId : Hash16) (streamId : UInt16) (count : ℕ)
  | arrive (n : Notice)
  | turn (spawn : Spawn) (rng : Entropy) (now : ℚ)

namespace Listener

def write (s : Listener) (linkId : Hash16) (streamId : UInt16) (data : Bytes) : Listener :=
  { s with
    pipes := update s.pipes linkId
      (update (s.pipes linkId) streamId (s.pipes linkId streamId ++ data))
    written := if streamId = streamStdout then
      update s.written linkId (s.written linkId ++ data) else s.written }

/-- A round of `spawn_reader`: what is read goes into the queue, if it is anything. -/
def read (s : Listener) (linkId : Hash16) (streamId : UInt16) (count : ℕ) : Listener :=
  let data := (s.pipes linkId streamId).take (min count readerBufferSize)
  if data = [] then s
  else { s with
    pipes := update s.pipes linkId
      (update (s.pipes linkId) streamId ((s.pipes linkId streamId).drop data.length))
    events := s.events ++ [.processOutput linkId streamId data] }

end Listener

def listen (P : Primitives) (K : KeyPrimitives) (E : LinkEnv) (S : ShellEnv) (config : ListenerConfig)
    (ephemeral : Entropy → Vector UInt8 32) (keys : LinkId → LinkSession) :
    Machine Listener ListenerInput LinkManagerAction where
  step s input := match input with
    | .call c =>
      let (manager, out) := (calls P K E ephemeral keys).step s.manager c
      ({ s with manager }, out)
    | .write linkId streamId data => (s.write linkId streamId data, [])
    | .read linkId streamId count => (s.read linkId streamId count, [])
    | .arrive n => ({ s with events := s.events ++ [.notice n] }, [])
    | .turn spawn rng now =>
      if s.returned then (s, [])
      else match s.errands with
        | errand :: errands =>
          { s with errands }.runErrand P (LinkManager.env P K E ephemeral keys) rng now errand
        | [] => match s.events with
          | event :: events => ({ s with events }.handleEvent S config spawn event, [])
          | [] => (s, [])

/-! ## Where output is -/

def Errand.output (linkId : Hash16) : Errand → Bytes
  | .sendChunk id message => if id = linkId ∧ message.streamId = streamStdout then message.data else []
  | _ => []

def RnshEvent.output (linkId : Hash16) : RnshEvent → Bytes
  | .processOutput id streamId data => if id = linkId ∧ streamId = streamStdout then data else []
  | .notice _ => []

variable (linkId id : Hash16) (streamId : UInt16) (data : Bytes)

theorem output_processOutput :
    (RnshEvent.processOutput id streamId data).output linkId =
      if id = linkId ∧ streamId = streamStdout then data else [] :=
  rfl

theorem output_sendStreamChunks {eof : Bool} :
    (sendStreamChunks id streamId data eof).flatMap (·.output linkId) =
      if id = linkId ∧ streamId = streamStdout then data else [] := by
  have heof : (if eof then [Errand.sendChunk id ⟨streamId, false, true, []⟩] else []).flatMap
      (·.output linkId) = [] := by
    cases eof <;> simp [Errand.output]
  rw [sendStreamChunks, List.flatMap_append, heof, List.append_nil, List.flatMap_map]
  simp only [Errand.output]
  split_ifs
  · rw [List.flatMap_id']
    exact Resource.flatten_slices data _ (Resource.le_divCeil_mul data.length (by decide))
  · simp

namespace ListenerSession

variable (s : ListenerSession) (linkId : Hash16)

@[simp] theorem output_protocolError (message : Text) :
    (s.protocolError message).2.flatMap (·.output linkId) = [] := by
  unfold protocolError
  split_ifs <;> rfl

@[simp] theorem output_remoteIdentified (identityHash : Hash16) :
    (s.remoteIdentified identityHash).2.flatMap (·.output linkId) = [] := by
  unfold remoteIdentified
  split_ifs <;> rfl

@[simp] theorem output_startCommand (spawn : Spawn) (command : ExecuteCommand) :
    (s.startCommand spawn command).2.flatMap (·.output linkId) = [] := by
  unfold startCommand
  dsimp only
  split_ifs
  · rfl
  all_goals split <;> rfl

@[simp]
theorem output_handleMessage (S : ShellEnv) (spawn : Spawn) (msgtype : UInt16) (payload : Bytes) :
    (s.handleMessage S spawn msgtype payload).2.flatMap (·.output linkId) = [] := by
  have hversion : ∀ message, (s.handleVersion S.version message).2.flatMap (·.output linkId) = [] := by
    intro message
    fun_cases handleVersion <;> first | rfl | exact s.output_protocolError _ _
  have hcommand : ∀ message, (s.handleCommand spawn message).2.flatMap (·.output linkId) = [] := by
    intro message
    fun_cases handleCommand with
    | case1 command errands error s' more herror hstart =>
      have hfirst := s.output_startCommand linkId spawn command
      have hsecond := s.output_protocolError linkId ("Unable to start process: ".toList ++ error)
      rw [hstart] at hfirst
      rw [herror] at hsecond
      rw [List.flatMap_append, hfirst, hsecond]
      rfl
    | case2 command errands s' hstart =>
      have hfirst := s.output_startCommand linkId spawn command
      rwa [hstart] at hfirst
    | case3 => exact s.output_protocolError _ _
  have hrunning : ∀ message, (s.handleRunning message).2.flatMap (·.output linkId) = [] := by
    intro message
    fun_cases handleRunning
    all_goals first | exact s.output_protocolError _ _ | (split_ifs <;> rfl) | rfl
  unfold handleMessage
  split_ifs
  · rfl
  · split
    · exact s.output_protocolError _ _
    · split
      · exact hversion _
      · exact hcommand _
      · exact hrunning _
      · rfl
      · rfl

end ListenerSession

/-! ## One step -/

variable {config : ListenerConfig} {events : List RnshEvent} {errands : List Errand}
  {input : ListenerInput} {event : RnshEvent} {errand : Errand} {S : ShellEnv}

namespace Listener

/-- What is still to be sent of the standard output of a session: in the errands, in the queue and in
the pipe. -/
def remaining (s : Listener) (linkId : Hash16) : Bytes :=
  s.errands.flatMap (·.output linkId) ++ s.events.flatMap (·.output linkId) ++
    s.pipes linkId streamStdout

/-- The output of a session is complete: what was accepted and what is still to be sent is what was
written. -/
def Complete (s : Listener) (linkId : Hash16) : Prop :=
  s.accepted linkId ++ s.remaining linkId = s.written linkId

def Intact (s : Listener) : Prop :=
  s.returned = false ∧ ∀ linkId ∈ s.manager.links, s.Complete linkId

/-- The errands change, and none of them sends output; what was read of the output stays. -/
structure Silent (s s' : Listener) : Prop where
  events : s'.events = s.events
  unread : ∀ linkId before, before ++ s.pipes linkId streamStdout = s.written linkId →
    before ++ s'.pipes linkId streamStdout = s'.written linkId
  accepted : s'.accepted = s.accepted
  returned : s'.returned = s.returned
  errands : ∀ linkId, s'.errands.flatMap (·.output linkId) = []

variable {s : Listener}

theorem silent_onSession (hnone : s.errands = []) {linkId : Hash16}
    {handle : ListenerSession → ListenerSession × List Errand}
    (hhandle : ∀ session id, (handle session).2.flatMap (·.output id) = []) :
    s.Silent (s.onSession linkId handle) := by
  unfold onSession
  split
  · exact ⟨rfl, fun _ _ => id, rfl, rfl, fun _ => by rw [hnone]; rfl⟩
  · exact ⟨rfl, fun _ _ => id, rfl, rfl, hhandle _⟩

theorem silent_handleNotice (S : ShellEnv) (config : ListenerConfig) (hnone : s.errands = [])
    (spawn : Spawn) (n : Notice) : s.Silent (s.handleNotice S config spawn n) := by
  have hsame : ∀ sessions, s.Silent { s with sessions } := fun sessions =>
    ⟨rfl, fun _ _ => id, rfl, rfl, fun _ => by rw [hnone]; rfl⟩
  cases n with
  | linkEstablished linkId isInitiator =>
    dsimp only [handleNotice]
    split_ifs
    · exact hsame s.sessions
    · exact hsame _
  | linkClosed linkId =>
    dsimp only [handleNotice]
    split
    · exact hsame s.sessions
    · split_ifs
      · refine ⟨rfl, fun id before h => ?_, rfl, rfl, fun _ => rfl⟩
        dsimp only [dropPipes]
        by_cases hid : id = linkId
        · subst hid
          simp [← h, List.rdrop]
        · rw [update_of_ne hid, update_of_ne hid, h]
      · exact hsame _
  | remoteIdentified linkId identityHash =>
    exact silent_onSession hnone fun session id => session.output_remoteIdentified id _
  | channelMessage linkId msgtype payload =>
    exact silent_onSession hnone fun session id => session.output_handleMessage ..
  | processExited linkId code =>
    refine ⟨rfl, fun _ _ => id, rfl, rfl, fun id => ?_⟩
    dsimp only [handleNotice]
    rw [List.flatMap_append, output_sendStreamChunks, ite_self]
    rfl
  | ignored => exact hsame s.sessions

/-! ### Errands -/

def Takes (m : LinkManager) (linkId : Hash16) (payload : Bytes) : Prop :=
  ∃ l ∈ m.links[linkId]?, ∃ c ∈ l.channel,
    c.isReadyToSend ∧ channelEnvelopeOverhead + payload.length ≤ l.mdu

variable {P : Primitives} {K : KeyPrimitives} {E : LinkEnv}

theorem isOk_sendChannelMessage (m : LinkManager) (linkId : Hash16) (msgtype : UInt16) (payload : Bytes)
    (rng : Entropy) (now : ℚ) :
    (m.sendChannelMessage P E linkId msgtype payload rng now).isOk ↔ Takes m linkId payload := by
  unfold LinkManager.sendChannelMessage Takes
  cases m.links[linkId]? with
  | none => simp [Except.isOk, Except.toBool]
  | some l =>
    simp only [Option.mem_def, Option.some.injEq, exists_eq_left']
    unfold ManagedLink.sendChannelMessage
    cases l.channel with
    | none => simp [Except.map, Except.isOk, Except.toBool]
    | some c =>
      simp only [Option.some.injEq, exists_eq_left']
      dsimp only [Channel.send]
      rw [length_packEnvelope]
      by_cases hready : c.isReadyToSend
      · by_cases hfits : channelEnvelopeOverhead + payload.length > l.mdu
        · simp [hready, hfits, Except.map, Except.isOk, Except.toBool]
        · simp [hready, hfits, Nat.not_lt.mp hfits, Except.map, Except.isOk, Except.toBool]
      · simp [hready, Except.map, Except.isOk, Except.toBool]

theorem complete_runErrand (hreturned : s.returned = false)
    (h : ∀ linkId, { s with errands := errand :: errands }.Complete linkId) (rng : Entropy)
    (now : ℚ)
    (htakes : ∀ linkId message, errand = .sendChunk linkId message → Takes s.manager linkId message.pack) :
    let s' := ({ s with errands }.runErrand P E rng now errand).1
    s'.returned = false ∧ ∀ linkId, s'.Complete linkId := by
  have hsilent : (∀ linkId, errand.output linkId = []) → ∀ manager sessions,
      s.returned = false ∧ ∀ linkId, { s with errands, manager, sessions }.Complete linkId := by
    intro hsilent manager sessions
    refine ⟨hreturned, fun linkId => ?_⟩
    have hcomplete := h linkId
    simpa only [Complete, remaining, List.flatMap_cons, hsilent, List.nil_append] using hcomplete
  cases errand with
  | sendMessage linkId message =>
    dsimp only [runErrand]
    split
    · exact hsilent (fun _ => rfl) s.manager s.sessions
    · exact hsilent (fun _ => rfl) _ s.sessions
  | teardown linkId => exact hsilent (fun _ => rfl) _ s.sessions
  | process linkId command => exact hsilent (fun _ => rfl) s.manager s.sessions
  | removeSession linkId => exact hsilent (fun _ => rfl) s.manager _
  | sendChunk linkId message =>
    have hok := (isOk_sendChannelMessage (P := P) (E := E) s.manager linkId
      (RnshMessage.streamData message).msgtype message.pack rng now).mpr (htakes linkId message rfl)
    dsimp only [runErrand]
    split
    · rename_i hrefused
      rw [hrefused] at hok
      cases hok
    · refine ⟨hreturned, fun id => ?_⟩
      have hcomplete := h id
      simp only [Complete, remaining, List.flatMap_cons, Errand.output] at hcomplete ⊢
      by_cases hstream : message.streamId = streamStdout
      · by_cases hid : linkId = id
        · subst hid
          simpa [hstream] using hcomplete
        · rw [if_pos hstream, update_of_ne (Ne.symm hid)]
          simpa [hid] using hcomplete
      · rw [if_neg hstream]
        simpa [hstream] using hcomplete

theorem returned_of_refused {linkId : Hash16} {message : StreamDataMessage}
    (hrefused : ¬Takes s.manager linkId message.pack) (rng : Entropy) (now : ℚ) :
    (s.runErrand P E rng now (.sendChunk linkId message)).1.returned = true := by
  rw [← isOk_sendChannelMessage (P := P) (E := E) s.manager linkId
    (RnshMessage.streamData message).msgtype message.pack rng now] at hrefused
  dsimp only [runErrand]
  split
  · rfl
  · rename_i hsent
    rw [hsent] at hrefused
    exact absurd rfl hrefused

/-! ### Pipes and the queue -/

theorem Complete.write {id : Hash16} (h : s.Complete id) (linkId : Hash16) (streamId : UInt16)
    (data : Bytes) : (s.write linkId streamId data).Complete id := by
  unfold Complete remaining Listener.write at *
  dsimp only
  by_cases hid : id = linkId
  · subst hid
    by_cases hstream : streamId = streamStdout
    · subst hstream
      simp [← h]
    · simpa [update_of_ne (Ne.symm hstream), hstream] using h
  · rw [update_of_ne hid]
    split_ifs
    · rw [update_of_ne hid]
      exact h
    · exact h

theorem take_append_drop_length {n : ℕ} : data.take n ++ data.drop (data.take n).length = data := by
  rw [List.length_take]
  rcases Nat.le_total n data.length with hle | hle
  · rw [min_eq_left hle, List.take_append_drop]
  · rw [min_eq_right hle, List.drop_length, List.append_nil, List.take_of_length_le hle]

theorem Complete.read {id : Hash16} (h : s.Complete id) (linkId : Hash16) (streamId : UInt16)
    (count : ℕ) : (s.read linkId streamId count).Complete id := by
  unfold Listener.read
  dsimp only
  split_ifs
  · exact h
  · -- What is taken from the pipe is the output that the new event brings.
    unfold Complete remaining at *
    rw [List.flatMap_append, List.flatMap_singleton, output_processOutput, ← h]
    dsimp only
    by_cases hid : linkId = id
    · subst hid
      by_cases hstream : streamId = streamStdout
      · subst hstream
        rw [if_pos ⟨rfl, rfl⟩, update_self, update_self, List.append_assoc,
          List.append_assoc, take_append_drop_length, List.append_assoc]
      · simp [update_of_ne (Ne.symm hstream), hstream]
    · rw [update_of_ne (Ne.symm hid)]
      simp [hid]

theorem Complete.arrive {id : Hash16} (h : s.Complete id) (n : Notice) :
    { s with events := s.events ++ [RnshEvent.notice n] }.Complete id := by
  simpa [Complete, remaining, RnshEvent.output] using h

theorem complete_handleEvent (hevents : s.events = event :: events) (hnone : s.errands = [])
    {spawn : Spawn} {id : Hash16} (h : s.Complete id) :
    ({ s with events }.handleEvent S config spawn event).Complete id := by
  unfold Complete remaining at *
  rw [hnone, hevents] at h
  cases event with
  | notice n =>
    have hsilent := silent_handleNotice (s := { s with events }) S config hnone spawn n
    dsimp only [handleEvent]
    rw [hsilent.accepted, hsilent.events, hsilent.errands, List.nil_append, ← List.append_assoc]
    exact hsilent.unread id _ (by simpa [RnshEvent.output] using h)
  | processOutput linkId streamId data =>
    dsimp only [handleEvent]
    rw [output_sendStreamChunks]
    simpa [RnshEvent.output] using h

theorem returned_handleEvent (hnone : s.errands = []) (spawn : Spawn) (event : RnshEvent) :
    (s.handleEvent S config spawn event).returned = s.returned := by
  cases event with
  | notice n => exact (silent_handleNotice S config hnone spawn n).returned
  | processOutput linkId streamId data => rfl

/-! ## Runs -/

/-- The chunk that the loop sends next, if it is the loop's turn, finds room in the channel of its
link. -/
def ChunkTaken (s : Listener) : ListenerInput → Prop
  | .turn _ _ _ => ∀ linkId message, s.errands.head? = some (.sendChunk linkId message) →
      Takes s.manager linkId message.pack
  | _ => True

section Runs

variable {S : ShellEnv} {config : ListenerConfig} {ephemeral : Entropy → Vector UInt8 32}
  {keys : LinkId → LinkSession}

section

variable (hreturned : s.returned = false)
include hreturned

theorem step_errand (herrands : s.errands = errand :: errands) (spawn : Spawn) (rng : Entropy)
    (now : ℚ) :
    (listen P K E S config ephemeral keys).step s (.turn spawn rng now) =
      { s with errands }.runErrand P (LinkManager.env P K E ephemeral keys) rng now errand := by
  have hgoing : ¬s.returned = true := by rw [hreturned]; exact Bool.false_ne_true
  dsimp only [listen]
  rw [if_neg hgoing, herrands]

theorem step_event (hnone : s.errands = []) (hevents : s.events = event :: events) (spawn : Spawn)
    (rng : Entropy) (now : ℚ) :
    (listen P K E S config ephemeral keys).step s (.turn spawn rng now) =
      ({ s with events }.handleEvent S config spawn event, []) := by
  have hgoing : ¬s.returned = true := by rw [hreturned]; exact Bool.false_ne_true
  dsimp only [listen]
  rw [if_neg hgoing, hnone, hevents]

theorem complete_step (h : ∀ linkId, s.Complete linkId) (htaken : s.ChunkTaken input) :
    ((listen P K E S config ephemeral keys).step s input).1.returned = false ∧
      ∀ linkId, ((listen P K E S config ephemeral keys).step s input).1.Complete linkId := by
  cases input with
  | call c => exact ⟨hreturned, h⟩
  | write linkId streamId data => exact ⟨hreturned, fun id => (h id).write ..⟩
  | read linkId streamId count =>
    refine ⟨?_, fun id => (h id).read ..⟩
    dsimp only [listen, Listener.read]
    split_ifs <;> exact hreturned
  | arrive n => exact ⟨hreturned, fun id => (h id).arrive n⟩
  | turn spawn rng now =>
    cases herrands : s.errands with
    | cons errand errands =>
      rw [step_errand hreturned herrands]
      refine complete_runErrand hreturned (fun linkId => ?_) rng now fun linkId message herrand =>
        htaken linkId message (by rw [herrands, List.head?_cons, herrand])
      rw [← herrands]
      exact h linkId
    | nil =>
      cases hevents : s.events with
      | cons event events =>
        rw [step_event hreturned herrands hevents]
        refine ⟨?_, fun id => complete_handleEvent hevents herrands (h id)⟩
        exact (returned_handleEvent (s := { s with events }) herrands spawn event).trans hreturned
      | nil =>
        dsimp only [listen]
        rw [herrands, hevents, ite_self]
        exact ⟨hreturned, h⟩

theorem chunkTaken_of_going
    (h : ((listen P K E S config ephemeral keys).step s input).1.returned = false) :
    s.ChunkTaken input := by
  cases input with
  | turn spawn rng now =>
    intro linkId message hhead
    by_contra hrefused
    obtain ⟨errands, herrands⟩ : ∃ errands, s.errands = .sendChunk linkId message :: errands :=
      List.head?_eq_some_iff.mp hhead
    rw [step_errand hreturned herrands, returned_of_refused (s := { s with errands }) hrefused] at h
    cases h
  | _ => trivial

end

end Runs

/-! ### A run -/

def sampleListener : Machine Listener ListenerInput LinkManagerAction :=
  listen .sample .sample .sample ⟨[], fun _ _ => .error []⟩ ⟨[], true, [], true, false⟩
    (fun _ => .replicate 32 3) fun _ => (LinkManager.CreateLinkArgs.sample.made .sample).1

def oneByte (linkId : Hash16) (b : UInt8) : List ListenerInput :=
  [.write linkId streamStdout [b], .read linkId streamStdout 1, .turn (fun _ _ _ => none) .zero 0,
    .turn (fun _ _ _ => none) .zero 0]

def shellLink : Hash16 := (ManagedLink.sample false).engine.linkId

def twoBytesSent : Listener :=
  (sampleListener.run (start (.sample (.sample false))) (oneByte shellLink 1 ++ oneByte shellLink 2)).1

end Listener

end Rns.Shell

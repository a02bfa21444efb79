import CueShell.Model.Scheduler.State

/-! # The script runner of the client

`cue run` sends one request and reads messages until it knows the exit code of its script. The response
and the event that reports the end of the script may arrive in either order, so ends are kept until the
response names the script. Decoding and printing may fail; the connection may end.
-/

namespace CueShell

inductive OutputStream where
  | stdout
  | stderr
deriving DecidableEq, Repr

/-- The answers to the request of the runner. -/
inductive RunnerResponse where
  | scriptCreated (scriptId : String) (submitError : Option ScriptSubmitError)
  | err (code message : String)
  | other
deriving DecidableEq, Repr

/-- Output of a job: text, or bytes in base64. -/
inductive OutputEvent where
  | chunk (stream : OutputStream) (data : String)
  | binary (stream : OutputStream) (base64 : String)
deriving DecidableEq, Repr

inductive RunnerMessage where
  | response (id : UInt32) (payload : RunnerResponse)
  | request
  | output (event : OutputEvent)
  | scriptFinished (scriptId : String) (exitCode : ℤ)
  | otherEvent
deriving DecidableEq, Repr

/-- The base64 decoder and the output streams of the process. -/
structure RunnerEnv where
  decode : String → Except String ByteArray
  write : OutputStream → ByteArray → Except String Unit

def writeOutput (env : RunnerEnv) : OutputEvent → Except String Unit
  | .chunk stream data => env.write stream data.toUTF8
  | .binary stream base64 => do
      let bytes ← (env.decode base64).mapError ("decode binary output chunk: " ++ ·)
      env.write stream bytes

/-- What the loop remembers. -/
structure RunnerState where
  scriptId : Option String
  pendingFinished : List (String × ℤ)

/-- The end of a script that the loop does not wait for, or not yet. -/
def RunnerState.noteEnd (state : RunnerState) (scriptId : String) (exitCode : ℤ) : RunnerState :=
  { state with pendingFinished := state.pendingFinished ++ [(scriptId, exitCode)] }

/-- What one message leads to: the end of the run, or the next turn of the loop. -/
def handleRunnerMessage (env : RunnerEnv) (requestId : UInt32) (state : RunnerState) :
    RunnerMessage → Except String ℤ ⊕ RunnerState
  | .response id payload =>
      if id = requestId then
        match payload with
        | .scriptCreated created submitError =>
            match state.pendingFinished.find? fun (finished, _) => finished = created with
            | some (_, exitCode) => .inl (.ok exitCode)
            | none =>
                match submitError with
                | some error => .inl (.error ("script " ++ created ++ " submission failed at item " ++
                    toString error.index ++ " [" ++ error.code ++ "]: " ++ error.message))
                | none => .inr { state with scriptId := some created }
        | .err code message => .inl (.error ("cue run failed [" ++ code ++ "]: " ++ message))
        | .other => .inl (.error "unexpected cue run response")
      else .inr state
  | .request => .inl (.error "unexpected request message from cued")
  | .output event =>
      match writeOutput env event with
      | .error error => .inl (.error error)
      | .ok () => .inr state
  | .scriptFinished finished exitCode =>
      if state.scriptId = some finished then .inl (.ok exitCode)
      else .inr (state.noteEnd finished exitCode)
  | .otherEvent => .inr state

/-- The loop of `runWithClient`; the connection ends behind the last message. -/
def runnerLoop (env : RunnerEnv) (requestId : UInt32) :
    RunnerState → List RunnerMessage → Except String ℤ
  | _, [] => .error "read length prefix"
  | state, message :: rest =>
      match handleRunnerMessage env requestId state message with
      | .inl outcome => outcome
      | .inr state => runnerLoop env requestId state rest

def runWithClient (env : RunnerEnv) (requestId : UInt32) (messages : List RunnerMessage) :
    Except String ℤ :=
  runnerLoop env requestId ⟨none, []⟩ messages

end CueShell

import CueShell.Model.ScriptRunner
import Mathlib.Data.List.Perm.Basic

/-! # The order of messages and the result of a script run

Without a submit error the runner returns the exit code of its script whatever the order of the
messages. With one, the order decides: if the end of the script comes first, its exit code is returned
and the error is dropped; if the response comes first, the run fails.
-/

namespace CueShell

variable {env : RunnerEnv} {requestId : UInt32}

/-- The messages of a script run. -/
structure ScriptTraffic where
  scriptId : String
  submitError : Option ScriptSubmitError
  exitCode : ℤ
  others : List (String × ℤ)
  outputs : List OutputEvent
  apart : ∀ other ∈ others, other.1 ≠ scriptId

namespace ScriptTraffic

variable {traffic : ScriptTraffic}

def created (traffic : ScriptTraffic) (requestId : UInt32) : RunnerMessage :=
  .response requestId (.scriptCreated traffic.scriptId traffic.submitError)

def finished (traffic : ScriptTraffic) : RunnerMessage :=
  .scriptFinished traffic.scriptId traffic.exitCode

def messages (traffic : ScriptTraffic) (requestId : UInt32) : List RunnerMessage :=
  traffic.created requestId :: traffic.finished ::
    (traffic.others.map (fun (scriptId, exitCode) => .scriptFinished scriptId exitCode) ++
      traffic.outputs.map .output)

/-- Both runs fail, or both return the same exit code. -/
def SameOutcome (first second : Except String ℤ) : Prop := first.toOption = second.toOption

/-- The outcome is the same for every order of the messages. -/
def OrderIndependent (traffic : ScriptTraffic) (env : RunnerEnv) (requestId : UInt32) : Prop :=
  ∀ first second, first.Perm (traffic.messages requestId) → second.Perm (traffic.messages requestId) →
    SameOutcome (runWithClient env requestId first) (runWithClient env requestId second)

/-- Output that is decoded and printed without an error. -/
def Printable (env : RunnerEnv) (event : OutputEvent) : Prop := writeOutput env event = .ok ()

theorem mem_messages {message : RunnerMessage} (member : message ∈ traffic.messages requestId) :
    message = traffic.created requestId ∨ message = traffic.finished ∨
      (∃ other ∈ traffic.others, message = .scriptFinished other.1 other.2) ∨
      ∃ event ∈ traffic.outputs, message = .output event := by
  simp only [messages, List.mem_cons, List.mem_append, List.mem_map] at member
  rcases member with rfl | rfl | ⟨other, listed, rfl⟩ | ⟨event, listed, rfl⟩
  · exact .inl rfl
  · exact .inr (.inl rfl)
  · exact .inr (.inr (.inl ⟨other, listed, rfl⟩))
  · exact .inr (.inr (.inr ⟨event, listed, rfl⟩))

/-- What the loop knows of the script before it returns. -/
structure Awaits (traffic : ScriptTraffic) (requestId : UInt32) (state : RunnerState)
    (rest : List RunnerMessage) : Prop where
  scriptId : state.scriptId = none ∨ state.scriptId = some traffic.scriptId
  pending : ∀ entry ∈ state.pendingFinished, entry.1 = traffic.scriptId → entry.2 = traffic.exitCode
  created : state.scriptId = none → traffic.created requestId ∈ rest
  finished : traffic.finished ∈ rest ∨
    state.scriptId = none ∧ ∃ entry ∈ state.pendingFinished, entry.1 = traffic.scriptId

/-- The exit code of the script is returned from any point of the loop. -/
theorem runnerLoop_ok (submitted : traffic.submitError = none)
    (printable : ∀ event ∈ traffic.outputs, Printable env event) {state : RunnerState}
    {rest : List RunnerMessage} (known : ∀ message ∈ rest, message ∈ traffic.messages requestId)
    (awaits : traffic.Awaits requestId state rest) :
    runnerLoop env requestId state rest = .ok traffic.exitCode := by
  induction rest generalizing state with
  | nil =>
    rcases awaits.finished with here | ⟨unnamed, -⟩
    · exact absurd here List.not_mem_nil
    · exact absurd (awaits.created unnamed) List.not_mem_nil
  | cons message rest ih =>
    have later : ∀ other ∈ rest, other ∈ traffic.messages requestId :=
      fun other member => known other (List.mem_cons_of_mem _ member)
    have kinds := mem_messages (known message (List.mem_cons_self ..))
    rw [runnerLoop]
    rcases kinds with rfl | rfl | ⟨other, listed, rfl⟩ | ⟨event, listed, rfl⟩
    · cases found : state.pendingFinished.find? fun (ended, _) => ended = traffic.scriptId with
      | some entry =>
        have code := awaits.pending entry (List.mem_of_find?_eq_some found)
          (by simpa using List.find?_some found)
        simp [handleRunnerMessage, ScriptTraffic.created, found, code]
      | none =>
        have next : handleRunnerMessage env requestId state (traffic.created requestId) =
            .inr { state with scriptId := some traffic.scriptId } := by
          simp [handleRunnerMessage, ScriptTraffic.created, found, submitted]
        rw [next]
        refine ih later ⟨.inr rfl, awaits.pending, (absurd · (by simp)), ?_⟩
        rcases awaits.finished with here | ⟨-, entry, stored, same⟩
        · exact .inl (List.mem_of_ne_of_mem (by simp [ScriptTraffic.created, ScriptTraffic.finished]) here)
        · exact absurd same (by simpa using List.find?_eq_none.mp found entry stored)
    · by_cases named : state.scriptId = some traffic.scriptId
      · simp [handleRunnerMessage, ScriptTraffic.finished, named]
      · have unnamed : state.scriptId = none := awaits.scriptId.resolve_right named
        have next : handleRunnerMessage env requestId state traffic.finished =
            .inr (state.noteEnd traffic.scriptId traffic.exitCode) := by
          simp [handleRunnerMessage, ScriptTraffic.finished, unnamed, RunnerState.noteEnd]
        rw [next]
        refine ih later ⟨awaits.scriptId, ?_, fun _ => ?_, .inr ⟨unnamed, ?_⟩⟩
        · intro entry stored same
          rcases List.mem_append.mp stored with old | new
          · exact awaits.pending entry old same
          · rw [List.mem_singleton.mp new]
        · exact List.mem_of_ne_of_mem (by simp [ScriptTraffic.created, ScriptTraffic.finished])
            (awaits.created unnamed)
        · exact ⟨_, List.mem_append_right _ (List.mem_singleton_self _), rfl⟩
    · have foreign := traffic.apart other listed
      have elsewhere : state.scriptId ≠ some other.1 := by
        rcases awaits.scriptId with unnamed | named
        · simp [unnamed]
        · rw [named]
          exact fun same => foreign (Option.some.inj same).symm
      have next : handleRunnerMessage env requestId state (.scriptFinished other.1 other.2) =
          .inr (state.noteEnd other.1 other.2) := by
        simp [handleRunnerMessage, elsewhere, RunnerState.noteEnd]
      rw [next]
      refine ih later ⟨awaits.scriptId, ?_, fun unnamed => ?_, ?_⟩
      · intro entry stored same
        rcases List.mem_append.mp stored with old | new
        · exact awaits.pending entry old same
        · rw [List.mem_singleton.mp new] at same
          exact absurd same foreign
      · exact List.mem_of_ne_of_mem (by simp [ScriptTraffic.created]) (awaits.created unnamed)
      · rcases awaits.finished with here | ⟨unnamed, entry, stored, same⟩
        · refine .inl (List.mem_of_ne_of_mem ?_ here)
          simp [ScriptTraffic.finished, Ne.symm foreign]
        · exact .inr ⟨unnamed, entry, List.mem_append_left _ stored, same⟩
    · have printed : writeOutput env event = .ok () := printable event listed
      have next : handleRunnerMessage env requestId state (.output event) = .inr state := by
        simp only [handleRunnerMessage, printed]
      rw [next]
      refine ih later ⟨awaits.scriptId, awaits.pending, fun unnamed => ?_, ?_⟩
      · exact List.mem_of_ne_of_mem (by simp [ScriptTraffic.created]) (awaits.created unnamed)
      · exact awaits.finished.imp_left (List.mem_of_ne_of_mem (by simp [ScriptTraffic.finished]))

/-- Where the end of the script comes first and its response second, the exit code is returned. -/
theorem runWithClient_end_first (rest : List RunnerMessage) :
    runWithClient env requestId (traffic.finished :: traffic.created requestId :: rest) =
      .ok traffic.exitCode := by
  simp [runWithClient, runnerLoop, handleRunnerMessage, ScriptTraffic.finished, ScriptTraffic.created,
    RunnerState.noteEnd]

/-- Where the response comes first and names an error, the run fails. -/
theorem runWithClient_error_first {error : ScriptSubmitError} (failed : traffic.submitError = some error)
    (rest : List RunnerMessage) :
    (runWithClient env requestId (traffic.created requestId :: rest)).toOption = none := by
  simp [runWithClient, runnerLoop, handleRunnerMessage, ScriptTraffic.created, failed, Except.toOption]

theorem runWithClient_unprintable {event : OutputEvent} (fails : ¬ Printable env event)
    (rest : List RunnerMessage) :
    (runWithClient env requestId (.output event :: rest)).toOption = none := by
  cases printed : writeOutput env event with
  | ok done => exact absurd printed fails
  | error error => simp [runWithClient, runnerLoop, handleRunnerMessage, printed, Except.toOption]

theorem runWithClient_ok (submitted : traffic.submitError = none)
    (printable : ∀ event ∈ traffic.outputs, Printable env event) {order : List RunnerMessage}
    (same : order.Perm (traffic.messages requestId)) :
    runWithClient env requestId order = .ok traffic.exitCode := by
  apply runnerLoop_ok submitted printable (fun message => same.mem_iff.mp)
  refine ⟨.inl rfl, fun entry stored => absurd stored List.not_mem_nil, fun _ => ?_, .inl ?_⟩
  · exact same.mem_iff.mpr (List.mem_cons_self ..)
  · exact same.mem_iff.mpr (List.mem_cons_of_mem _ (List.mem_cons_self ..))

/-- The order of the messages does not matter if and only if there is no submit error and all output
can be printed. -/
theorem orderIndependent_iff (traffic : ScriptTraffic) (env : RunnerEnv) (requestId : UInt32) :
    traffic.OrderIndependent env requestId ↔
      traffic.submitError = none ∧ ∀ event ∈ traffic.outputs, Printable env event := by
  constructor
  · intro independent
    -- One order of the messages always succeeds.
    have succeeds (order : List RunnerMessage) (same : order.Perm (traffic.messages requestId)) :
        (runWithClient env requestId order).toOption = some traffic.exitCode := by
      have outcome := independent order _ same (List.Perm.swap ..)
      rwa [SameOutcome, runWithClient_end_first] at outcome
    refine ⟨?_, fun event listed => ?_⟩
    · cases failed : traffic.submitError with
      | none => rfl
      | some error =>
        have outcome := succeeds _ (.refl _)
        rw [messages, runWithClient_error_first failed] at outcome
        cases outcome
    · by_contra fails
      have member : RunnerMessage.output event ∈ traffic.messages requestId := by
        simp [messages, listed]
      have outcome := succeeds _ (List.perm_cons_erase member).symm
      rw [runWithClient_unprintable fails] at outcome
      cases outcome
  · rintro ⟨submitted, printable⟩ first second firstOrder secondOrder
    rw [SameOutcome, runWithClient_ok submitted printable firstOrder,
      runWithClient_ok submitted printable secondOrder]

/-- A script whose second item is refused reports its end and its response: which of them arrives first
decides between an exit code and an error. -/
theorem submit_error_depends_on_order :
    ¬ OrderIndependent
      ⟨"R1", some ⟨1, ":retry J9", "NOT_FOUND", "job J9 not found"⟩, -1, [], [], by simp⟩
      ⟨fun _ => .ok .empty, fun _ _ => .ok ()⟩ 1 := by
  intro independent
  have outcome := independent
    [.response 1 (.scriptCreated "R1" (some ⟨1, ":retry J9", "NOT_FOUND", "job J9 not found"⟩)),
      .scriptFinished "R1" (-1)]
    [.scriptFinished "R1" (-1),
      .response 1 (.scriptCreated "R1" (some ⟨1, ":retry J9", "NOT_FOUND", "job J9 not found"⟩))]
    (.refl _) (.swap ..)
  rw [SameOutcome] at outcome
  revert outcome
  decide

end ScriptTraffic

end CueShell

import CueShell.Proofs.SchedulerScriptWords

/-! # Scripts go on item by item

What happens to a script, in whatever order jobs end, chains are cancelled and other scripts go on, is one
word: its items are submitted one by one, each after the one before has ended with exit code zero, up to
the first item that does not. A script is reported to be done after its last item only, and the report of
a failure names the item at which the script broke off.
-/

namespace CueShell

variable {env : Env} {config : Config} {state : SchedulerState}

/-- What the log tells of a script is the word of a phase, and a script that has something left to do
waits for the item the phase names. -/
structure SchedulerState.ScriptStands (state : SchedulerState) (scriptId : ScriptId)
    (phase : ScriptPhase) : Prop where
  word : scriptLog scriptId state.log = phase.word scriptId
  valid : phase.Valid
  waits : phase.IsLive → ∃ script, state.pendingScripts.get scriptId = some script ∧
    script.InPhase phase

/-- Every script of a running scheduler stands in a phase. -/
theorem scripts_stand_in_phases (restored : Restored state) (isStarting : Bool) (wakes : List Wake)
    (still : (SchedulerLoop.history env config state isStarting wakes).stopped = false)
    (scriptId : ScriptId) : ∃ phase,
      (SchedulerLoop.history env config state isStarting wakes).state.ScriptStands scriptId phase := by
  have narrated : (SchedulerLoop.history env config state isStarting wakes).state.rest.Narrated :=
    restored.resting.narrated_turns restored.narrated
      (SchedulerLoop.history_turns restored isStarting wakes still)
  obtain ⟨phase, tells⟩ := narrated.tells scriptId
  refine ⟨phase, tells.word, tells.valid, fun live => ?_⟩
  rcases tells.live live with waiting | ⟨current, member, -⟩
  · obtain ⟨script, found⟩ := Option.isSome_iff_exists.mp waiting
    exact ⟨script, found, (tells.pending script found).1⟩
  · cases member

/-- A client runs the script `make`, `test`, `ship`; `test` fails. -/
def makeTestShip : List Wake :=
  let item (word : String) : ResolvedScriptItem :=
    ⟨word, .run (.leaf (.pipeline ⟨[⟨[word], none⟩]⟩)) {}⟩
  [.message (.connect 1 "s" false),
    .message (.eval 1 1 (.script .job (.file "all.cue") [item "make", item "test", item "ship"])),
    .message (.jobFinished 1 0), .message (.jobFinished 2 3)]

theorem scripts_stand_in_phases_make : ∃ phase,
    (SchedulerLoop.history Env.calm ⟨⟨[], []⟩, ⟨[]⟩, false, 10⟩ SchedulerState.new false
      makeTestShip).state.ScriptStands 1 phase :=
  scripts_stand_in_phases SchedulerState.new_restored false makeTestShip rfl 1

end CueShell

import CueShell.Proofs.SchedulerCourses

/-! # What the log tells of one script

The events of one script form a word: the script is started, and its items are submitted in order, each
after the one before has ended with exit code zero. The word stops at the first item that ends badly, is
rejected or is stopped, or after the last item.
-/

namespace CueShell

variable {target : Targets} {request : Option SpawnChainRequest} {config : Config}
variable {occasion : Occasion} {before after : Board} {scriptId : ScriptId}

/-- How an item keeps a script from going on. -/
inductive ScriptFailure where
  | failed (result : ScriptItemResult) (exitCode : ℤ)
  | rejected
  | stopped

/-- How far a script has come; the results of the items that passed are kept. -/
inductive ScriptPhase where
  | absent
  | between (count : ℕ) (passed : List ScriptItemResult)
  | waiting (count : ℕ) (passed : List ScriptItemResult)
  | broken (count : ℕ) (passed : List ScriptItemResult) (failure : ScriptFailure) (reported : Bool)
  | done (count : ℕ) (passed : List ScriptItemResult)

namespace ScriptFailure

def exitCode : ScriptFailure → ℤ
  | .failed _ exitCode => exitCode
  | .rejected | .stopped => exitCodeUnavailable

/-- The event that ends the item. -/
def event (scriptId : ScriptId) (index : ℕ) : ScriptFailure → SchedulerEvent
  | .failed result exitCode => .itemEnded scriptId (some index) result exitCode
  | .rejected => .itemRejected scriptId index
  | .stopped => .scriptStopped scriptId

end ScriptFailure

/-- The events of items that passed, from the given position on. -/
def passedEvents (scriptId : ScriptId) : ℕ → List ScriptItemResult → List SchedulerEvent
  | _, [] => []
  | index, result :: rest =>
      .itemSubmitted scriptId index :: .itemEnded scriptId (some index) result 0 ::
        passedEvents scriptId (index + 1) rest

namespace ScriptPhase

/-- The word of a script. -/
def word (scriptId : ScriptId) : ScriptPhase → List SchedulerEvent
  | absent => []
  | between count passed => .scriptStarted scriptId count :: passedEvents scriptId 0 passed
  | waiting count passed =>
      .scriptStarted scriptId count :: passedEvents scriptId 0 passed ++
        [.itemSubmitted scriptId passed.length]
  | broken count passed failure reported =>
      .scriptStarted scriptId count :: passedEvents scriptId 0 passed ++
        [.itemSubmitted scriptId passed.length, failure.event scriptId passed.length] ++
        if reported then [.scriptFinished scriptId failure.exitCode (some passed.length)] else []
  | done count passed =>
      .scriptStarted scriptId count :: passedEvents scriptId 0 passed ++
        [.scriptFinished scriptId 0 none]

/-- No more items pass than there are, and an item that fails does not exit with zero. -/
def Valid : ScriptPhase → Prop
  | absent => True
  | between count passed => passed.length ≤ count
  | waiting count passed => passed.length < count
  | broken count passed failure _ => passed.length < count ∧ ∀ result, failure ≠ .failed result 0
  | done count passed => passed.length = count

/-- The script has something left to do. -/
def IsLive : ScriptPhase → Prop
  | between count passed => passed.length < count
  | waiting _ _ => True
  | broken _ _ .stopped reported => reported = false
  | absent | broken _ _ _ _ | done _ _ => False

end ScriptPhase

/-- An event of a script. -/
def SchedulerEvent.about (scriptId : ScriptId) : SchedulerEvent → Bool
  | .scriptStarted id _ | .itemSubmitted id _ | .itemRejected id _ | .itemEnded id _ _ _
  | .scriptStopped id | .scriptFinished id _ _ => id = scriptId
  | _ => false

/-- What the log tells of one script. -/
def scriptLog (scriptId : ScriptId) (log : List SchedulerEvent) : List SchedulerEvent :=
  log.filter (SchedulerEvent.about scriptId)

theorem scriptLog_append (scriptId : ScriptId) (first second : List SchedulerEvent) :
    scriptLog scriptId (first ++ second) = scriptLog scriptId first ++ scriptLog scriptId second :=
  List.filter_append ..

theorem passedEvents_append (scriptId : ScriptId) (index : ℕ) (passed : List ScriptItemResult)
    (result : ScriptItemResult) : passedEvents scriptId index (passed ++ [result]) =
      passedEvents scriptId index passed ++ [.itemSubmitted scriptId (index + passed.length),
        .itemEnded scriptId (some (index + passed.length)) result 0] := by
  induction passed generalizing index with
  | nil => simp [passedEvents]
  | cons first rest ih => simp [passedEvents, ih, Nat.add_comm, Nat.add_left_comm]

/-- A script that is under way, in a phase. -/
inductive RunningScript.InPhase (current : RunningScript) : ScriptPhase → Prop
  | idle (passed : List ScriptItemResult) (mode : current.mode = .idle)
      (next : current.script.nextIndex = passed.length) :
      InPhase current (.between (passed.length + current.script.items.length) passed)
  | busy (passed : List ScriptItemResult) (mode : current.mode = .busy)
      (next : current.script.nextIndex = passed.length + 1) :
      InPhase current (.waiting (passed.length + 1 + current.script.items.length) passed)
  | stopped (count : ℕ) (passed : List ScriptItemResult) (mode : current.mode = .stopped)
      (inside : passed.length < count) (index : current.script.waitingIndex = some passed.length) :
      InPhase current (.broken count passed .stopped false)

/-- A script that waits for an item, in a phase. -/
inductive PendingScriptRun.InPhase (script : PendingScriptRun) : ScriptPhase → Prop
  | waiting (passed : List ScriptItemResult) (next : script.nextIndex = passed.length + 1)
      (index : script.waitingIndex = some passed.length) :
      InPhase script (.waiting (passed.length + 1 + script.items.length) passed)

/-- One script is where the log says. -/
structure Board.Tells (board : Board) (scriptId : ScriptId) (phase : ScriptPhase) : Prop where
  word : scriptLog scriptId board.log = phase.word scriptId
  valid : phase.Valid
  fresh : board.nextScript ≤ scriptId → phase = .absent
  pending : ∀ script, board.pendingScripts.get scriptId = some script →
    script.InPhase phase ∧ script.lastExitCode = 0
  running : ∀ current ∈ board.running, current.script.scriptId = scriptId →
    current.InPhase phase ∧ current.script.lastExitCode = 0
  live : phase.IsLive → (board.pendingScripts.get scriptId).isSome ∨
    ∃ current ∈ board.running, current.script.scriptId = scriptId

/-- Every script is where the log says, and is at one place only. -/
structure Board.Narrated (board : Board) : Prop where
  tells : ∀ scriptId, ∃ phase, board.Tells scriptId phase
  distinct : (board.running.map fun current => current.script.scriptId).Nodup
  apart : ∀ current ∈ board.running, board.pendingScripts.get current.script.scriptId = none

/-- Events that tell of no script are added. -/
abbrev Board.Silent (before after : Board) : Prop :=
  Board.Adds (fun event => ∀ scriptId, event.about scriptId = false) before after

theorem Board.Step.silent (step : Board.Step target request before after) : before.Silent after := by
  have quiet (event : SchedulerEvent) (isMove : event.isMove) (scriptId : ScriptId) :
      event.about scriptId = false := by
    cases event <;> first | rfl | cases isMove
  cases step with
  | move change => exact change.adds.mono quiet
  | spawn => exact ⟨_, rfl, by simp [SchedulerEvent.about]⟩
  | enterJob => exact ⟨_, rfl, by simp [SchedulerEvent.about]⟩
  | parkJob => exact ⟨_, rfl, by simp [SchedulerEvent.about]⟩
  | activate => exact ⟨_, rfl, by simp [SchedulerEvent.about]⟩
  | close => exact ⟨_, rfl, by simp [SchedulerEvent.about]⟩
  | fault => exact ⟨_, rfl, by simp [SchedulerEvent.about]⟩
  | _ => exact .of_eq rfl

theorem scriptLog_silent {events : List SchedulerEvent}
    (silent : ∀ event ∈ events, event.about scriptId = false) : scriptLog scriptId events = [] := by
  refine List.filter_eq_nil_iff.mpr fun event member => ?_
  simp [silent event member]

namespace Board.Tells

variable {phase : ScriptPhase}

/-- Nothing about the script changes. -/
theorem congr (tells : before.Tells scriptId phase)
    (log : scriptLog scriptId after.log = scriptLog scriptId before.log)
    (nextScript : before.nextScript ≤ after.nextScript)
    (pending : after.pendingScripts.get scriptId = before.pendingScripts.get scriptId)
    (running : ∀ current, current.script.scriptId = scriptId →
      (current ∈ after.running ↔ current ∈ before.running)) : after.Tells scriptId phase where
  word := log.trans tells.word
  valid := tells.valid
  fresh new := tells.fresh (nextScript.trans new)
  pending script found := tells.pending script (pending ▸ found)
  running current member same := tells.running current ((running current same).mp member) same
  live isLive := by
    rw [pending]
    refine (tells.live isLive).imp_right ?_
    rintro ⟨current, member, same⟩
    exact ⟨current, (running current same).mpr member, same⟩

end Board.Tells

namespace Board.Narrated

/-- Nothing about scripts changes. -/
theorem aside (narrated : before.Narrated) (silent : before.Silent after)
    (nextScript : before.nextScript ≤ after.nextScript)
    (pending : after.pendingScripts = before.pendingScripts) (running : after.running = before.running) :
    after.Narrated where
  tells scriptId := by
    obtain ⟨phase, tells⟩ := narrated.tells scriptId
    obtain ⟨events, log, quiet⟩ := silent
    refine ⟨phase, tells.congr ?_ nextScript (by rw [pending]) (fun _ _ => by rw [running])⟩
    rw [log, scriptLog_append, scriptLog_silent fun event member => quiet event member scriptId,
      List.append_nil]
  distinct := by
    rw [running]
    exact narrated.distinct
  apart := by
    rw [running, pending]
    exact narrated.apart

end Board.Narrated

/-- One script is on the move: the events are its own, and the scripts below it stay under way. -/
structure Board.Concerns (before after : Board) (scriptId : ScriptId) (outer : List RunningScript)
    (events : List SchedulerEvent) : Prop where
  log : after.log = before.log ++ events
  about : ∀ event ∈ events, event.about scriptId = true
  nextScript : before.nextScript ≤ after.nextScript
  known : scriptId < after.nextScript
  pending : ∀ other, other ≠ scriptId → after.pendingScripts.get other = before.pendingScripts.get other
  running : ∀ current, current.script.scriptId ≠ scriptId →
    (current ∈ outer ↔ current ∈ before.running)
  absent : ∀ current ∈ outer, current.script.scriptId ≠ scriptId
  distinct : (outer.map fun current => current.script.scriptId).Nodup

namespace Board.Concerns

variable {outer : List RunningScript} {events : List SchedulerEvent} {phase next : ScriptPhase}

/-- The script on top of the stack. -/
theorem top (narrated : before.Narrated) {script : PendingScriptRun} {mode : ScriptMode}
    (current : before.running = ⟨script, mode⟩ :: outer) (orderly : before.Orderly)
    (log : after.log = before.log ++ events)
    (about : ∀ event ∈ events, event.about script.scriptId = true)
    (nextScript : after.nextScript = before.nextScript)
    (pending : ∀ other, other ≠ script.scriptId →
      after.pendingScripts.get other = before.pendingScripts.get other) :
    before.Concerns after script.scriptId outer events := by
  have distinct := narrated.distinct
  rw [current, List.map_cons, List.nodup_cons] at distinct
  refine ⟨log, about, nextScript.ge, ?_, pending, ?_, ?_, distinct.2⟩
  · rw [nextScript]
    exact orderly.running ⟨script, mode⟩ (by simp [current])
  · intro other different
    rw [current, List.mem_cons]
    refine (or_iff_right ?_).symm
    rintro rfl
    exact different rfl
  · exact fun other member same => distinct.1 (List.mem_map.mpr ⟨other, member, same⟩)

/-- A script that waits. -/
theorem waits (narrated : before.Narrated) {script : PendingScriptRun}
    (found : before.pendingScripts.get scriptId = some script) (orderly : before.Orderly)
    (log : after.log = before.log ++ events)
    (about : ∀ event ∈ events, event.about scriptId = true)
    (nextScript : after.nextScript = before.nextScript)
    (pending : after.pendingScripts = before.pendingScripts.erase scriptId) :
    before.Concerns after scriptId before.running events := by
  refine ⟨log, about, nextScript.ge, ?_, ?_, fun _ _ => Iff.rfl, ?_, narrated.distinct⟩
  · rw [nextScript]
    exact (orderly.scripts scriptId script found).2
  · intro other different
    rw [pending, Table.get_erase, if_neg different]
  · intro current member same
    have apart := narrated.apart current member
    rw [same, found] at apart
    cases apart

theorem word (concerns : before.Concerns after scriptId outer events)
    (tells : before.Tells scriptId phase) : scriptLog scriptId after.log = phase.word scriptId ++ events := by
  rw [concerns.log, scriptLog_append, tells.word]
  congr 1
  exact List.filter_eq_self.mpr concerns.about

/-- Every script is where the log says when the one on the move is. -/
theorem narrated (concerns : before.Concerns after scriptId outer events) (narrated : before.Narrated)
    (here : after.Tells scriptId next)
    (running : ∀ current, current.script.scriptId ≠ scriptId →
      (current ∈ after.running ↔ current ∈ outer))
    (distinct : (after.running.map fun current => current.script.scriptId).Nodup)
    (apart : ∀ current ∈ after.running, current.script.scriptId = scriptId →
      after.pendingScripts.get scriptId = none) : after.Narrated where
  tells other := by
    by_cases same : other = scriptId
    · exact same ▸ ⟨next, here⟩
    · obtain ⟨earlier, tells⟩ := narrated.tells other
      have silent : scriptLog other events = [] := by
        refine scriptLog_silent fun event member => ?_
        have mine := concerns.about event member
        cases event with
        | scriptStarted | itemSubmitted | itemRejected | itemEnded | scriptStopped | scriptFinished =>
          simp only [SchedulerEvent.about, decide_eq_true_eq] at mine
          simpa [SchedulerEvent.about, mine] using Ne.symm same
        | _ => cases mine
      refine ⟨earlier, tells.congr ?_ concerns.nextScript (concerns.pending other same) ?_⟩
      · rw [concerns.log, scriptLog_append, silent, List.append_nil]
      · intro current named
        have different : current.script.scriptId ≠ scriptId := named ▸ same
        exact (running current different).trans (concerns.running current different)
  distinct := distinct
  apart current member := by
    by_cases same : current.script.scriptId = scriptId
    · rw [same]
      exact apart current member same
    · rw [concerns.pending _ same]
      exact narrated.apart current
        ((concerns.running current same).mp ((running current same).mp member))

/-- The script is under way afterwards. -/
theorem goes (concerns : before.Concerns after scriptId outer events) (narrated : before.Narrated)
    (tells : before.Tells scriptId phase) {later : RunningScript}
    (running : after.running = later :: outer) (named : later.script.scriptId = scriptId)
    (gone : after.pendingScripts.get scriptId = none)
    (word : phase.word scriptId ++ events = next.word scriptId) (valid : next.Valid)
    (inPhase : later.InPhase next) (passing : later.script.lastExitCode = 0) : after.Narrated := by
  have here : after.Tells scriptId next := by
    refine ⟨(concerns.word tells).trans word, valid, ?_, ?_, ?_, ?_⟩
    · exact fun new => absurd concerns.known (Nat.not_lt.mpr new)
    · intro script found
      cases found.symm.trans gone
    · intro current member same
      rw [running] at member
      rcases List.mem_cons.mp member with rfl | below
      · exact ⟨inPhase, passing⟩
      · exact absurd same (concerns.absent current below)
    · exact fun _ => .inr ⟨later, by simp [running], named⟩
  refine concerns.narrated narrated here ?_ ?_ fun _ _ _ => gone
  · intro current different
    rw [running, List.mem_cons]
    refine or_iff_right ?_
    rintro rfl
    exact different named
  · rw [running, List.map_cons, List.nodup_cons, named]
    refine ⟨fun member => ?_, concerns.distinct⟩
    obtain ⟨current, below, same⟩ := List.mem_map.mp member
    exact concerns.absent current below same

/-- The script is over afterwards. -/
theorem leaves (concerns : before.Concerns after scriptId outer events) (narrated : before.Narrated)
    (tells : before.Tells scriptId phase) (running : after.running = outer)
    (gone : after.pendingScripts.get scriptId = none)
    (word : phase.word scriptId ++ events = next.word scriptId) (valid : next.Valid)
    (ended : ¬ next.IsLive) : after.Narrated := by
  have here : after.Tells scriptId next := by
    refine ⟨(concerns.word tells).trans word, valid, ?_, ?_, ?_, fun live => absurd live ended⟩
    · exact fun new => absurd concerns.known (Nat.not_lt.mpr new)
    · intro script found
      cases found.symm.trans gone
    · intro current member same
      exact absurd same (concerns.absent current (running ▸ member))
  refine concerns.narrated narrated here ?_ ?_ fun _ _ _ => gone
  · exact fun current _ => by rw [running]
  · rw [running]
    exact concerns.distinct

/-- The script waits afterwards. -/
theorem parks (concerns : before.Concerns after scriptId outer []) (narrated : before.Narrated)
    (tells : before.Tells scriptId phase) (running : after.running = outer) {later : PendingScriptRun}
    (found : after.pendingScripts.get scriptId = some later) (inPhase : later.InPhase phase)
    (passing : later.lastExitCode = 0) : after.Narrated := by
  have here : after.Tells scriptId phase := by
    refine ⟨(concerns.word tells).trans (List.append_nil _), tells.valid, ?_, ?_, ?_, ?_⟩
    · exact fun new => absurd concerns.known (Nat.not_lt.mpr new)
    · intro script known
      cases found.symm.trans known
      exact ⟨inPhase, passing⟩
    · intro current member same
      exact absurd same (concerns.absent current (running ▸ member))
    · exact fun _ => .inl (by simp [found])
  refine concerns.narrated narrated here ?_ ?_ ?_
  · exact fun current _ => by rw [running]
  · rw [running]
    exact concerns.distinct
  · intro current member same
    exact absurd same (concerns.absent current (running ▸ member))

end Board.Concerns

namespace RunningScript.InPhase

variable {script : PendingScriptRun} {phase : ScriptPhase}

theorem of_idle (inPhase : RunningScript.InPhase ⟨script, .idle⟩ phase) : ∃ passed,
    phase = .between (passed.length + script.items.length) passed ∧ script.nextIndex = passed.length := by
  cases inPhase with
  | idle passed mode next => exact ⟨passed, rfl, next⟩
  | busy passed mode => cases mode
  | stopped count passed mode => cases mode

theorem of_busy (inPhase : RunningScript.InPhase ⟨script, .busy⟩ phase) : ∃ passed,
    phase = .waiting (passed.length + 1 + script.items.length) passed ∧
      script.nextIndex = passed.length + 1 := by
  cases inPhase with
  | idle passed mode => cases mode
  | busy passed mode next => exact ⟨passed, rfl, next⟩
  | stopped count passed mode => cases mode

theorem of_stopped (inPhase : RunningScript.InPhase ⟨script, .stopped⟩ phase) : ∃ count passed,
    phase = .broken count passed .stopped false ∧ passed.length < count ∧
      script.waitingIndex = some passed.length := by
  cases inPhase with
  | idle passed mode => cases mode
  | busy passed mode => cases mode
  | stopped count passed mode inside index => exact ⟨count, passed, rfl, inside, index⟩

/-- The item has passed, and the script stands before the next one. -/
theorem passed {later : PendingScriptRun} {passed : List ScriptItemResult} {result : ScriptItemResult}
    (next : script.nextIndex = passed.length + 1) (same : script.Same later) :
    RunningScript.InPhase ⟨later, .idle⟩
      (.between (passed.length + 1 + script.items.length) (passed ++ [result])) := by
  have length : (passed ++ [result]).length = passed.length + 1 := by simp
  have idle : RunningScript.InPhase ⟨later, .idle⟩
      (.between ((passed ++ [result]).length + later.items.length) (passed ++ [result])) :=
    .idle _ rfl (same.nextIndex.trans (next.trans length.symm))
  rwa [length, same.items] at idle

end RunningScript.InPhase

/-- A script that waits has submitted one item more than have passed. -/
theorem PendingScriptRun.InPhase.elim {script : PendingScriptRun} {phase : ScriptPhase}
    (inPhase : script.InPhase phase) : ∃ passed,
      phase = .waiting (passed.length + 1 + script.items.length) passed ∧
        script.nextIndex = passed.length + 1 ∧ script.waitingIndex = some passed.length := by
  cases inPhase with
  | waiting passed next index => exact ⟨passed, rfl, next, index⟩

section Words

variable (scriptId : ScriptId) (count : ℕ) (passed : List ScriptItemResult)

theorem ScriptPhase.word_submit : (between count passed).word scriptId ++
    [.itemSubmitted scriptId passed.length] = (waiting count passed).word scriptId := rfl

theorem ScriptPhase.word_pass (result : ScriptItemResult) : (waiting count passed).word scriptId ++
    [.itemEnded scriptId (some passed.length) result 0] =
      (between count (passed ++ [result])).word scriptId := by
  simp [word, passedEvents_append]

theorem ScriptPhase.word_break (failure : ScriptFailure) (reported : Bool) :
    (waiting count passed).word scriptId ++ (failure.event scriptId passed.length ::
      if reported then [.scriptFinished scriptId failure.exitCode (some passed.length)] else []) =
      (broken count passed failure reported).word scriptId := by
  simp [word]

theorem ScriptPhase.word_report : (broken count passed .stopped false).word scriptId ++
    [.scriptFinished scriptId exitCodeUnavailable (some passed.length)] =
      (broken count passed .stopped true).word scriptId := by
  simp [word, ScriptFailure.exitCode]

theorem ScriptPhase.word_done : (between count passed).word scriptId ++
    [.scriptFinished scriptId 0 none] = (done count passed).word scriptId := rfl

end Words

namespace Board.Narrated

/-- The item on which a script waits keeps it from going on. -/
theorem breaks (narrated : before.Narrated) {outer : List RunningScript} {script : PendingScriptRun}
    {index : ℕ} (current : before.running = ⟨script, .busy⟩ :: outer) (orderly : before.Orderly)
    (position : script.nextIndex = index + 1) (failure : ScriptFailure)
    (failed : ∀ result, failure ≠ .failed result 0) (unfinished : failure ≠ .stopped)
    (report : List SchedulerEvent) (reported : report = [] ∨
      report = [.scriptFinished script.scriptId failure.exitCode (some index)]) :
    ((before.note (failure.event script.scriptId index :: report)).withRunning outer).Narrated := by
  obtain ⟨phase, tells⟩ := narrated.tells script.scriptId
  have member : ⟨script, .busy⟩ ∈ before.running := by simp [current]
  obtain ⟨passed, rfl, next⟩ := (tells.running _ member rfl).1.of_busy
  obtain rfl : index = passed.length := Nat.succ_injective (position.symm.trans next)
  have valid := tells.valid
  have apart := narrated.apart _ member
  have about : ∀ event ∈ failure.event script.scriptId passed.length :: report,
      event.about script.scriptId = true := by
    have ofFailure : (failure.event script.scriptId passed.length).about script.scriptId = true := by
      cases failure <;> exact decide_eq_true rfl
    rcases reported with rfl | rfl
    · simpa using ofFailure
    · simpa [SchedulerEvent.about] using ofFailure
  have concerns : before.Concerns ((before.note
      (failure.event script.scriptId passed.length :: report)).withRunning outer) script.scriptId outer
        (failure.event script.scriptId passed.length :: report) :=
    .top narrated current orderly rfl about rfl fun _ _ => rfl
  have ended : ¬ ScriptPhase.IsLive (.broken (passed.length + 1 + script.items.length) passed failure
      (report ≠ [])) := by
    intro live
    cases failure with
    | stopped => exact unfinished rfl
    | _ => exact live
  have word := ScriptPhase.word_break script.scriptId (passed.length + 1 + script.items.length) passed
    failure (report ≠ [])
  refine concerns.leaves narrated tells rfl apart (Eq.trans ?_ word) ⟨valid, failed⟩ ended
  rcases reported with rfl | rfl <;> simp

theorem flow (narrated : before.Narrated) (orderly : before.Orderly)
    (flow : Board.Flow config occasion before after) : after.Narrated := by
  cases flow with
  | step permitted change =>
    exact narrated.aside change.silent change.apart.nextScript.ge change.apart.pendingScripts
      change.apart.running
  | skip => exact narrated.aside (.of_eq rfl) (Nat.le_succ _) rfl rfl
  | start isOpen script fresh owner =>
    obtain ⟨phase, tells⟩ := narrated.tells script.scriptId
    have new : before.nextScript ≤ script.scriptId := fresh.scriptId.ge
    obtain rfl := tells.fresh new
    have absent : ∀ current ∈ before.running, current.script.scriptId ≠ script.scriptId :=
      fun current member same => absurd (orderly.running current member) (Nat.not_lt.mpr (same ▸ new))
    have gone : before.pendingScripts.get script.scriptId = none := by
      by_contra found
      obtain ⟨other, found⟩ := Option.ne_none_iff_exists'.mp found
      exact absurd (orderly.scripts _ _ found).2 (Nat.not_lt.mpr new)
    have concerns : before.Concerns { before.note
        [.scriptStarted script.scriptId script.items.length] with
        nextScript := before.nextScript + 1
        running := ⟨script, .idle⟩ :: before.running } script.scriptId before.running
          [.scriptStarted script.scriptId script.items.length] :=
      ⟨rfl, by simp [SchedulerEvent.about], Nat.le_succ _, fresh.scriptId ▸ Nat.lt_succ_self _,
        fun _ _ => rfl, fun _ _ => Iff.rfl, absent, narrated.distinct⟩
    have idle : RunningScript.InPhase ⟨script, .idle⟩ (.between (0 + script.items.length) []) :=
      .idle [] rfl fresh.nextIndex
    rw [Nat.zero_add] at idle
    exact concerns.goes narrated tells rfl rfl gone rfl (Nat.zero_le _) idle fresh.lastExitCode
  | @submit script outer item items current next =>
    obtain ⟨phase, tells⟩ := narrated.tells script.scriptId
    have member : ⟨script, .idle⟩ ∈ before.running := by simp [current]
    obtain ⟨inPhase, passing⟩ := tells.running _ member rfl
    obtain ⟨passed, rfl, position⟩ := inPhase.of_idle
    have length : passed.length + script.items.length = passed.length + 1 + items.length := by
      rw [next, List.length_cons]
      omega
    rw [length] at tells
    have concerns : before.Concerns ((before.note
        [.itemSubmitted script.scriptId script.nextIndex]).withRunning
          (⟨{ script with items := items, nextIndex := script.nextIndex + 1 }, .busy⟩ :: outer))
        script.scriptId outer [.itemSubmitted script.scriptId script.nextIndex] :=
      .top narrated current orderly rfl (by simp [SchedulerEvent.about]) rfl fun _ _ => rfl
    have busy : RunningScript.InPhase
        ⟨{ script with items := items, nextIndex := script.nextIndex + 1 }, .busy⟩
        (.waiting (passed.length + 1 + items.length) passed) :=
      .busy passed rfl (congrArg (· + 1) position)
    refine concerns.goes narrated tells rfl rfl (narrated.apart _ member) ?_ ?_ busy passing
    · rw [position]
      exact ScriptPhase.word_submit ..
    · exact Nat.lt_of_lt_of_le (Nat.lt_succ_self _) (Nat.le_add_right _ _)
  | @pass script later outer index result current position ended same =>
    obtain ⟨phase, tells⟩ := narrated.tells script.scriptId
    have member : ⟨script, .busy⟩ ∈ before.running := by simp [current]
    obtain ⟨inPhase, passing⟩ := tells.running _ member rfl
    obtain ⟨passed, rfl, next⟩ := inPhase.of_busy
    obtain rfl : index = passed.length := Nat.succ_injective (position.symm.trans next)
    have concerns : before.Concerns ((before.note
        [.itemEnded script.scriptId (some passed.length) result 0]).withRunning
          (⟨later, .idle⟩ :: outer))
        script.scriptId outer [.itemEnded script.scriptId (some passed.length) result 0] :=
      .top narrated current orderly rfl (by simp [SchedulerEvent.about]) rfl fun _ _ => rfl
    refine concerns.goes narrated tells rfl same.scriptId (narrated.apart _ member)
      (ScriptPhase.word_pass ..) ?_ (.passed next same) (same.lastExitCode.elim id (·.trans passing))
    simp [ScriptPhase.Valid]
  | fail current position ended failed report reported =>
    exact narrated.breaks current orderly position (.failed _ _) (by simpa using failed) nofun report
      reported
  | reject current position report reported =>
    exact narrated.breaks current orderly position .rejected nofun nofun report reported
  | @done script outer current last report reported =>
    obtain ⟨phase, tells⟩ := narrated.tells script.scriptId
    have member : ⟨script, .idle⟩ ∈ before.running := by simp [current]
    obtain ⟨inPhase, passing⟩ := tells.running _ member rfl
    obtain ⟨passed, rfl, position⟩ := inPhase.of_idle
    have all : passed.length + script.items.length = passed.length := by simp [last]
    rw [all] at tells
    have apart := narrated.apart _ member
    rcases reported with rfl | rfl
    · have concerns : before.Concerns ((before.note []).withRunning outer) script.scriptId outer [] :=
        .top narrated current orderly rfl (by simp) rfl fun _ _ => rfl
      exact concerns.leaves narrated tells rfl apart (List.append_nil _) tells.valid (Nat.lt_irrefl _)
    · have passing : script.lastExitCode = 0 := passing
      have concerns : before.Concerns ((before.note
          [.scriptFinished script.scriptId script.lastExitCode none]).withRunning outer)
          script.scriptId outer [.scriptFinished script.scriptId script.lastExitCode none] :=
        .top narrated current orderly rfl (by simp [SchedulerEvent.about]) rfl fun _ _ => rfl
      rw [passing] at concerns ⊢
      exact concerns.leaves narrated tells rfl apart (ScriptPhase.word_done ..) rfl id
  | @suspend script later outer index result current position waits same waiting =>
    obtain ⟨phase, tells⟩ := narrated.tells script.scriptId
    have member : ⟨script, .busy⟩ ∈ before.running := by simp [current]
    obtain ⟨inPhase, passing⟩ := tells.running _ member rfl
    obtain ⟨passed, rfl, next⟩ := inPhase.of_busy
    obtain rfl : index = passed.length := Nat.succ_injective (position.symm.trans next)
    have others (other : ScriptId) (different : other ≠ script.scriptId) :
        (before.pendingScripts.insert script.scriptId later).get other =
          before.pendingScripts.get other :=
      (Table.get_insert ..).trans (if_neg different)
    have concerns : before.Concerns { before.link script.scriptId result with
        pendingScripts := before.pendingScripts.insert script.scriptId later
        running := outer } script.scriptId outer [] := by
      refine .top narrated current orderly ?_ (by simp) ?_ others
      · exact (Board.log_link ..).trans (List.append_nil _).symm
      · cases result <;> rfl
    have parked : later.InPhase (.waiting (passed.length + 1 + later.items.length) passed) :=
      .waiting passed (same.nextIndex.trans next) waiting
    rw [same.items] at parked
    exact concerns.parks narrated tells rfl ((Table.get_insert ..).trans (if_pos rfl)) parked
      (same.lastExitCode.elim id (·.trans passing))
  | unlink result =>
    obtain ⟨jobs, chains, eq⟩ := before.unlink_eq result
    rw [eq]
    exact narrated.aside (.of_eq rfl) le_rfl rfl rfl
  | @resume scriptId script later result link found ended same =>
    obtain ⟨phase, tells⟩ := narrated.tells scriptId
    obtain ⟨inPhase, passing⟩ := tells.pending script found
    obtain ⟨passed, rfl, next, index⟩ := inPhase.elim
    obtain rfl : script.scriptId = scriptId := (orderly.scripts scriptId script found).1
    obtain ⟨jobs, chains, eq⟩ := before.unlink_eq result
    rw [eq, index]
    have concerns : before.Concerns { ({ before with
        pendingScriptJobs := jobs, pendingScriptChains := chains } : Board).note
          [.itemEnded script.scriptId (some passed.length) result 0] with
        pendingScripts := before.pendingScripts.erase script.scriptId
        running := ⟨later, .idle⟩ :: before.running } script.scriptId before.running
          [.itemEnded script.scriptId (some passed.length) result 0] :=
      .waits narrated found orderly rfl (by simp [SchedulerEvent.about]) rfl rfl
    refine concerns.goes narrated tells rfl same.scriptId ((Table.get_erase ..).trans (if_pos rfl))
      (ScriptPhase.word_pass ..) ?_ (.passed next same) (same.lastExitCode.elim id (·.trans passing))
    simp [ScriptPhase.Valid]
  | @abort scriptId script result exitCode link found ended failed =>
    obtain ⟨phase, tells⟩ := narrated.tells scriptId
    obtain ⟨inPhase, passing⟩ := tells.pending script found
    obtain ⟨passed, rfl, next, index⟩ := inPhase.elim
    obtain rfl : script.scriptId = scriptId := (orderly.scripts scriptId script found).1
    obtain ⟨jobs, chains, eq⟩ := before.unlink_eq result
    rw [eq, index]
    have concerns : before.Concerns { ({ before with
        pendingScriptJobs := jobs, pendingScriptChains := chains } : Board).note
          [.itemEnded script.scriptId (some passed.length) result exitCode,
            .scriptFinished script.scriptId exitCode (some passed.length)] with
        pendingScripts := before.pendingScripts.erase script.scriptId } script.scriptId before.running
          [.itemEnded script.scriptId (some passed.length) result exitCode,
            .scriptFinished script.scriptId exitCode (some passed.length)] :=
      .waits narrated found orderly rfl (by simp [SchedulerEvent.about]) rfl rfl
    have word := ScriptPhase.word_break script.scriptId (passed.length + 1 + script.items.length) passed
      (.failed result exitCode) true
    refine concerns.leaves narrated tells rfl ((Table.get_erase ..).trans (if_pos rfl)) word
      ⟨tells.valid, ?_⟩ id
    simpa using failed
  | @stop scriptId script currentJob currentChain found job chain =>
    obtain ⟨phase, tells⟩ := narrated.tells scriptId
    obtain ⟨inPhase, passing⟩ := tells.pending script found
    obtain ⟨passed, rfl, next, index⟩ := inPhase.elim
    obtain rfl : script.scriptId = scriptId := (orderly.scripts scriptId script found).1
    have concerns : before.Concerns { before.note [.scriptStopped script.scriptId] with
        pendingScripts := before.pendingScripts.erase script.scriptId
        pendingScriptJobs := currentJob.elim before.pendingScriptJobs before.pendingScriptJobs.erase
        pendingScriptChains :=
          currentChain.elim before.pendingScriptChains before.pendingScriptChains.erase
        running := ⟨script, .stopped⟩ :: before.running } script.scriptId before.running
          [.scriptStopped script.scriptId] :=
      .waits narrated found orderly rfl (by simp [SchedulerEvent.about]) rfl rfl
    exact concerns.goes narrated tells rfl rfl ((Table.get_erase ..).trans (if_pos rfl))
      (ScriptPhase.word_break _ _ passed .stopped false) ⟨tells.valid, nofun⟩
      (.stopped _ passed rfl tells.valid index) passing
  | @report script outer current =>
    obtain ⟨phase, tells⟩ := narrated.tells script.scriptId
    have member : ⟨script, .stopped⟩ ∈ before.running := by simp [current]
    obtain ⟨count, passed, rfl, inside, index⟩ := (tells.running _ member rfl).1.of_stopped
    rw [index]
    have concerns : before.Concerns ((before.note
        [.scriptFinished script.scriptId exitCodeUnavailable (some passed.length)]).withRunning outer)
        script.scriptId outer
          [.scriptFinished script.scriptId exitCodeUnavailable (some passed.length)] :=
      .top narrated current orderly rfl (by simp [SchedulerEvent.about]) rfl fun _ _ => rfl
    exact concerns.leaves narrated tells rfl (narrated.apart _ member)
      (ScriptPhase.word_report ..) ⟨inside, nofun⟩ nofun
  | crons | scope | defaults | prune | forget => exact narrated.aside (.of_eq rfl) le_rfl rfl rfl
  | _ => exact narrated.aside ⟨_, rfl, by simp [SchedulerEvent.about]⟩ le_rfl rfl rfl

theorem flows (narrated : before.Narrated) (orderly : before.Orderly)
    (flows : Board.Flows config occasion before after) : after.Narrated := by
  induction flows with
  | refl => exact narrated
  | tail path flow ih => exact ih.flow (orderly.flows path) flow

end Board.Narrated

variable {env : Env} {isOpen : Bool} {state later : SchedulerState}

theorem SchedulerState.Resting.narrated_turns (resting : state.Resting) (narrated : state.rest.Narrated)
    (turns : Turns env config isOpen state later) : later.rest.Narrated := by
  induction turns with
  | refl => exact narrated
  | tail path turn ih =>
    rcases turn.kinds with ⟨occasion, round⟩ | ⟨sessions, question, rfl⟩
    · exact ih.flows (resting.turns path).orderly round.flows
    · exact ih.aside (.of_eq rfl) le_rfl rfl rfl

theorem Restored.narrated (restored : Restored state) : state.rest.Narrated := by
  have log : state.rest.log = [] := restored.log
  have pending : state.rest.pendingScripts = .empty := restored.pendingScripts
  refine ⟨fun scriptId => ⟨.absent, ?_, trivial, fun _ => rfl, ?_, nofun, nofun⟩, List.nodup_nil, nofun⟩
  · rw [log]
    rfl
  · rw [pending]
    intro script found
    cases found

end CueShell

import CueShell.Model.Scheduler.Execution
import CueShell.Model.ScopeStore
import CueShell.Model.WordExpansion

/-! # Jobs with logical operators

The process manager evaluates the `&&` and `||` of a job itself, pipeline by pipeline. A pipeline of one
segment that is `cd` or `env set` starts no process: it changes the snapshot of the job in place. The
scheduler has its own `cd` and `env set`, the scope transforms, which derive a new scope.
-/

namespace CueShell

/-- What a change of the directory asks the file system. -/
structure FileSystem where
  canonicalize : String → Except String String
  isDir : String → Bool

section Builtins

inductive JobLocalBuiltin where
  | cd (path : String)
  | envSet (assignments : List String)
deriving DecidableEq, Repr

def detectJobLocalBuiltin : List String → Option JobLocalBuiltin
  | "cd" :: args => some (.cd (args.head?.getD "~"))
  | "env" :: "set" :: assignments => some (.envSet assignments)
  | _ => none

/-- Both changes of the directory look for their target in the same way; `failure` words an error about
a path. -/
def cdTarget (failure : String → String → String) (fs : FileSystem) (snapshot : EnvSnapshot)
    (path : String) : Except String String :=
  let target :=
    if path.toList.head? = some '/' then path
    else String.ofList (pathJoin snapshot.cwd.toList path.toList)
  match fs.canonicalize target with
  | .error error => .error (failure target error)
  | .ok resolved =>
      if fs.isDir resolved then .ok resolved else .error (failure resolved "not a directory")

def resolveJobLocalCdTarget : FileSystem → EnvSnapshot → String → Except String String :=
  cdTarget fun path error => "cd: " ++ path ++ ": " ++ error

def resolveCdTarget : FileSystem → EnvSnapshot → String → Except String String :=
  cdTarget fun path error => "cannot cd to `" ++ path ++ "`: " ++ error

/-- How a builtin ends: the snapshot it leaves, and what it writes to the error stream. -/
structure BuiltinEnd where
  code : ℤ
  snapshot : EnvSnapshot
  stderr : List String
deriving DecidableEq, Repr

/-- The name and the value of an assignment. -/
def splitAssignment (assignment : String) : Option (String × String) :=
  (Text.splitOnce '=' assignment.toList).map fun (key, value) => (String.ofList key, String.ofList value)

/-- The loop over the assignments, each of which is made as soon as it is read. -/
def setJobLocalVariables (snapshot : EnvSnapshot) : List String → BuiltinEnd
  | [] => ⟨0, snapshot, []⟩
  | assignment :: rest =>
      match splitAssignment assignment with
      | none => ⟨1, snapshot, ["env set: expected KEY=VALUE, got `" ++ assignment ++ "`\n"]⟩
      | some (key, value) =>
          if key = "" then ⟨1, snapshot, ["env set: empty variable name\n"]⟩
          else setJobLocalVariables { snapshot with env := snapshot.env.insert key value } rest

variable (fs : FileSystem)

/-- The value `none` stands for a pipeline that is not a builtin. -/
def runJobLocalBuiltin (pipeline : Pipeline) (snapshot : EnvSnapshot) : Option BuiltinEnd :=
  match pipeline.segments with
  | [segment] =>
      if segment.pipeToNext.isSome then none
      else
        let expanded := expandCommandLine (some snapshot) segment.command
        match detectJobLocalBuiltin expanded with
        | none => none
        | some (.cd path) =>
            if 2 < expanded.length then some ⟨1, snapshot, ["cd: too many arguments\n"]⟩
            else
              match resolveJobLocalCdTarget fs snapshot path with
              | .ok cwd => some ⟨0, { snapshot with cwd }, []⟩
              | .error message => some ⟨1, snapshot, [message ++ "\n"]⟩
        | some (.envSet assignments) =>
            if assignments = [] then some ⟨1, snapshot, ["env set: expected KEY=VALUE\n"]⟩
            else some (setJobLocalVariables snapshot assignments)
  | _ => none

end Builtins

section Transforms

/-- The loop over the assignments, which collects them. -/
def collectVariables (set : Variables) : List String → Except String Variables
  | [] => .ok set
  | assignment :: rest =>
      match splitAssignment assignment with
      | none => .error ("`env set` inside `:run` expects KEY=VALUE, got `" ++ assignment ++ "`")
      | some (key, value) =>
          if key = "" then .error "`env set` inside `:run` requires a non-empty variable name"
          else collectVariables (set.insert key value) rest

variable (fs : FileSystem)

def ScopeTransform.delta (snapshot : EnvSnapshot) : ScopeTransform → Except String EnvDelta
  | .cd path => (resolveCdTarget fs snapshot path).map fun cwd => { cwd := some cwd }
  | .envSet assignments => (collectVariables [] assignments).map fun set => { set }

def ScopeStore.getScopeSnapshotByHash (store : ScopeStore) (hash : ScopeHash) :
    Except ScopeError EnvSnapshot × ScopeStore :=
  match store.loadScope hash with
  | (.error error, store) => (.error (.storage error), store)
  | (.ok none, store) => (.error (.notFound hash), store)
  | (.ok (some scope), store) =>
      match scope.snapshot with
      | none => (.error (.noSnapshot hash), store)
      | some snapshot => (.ok snapshot, store)

/-- Why a scope transform is not applied. -/
inductive TransformError where
  | scope (error : ScopeError)
  | message (text : String)
deriving DecidableEq, Repr

def applyScopeTransform (computeHash : EnvSnapshot → ScopeHash) (store : ScopeStore)
    (startScope : ScopeHash) (commandLine : List String) : Except TransformError ScopeHash × ScopeStore :=
  match store.getScopeSnapshotByHash startScope with
  | (.error error, store) => (.error (.scope error), store)
  | (.ok snapshot, store) =>
      match scopeTransformFromCommand (expandCommandLine (some snapshot) commandLine) with
      | .error message => (.error (.message message), store)
      | .ok none => (.error (.message "not a scope transform"), store)
      | .ok (some transform) =>
          match transform.delta fs snapshot with
          | .error message => (.error (.message message), store)
          | .ok delta =>
              match store.derive computeHash startScope delta with
              | (.error error, store) => (.error (.scope error), store)
              | (.ok hash, store) => (.ok hash, store)

end Transforms

section Streaming

inductive PipelineStreamKind where
  | stdout
  | stderr
deriving DecidableEq, Repr

/-- What the loop over a running pipeline receives. -/
inductive PipelineEvent where
  | kill
  | chunk (kind : PipelineStreamKind) (data : String)
  | closed

/-- How the processes of a pipeline go on: the streams that are read, what is received while one is
open, and then the exit code, unless a kill is received first. -/
structure SpawnedPipeline where
  readers : ℕ
  events : List PipelineEvent
  exit : Option ℤ

/-- A pipeline or a builtin that was run: its number in the job, the snapshot it was started with, the
code it returned and whether it was killed. -/
structure JobStep where
  number : ℕ
  pipeline : Pipeline
  seen : EnvSnapshot
  code : ℤ
  killed : Bool
deriving DecidableEq, Repr

/-- The state of a job; `steps` is its history. -/
structure StreamingContext where
  snapshot : EnvSnapshot
  wasKilled : Bool
  output : List (PipelineStreamKind × String)
  steps : List JobStep
deriving DecidableEq, Repr

def receiveEvents : ℕ → List PipelineEvent → StreamingContext → StreamingContext
  | 0, _, context => context
  | _ + 1, [], context => context
  | readers + 1, .kill :: events, context =>
      receiveEvents (readers + 1) events { context with wasKilled := true }
  | readers + 1, .chunk kind data :: events, context =>
      receiveEvents (readers + 1) events { context with output := context.output ++ [(kind, data)] }
  | readers + 1, .closed :: events, context => receiveEvents readers events context

/-- The argument vectors of the segments, if each has a program. -/
def expandPipelineSegments (pipeline : Pipeline) (snapshot : EnvSnapshot) : Option (List (List String)) :=
  if pipeline.segments = [] then none
  else pipeline.segments.mapM fun segment => expandSegment segment.command snapshot

variable (fs : FileSystem)
  (spawnNativePipeline : ℕ → List (List String) → EnvSnapshot → Option SpawnedPipeline)

/-- What running a pipeline does, without the record of it. -/
def streamPipeline (number : ℕ) (pipeline : Pipeline) (context : StreamingContext) :
    ℤ × StreamingContext :=
  match runJobLocalBuiltin fs pipeline context.snapshot with
  | some done =>
      (done.code, { context with
        snapshot := done.snapshot
        output := context.output ++ done.stderr.map (.stderr, ·) })
  | none =>
      match expandPipelineSegments pipeline context.snapshot with
      | none => (exitCodeUnavailable, context)
      | some segments =>
          match spawnNativePipeline number segments context.snapshot with
          | none => (exitCodeUnavailable, context)
          | some spawned =>
              let context := receiveEvents spawned.readers spawned.events context
              if context.wasKilled then (exitCodeUnavailable, context)
              else match spawned.exit with
                | none => (exitCodeUnavailable, { context with wasKilled := true })
                | some code => (code, context)

def runPipelineStreaming (number : ℕ) (pipeline : Pipeline) (context : StreamingContext) :
    ℤ × StreamingContext :=
  let (code, after) := streamPipeline fs spawnNativePipeline number pipeline context
  (code, { after with
    steps := after.steps ++ [⟨number, pipeline, context.snapshot, code, after.wasKilled⟩] })

/-- The pipelines of a plan are numbered from the left, the first of them with `number`. -/
def runJobPlanStreaming : ℕ → JobPlan → StreamingContext → ℤ × StreamingContext
  | number, plan, context =>
      if context.wasKilled then (exitCodeUnavailable, context)
      else match plan with
        | .pipeline body => runPipelineStreaming fs spawnNativePipeline number body context
        | .and left right =>
            let (code, context) := runJobPlanStreaming number left context
            if code = 0 ∧ context.wasKilled = false then
              runJobPlanStreaming (number + left.pipelines.length) right context
            else (code, context)
        | .or left right =>
            let (code, context) := runJobPlanStreaming number left context
            if code ≠ 0 ∧ context.wasKilled = false then
              runJobPlanStreaming (number + left.pipelines.length) right context
            else (code, context)

end Streaming

end CueShell

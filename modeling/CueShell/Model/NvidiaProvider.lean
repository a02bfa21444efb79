import CueShell.Model.Resource
import Mathlib.Data.List.Sort

/-! # The NVIDIA provider

GPUs are reserved either by an amount of memory on each of them or, with a count alone, as a whole.
A probe lists the devices in the order of their numbers with their total and free memory; it is kept
for a while, and whether it has expired is part of a call.
-/

namespace CueShell

structure GpuSample where
  index : ℕ
  totalMem : ℕ
  freeMem : ℕ
deriving DecidableEq, Repr

structure GpuReservation where
  index : ℕ
  bytes : ℕ
  exclusive : Bool
deriving DecidableEq, Repr

structure NvidiaState where
  cached : Option (List GpuSample)
  /-- The units of each reservation, by its id. -/
  reservations : Table String (List GpuReservation)

structure NvidiaGpuProvider where
  id : String
  gpuKey : String
  gpuMemKey : String
  safetyMarginBytes : ℕ
deriving DecidableEq, Repr

/-- What the driver knows of the memory of one device. -/
structure MemoryInfo where
  total : ℕ
  free : ℕ
deriving DecidableEq, Repr

/-- The driver lists its devices by number, or fails. -/
def nvmlProbe (devices : Except String (List MemoryInfo)) : Except String (List GpuSample) :=
  devices.map fun infos => infos.zipIdx.map fun (info, index) => ⟨index, info.total, info.free⟩

/-- The kept samples, unless they have expired, or else those of a new probe. -/
def probeSamples (expired : Bool) (devices : Except String (List MemoryInfo)) (state : NvidiaState) :
    Except String (List GpuSample) × NvidiaState :=
  match state.cached, expired with
  | some samples, false => (.ok samples, state)
  | _, _ =>
      match nvmlProbe devices with
      | .error error => (.error error, state)
      | .ok samples => (.ok samples, { state with cached := some samples })

namespace NvidiaState

/-- The memory that one reservation takes on a device. -/
def bytesOn (index : ℕ) (units : List GpuReservation) : ℕ :=
  ((units.filter fun unit => unit.index = index).map GpuReservation.bytes).sum

def exclusiveOn (index : ℕ) (units : List GpuReservation) : Bool :=
  units.any fun unit => unit.index = index && unit.exclusive

/-- The memory reserved on a device. The source adds with saturation, in any order. -/
def reservedBytes (state : NvidiaState) (index : ℕ) : ℕ :=
  min (state.reservations.total (bytesOn index)) u64Max

def reservedExclusively (state : NvidiaState) (index : ℕ) : Bool :=
  state.reservations.total (fun units => (exclusiveOn index units).toNat) ≠ 0

def reservedForIndex (state : NvidiaState) (index : ℕ) : ℕ × Bool :=
  (state.reservedBytes index, state.reservedExclusively index)

end NvidiaState

namespace NvidiaGpuProvider

variable (provider : NvidiaGpuProvider)

def grantId (jobId : JobId) : String := provider.id ++ "-" ++ jobText jobId

def effectiveFree (sample : GpuSample) (state : NvidiaState) : Option ℕ :=
  let (reserved, exclusive) := state.reservedForIndex sample.index
  if exclusive then none
  else some (min sample.freeMem (sample.totalMem - reserved) - provider.safetyMarginBytes)

/-- The selection loop: the devices selected so far and the largest free memory seen. -/
def selectGpus (state : NvidiaState) (memPerGpu neededGpus : ℕ) :
    List GpuSample → List ℕ → ℕ → List ℕ × ℕ
  | [], selected, maxFree => (selected, maxFree)
  | sample :: rest, selected, maxFree =>
      match provider.effectiveFree sample state with
      | none => selectGpus state memPerGpu neededGpus rest selected maxFree
      | some free =>
          let maxFree := max maxFree free
          if free ≥ memPerGpu then
            let selected := selected ++ [sample.index]
            if selected.length = neededGpus then (selected, maxFree)
            else selectGpus state memPerGpu neededGpus rest selected maxFree
          else selectGpus state memPerGpu neededGpus rest selected maxFree

def gpuCount (need : Need) : Except Reject ℕ :=
  match need.get provider.gpuKey with
  | some (.count number) => .ok number
  | some other => .error { reason := provider.gpuKey ++ " must be a count, got " ++ other.display }
  | none => .ok 0

def memPerGpu (need : Need) : Except Reject ℕ :=
  match need.get provider.gpuMemKey with
  | some (.bytes number) => .ok number
  | some other => .error { reason := provider.gpuMemKey ++ " must be bytes, got " ++ other.display }
  | none => .ok 0

def neededGpus (gpuCount memPerGpu : ℕ) : ℕ :=
  if gpuCount > 0 then gpuCount else if memPerGpu > 0 then 1 else 0

def waitingReject (memPerGpu neededGpus maxFree : ℕ) : Reject :=
  let reason := "waiting GPU: need " ++ toString neededGpus ++ " x " ++
    (ResourceQuantity.bytes memPerGpu).display ++ ", max effective free " ++
    (ResourceQuantity.bytes maxFree).display
  if memPerGpu > 0 then
    { reason := reason
      key := some provider.gpuMemKey
      needed := some (.bytes memPerGpu)
      available := some (.bytes maxFree) }
  else { reason := reason }

def grant (jobId : JobId) (memPerGpu : ℕ) (selected : List ℕ) : Reservation where
  id := provider.grantId jobId
  jobId := jobId
  providerId := provider.id
  env := [("CUDA_DEVICE_ORDER", "PCI_BUS_ID"),
    ("CUDA_VISIBLE_DEVICES", ",".intercalate (selected.map toString))]
  info := (provider.gpuKey, .count selected.length) ::
    if memPerGpu > 0 then
      [(provider.gpuMemKey, .bytes (min (memPerGpu * selected.length) u64Max))] else []

/-- Devices with higher numbers come first. -/
def sortSamples (samples : List GpuSample) : List GpuSample :=
  samples.insertionSort fun first second => second.index ≤ first.index

/-- Store what has been selected. -/
def hold (state : NvidiaState) (request : ReserveRequest) (memPerGpu : ℕ) (selected : List ℕ) :
    NvidiaState :=
  let exclusive := memPerGpu = 0 && request.need.contains provider.gpuKey
  let units := selected.map fun index => ⟨index, memPerGpu, exclusive⟩
  { state with reservations := state.reservations.insert (provider.grantId request.jobId) units }

/-- Select devices among the samples, or say what is missing. -/
def reserveFrom (samples : List GpuSample) (request : ReserveRequest) (memPerGpu neededGpus : ℕ)
    (state : NvidiaState) : Except Reject Reservation × NvidiaState :=
  let (selected, maxFree) :=
    provider.selectGpus state memPerGpu neededGpus (sortSamples samples) [] 0
  if selected.length < neededGpus then
    (.error (provider.waitingReject memPerGpu neededGpus maxFree), state)
  else
    (.ok (provider.grant request.jobId memPerGpu selected),
      provider.hold state request memPerGpu selected)

def reserve (request : ReserveRequest) (expired : Bool) (devices : Except String (List MemoryInfo))
    (state : NvidiaState) : Except Reject Reservation × NvidiaState :=
  match provider.gpuCount request.need, provider.memPerGpu request.need with
  | .error reject, _ => (.error reject, state)
  | .ok _, .error reject => (.error reject, state)
  | .ok gpuCount, .ok memPerGpu =>
      let needed := neededGpus gpuCount memPerGpu
      if needed = 0 then
        (.ok { id := provider.grantId request.jobId, jobId := request.jobId,
               providerId := provider.id }, state)
      else
        match probeSamples expired devices state with
        | (.error error, state) => (.error { reason := "NVML probe failed: " ++ error }, state)
        | (.ok samples, state) => provider.reserveFrom samples request memPerGpu needed state

end NvidiaGpuProvider

def NvidiaState.release (state : NvidiaState) (grantId : String) : NvidiaState :=
  { state with reservations := state.reservations.erase grantId }

section Runs

inductive NvidiaCall where
  | reserve (request : ReserveRequest) (expired : Bool) (devices : Except String (List MemoryInfo))
  | release (jobId : JobId)

namespace NvidiaGpuProvider

variable (provider : NvidiaGpuProvider)

def call (state : NvidiaState) : NvidiaCall → NvidiaState
  | .reserve request expired devices => (provider.reserve request expired devices state).2
  | .release jobId => state.release (provider.grantId jobId)

/-- The state after a sequence of calls on a new provider. -/
def run (calls : List NvidiaCall) : NvidiaState :=
  calls.foldl provider.call ⟨none, .empty⟩

end NvidiaGpuProvider

end Runs

end CueShell

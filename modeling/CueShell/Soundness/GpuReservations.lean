import CueShell.Proofs.NvidiaSteps
import Mathlib.Data.List.Induction

/-! # GPU exclusivity and the safety margin

Over any sequence of calls the memory reserved on a device stays within its total less the safety
margin. A request for whole GPUs takes the highest-numbered devices that nobody holds as a whole, also
if memory on them is reserved already. So the exclusivity of whole GPUs holds along a run exactly when
every such request finds the devices it takes free of memory reservations.
-/

namespace CueShell

namespace NvidiaGpuProvider

variable (provider : NvidiaGpuProvider)

/-- The job holds the device, in whatever way. -/
def Holds (state : NvidiaState) (jobId : JobId) (index : ℕ) : Prop :=
  ∃ units, state.reservations.get (provider.grantId jobId) = some units ∧
    ∃ unit ∈ units, unit.index = index

/-- The job holds the device as a whole. -/
def HoldsWhole (state : NvidiaState) (jobId : JobId) (index : ℕ) : Prop :=
  ∃ units, state.reservations.get (provider.grantId jobId) = some units ∧
    ∃ unit ∈ units, unit.index = index ∧ unit.exclusive = true

/-- The total memory of a device. -/
def totalOf (totals : List UInt64) (index : ℕ) : ℕ := (totals[index]?).elim 0 UInt64.toNat

structure Safe (totals : List UInt64) (state : NvidiaState) : Prop where
  margin : ∀ index, state.reservations.total (NvidiaState.bytesOn index) ≤
    totalOf totals index - provider.safetyMarginBytes
  exclusive : ∀ jobId other index, provider.HoldsWhole state jobId index →
    provider.Holds state other index → other = jobId

/-- A job reserves only while it holds nothing, and the devices keep their total memory. -/
def Orderly (totals : List UInt64) (state : NvidiaState) : NvidiaCall → Prop
  | .reserve request _ devices =>
      state.reservations.get (provider.grantId request.jobId) = none ∧
        ∀ infos, devices = .ok infos → infos.map MemoryInfo.total = totals.map UInt64.toNat
  | .release _ => True

/-- The number of GPUs of a request that names no amount of memory. -/
def wholeGpus (need : Need) : Option ℕ :=
  match provider.gpuCount need, provider.memPerGpu need with
  | .ok (count + 1), .ok 0 => some (count + 1)
  | _, _ => none

/-- The devices that nobody holds as a whole, in the order in which they are taken. -/
def freeGpus (state : NvidiaState) (samples : List GpuSample) : List ℕ :=
  ((sortSamples samples).filter fun sample => !state.reservedExclusively sample.index).map
    GpuSample.index

/-- A request for whole GPUs gets only devices on which nothing is reserved. -/
def Vacant (state : NvidiaState) : NvidiaCall → Prop
  | .reserve request expired devices => ∀ count samples,
      provider.wholeGpus request.need = some count →
      (probeSamples expired devices state).1 = .ok samples →
      count ≤ (freeGpus state samples).length →
      ∀ index ∈ (freeGpus state samples).take count, ∀ jobId, ¬ provider.Holds state jobId index
  | .release _ => True

/-- Every call of a sequence meets a condition on the state before it. -/
def Along (condition : NvidiaState → NvidiaCall → Prop) (calls : List NvidiaCall) : Prop :=
  ∀ before call after, calls = before ++ call :: after → condition (provider.run before) call

/-- What every call keeps, whatever is requested. -/
structure Accounted (totals : List UInt64) (state : NvidiaState) : Prop where
  margin : ∀ index, state.reservations.total (NvidiaState.bytesOn index) ≤
    totalOf totals index - provider.safetyMarginBytes
  owned : ∀ id units, state.reservations.get id = some units → ∃ jobId, id = provider.grantId jobId
  cached : ∀ samples, state.cached = some samples → SamplesOf totals samples

end NvidiaGpuProvider

variable {provider : NvidiaGpuProvider} {state : NvidiaState} {totals : List UInt64}
variable {index : ℕ} {calls : List NvidiaCall} {request : ReserveRequest} {expired : Bool}
variable {devices : Except String (List MemoryInfo)}

open NvidiaGpuProvider

section Runs

theorem run_append (before : List NvidiaCall) (call : NvidiaCall) :
    provider.run (before ++ [call]) = provider.call (provider.run before) call := by
  simp [run]

/-- What every call keeps holds along the whole run. -/
theorem run_keeps (invariant : NvidiaState → Prop) (condition : NvidiaState → NvidiaCall → Prop)
    (start : invariant ⟨none, .empty⟩) (conditions : provider.Along condition calls)
    (kept : ∀ state call, invariant state → condition state call →
      invariant (provider.call state call)) :
    ∀ before after, calls = before ++ after → invariant (provider.run before) := by
  intro before
  induction before using List.reverseRecOn with
  | nil => exact fun _ _ => start
  | append_singleton before call ih =>
    intro after split
    have earlier : calls = before ++ call :: after := by
      rw [split, List.append_assoc, List.singleton_append]
    rw [run_append]
    exact kept _ call (ih _ earlier) (conditions before call after earlier)

end Runs

section Reserve

theorem NvidiaGpuProvider.Accounted.samples (accounted : provider.Accounted totals state)
    (orderly : provider.Orderly totals state (.reserve request expired devices))
    {samples : List GpuSample} (shown : (probeSamples expired devices state).1 = .ok samples) :
    SamplesOf totals samples := by
  rcases probeSamples_result expired devices state shown with held | probed
  · exact accounted.cached samples held
  · cases devices with
    | error error => cases probed
    | ok infos => exact samplesOf_nvmlProbe (orderly.2 infos rfl) probed

/-- A device that is taken has the requested memory left. -/
theorem mem_taken_room (accounted : provider.Accounted totals state) {samples : List GpuSample}
    {count mem : ℕ} (faithful : SamplesOf totals samples)
    (member : index ∈ provider.taken state samples count mem) :
    state.reservedExclusively index = false ∧
      state.reservations.total (NvidiaState.bytesOn index) + mem ≤
        max (state.reservations.total (NvidiaState.bytesOn index))
          (totalOf totals index - provider.safetyMarginBytes) := by
  obtain ⟨sample, listed, rfl, free, found, enough⟩ := mem_candidates (List.mem_of_mem_take member)
  obtain ⟨shared, rfl⟩ := effectiveFree_eq_some found
  refine ⟨shared, ?_⟩
  have total := faithful.sorted.total sample listed
  obtain ⟨word, present, size⟩ := Option.map_eq_some_iff.mp total
  have known : totalOf totals sample.index = sample.totalMem := by
    simp [totalOf, present, size]
  have bounded : sample.totalMem ≤ u64Max := by
    have := word.toNat_lt
    rw [← size, u64Max]
    omega
  have within := accounted.margin sample.index
  rw [known] at within ⊢
  simp only [NvidiaState.reservedBytes] at enough
  omega

theorem taken_nodup {samples : List GpuSample} {count mem : ℕ}
    (faithful : SamplesOf totals samples) : (provider.taken state samples count mem).Nodup :=
  (candidates_nodup faithful.sorted).sublist (List.take_sublist ..)

theorem accounted_reserve (accounted : provider.Accounted totals state)
    (orderly : provider.Orderly totals state (.reserve request expired devices)) :
    provider.Accounted totals (provider.reserve request expired devices state).2 := by
  have cached : ∀ samples, (provider.reserve request expired devices state).2.cached = some samples →
      SamplesOf totals samples := by
    intro samples kept
    rcases reserve_cached request expired devices state kept with held | probed
    · exact accounted.cached samples held
    · cases devices with
      | error error => cases probed
      | ok infos => exact samplesOf_nvmlProbe (orderly.2 infos rfl) probed
  rcases reserve_reservations provider request expired devices state with same |
    ⟨count, mem, samples, _, _, shown, _, _, recorded⟩
  · exact ⟨fun index => same ▸ accounted.margin index, fun id units found =>
      accounted.owned id units (same ▸ found), cached⟩
  · have faithful := accounted.samples orderly shown
    refine ⟨fun index => ?_, fun id units found => ?_, cached⟩
    · rw [recorded, Table.total_insert_fresh _ _ _ orderly.1, bytesOn_unitsFor (taken_nodup faithful)]
      have within := accounted.margin index
      split
      · rename_i member
        have room := (mem_taken_room accounted faithful member).2
        omega
      · omega
    · rw [recorded, Table.get_insert] at found
      split at found
      · rename_i same
        exact ⟨request.jobId, same⟩
      · exact accounted.owned id units found

theorem accounted_call (call : NvidiaCall) (accounted : provider.Accounted totals state)
    (orderly : provider.Orderly totals state call) :
    provider.Accounted totals (provider.call state call) := by
  cases call with
  | reserve request expired devices => exact accounted_reserve accounted orderly
  | release jobId =>
    refine ⟨fun index => ?_, fun id units found => ?_, accounted.cached⟩
    · exact (Table.total_erase_le ..).trans (accounted.margin index)
    · change (state.reservations.erase _).get id = some units at found
      rw [Table.get_erase] at found
      split at found
      · cases found
      · exact accounted.owned id units found

end Reserve

section Exclusivity

theorem HoldsWhole.holds {jobId : JobId} (whole : provider.HoldsWhole state jobId index) :
    provider.Holds state jobId index := by
  obtain ⟨units, found, unit, member, same, _⟩ := whole
  exact ⟨units, found, unit, member, same⟩

theorem HoldsWhole.reserved {jobId : JobId} (whole : provider.HoldsWhole state jobId index) :
    state.reservedExclusively index = true := by
  obtain ⟨units, found, unit, member, same, exclusive⟩ := whole
  refine reservedExclusively_iff.mpr ⟨_, units, found, ?_⟩
  exact List.any_eq_true.mpr ⟨unit, member, by simp [same, exclusive]⟩

/-- Once devices have been recorded for a job, the other jobs hold what they held. -/
theorem holds_insert {id : JobId} {units : List GpuReservation} {after : NvidiaState}
    (recorded : after.reservations = state.reservations.insert (provider.grantId id) units)
    (jobId : JobId) :
    provider.Holds after jobId index ↔
      if jobId = id then ∃ unit ∈ units, unit.index = index
      else provider.Holds state jobId index := by
  unfold Holds
  rw [recorded, Table.get_insert]
  by_cases same : jobId = id
  · simp [same]
  · have apart : provider.grantId jobId ≠ provider.grantId id :=
      fun equal => same (grantId_injective equal)
    simp [same, apart]

theorem holdsWhole_insert {id : JobId} {units : List GpuReservation} {after : NvidiaState}
    (recorded : after.reservations = state.reservations.insert (provider.grantId id) units)
    (jobId : JobId) :
    provider.HoldsWhole after jobId index ↔
      if jobId = id then ∃ unit ∈ units, unit.index = index ∧ unit.exclusive = true
      else provider.HoldsWhole state jobId index := by
  unfold HoldsWhole
  rw [recorded, Table.get_insert]
  by_cases same : jobId = id
  · simp [same]
  · have apart : provider.grantId jobId ≠ provider.grantId id :=
      fun equal => same (grantId_injective equal)
    simp [same, apart]

theorem mem_unitsFor {mem : ℕ} {exclusive : Bool} {selected : List ℕ} :
    (∃ unit ∈ unitsFor mem exclusive selected, unit.index = index) ↔ index ∈ selected := by
  simp [unitsFor]

theorem mem_unitsFor_exclusive {mem : ℕ} {exclusive : Bool} {selected : List ℕ} :
    (∃ unit ∈ unitsFor mem exclusive selected, unit.index = index ∧ unit.exclusive = true) ↔
      index ∈ selected ∧ exclusive = true := by
  simp [unitsFor]

/-- Devices are recorded as whole exactly for a request that names no amount of memory. -/
theorem wholeGpus_eq {count mem : ℕ} (counted : provider.gpuCount request.need = .ok count)
    (sized : provider.memPerGpu request.need = .ok mem) (some_needed : neededGpus count mem ≠ 0) :
    provider.wholeGpus request.need = (if mem = 0 then some (neededGpus count mem) else none) ∧
      (mem = 0 → request.need.contains provider.gpuKey = true) := by
  have whole : mem = 0 → ∃ rest, count = rest + 1 := by
    rintro rfl
    cases count with
    | zero => simp [neededGpus] at some_needed
    | succ rest => exact ⟨rest, rfl⟩
  constructor
  · by_cases none_named : mem = 0
    · obtain ⟨rest, rfl⟩ := whole none_named
      simp [wholeGpus, counted, sized, none_named, neededGpus]
    · obtain ⟨size, rfl⟩ := Nat.exists_eq_succ_of_ne_zero none_named
      simp only [wholeGpus, counted, sized]
      simp
  · intro none_named
    obtain ⟨rest, rfl⟩ := whole none_named
    unfold gpuCount at counted
    cases named : request.need.get provider.gpuKey with
    | none => simp [named] at counted
    | some quantity => simp [Need.contains, named]

theorem taken_zero {samples : List GpuSample} {count : ℕ} :
    provider.taken state samples count 0 =
      (freeGpus state samples).take (neededGpus count 0) := by
  rw [taken, candidates_zero, freeGpus]

theorem exclusive_reserve (accounted : provider.Accounted totals state)
    (orderly : provider.Orderly totals state (.reserve request expired devices))
    (vacant : provider.Vacant state (.reserve request expired devices))
    (exclusive : ∀ jobId other index, provider.HoldsWhole state jobId index →
      provider.Holds state other index → other = jobId) {jobId other : JobId}
    (whole : provider.HoldsWhole (provider.reserve request expired devices state).2 jobId index)
    (held : provider.Holds (provider.reserve request expired devices state).2 other index) :
    other = jobId := by
  rcases reserve_reservations provider request expired devices state with same |
    ⟨count, mem, samples, counted, sized, shown, some_needed, enough, recorded⟩
  · unfold HoldsWhole at whole
    unfold Holds at held
    rw [same] at whole held
    exact exclusive jobId other index whole held
  · have room : ∀ device ∈ provider.taken state samples count mem,
        state.reservedExclusively device = false :=
      fun device member => (mem_taken_room accounted (accounted.samples orderly shown) member).1
    obtain ⟨asked, named⟩ := wholeGpus_eq counted sized some_needed
    rw [holdsWhole_insert recorded, mem_unitsFor_exclusive] at whole
    rw [holds_insert recorded, mem_unitsFor] at held
    split at whole
    · rename_i isRequest
      obtain ⟨member, isWhole⟩ := whole
      obtain rfl : mem = 0 := by simpa using And.left (Bool.and_eq_true_iff.mp isWhole)
      split at held
      · rename_i alsoRequest
        rw [alsoRequest, isRequest]
      · -- The request got a device on which the other job holds memory.
        rw [taken_zero] at member enough
        have many : neededGpus count 0 ≤ (freeGpus state samples).length := by
          rw [← enough]
          exact List.length_take_le' ..
        exact (vacant _ samples asked shown many index member other held).elim
    · split at held
      · have free := room index held
        rw [HoldsWhole.reserved whole] at free
        cases free
      · exact exclusive jobId other index whole held

theorem exclusive_call (call : NvidiaCall) (accounted : provider.Accounted totals state)
    (orderly : provider.Orderly totals state call) (vacant : provider.Vacant state call)
    (exclusive : ∀ jobId other index, provider.HoldsWhole state jobId index →
      provider.Holds state other index → other = jobId) :
    ∀ jobId other index, provider.HoldsWhole (provider.call state call) jobId index →
      provider.Holds (provider.call state call) other index → other = jobId := by
  intro jobId other index whole held
  cases call with
  | reserve request expired devices =>
    exact exclusive_reserve accounted orderly vacant exclusive whole held
  | release id =>
    have earlier : ∀ key units,
        (state.reservations.erase (provider.grantId id)).get key = some units →
        state.reservations.get key = some units := by
      intro key units found
      rw [Table.get_erase] at found
      split at found
      · cases found
      · exact found
    obtain ⟨units, found, wholeUnit⟩ := whole
    obtain ⟨others, present, heldUnit⟩ := held
    exact exclusive jobId other index ⟨units, earlier _ _ found, wholeUnit⟩
      ⟨others, earlier _ _ present, heldUnit⟩

/-- A request for whole GPUs that takes a device with memory on it ends the exclusivity. -/
theorem vacant_of_exclusive (call : NvidiaCall) (orderly : provider.Orderly totals state call)
    (exclusive : ∀ jobId other index, provider.HoldsWhole (provider.call state call) jobId index →
      provider.Holds (provider.call state call) other index → other = jobId) :
    provider.Vacant state call := by
  cases call with
  | release id => trivial
  | reserve request expired devices =>
    intro count samples asked shown many index member jobId held
    obtain ⟨rest, counted, sized, rfl⟩ : ∃ rest, provider.gpuCount request.need = .ok (rest + 1) ∧
        provider.memPerGpu request.need = .ok 0 ∧ count = rest + 1 := by
      unfold wholeGpus at asked
      split at asked
      · rename_i rest counted sized
        exact ⟨rest, counted, sized, (Option.some.inj asked).symm⟩
      · cases asked
    have needed : neededGpus (rest + 1) 0 = rest + 1 := by simp [neededGpus]
    have some_needed : neededGpus (rest + 1) 0 ≠ 0 := by omega
    have taken : provider.taken state samples (rest + 1) 0 =
        (freeGpus state samples).take (rest + 1) := by rw [taken_zero, needed]
    have recorded := reserve_records counted sized shown some_needed
      (by rw [taken, needed, List.length_take, Nat.min_eq_left many])
    have named := (wholeGpus_eq counted sized some_needed).2 rfl
    have apart : jobId ≠ request.jobId := by
      rintro rfl
      obtain ⟨units, found, _⟩ := held
      rw [orderly.1] at found
      cases found
    refine apart (exclusive request.jobId jobId index ?_ ?_)
    · refine (holdsWhole_insert recorded request.jobId).mpr ?_
      rw [if_pos rfl, mem_unitsFor_exclusive, taken]
      exact ⟨member, by simp [named]⟩
    · refine (holds_insert recorded jobId).mpr ?_
      rwa [if_neg apart]

end Exclusivity

/-- In a run in which jobs reserve only while they hold nothing and the devices keep their totals,
every state reached is safe exactly when no request for whole GPUs takes a device on which memory is
reserved. -/
theorem NvidiaGpuProvider.safe_iff_vacant (provider : NvidiaGpuProvider) (totals : List UInt64)
    (calls : List NvidiaCall) (orderly : provider.Along (provider.Orderly totals) calls) :
    (∀ before after, calls = before ++ after → provider.Safe totals (provider.run before)) ↔
      provider.Along provider.Vacant calls := by
  have accounted : ∀ before after, calls = before ++ after →
      provider.Accounted totals (provider.run before) := by
    refine run_keeps _ _ ⟨fun index => ?_, fun id units found => ?_, fun samples kept => ?_⟩ orderly
      fun state call kept condition => accounted_call call kept condition
    · simp
    · simp at found
    · cases kept
  constructor
  · intro safe before call after split
    have next : calls = (before ++ [call]) ++ after := by
      rw [split, List.append_assoc, List.singleton_append]
    have safeNext := safe _ _ next
    rw [run_append] at safeNext
    exact vacant_of_exclusive call (orderly before call after split) safeNext.exclusive
  · intro vacant before after split
    refine ⟨(accounted before after split).margin, ?_⟩
    have both : provider.Along (fun state call => provider.Orderly totals state call ∧
        provider.Vacant state call) calls :=
      fun before call after split => ⟨orderly before call after split,
        vacant before call after split⟩
    refine (run_keeps
      (fun state => provider.Accounted totals state ∧
        ∀ jobId other index, provider.HoldsWhole state jobId index →
          provider.Holds state other index → other = jobId)
      _ ⟨accounted [] calls rfl, ?_⟩ both ?_ before after split).2
    · rintro jobId other index ⟨units, found, _⟩
      simp at found
    · rintro state call ⟨kept, exclusive⟩ ⟨orderly, vacant⟩
      exact ⟨accounted_call call kept orderly, exclusive_call call kept orderly vacant exclusive⟩

section Instances

theorem along_pair {condition : NvidiaState → NvidiaCall → Prop} {first second : NvidiaCall}
    (one : condition (provider.run []) first) (two : condition (provider.run [first]) second) :
    provider.Along condition [first, second] := by
  intro before call after split
  rcases before with _ | ⟨head, _ | ⟨next, rest⟩⟩
  · obtain ⟨rfl, -⟩ := List.cons.inj split
    exact one
  · simp only [List.cons_append, List.nil_append, List.cons.injEq] at split
    obtain ⟨rfl, rfl, -⟩ := split
    exact two
  · simp at split

/-- A provider without a safety margin. -/
def plainProvider : NvidiaGpuProvider := ⟨"nvidia", "gpu", "gpu_mem", 0⟩

/-- A machine with one device. -/
def oneDevice : Except String (List MemoryInfo) := .ok [⟨80, 80⟩]

theorem oneDevice_total (infos : List MemoryInfo) (shown : oneDevice = .ok infos) :
    infos.map MemoryInfo.total = [80].map UInt64.toNat := by
  obtain rfl := Except.ok.inj shown
  decide

/-- The first job reserves memory, the second one asks for a whole GPU. -/
theorem whole_gpu_shared : ¬ ∀ (provider : NvidiaGpuProvider) (totals : List UInt64)
    (calls : List NvidiaCall), provider.Along (provider.Orderly totals) calls →
      ∀ before after, calls = before ++ after → provider.Safe totals (provider.run before) := by
  intro claimed
  have safe := claimed plainProvider [80]
    [.reserve ⟨1, [("gpu_mem", .bytes 24)]⟩ true oneDevice,
      .reserve ⟨2, [("gpu", .count 1)]⟩ true oneDevice]
    (along_pair ⟨by decide, oneDevice_total⟩ ⟨by decide, oneDevice_total⟩) _ [] (List.append_nil _).symm
  have same : (1 : JobId) = 2 := safe.exclusive 2 1 0 ⟨[⟨0, 0, true⟩], by decide, by decide⟩
    ⟨[⟨0, 24, false⟩], by decide, by decide⟩
  cases same

/-- A whole GPU is reserved and given back. -/
theorem safe_iff_vacant_returned :
    let calls : List NvidiaCall :=
      [.reserve ⟨2, [("gpu", .count 1)]⟩ true oneDevice, .release 2]
    plainProvider.Along (plainProvider.Orderly [80]) calls ∧
      ((∀ before after, calls = before ++ after →
          plainProvider.Safe [80] (plainProvider.run before)) ↔
        plainProvider.Along plainProvider.Vacant calls) := by
  have orderly : plainProvider.Along (plainProvider.Orderly [80])
      [.reserve ⟨2, [("gpu", .count 1)]⟩ true oneDevice, .release 2] :=
    along_pair ⟨by decide, oneDevice_total⟩ trivial
  exact ⟨orderly, NvidiaGpuProvider.safe_iff_vacant plainProvider [80] _ orderly⟩

end Instances

end CueShell

import CueShell.Model.NvidiaProvider
import Mathlib.Data.List.Nodup
import Mathlib.Data.List.Range

/-! # One call of the NVIDIA provider

The selection loop takes the first eligible devices. What it takes is recorded under the id of the
job, so the memory reserved on a device grows by the requested amount if the device is taken and stays
as it is if not.
-/

namespace CueShell

variable {provider : NvidiaGpuProvider} {state : NvidiaState} {samples : List GpuSample}
variable {index memPerGpu needed : ℕ}

theorem grantId_injective {first second : JobId}
    (same : provider.grantId first = provider.grantId second) : first = second := by
  have texts : (jobText first).toList = (jobText second).toList := by
    simpa [NvidiaGpuProvider.grantId] using congrArg String.toList same
  exact jobText_injective (String.toList_inj.mp texts)

section Selection

/-- Whether the loop takes a device. -/
def NvidiaGpuProvider.eligible (provider : NvidiaGpuProvider) (state : NvidiaState) (memPerGpu : ℕ)
    (sample : GpuSample) : Bool :=
  (provider.effectiveFree sample state).any fun free => memPerGpu ≤ free

/-- The devices the loop could take, in its order. -/
def NvidiaGpuProvider.candidates (provider : NvidiaGpuProvider) (state : NvidiaState)
    (memPerGpu : ℕ) (samples : List GpuSample) : List ℕ :=
  (samples.filter (provider.eligible state memPerGpu)).map GpuSample.index

theorem selectGpus_selected (provider : NvidiaGpuProvider) (state : NvidiaState) (memPerGpu : ℕ)
    (samples : List GpuSample) (selected : List ℕ) (maxFree : ℕ)
    (room : selected.length < needed) :
    (provider.selectGpus state memPerGpu needed samples selected maxFree).1 =
      selected ++ (provider.candidates state memPerGpu samples).take (needed - selected.length) := by
  induction samples generalizing selected maxFree with
  | nil => simp [NvidiaGpuProvider.selectGpus, NvidiaGpuProvider.candidates]
  | cons sample rest ih =>
    rw [NvidiaGpuProvider.selectGpus]
    cases free : provider.effectiveFree sample state with
    | none =>
      have out : provider.eligible state memPerGpu sample = false := by
        simp [NvidiaGpuProvider.eligible, free]
      simp only [NvidiaGpuProvider.candidates, List.filter_cons, out]
      exact ih selected maxFree room
    | some amount =>
      by_cases enough : memPerGpu ≤ amount
      · have taken : provider.eligible state memPerGpu sample = true := by
          simp [NvidiaGpuProvider.eligible, free, enough]
        have rest_take : needed - selected.length = (needed - (selected.length + 1)) + 1 := by omega
        simp only [ge_iff_le, enough, if_true, NvidiaGpuProvider.candidates, List.filter_cons, taken,
          List.map_cons]
        rw [rest_take, List.take_succ_cons]
        by_cases full : selected.length + 1 = needed
        · rw [if_pos (by simp [full]), full, Nat.sub_self, List.take_zero]
        · rw [if_neg (by simp [full]), ih _ _ (by simp; omega)]
          simp [NvidiaGpuProvider.candidates]
      · have out : provider.eligible state memPerGpu sample = false := by
          simp [NvidiaGpuProvider.eligible, free, enough]
        simp only [ge_iff_le, enough, if_false, NvidiaGpuProvider.candidates, List.filter_cons, out]
        exact ih selected _ room

end Selection

section Samples

/-- The samples show the devices of a machine with these totals. -/
structure SamplesOf (totals : List UInt64) (samples : List GpuSample) : Prop where
  nodup : (samples.map GpuSample.index).Nodup
  total : ∀ sample ∈ samples, (totals[sample.index]?).map UInt64.toNat = some sample.totalMem

variable {totals : List UInt64}

theorem samplesOf_nvmlProbe {infos : List MemoryInfo}
    (fixed : infos.map MemoryInfo.total = totals.map UInt64.toNat)
    (probed : nvmlProbe (.ok infos) = .ok samples) : SamplesOf totals samples := by
  obtain rfl : infos.zipIdx.map (fun entry => (⟨entry.2, entry.1.total, entry.1.free⟩ : GpuSample)) =
      samples := by simpa [nvmlProbe, Except.map] using probed
  refine ⟨?_, ?_⟩
  · have numbers : (infos.zipIdx.map Prod.snd).Nodup := by
      rw [List.zipIdx_map_snd]
      exact List.nodup_range'
    rw [List.map_map]
    exact numbers
  · intro sample member
    obtain ⟨⟨info, index⟩, listed, rfl⟩ := List.mem_map.mp member
    have found : infos[index]? = some info := List.mem_zipIdx_iff_getElem?.mp listed
    have same := congrArg (fun list => list[index]?) fixed
    simpa [found] using same.symm

theorem SamplesOf.sorted (faithful : SamplesOf totals samples) :
    SamplesOf totals (NvidiaGpuProvider.sortSamples samples) := by
  have perm : (NvidiaGpuProvider.sortSamples samples).Perm samples := List.perm_insertionSort ..
  exact ⟨(perm.map _).nodup_iff.mpr faithful.nodup,
    fun sample member => faithful.total sample (perm.mem_iff.mp member)⟩

theorem candidates_nodup (faithful : SamplesOf totals samples) :
    (provider.candidates state memPerGpu samples).Nodup :=
  faithful.nodup.sublist (List.filter_sublist.map _)

theorem mem_candidates (member : index ∈ provider.candidates state memPerGpu samples) :
    ∃ sample ∈ samples, sample.index = index ∧ ∃ free,
      provider.effectiveFree sample state = some free ∧ memPerGpu ≤ free := by
  obtain ⟨sample, kept, rfl⟩ := List.mem_map.mp member
  obtain ⟨listed, suits⟩ := List.mem_filter.mp kept
  obtain ⟨free, found, enough⟩ := (Option.any_eq_true ..).mp suits
  exact ⟨sample, listed, rfl, free, found, of_decide_eq_true enough⟩

end Samples

section Holding

theorem reservedExclusively_iff : state.reservedExclusively index = true ↔
    ∃ id units, state.reservations.get id = some units ∧ NvidiaState.exclusiveOn index units := by
  simp only [NvidiaState.reservedExclusively, ne_eq, decide_not, Bool.not_eq_true',
    decide_eq_false_iff_not]
  rw [← ne_eq, Table.total_ne_zero_iff]
  simp

theorem effectiveFree_eq_some {sample : GpuSample} {free : ℕ}
    (found : provider.effectiveFree sample state = some free) :
    state.reservedExclusively sample.index = false ∧
      free = min sample.freeMem (sample.totalMem - state.reservedBytes sample.index) -
        provider.safetyMarginBytes := by
  cases exclusive : state.reservedExclusively sample.index with
  | false =>
    simp only [NvidiaGpuProvider.effectiveFree, NvidiaState.reservedForIndex, exclusive] at found
    exact ⟨rfl, (Option.some.inj found).symm⟩
  | true => simp [NvidiaGpuProvider.effectiveFree, NvidiaState.reservedForIndex, exclusive] at found

/-- With no memory asked for, every device that is not taken as a whole will do. -/
theorem candidates_zero : provider.candidates state 0 samples =
    (samples.filter fun sample => !state.reservedExclusively sample.index).map GpuSample.index := by
  have suits : ∀ sample, provider.eligible state 0 sample =
      !state.reservedExclusively sample.index := by
    intro sample
    cases exclusive : state.reservedExclusively sample.index <;>
      simp [NvidiaGpuProvider.eligible, NvidiaGpuProvider.effectiveFree,
        NvidiaState.reservedForIndex, exclusive]
  simp only [NvidiaGpuProvider.candidates, funext suits]

/-- The units a reservation stores for the selected devices. -/
def unitsFor (memPerGpu : ℕ) (exclusive : Bool) (selected : List ℕ) : List GpuReservation :=
  selected.map fun device => ⟨device, memPerGpu, exclusive⟩

theorem bytesOn_unitsFor {selected : List ℕ} (nodup : selected.Nodup) (exclusive : Bool) :
    NvidiaState.bytesOn index (unitsFor memPerGpu exclusive selected) =
      if index ∈ selected then memPerGpu else 0 := by
  induction selected with
  | nil => rfl
  | cons device rest ih =>
    obtain ⟨fresh, nodup⟩ := List.nodup_cons.mp nodup
    have later := ih nodup
    simp only [NvidiaState.bytesOn, unitsFor, List.map_cons, List.filter_cons] at later ⊢
    by_cases same : device = index
    · subst same
      simp only [fresh, if_false] at later
      simp [later]
    · have other : index ≠ device := fun equal => same equal.symm
      simp [same, other, later]

end Holding

section Calls

theorem probeSamples_reservations (expired : Bool) (devices : Except String (List MemoryInfo))
    (state : NvidiaState) :
    (probeSamples expired devices state).2.reservations = state.reservations := by
  unfold probeSamples
  split
  · rfl
  · split <;> rfl

theorem probeSamples_cached (expired : Bool) (devices : Except String (List MemoryInfo))
    (state : NvidiaState) (kept : (probeSamples expired devices state).2.cached = some samples) :
    state.cached = some samples ∨ nvmlProbe devices = .ok samples := by
  unfold probeSamples at kept
  split at kept
  · exact .inl kept
  · split at kept
    · exact .inl kept
    · rename_i probed
      obtain rfl := Option.some.inj kept
      exact .inr probed

theorem probeSamples_result (expired : Bool) (devices : Except String (List MemoryInfo))
    (state : NvidiaState) (shown : (probeSamples expired devices state).1 = .ok samples) :
    state.cached = some samples ∨ nvmlProbe devices = .ok samples := by
  unfold probeSamples at shown
  split at shown
  · rename_i samples' held
    obtain rfl := Except.ok.inj shown
    exact .inl held
  · split at shown
    · cases shown
    · rename_i probed
      obtain rfl := Except.ok.inj shown
      exact .inr probed

/-- Eligibility does not read the kept samples. -/
theorem candidates_congr {other : NvidiaState} (same : other.reservations = state.reservations) :
    provider.candidates other memPerGpu samples = provider.candidates state memPerGpu samples := by
  obtain ⟨cached, reservations⟩ := other
  obtain rfl : reservations = state.reservations := same
  rfl

/-- The first candidates are recorded, if there are enough of them. -/
theorem reserveFrom_reservations (request : ReserveRequest) (some_needed : needed ≠ 0) :
    (provider.reserveFrom samples request memPerGpu needed state).2.reservations =
      let selected := (provider.candidates state memPerGpu
        (NvidiaGpuProvider.sortSamples samples)).take needed
      if selected.length < needed then state.reservations
      else state.reservations.insert (provider.grantId request.jobId)
        (unitsFor memPerGpu (memPerGpu = 0 && request.need.contains provider.gpuKey) selected) := by
  have chosen := selectGpus_selected provider state memPerGpu
    (NvidiaGpuProvider.sortSamples samples) [] 0 (Nat.pos_of_ne_zero some_needed)
  simp only [List.nil_append, List.length_nil, Nat.sub_zero] at chosen
  simp only [NvidiaGpuProvider.reserveFrom, chosen]
  split
  · rfl
  · rfl

theorem reserveFrom_cached (request : ReserveRequest) :
    (provider.reserveFrom samples request memPerGpu needed state).2.cached = state.cached := by
  simp only [NvidiaGpuProvider.reserveFrom]
  split <;> rfl

/-- The devices that a request takes from the given samples. -/
def NvidiaGpuProvider.taken (provider : NvidiaGpuProvider) (state : NvidiaState)
    (samples : List GpuSample) (count mem : ℕ) : List ℕ :=
  (provider.candidates state mem (sortSamples samples)).take (neededGpus count mem)

/-- What a call to `reserve` does to the reservations: nothing, or it records the first candidates. -/
theorem reserve_reservations (provider : NvidiaGpuProvider) (request : ReserveRequest) (expired : Bool)
    (devices : Except String (List MemoryInfo)) (state : NvidiaState) :
    (provider.reserve request expired devices state).2.reservations = state.reservations ∨
      ∃ count mem samples, provider.gpuCount request.need = .ok count ∧
        provider.memPerGpu request.need = .ok mem ∧
        (probeSamples expired devices state).1 = .ok samples ∧
        NvidiaGpuProvider.neededGpus count mem ≠ 0 ∧
        (provider.taken state samples count mem).length = NvidiaGpuProvider.neededGpus count mem ∧
        (provider.reserve request expired devices state).2.reservations =
          state.reservations.insert (provider.grantId request.jobId)
            (unitsFor mem (mem = 0 && request.need.contains provider.gpuKey)
              (provider.taken state samples count mem)) := by
  unfold NvidiaGpuProvider.reserve
  split
  · exact .inl rfl
  · exact .inl rfl
  · rename_i count mem counted sized
    by_cases nothing : NvidiaGpuProvider.neededGpus count mem = 0
    · exact .inl (by rw [if_pos nothing])
    · rw [if_neg nothing]
      have same := probeSamples_reservations expired devices state
      split
      · rename_i error after probed
        rw [probed] at same
        exact .inl same
      · rename_i samples after probed
        rw [probed] at same
        rw [reserveFrom_reservations request nothing, candidates_congr same, same]
        by_cases short : (provider.taken state samples count mem).length <
            NvidiaGpuProvider.neededGpus count mem
        · exact .inl (if_pos short)
        · refine .inr ⟨count, mem, samples, counted, sized, by rw [probed], nothing, ?_, if_neg short⟩
          have bound := List.length_take_le (NvidiaGpuProvider.neededGpus count mem)
            (provider.candidates state mem (NvidiaGpuProvider.sortSamples samples))
          exact le_antisymm bound (not_lt.mp short)

/-- A request that finds enough candidates is recorded. -/
theorem reserve_records {request : ReserveRequest} {expired : Bool}
    {devices : Except String (List MemoryInfo)} {count mem : ℕ}
    (counted : provider.gpuCount request.need = .ok count)
    (sized : provider.memPerGpu request.need = .ok mem)
    (shown : (probeSamples expired devices state).1 = .ok samples)
    (some_needed : NvidiaGpuProvider.neededGpus count mem ≠ 0)
    (enough : (provider.taken state samples count mem).length =
      NvidiaGpuProvider.neededGpus count mem) :
    (provider.reserve request expired devices state).2.reservations =
      state.reservations.insert (provider.grantId request.jobId)
        (unitsFor mem (mem = 0 && request.need.contains provider.gpuKey)
          (provider.taken state samples count mem)) := by
  have same := probeSamples_reservations expired devices state
  obtain ⟨after, probed⟩ : ∃ after, probeSamples expired devices state = (.ok samples, after) :=
    ⟨_, Prod.ext shown rfl⟩
  rw [probed] at same
  simp only [NvidiaGpuProvider.reserve, counted, sized, some_needed, if_false, probed]
  rw [reserveFrom_reservations request some_needed, candidates_congr same, same]
  exact if_neg (not_lt.mpr enough.ge)

/-- The samples kept after a call were kept before or come from the driver. -/
theorem reserve_cached (request : ReserveRequest) (expired : Bool)
    (devices : Except String (List MemoryInfo)) (state : NvidiaState)
    (kept : (provider.reserve request expired devices state).2.cached = some samples) :
    state.cached = some samples ∨ nvmlProbe devices = .ok samples := by
  unfold NvidiaGpuProvider.reserve at kept
  split at kept
  · exact .inl kept
  · exact .inl kept
  · rename_i count mem counted sized
    by_cases nothing : NvidiaGpuProvider.neededGpus count mem = 0
    · rw [if_pos nothing] at kept
      exact .inl kept
    · rw [if_neg nothing] at kept
      apply probeSamples_cached expired devices state
      split at kept
      · rename_i probed
        rw [probed]
        exact kept
      · rename_i probed
        rw [reserveFrom_cached] at kept
        rw [probed]
        exact kept

end Calls

end CueShell

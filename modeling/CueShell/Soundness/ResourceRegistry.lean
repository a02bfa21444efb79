import CueShell.Model.ProviderRegistry
import Mathlib.Data.Multiset.Filter

/-! # The registry is atomic and loses no grant

A provider is lawful if a refusal changes nothing, a release undoes a reservation just made, and its
outstanding grants grow and shrink by the grant concerned. The laws speak of a view of its state, since
a provider may also keep what no release restores, such as a probe or a counter. Over lawful providers
a failed reservation is rolled back, and what the registry tracks for a job is what is outstanding.
-/

namespace CueShell

variable {σ ν : Type}

structure Provider.Lawful (provider : Provider σ) (view : σ → ν) (held : ν → Multiset Grant) :
    Prop where
  refused : ∀ {request state reject after},
    provider.reserve request state = (.error reject, after) → view after = view state
  undone : ∀ {request state grant after}, provider.reserve request state = (.ok grant, after) →
    view (provider.release grant.id after) = view state
  granted : ∀ {request state grant after}, provider.reserve request state = (.ok grant, after) →
    grant.jobId = request.jobId ∧ held (view after) = grant ::ₘ held (view state)
  freed : ∀ {state grant}, grant ∈ held (view state) →
    held (view (provider.release grant.id state)) = (held (view state)).erase grant

def RegistryState.tracked (state : RegistryState σ) (jobId : JobId) : List TrackedGrant :=
  (state.reservations.get jobId).getD []

/-- The grants of one provider among tracked ones. -/
def grantsAt (id : String) (tracked : List TrackedGrant) : Multiset Grant :=
  (tracked.filter fun entry => entry.providerId = id).map TrackedGrant.grant

@[simp] theorem grantsAt_nil (id : String) : grantsAt id [] = 0 := rfl

@[simp] theorem grantsAt_append (id : String) (first second : List TrackedGrant) :
    grantsAt id (first ++ second) = grantsAt id first + grantsAt id second := by
  simp [grantsAt]

theorem grantsAt_cons (id : String) (entry : TrackedGrant) (rest : List TrackedGrant) :
    grantsAt id (entry :: rest) =
      if entry.providerId = id then entry.grant ::ₘ grantsAt id rest else grantsAt id rest := by
  by_cases same : entry.providerId = id
  · simp [grantsAt, same]
  · simp [grantsAt, same]

theorem filter_grantsAt {jobId : JobId} {tracked : List TrackedGrant}
    (own : ∀ entry ∈ tracked, entry.grant.jobId = jobId) (id : String) (other : JobId) :
    (grantsAt id tracked).filter (fun grant => grant.jobId = other) =
      if other = jobId then grantsAt id tracked else 0 := by
  have jobs : ∀ grant ∈ grantsAt id tracked, grant.jobId = jobId := by
    intro grant member
    obtain ⟨entry, kept, rfl⟩ := List.mem_map.mp (Multiset.mem_coe.mp member)
    exact own entry (List.mem_filter.mp kept).1
  split
  · rename_i same
    exact Multiset.filter_eq_self.mpr fun grant member => (jobs grant member).trans same.symm
  · rename_i apart
    exact Multiset.filter_eq_nil.mpr fun grant member same =>
      apart (same.symm.trans (jobs grant member))

section Routing

variable {registry : ProviderRegistry σ} {provider : Provider σ}

theorem byId_of_mem (listed : provider ∈ registry.providers) :
    registry.byId provider.id = some provider := by
  have distinct : (registry.providers.map Provider.id).Nodup :=
    registry.sorted.imp fun less same => absurd (same ▸ less) (lt_irrefl _)
  cases found : registry.byId provider.id with
  | none =>
    have absent := List.find?_eq_none.mp found provider listed
    simp at absent
  | some first =>
    have same : first.id = provider.id := by simpa using List.find?_some found
    have member : first ∈ registry.providers := List.mem_of_find?_eq_some found
    rw [List.inj_on_of_nodup_map distinct member listed same]

theorem byProvider_sublist (need : Need) :
    (registry.byProvider need).Sublist registry.providers := List.filter_sublist

theorem byProvider_nodup (need : Need) : ((registry.byProvider need).map Provider.id).Nodup := by
  have distinct : (registry.providers.map Provider.id).Nodup :=
    registry.sorted.imp fun less same => absurd (same ▸ less) (lt_irrefl _)
  exact distinct.sublist ((byProvider_sublist need).map _)

theorem releaseGrant_of_mem (states : ProviderStates σ) (grant : Grant)
    (listed : provider ∈ registry.providers) :
    registry.releaseGrant states ⟨provider.id, grant⟩ =
      Function.update states provider.id (provider.release grant.id (states provider.id)) := by
  simp only [ProviderRegistry.releaseGrant, byId_of_mem listed]

end Routing

section Rollback

variable {registry : ProviderRegistry σ} {view : σ → ν} {held : ν → Multiset Grant}
variable {origin states : ProviderStates σ} {acquired : List TrackedGrant} {jobId : JobId}

/-- What has been acquired since the origin: each grant can be undone where it was made, and nothing
else has changed. -/
structure Acquired (registry : ProviderRegistry σ) (view : σ → ν) (held : ν → Multiset Grant)
    (jobId : JobId) (origin states : ProviderStates σ) (acquired : List TrackedGrant) : Prop where
  nodup : (acquired.map TrackedGrant.providerId).Nodup
  others : ∀ id ∉ acquired.map TrackedGrant.providerId, view (states id) = view (origin id)
  entries : ∀ entry ∈ acquired, entry.grant.jobId = jobId ∧
    ∃ provider ∈ registry.providers, provider.id = entry.providerId ∧
      view (provider.release entry.grant.id (states provider.id)) = view (origin provider.id)
  outstanding : ∀ provider ∈ registry.providers, held (view (states provider.id)) =
    grantsAt provider.id acquired + held (view (origin provider.id))

theorem acquired_nil (registry : ProviderRegistry σ) (view : σ → ν) (held : ν → Multiset Grant)
    (jobId : JobId) (origin : ProviderStates σ) : Acquired registry view held jobId origin origin [] where
  nodup := List.nodup_nil
  others _ _ := rfl
  entries _ member := absurd member List.not_mem_nil
  outstanding _ _ := by simp

/-- Giving grants back, each at another provider, restores the views of the origin. -/
theorem Acquired.foldl_releaseGrant
    (made : Acquired registry view held jobId origin states acquired) (id : String) :
    view (acquired.foldl registry.releaseGrant states id) = view (origin id) := by
  have nodup := made.nodup
  have others := made.others
  have entries := fun entry member => (made.entries entry member).2
  clear made
  induction acquired generalizing states with
  | nil => exact others id List.not_mem_nil
  | cons entry rest ih =>
    obtain ⟨provider, listed, here, undone⟩ := entries entry List.mem_cons_self
    obtain ⟨_, grant⟩ := entry
    obtain rfl : provider.id = _ := here
    obtain ⟨apart, nodup⟩ := List.nodup_cons.mp nodup
    rw [List.foldl_cons, releaseGrant_of_mem states grant listed]
    refine ih nodup ?_ ?_
    · intro other outside
      by_cases same : other = provider.id
      · rw [same, Function.update_self, undone]
      · rw [Function.update_of_ne same]
        refine others other ?_
        simpa [same] using outside
    · intro later member
      obtain ⟨owner, known, there, reverts⟩ := entries later (List.mem_cons_of_mem _ member)
      refine ⟨owner, known, there, ?_⟩
      have distinct : owner.id ≠ provider.id := by
        intro same
        exact apart (List.mem_map.mpr ⟨later, member, there.symm.trans same⟩)
      rw [Function.update_of_ne distinct, reverts]

theorem Acquired.reverse (made : Acquired registry view held jobId origin states acquired) :
    Acquired registry view held jobId origin states acquired.reverse where
  nodup := by
    rw [List.map_reverse]
    exact List.nodup_reverse.mpr made.nodup
  others id outside := made.others id (by simpa using outside)
  entries entry member := made.entries entry (List.mem_reverse.mp member)
  outstanding provider listed := by
    rw [made.outstanding provider listed, grantsAt, grantsAt, List.filter_reverse, List.map_reverse,
      Multiset.coe_reverse]

variable {provider : Provider σ} {after : σ} {grant : Grant} {need : Need}

theorem providerId_ne {entry : TrackedGrant} (member : entry ∈ acquired) {id : String}
    (unused : id ∉ acquired.map TrackedGrant.providerId) : entry.providerId ≠ id := by
  rintro rfl
  exact unused (List.mem_map_of_mem member)

/-- A provider that refuses may still change what no release restores. -/
theorem Acquired.refuse (made : Acquired registry view held jobId origin states acquired) {id : String}
    (unused : id ∉ acquired.map TrackedGrant.providerId) (same : view after = view (states id)) :
    Acquired registry view held jobId origin (Function.update states id after) acquired := by
  have views : ∀ other, view (Function.update states id after other) = view (states other) := by
    intro other
    by_cases here : other = id
    · rw [here, Function.update_self, same]
    · rw [Function.update_of_ne here]
  refine ⟨made.nodup, ?_, ?_, ?_⟩
  · intro other outside
    rw [views, made.others other outside]
  · intro entry member
    obtain ⟨owned, owner, known, there, reverts⟩ := made.entries entry member
    refine ⟨owned, owner, known, there, ?_⟩
    rw [Function.update_of_ne (there ▸ providerId_ne member unused), reverts]
  · intro owner known
    rw [views, made.outstanding owner known]

theorem Acquired.extend (made : Acquired registry view held jobId origin states acquired)
    (lawful : provider.Lawful view held) (listed : provider ∈ registry.providers)
    (unused : provider.id ∉ acquired.map TrackedGrant.providerId)
    (reserved : provider.reserve ⟨jobId, need⟩ (states provider.id) = (.ok grant, after)) :
    Acquired registry view held jobId origin (Function.update states provider.id after)
      (acquired ++ [⟨provider.id, grant⟩]) := by
  obtain ⟨job, added⟩ := lawful.granted reserved
  refine ⟨?_, ?_, ?_, ?_⟩
  · rw [List.map_append]
    exact List.nodup_append.mpr ⟨made.nodup, List.nodup_singleton _, by
      rintro id member other single rfl
      obtain rfl : id = provider.id := List.mem_singleton.mp single
      exact unused member⟩
  · intro id outside
    obtain ⟨earlier, apart⟩ : id ∉ acquired.map TrackedGrant.providerId ∧ id ≠ provider.id := by
      simpa using outside
    rw [Function.update_of_ne apart, made.others id earlier]
  · intro entry member
    rcases List.mem_append.mp member with earlier | last
    · obtain ⟨owned, owner, known, there, reverts⟩ := made.entries entry earlier
      refine ⟨owned, owner, known, there, ?_⟩
      rw [Function.update_of_ne (there ▸ providerId_ne earlier unused), reverts]
    · obtain rfl := List.mem_singleton.mp last
      refine ⟨job, provider, listed, rfl, ?_⟩
      rw [Function.update_self, lawful.undone reserved, made.others _ unused]
  · intro owner known
    by_cases same : owner.id = provider.id
    · rw [same, Function.update_self, added, grantsAt_append, grantsAt_cons, if_pos rfl,
        made.others _ unused]
      have nothing : grantsAt provider.id acquired = 0 := by
        have stranger : ∀ entry ∈ acquired, ¬ entry.providerId = provider.id :=
          fun entry member => providerId_ne member unused
        simpa [grantsAt] using stranger
      rw [nothing]
      simp
    · rw [Function.update_of_ne same, made.outstanding owner known, grantsAt_append, grantsAt_cons,
        if_neg (Ne.symm same)]
      simp

/-- The loop over the providers either restores every view or acquires one grant from each. -/
theorem reserveEach_spec (need : Need)
    (lawful : ∀ provider ∈ registry.providers, provider.Lawful view held)
    (rest : List (Provider σ)) (listed : rest ⊆ registry.providers)
    (nodup : (acquired.map TrackedGrant.providerId ++ rest.map Provider.id).Nodup)
    (made : Acquired registry view held jobId origin states acquired) :
    match registry.reserveEach jobId need rest acquired states with
    | (.error _, after) => ∀ id, view (after id) = view (origin id)
    | (.ok all, after) => Acquired registry view held jobId origin after all ∧
        all.map TrackedGrant.providerId =
          acquired.map TrackedGrant.providerId ++ rest.map Provider.id := by
  induction rest generalizing acquired states with
  | nil => exact ⟨made, by simp⟩
  | cons provider rest ih =>
    obtain ⟨known, others⟩ := List.cons_subset.mp listed
    have unused : provider.id ∉ acquired.map TrackedGrant.providerId := by
      intro member
      exact (List.disjoint_of_nodup_append nodup) member List.mem_cons_self
    rw [ProviderRegistry.reserveEach]
    rcases reserved : provider.reserve
      ⟨jobId, need.select (ProviderRegistry.ownedKeys provider need)⟩ (states provider.id) with
      ⟨reject | grant, after⟩
    · intro id
      have refused := made.refuse unused ((lawful provider known).refused reserved)
      exact refused.reverse.foldl_releaseGrant id
    · have next := made.extend (lawful provider known) known unused reserved
      let entry : TrackedGrant := ⟨provider.id, grant⟩
      have ids : (acquired ++ [entry]).map TrackedGrant.providerId ++
          rest.map Provider.id = acquired.map TrackedGrant.providerId ++
            (provider :: rest).map Provider.id := by simp [entry]
      have result := ih others (ids ▸ nodup) next
      rw [ids] at result
      exact result

end Rollback

section Accounts

variable {registry : ProviderRegistry σ} {view : σ → ν} {held : ν → Multiset Grant}
variable {start : ProviderStates σ} {state : RegistryState σ} {jobId : JobId} {need : Need}

/-- The outstanding grants of a job at a provider. -/
def outstanding (view : σ → ν) (held : ν → Multiset Grant) (states : ProviderStates σ) (id : String)
    (jobId : JobId) : Multiset Grant :=
  (held (view (states id))).filter fun grant => grant.jobId = jobId

/-- What is outstanding for a job is what was so at the start and what is tracked for it. -/
structure Accounted (registry : ProviderRegistry σ) (view : σ → ν) (held : ν → Multiset Grant)
    (start : ProviderStates σ) (state : RegistryState σ) : Prop where
  owned : ∀ jobId, ∀ entry ∈ state.tracked jobId, entry.grant.jobId = jobId ∧
    ∃ provider ∈ registry.providers, provider.id = entry.providerId
  balance : ∀ provider ∈ registry.providers, ∀ jobId,
    outstanding view held state.providers provider.id jobId =
      outstanding view held start provider.id jobId +
        grantsAt provider.id (state.tracked jobId)

theorem accounted_start : Accounted registry view held start ⟨start, .empty⟩ where
  owned _ _ member := by simp [RegistryState.tracked] at member
  balance _ _ _ := by simp [RegistryState.tracked]

/-- The outcome of a reservation, against the state before it. -/
def Reserved (registry : ProviderRegistry σ) (view : σ → ν) (held : ν → Multiset Grant)
    (jobId : JobId) (need : Need) (state : RegistryState σ) :
    Except RejectGroup (List Grant) × RegistryState σ → Prop
  | (.error _, after) => after.reservations = state.reservations ∧
      ∀ id, view (after.providers id) = view (state.providers id)
  | (.ok grants, after) => ∃ acquired,
      acquired.map TrackedGrant.grant = grants ∧
      acquired.map TrackedGrant.providerId = (registry.byProvider need).map Provider.id ∧
      (∀ other, after.tracked other =
        if other = jobId then state.tracked jobId ++ acquired else state.tracked other) ∧
      (∀ entry ∈ acquired, entry.grant.jobId = jobId) ∧
      ∀ provider ∈ registry.providers, held (view (after.providers provider.id)) =
        grantsAt provider.id acquired + held (view (state.providers provider.id))

theorem tryReserve_spec (lawful : ∀ provider ∈ registry.providers, provider.Lawful view held)
    (jobId : JobId) (need : Need) (state : RegistryState σ) :
    Reserved registry view held jobId need state (registry.tryReserve jobId need state) := by
  rw [ProviderRegistry.tryReserve]
  split
  · rename_i empty
    refine ⟨[], rfl, ?_, ?_, ?_, ?_⟩
    · simp [ProviderRegistry.byProvider, ProviderRegistry.ownedKeys, empty]
    · intro other
      split
      · rename_i same
        rw [same, List.append_nil]
      · rfl
    · simp
    · simp
  · split
    · exact ⟨rfl, fun _ => rfl⟩
    · have loop := reserveEach_spec need lawful (registry.byProvider need)
        (byProvider_sublist need).subset (by simpa using byProvider_nodup need)
        (acquired_nil registry view held jobId state.providers)
      rcases outcome : registry.reserveEach jobId need (registry.byProvider need) []
        state.providers with ⟨reject | acquired, after⟩
      · rw [outcome] at loop
        exact ⟨rfl, loop⟩
      · rw [outcome] at loop
        obtain ⟨made, ids⟩ := loop
        refine ⟨acquired, rfl, by simpa using ids, ?_, ?_, made.outstanding⟩
        · intro other
          simp only [RegistryState.tracked, Table.get_insert]
          split
          · rfl
          · rfl
        · exact fun entry member => (made.entries entry member).1

/-- Releasing grants that are outstanding takes exactly these away. -/
theorem held_foldl_releaseGrant
    (lawful : ∀ provider ∈ registry.providers, provider.Lawful view held)
    {tracked : List TrackedGrant} {states : ProviderStates σ} (rest : String → Multiset Grant)
    (owned : ∀ entry ∈ tracked, ∃ provider ∈ registry.providers, provider.id = entry.providerId)
    (holds : ∀ provider ∈ registry.providers,
      held (view (states provider.id)) = grantsAt provider.id tracked + rest provider.id) :
    ∀ provider ∈ registry.providers,
      held (view (tracked.foldl registry.releaseGrant states provider.id)) = rest provider.id := by
  induction tracked generalizing states with
  | nil => simpa using holds
  | cons entry others ih =>
    obtain ⟨owner, known, here⟩ := owned entry List.mem_cons_self
    obtain ⟨_, grant⟩ := entry
    obtain rfl : owner.id = _ := here
    have before := holds owner known
    rw [grantsAt_cons, if_pos rfl, Multiset.cons_add] at before
    rw [List.foldl_cons, releaseGrant_of_mem states grant known]
    refine ih (fun entry member => owned entry (List.mem_cons_of_mem _ member)) ?_
    intro provider listed
    by_cases same : provider.id = owner.id
    · have member : grant ∈ held (view (states owner.id)) := by
        rw [before]
        exact Multiset.mem_cons_self ..
      rw [same, Function.update_self, (lawful owner known).freed member, before,
        Multiset.erase_cons_head]
    · rw [Function.update_of_ne same, holds provider listed, grantsAt_cons, if_neg (Ne.symm same)]

/-- A release leaves what was outstanding at the start, and the grants of other jobs. -/
theorem held_release (lawful : ∀ provider ∈ registry.providers, provider.Lawful view held)
    (accounted : Accounted registry view held start state) (jobId : JobId) :
    ∀ provider ∈ registry.providers,
      held (view ((registry.release jobId state).2.providers provider.id)) +
        grantsAt provider.id (state.tracked jobId) = held (view (state.providers provider.id)) := by
  have apart : ∀ provider ∈ registry.providers, held (view (state.providers provider.id)) =
      grantsAt provider.id (state.tracked jobId) +
        (outstanding view held start provider.id jobId +
          (held (view (state.providers provider.id))).filter fun grant => ¬ grant.jobId = jobId) := by
    intro provider listed
    have total := accounted.balance provider listed jobId
    calc held (view (state.providers provider.id))
        = outstanding view held state.providers provider.id jobId +
            (held (view (state.providers provider.id))).filter fun grant => ¬ grant.jobId = jobId :=
          (Multiset.filter_add_not ..).symm
      _ = _ := by rw [total, add_comm (outstanding ..) (grantsAt ..), add_assoc]
  have freed := held_foldl_releaseGrant lawful
    (fun id => outstanding view held start id jobId +
      (held (view (state.providers id))).filter fun grant => ¬ grant.jobId = jobId)
    (fun entry member => (accounted.owned jobId entry member).2) apart
  intro provider listed
  rw [ProviderRegistry.release, apart provider listed, add_comm]
  exact congrArg _ (freed provider listed)

theorem tracked_release (registry : ProviderRegistry σ) (state : RegistryState σ)
    (jobId other : JobId) : (registry.release jobId state).2.tracked other =
    if other = jobId then [] else state.tracked other := by
  simp only [ProviderRegistry.release, RegistryState.tracked, Table.get_erase]
  split
  · rfl
  · rfl

theorem Accounted.release (lawful : ∀ provider ∈ registry.providers, provider.Lawful view held)
    (accounted : Accounted registry view held start state) (jobId : JobId) :
    Accounted registry view held start (registry.release jobId state).2 := by
  refine ⟨?_, ?_⟩
  · intro other entry member
    rw [tracked_release] at member
    split at member
    · exact absurd member List.not_mem_nil
    · exact accounted.owned other entry member
  · intro provider listed other
    have freed := congrArg (Multiset.filter fun grant => grant.jobId = other)
      (held_release lawful accounted jobId provider listed)
    have before := accounted.balance provider listed other
    have own := filter_grantsAt (fun entry member => (accounted.owned jobId entry member).1)
      provider.id other
    rw [Multiset.filter_add, own] at freed
    rw [tracked_release]
    by_cases same : other = jobId
    · subst same
      rw [if_pos rfl] at freed ⊢
      rw [grantsAt_nil, add_zero]
      exact add_right_cancel (freed.trans before)
    · rw [if_neg same, add_zero] at freed
      rw [if_neg same]
      exact freed.trans before

theorem Accounted.tryReserve (lawful : ∀ provider ∈ registry.providers, provider.Lawful view held)
    (accounted : Accounted registry view held start state) (jobId : JobId) (need : Need) :
    Accounted registry view held start (registry.tryReserve jobId need state).2 := by
  have reserved := tryReserve_spec lawful jobId need state
  revert reserved
  rcases registry.tryReserve jobId need state with ⟨reject | grants, after⟩
  · rintro ⟨tracking, views⟩
    have same : ∀ other, after.tracked other = state.tracked other := by
      intro other
      rw [RegistryState.tracked, tracking, RegistryState.tracked]
    refine ⟨fun other => by rw [same]; exact accounted.owned other, ?_⟩
    intro provider listed other
    rw [same, ← accounted.balance provider listed other, outstanding, views, outstanding]
  · rintro ⟨acquired, -, ids, tracking, own, added⟩
    refine ⟨?_, ?_⟩
    · intro other entry member
      rw [tracking] at member
      split at member
      · rename_i same
        rcases List.mem_append.mp member with earlier | new
        · exact same ▸ accounted.owned jobId entry earlier
        · refine ⟨same ▸ own entry new, ?_⟩
          have routed := List.mem_map_of_mem (f := TrackedGrant.providerId) new
          rw [ids] at routed
          obtain ⟨provider, chosen, there⟩ := List.mem_map.mp routed
          exact ⟨provider, (byProvider_sublist need).subset chosen, there⟩
      · exact accounted.owned other entry member
    · intro provider listed other
      rw [outstanding, added provider listed, Multiset.filter_add, filter_grantsAt own, tracking]
      have before := accounted.balance provider listed other
      by_cases same : other = jobId
      · subst same
        rw [if_pos rfl, if_pos rfl, grantsAt_append, ← add_assoc, ← before, add_comm]
        rfl
      · rw [if_neg same, if_neg same, zero_add]
        exact before

theorem accounted_run (lawful : ∀ provider ∈ registry.providers, provider.Lawful view held)
    (start : ProviderStates σ) (calls : List RegistryCall) :
    Accounted registry view held start (registry.run start calls) := by
  have steps : ∀ state, Accounted registry view held start state →
      Accounted registry view held start (calls.foldl registry.call state) := by
    induction calls with
    | nil => exact fun _ accounted => accounted
    | cons call rest ih =>
      intro state accounted
      refine ih _ ?_
      cases call with
      | tryReserve jobId need => exact accounted.tryReserve lawful jobId need
      | release jobId => exact accounted.release lawful jobId
  exact steps _ accounted_start

/-- After a release nothing is tracked for the job, so another one does nothing. -/
theorem release_release (jobId : JobId) (state : RegistryState σ) :
    registry.release jobId (registry.release jobId state).2 =
      (0, (registry.release jobId state).2) := by
  have gone : ((registry.release jobId state).2.reservations.get jobId).getD [] = [] := by
    simpa [RegistryState.tracked] using tracked_release registry state jobId jobId
  have erased : (state.reservations.erase jobId).erase jobId = state.reservations.erase jobId := by
    refine Table.ext_get fun other => ?_
    simp only [Table.get_erase]
    split <;> rfl
  rw [ProviderRegistry.release, gone]
  simp only [List.length_nil, List.foldl_nil, ProviderRegistry.release, erased]

/-- In every state of every run: a refused request changes nothing, a granted one is tracked with one
grant from each provider that owns a requested key, what is tracked is what is outstanding, and a
release gives back exactly that, once. -/
theorem registry_conserves (registry : ProviderRegistry σ) (view : σ → ν) (held : ν → Multiset Grant)
    (lawful : ∀ provider ∈ registry.providers, provider.Lawful view held)
    (start : ProviderStates σ) (calls : List RegistryCall) :
    let state := registry.run start calls
    Accounted registry view held start state ∧
    (∀ jobId need,
      Reserved registry view held jobId need state (registry.tryReserve jobId need state) ∧
        Accounted registry view held start (registry.tryReserve jobId need state).2) ∧
    ∀ jobId, let (count, after) := registry.release jobId state
      count = (state.tracked jobId).length ∧
      (∀ other, after.tracked other = if other = jobId then [] else state.tracked other) ∧
      (∀ provider ∈ registry.providers, held (view (after.providers provider.id)) +
        grantsAt provider.id (state.tracked jobId) = held (view (state.providers provider.id))) ∧
      Accounted registry view held start after ∧
      registry.release jobId after = (0, after) := by
  intro state
  have accounted := accounted_run lawful start calls
  refine ⟨accounted, ?_, ?_⟩
  · intro jobId need
    exact ⟨tryReserve_spec lawful jobId need state, accounted.tryReserve lawful jobId need⟩
  · intro jobId
    exact ⟨rfl, tracked_release registry state jobId, held_release lawful accounted jobId,
      accounted.release lawful jobId, release_release jobId state⟩

end Accounts

section Slots

/-- The jobs that hold a slot of a pool. -/
structure SlotPool where
  name : String
  taken : Finset JobId

namespace SlotPool

def grant (name : String) (jobId : JobId) : Grant :=
  { id := jobText jobId, jobId := jobId, providerId := name }

def grants (pool : SlotPool) : Multiset Grant := pool.taken.val.map (grant pool.name)

/-- A pool with a number of equal slots, at most one for each job. -/
def provider (name key : String) (slots : ℕ) : Provider SlotPool where
  id := name
  keys := [key]
  reserve request pool :=
    if request.jobId ∈ pool.taken ∨ slots ≤ pool.taken.card then
      (.error { reason := "no free slot" }, pool)
    else
      (.ok (grant pool.name request.jobId), { pool with taken := insert request.jobId pool.taken })
  release grantId pool :=
    { pool with taken := pool.taken.filter fun jobId => jobText jobId ≠ grantId }

theorem release_taken (name key : String) (slots : ℕ) (pool : SlotPool) (jobId : JobId) :
    (provider name key slots).release (jobText jobId) pool =
      ⟨pool.name, pool.taken.erase jobId⟩ := by
  simp only [provider, SlotPool.mk.injEq, true_and]
  ext other
  rw [Finset.mem_filter, Finset.mem_erase, and_comm]
  exact and_congr_left' (not_congr ⟨jobText_injective, congrArg jobText⟩)

theorem provider_lawful (name key : String) (slots : ℕ) :
    (provider name key slots).Lawful id grants where
  refused := by
    intro request pool reject after outcome
    simp only [provider] at outcome
    split at outcome
    · cases outcome
      rfl
    · cases outcome
  undone := by
    intro request pool grant after outcome
    simp only [provider] at outcome
    split at outcome
    · cases outcome
    · rename_i free
      cases outcome
      have absent : request.jobId ∉ pool.taken := fun member => free (.inl member)
      exact (release_taken name key slots _ request.jobId).trans
        (congrArg (SlotPool.mk pool.name) (Finset.erase_insert absent))
  granted := by
    intro request pool grant after outcome
    simp only [provider] at outcome
    split at outcome
    · cases outcome
    · rename_i free
      cases outcome
      have absent : request.jobId ∉ pool.taken := fun member => free (.inl member)
      exact ⟨rfl, by simp [grants, Finset.insert_val_of_notMem absent]⟩
  freed := by
    intro pool grant member
    obtain ⟨jobId, _, rfl⟩ := Multiset.mem_map.mp member
    have distinct : Function.Injective (SlotPool.grant pool.name) :=
      fun first second same => congrArg Reservation.jobId same
    have released := release_taken name key slots pool jobId
    simp only [id, grants, SlotPool.grant] at released ⊢
    rw [released, Finset.erase_val, Multiset.map_erase _ distinct]
    rfl

/-- Two pools with one slot each. -/
def registry : ProviderRegistry SlotPool where
  providers := [provider "disk" "disk" 1, provider "net" "net" 1]
  sorted := by decide
  owned := by decide

theorem registry_lawful : ∀ provider ∈ registry.providers, provider.Lawful id grants := by
  intro provider member
  rcases List.mem_cons.mp member with rfl | member
  · exact provider_lawful ..
  · obtain rfl := List.mem_singleton.mp member
    exact provider_lawful ..

end SlotPool

/-- The second job gets the disk but not the network, and gives the disk back. -/
theorem slotPool_conserves :
    let state := SlotPool.registry.run (fun name => ⟨name, ∅⟩) [.tryReserve 1 [("net", .count 1)]]
    let (outcome, after) :=
      SlotPool.registry.tryReserve 2 [("disk", .count 1), ("net", .count 1)] state
    outcome.isOk = false ∧ after.reservations = state.reservations ∧
      (∀ name, after.providers name = state.providers name) ∧
      (SlotPool.registry.release 1 state).1 = 1 := by
  have conserves := registry_conserves SlotPool.registry id SlotPool.grants SlotPool.registry_lawful
    (fun name => ⟨name, ∅⟩) [.tryReserve 1 [("net", .count 1)]]
  have refused := (conserves.2.1 2 [("disk", .count 1), ("net", .count 1)]).1
  exact ⟨by decide, refused.1, refused.2, by decide⟩

end Slots

end CueShell

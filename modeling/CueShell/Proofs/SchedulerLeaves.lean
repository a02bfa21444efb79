import CueShell.Proofs.SchedulerChains

/-! # Leaves and their jobs

The table of a chain shows of each leaf what the entry of its job says. The end of a job and the
admission of a job that waited change both at once; a leaf that gets a job is entered in both. The
entry of a job that has ended may be dropped, its leaf keeps the end.
-/

namespace CueShell

variable {target : Targets} {request : Option SpawnChainRequest} {config : Config}
variable {occasion : Occasion} {before after : Board} {jobId : JobId} {chainId : ChainId}

/-- What the table of a chain shows of a job. -/
def LeafStatus.Shows (status : Option LeafStatus) : Option JobEntry → Prop
  | none => status.any LeafStatus.isTerminal = true
  | some entry => status = some (leafStatusFor (entry.exitCode.getD 0) entry.status)

/-- What a leaf takes over from the entry of its job. -/
def JobEntry.outcome (entry : JobEntry) : JobStatus × Option ℤ := (entry.status, entry.exitCode)

theorem leafStatusFor_isTerminal (exitCode : ℤ) (status : JobStatus) :
    (leafStatusFor exitCode status).isTerminal = status.isTerminal := by
  cases status <;> rfl

section Shows

variable {status : Option LeafStatus} {entry later : JobEntry}

theorem LeafStatus.Shows.of_outcome (shows : LeafStatus.Shows status (some entry))
    (same : later.outcome = entry.outcome) : LeafStatus.Shows status (some later) := by
  obtain ⟨sameStatus, sameCode⟩ := Prod.ext_iff.mp same
  change status = some (leafStatusFor (later.exitCode.getD 0) later.status)
  rw [show later.status = entry.status from sameStatus, show later.exitCode = entry.exitCode from sameCode]
  exact shows

/-- The entry of a job that has ended is dropped. -/
theorem LeafStatus.Shows.dropped (shows : LeafStatus.Shows status (some entry))
    (ended : entry.status.isTerminal) : LeafStatus.Shows status none := by
  have stored : status = some (leafStatusFor (entry.exitCode.getD 0) entry.status) := shows
  rw [LeafStatus.Shows, stored, Option.any_some, leafStatusFor_isTerminal]
  exact ended

/-- The leaf of a job that has not ended has not ended. -/
theorem LeafStatus.Shows.active (shows : LeafStatus.Shows status (some entry))
    (unfinished : ¬ entry.status.isTerminal) :
    status = some .running ∧ entry.status = .running ∨
      status = some .pending ∧ entry.status = .pending := by
  have stored : status = some (leafStatusFor (entry.exitCode.getD 0) entry.status) := shows
  rw [stored]
  cases known : entry.status with
  | pending => exact .inr ⟨rfl, rfl⟩
  | running => exact .inl ⟨rfl, rfl⟩
  | _ => exact absurd (by rw [known]; rfl) unfinished

/-- A leaf ends with its job. -/
theorem LeafStatus.Shows.ended {found : Option JobEntry} (shows : LeafStatus.Shows status found)
    (past : ∀ entry, found = some entry → entry.status.isTerminal) :
    status.any LeafStatus.isTerminal = true := by
  cases found with
  | none => exact shows
  | some entry => exact shows.dropped (past entry rfl)

end Shows

/-- A chain after a change of one of its leaves. -/
theorem Board.get_setLeaf {board : Board} {place : Option (ChainId × ℕ)} {status : LeafStatus}
    {later : ChainState} (found : (board.setLeaf place status).get chainId = some later) :
    ∃ chain, board.chains.get chainId = some chain ∧
      ((∃ index, place = some (chainId, index) ∧ later = chain.setLeaf index status) ∨
        (∀ index, place ≠ some (chainId, index)) ∧ later = chain) := by
  unfold Board.setLeaf at found
  split at found
  · exact ⟨later, found, .inr ⟨fun _ => nofun, rfl⟩⟩
  · rename_i changed index
    rw [Table.get_modify] at found
    split at found
    · rename_i same
      subst same
      obtain ⟨chain, known, rfl⟩ := Option.map_eq_some_iff.mp found
      exact ⟨chain, known, .inl ⟨index, rfl, rfl⟩⟩
    · rename_i different
      refine ⟨later, found, .inr ⟨fun position same => different ?_, rfl⟩⟩
      cases same
      rfl

section Paired

/-- Leaves show their jobs, and a job that has not ended belongs to the leaf it was entered for; the
skipped job is being entered. -/
structure Board.Paired (board : Board) (skipped : Option JobId) : Prop where
  shows_ : ∀ chainId chain index jobId, board.chains.get chainId = some chain →
    chain.leafJobs.get index = some jobId → some jobId ≠ skipped →
      LeafStatus.Shows (chain.leafStatus index) (board.jobs.get jobId)
  owner : ∀ chainId chain index jobId, board.chains.get chainId = some chain →
    chain.scopeEnabled = false → board.jobToChain.get jobId = some (chainId, index) →
      chain.leafJobs.get index = some jobId
  transforms : ∀ chainId chain index jobId entry, board.chains.get chainId = some chain →
    chain.scopeEnabled = true → board.jobToChain.get jobId = some (chainId, index) →
      some jobId ≠ skipped → board.jobs.get jobId = some entry → entry.status.isTerminal
  placed : ∀ jobId chainId index, board.jobToChain.get jobId = some (chainId, index) →
    chainId < board.nextChain

theorem Board.Paired.shown (paired : before.Paired none) {chain : ChainState} {index : ℕ}
    (active : before.chains.get chainId = some chain)
    (started : chain.leafJobs.get index = some jobId) :
    LeafStatus.Shows (chain.leafStatus index) (before.jobs.get jobId) :=
  paired.shows_ chainId chain index jobId active started (Option.some_ne_none _)

theorem Board.Paired.transformed (paired : before.Paired none) {chain : ChainState} {index : ℕ}
    {entry : JobEntry} (active : before.chains.get chainId = some chain)
    (transforms : chain.scopeEnabled = true)
    (located : before.jobToChain.get jobId = some (chainId, index))
    (stored : before.jobs.get jobId = some entry) : entry.status.isTerminal :=
  paired.transforms chainId chain index jobId entry active transforms located
    (Option.some_ne_none _) stored

/-- A job is as it was before, or it had ended and is gone. -/
inductive Board.SameJob (before after : Board) (jobId : JobId) : Prop
  | same (same : (after.jobs.get jobId).map JobEntry.outcome =
      (before.jobs.get jobId).map JobEntry.outcome)
  | gone (gone : after.jobs.get jobId = none)
      (ended : ∀ entry, before.jobs.get jobId = some entry → entry.status.isTerminal)

theorem Board.SameJob.of_eq (same : after.jobs = before.jobs) (jobId : JobId) :
    before.SameJob after jobId :=
  .same (by rw [same])

/-- Something else about one job is stored. -/
theorem Board.SameJob.of_insert {changed : JobId} {entry later : JobEntry}
    (jobs : after.jobs = before.jobs.insert changed later)
    (found : before.jobs.get changed = some entry) (same : later.outcome = entry.outcome)
    (jobId : JobId) : before.SameJob after jobId := by
  refine .same ?_
  rw [jobs, Table.get_insert]
  split
  · rename_i here
    rw [here, found, Option.map_some, Option.map_some, same]
  · rfl

theorem Board.SameJob.shows_ {status : Option LeafStatus} (same : before.SameJob after jobId)
    (shows : LeafStatus.Shows status (before.jobs.get jobId)) :
    LeafStatus.Shows status (after.jobs.get jobId) := by
  cases same with
  | same same =>
    cases known : before.jobs.get jobId with
    | none =>
      rw [known, Option.map_none, Option.map_eq_none_iff] at same
      rw [same]
      rw [known] at shows
      exact shows
    | some entry =>
      rw [known, Option.map_some] at same
      obtain ⟨later, stored, outcome⟩ := Option.map_eq_some_iff.mp same
      rw [known] at shows
      rw [stored]
      exact shows.of_outcome outcome
  | gone gone ended =>
    rw [gone]
    exact shows.ended ended

theorem Board.SameJob.ended (same : before.SameJob after jobId)
    (past : ∀ entry, before.jobs.get jobId = some entry → entry.status.isTerminal) :
    ∀ entry, after.jobs.get jobId = some entry → entry.status.isTerminal := by
  intro later found
  cases same with
  | same same =>
    rw [found, Option.map_some] at same
    obtain ⟨entry, known, outcome⟩ := Option.map_eq_some_iff.mp same.symm
    have status : entry.status = later.status := (Prod.ext_iff.mp outcome).1
    exact status ▸ past entry known
  | gone gone =>
    rw [gone] at found
    cases found

namespace Board.Paired

variable {skipped : Option JobId}

/-- Chains and places stay, and so do the jobs that have a place. -/
theorem aside (paired : before.Paired skipped) (leaves : before.Placed)
    (chains : after.chains = before.chains) (places : after.jobToChain = before.jobToChain)
    (nextChain : after.nextChain = before.nextChain)
    (jobs : ∀ jobId, (before.jobToChain.get jobId).isSome → before.SameJob after jobId) :
    after.Paired skipped where
  shows_ chainId chain index jobId active started other := by
    rw [chains] at active
    have place := leaves chainId chain index jobId active started
    exact (jobs jobId (by simp [place])).shows_
      (paired.shows_ chainId chain index jobId active started other)
  owner := by
    rw [chains, places]
    exact paired.owner
  transforms := by
    rw [chains, places]
    intro chainId chain index jobId entry active transforms place other found
    exact (jobs jobId (by simp [place])).ended
      (fun entry => paired.transforms chainId chain index jobId entry active transforms place other)
      entry found
  placed := by
    rw [places, nextChain]
    exact paired.placed

/-- A job of an active chain that has not ended is the job of its leaf, and its leaf has not ended. -/
theorem seat (paired : before.Paired none) {entry : JobEntry}
    (found : before.jobs.get jobId = some entry) (unfinished : ¬ entry.status.isTerminal)
    {chain : ChainState} {index : ℕ} (active : before.chains.get chainId = some chain)
    (place : before.jobToChain.get jobId = some (chainId, index)) :
    chain.scopeEnabled = false ∧ chain.leafJobs.get index = some jobId ∧
      LeafStatus.Shows (chain.leafStatus index) (some entry) := by
  have process : chain.scopeEnabled = false := by
    by_contra transforms
    exact unfinished (paired.transformed active (by simpa using transforms) place found)
  have started := paired.owner chainId chain index jobId active process place
  have shown := paired.shown active started
  rw [found] at shown
  exact ⟨process, started, shown⟩

/-- A job changes together with its leaf. -/
theorem setLeaf (paired : before.Paired skipped) (leaves : before.Placed) {later : JobEntry}
    (jobs : after.jobs = before.jobs.insert jobId later)
    (chains : after.chains = before.setLeaf (before.jobToChain.get jobId)
      (leafStatusFor (later.exitCode.getD 0) later.status))
    (places : after.jobToChain = before.jobToChain) (nextChain : after.nextChain = before.nextChain)
    (skips : skipped = none ∨ skipped = some jobId)
    (seat : ∀ chainId chain index, before.chains.get chainId = some chain →
      before.jobToChain.get jobId = some (chainId, index) → chain.leafJobs.get index = some jobId)
    (transforms : ∀ chainId chain index, before.chains.get chainId = some chain →
      chain.scopeEnabled = true → before.jobToChain.get jobId = some (chainId, index) →
        later.status.isTerminal) : after.Paired none where
  shows_ chainId chain' index other active started _ := by
    rw [chains] at active
    rw [jobs, Table.get_insert]
    obtain ⟨chain, known, change⟩ := Board.get_setLeaf active
    have leafJobs : chain.leafJobs.get index = some other := by
      rcases change with ⟨_, -, rfl⟩ | ⟨-, rfl⟩ <;> exact started
    have place := leaves chainId chain index other known leafJobs
    by_cases same : other = jobId
    · subst same
      rw [if_pos rfl]
      rcases change with ⟨position, here, rfl⟩ | ⟨elsewhere, -⟩
      · cases place.symm.trans here
        exact ChainState.setLeaf_self ..
      · exact absurd place (elsewhere index)
    · rw [if_neg same]
      have shown : LeafStatus.Shows (chain.leafStatus index) (before.jobs.get other) := by
        refine paired.shows_ chainId chain index other known leafJobs ?_
        rcases skips with rfl | rfl
        · exact Option.some_ne_none _
        · exact fun equal => same (Option.some.inj equal)
      rcases change with ⟨position, here, rfl⟩ | ⟨-, rfl⟩
      · have apart : index ≠ position := by
          rintro rfl
          have own := seat chainId chain index known here
          rw [leafJobs] at own
          exact same (Option.some.inj own)
        rw [ChainState.setLeaf_of_ne _ _ apart]
        exact shown
      · exact shown
  owner chainId chain' index other active process place := by
    rw [chains] at active
    rw [places] at place
    obtain ⟨chain, known, change⟩ := Board.get_setLeaf active
    rcases change with ⟨_, -, rfl⟩ | ⟨-, rfl⟩
    · exact paired.owner chainId chain index other known process place
    · exact paired.owner chainId _ index other known process place
  transforms chainId chain' index other entry active transform place _ found := by
    rw [chains] at active
    rw [places] at place
    rw [jobs, Table.get_insert] at found
    obtain ⟨chain, known, change⟩ := Board.get_setLeaf active
    have enabled : chain.scopeEnabled = true := by
      rcases change with ⟨_, -, rfl⟩ | ⟨-, rfl⟩ <;> exact transform
    by_cases same : other = jobId
    · subst same
      rw [if_pos rfl] at found
      cases found
      exact transforms chainId chain index known enabled place
    · rw [if_neg same] at found
      refine paired.transforms chainId chain index other entry known enabled place ?_ found
      rcases skips with rfl | rfl
      · exact Option.some_ne_none _
      · exact fun equal => same (Option.some.inj equal)
  placed := by
    rw [places, nextChain]
    exact paired.placed

section Enter

variable {chain : ChainState} {index : ℕ} {ready : List (ℕ × ScopeHash)} {status : LeafStatus}
variable {entry : JobEntry}

/-- A chain after one of its leaves got a job. -/
theorem get_enterLeaf {other : ChainId} {later : ChainState}
    (active : before.chains.get chainId = some chain)
    (found : (before.enterLeaf chainId chain index ready status entry).chains.get other = some later) :
    other = chainId ∧ later = chain.enter index before.nextJob status ∨
      other ≠ chainId ∧ before.chains.get other = some later := by
  dsimp only [Board.enterLeaf] at found
  rw [Table.get_modify, active, Option.map_some] at found
  split at found
  · rename_i same
    cases found
    exact .inl ⟨same, rfl⟩
  · rename_i different
    exact .inr ⟨different, found⟩

/-- The leaf that is entered shows its job only later. -/
theorem enterLeaf (paired : before.Paired none) (orderly : before.Orderly)
    (active : before.chains.get chainId = some chain)
    (idle : chain.scopeEnabled = false → chain.leafJobs.get index = none) :
    (before.enterLeaf chainId chain index ready status entry).Paired (some before.nextJob) where
  shows_ other later position jobId found started skips := by
    have apart : jobId ≠ before.nextJob := fun same => skips (congrArg some same)
    have kept : (before.enterLeaf chainId chain index ready status entry).jobs.get jobId =
        before.jobs.get jobId := (Table.get_insert ..).trans (if_neg apart)
    rw [kept]
    rcases get_enterLeaf active found with ⟨rfl, rfl⟩ | ⟨-, known⟩
    · dsimp only [ChainState.enter] at started ⊢
      rw [Table.get_insert] at started
      split at started
      · cases started
        exact absurd rfl apart
      · rename_i elsewhere
        rw [Function.update_of_ne elsewhere]
        exact paired.shown active started
    · exact paired.shown known started
  owner other later position jobId found process place := by
    dsimp only [Board.enterLeaf] at place
    rw [Table.get_insert] at place
    split at place
    · rename_i same
      cases place
      rcases get_enterLeaf active found with ⟨-, rfl⟩ | ⟨different, -⟩
      · exact (Table.get_insert ..).trans ((if_pos rfl).trans (by rw [same]))
      · exact absurd rfl different
    · rcases get_enterLeaf active found with ⟨rfl, rfl⟩ | ⟨-, known⟩
      · have started := paired.owner _ chain position jobId active process place
        have apart : position ≠ index := by
          rintro rfl
          rw [idle process] at started
          cases started
        exact (Table.get_insert ..).trans ((if_neg apart).trans started)
      · exact paired.owner other later position jobId known process place
  transforms other later position jobId known found transforms place skips stored := by
    have apart : jobId ≠ before.nextJob := fun same => skips (congrArg some same)
    dsimp only [Board.enterLeaf] at place stored
    rw [Table.get_insert, if_neg apart] at place stored
    rcases get_enterLeaf active found with ⟨rfl, rfl⟩ | ⟨-, old⟩
    · exact paired.transformed active transforms place stored
    · exact paired.transformed old transforms place stored
  placed jobId other position place := by
    dsimp only [Board.enterLeaf] at place
    rw [Table.get_insert] at place
    split at place
    · cases place
      exact orderly.chains chainId ((before.chains.mem_keys chainId).mpr (by simp [active]))
    · exact paired.placed jobId other position place

/-- The leaf of a process shows its new job at once. -/
theorem enterProcess (paired : before.Paired none) (orderly : before.Orderly)
    (active : before.chains.get chainId = some chain) (process : chain.scopeEnabled = false)
    (idle : chain.leafJobs.get index = none)
    (shown : status = leafStatusFor (entry.exitCode.getD 0) entry.status) :
    (before.enterLeaf chainId chain index ready status entry).Paired none := by
  have entered : (before.enterLeaf chainId chain index ready status entry).Paired (some before.nextJob) :=
    paired.enterLeaf orderly active fun _ => idle
  refine ⟨fun other later position jobId found started _ => ?_, entered.owner,
    fun other later position jobId known found transforms place _ stored => ?_, entered.placed⟩
  · by_cases same : jobId = before.nextJob
    · have placed := orderly.leaves.enterLeaf orderly.places chainId chain index ready status entry
        other later position jobId found started
      rw [same] at placed ⊢
      cases placed.symm.trans ((Table.get_insert ..).trans (if_pos rfl))
      rcases get_enterLeaf active found with ⟨-, rfl⟩ | ⟨different, -⟩
      · have stored : (before.enterLeaf chainId chain index ready status entry).jobs.get before.nextJob =
            some entry := (Table.get_insert ..).trans (if_pos rfl)
        rw [stored]
        exact (Function.update_self ..).trans (congrArg some shown)
      · exact absurd rfl different
    · exact entered.shows_ other later position jobId found started fun skips => same (Option.some.inj skips)
  · by_cases same : jobId = before.nextJob
    · subst same
      cases place.symm.trans ((Table.get_insert ..).trans (if_pos rfl))
      rcases get_enterLeaf active found with ⟨-, rfl⟩ | ⟨different, -⟩
      · have transforms : chain.scopeEnabled = true := transforms
        rw [process] at transforms
        cases transforms
      · exact absurd rfl different
    · exact entered.transforms other later position jobId known found transforms place
        (fun skips => same (Option.some.inj skips)) stored

end Enter

/-- A leaf without a job is cancelled. -/
theorem cancelIdle (paired : before.Paired none) {index : ℕ}
    (idle : (before.chains.get chainId).bind (fun chain => chain.leafJobs.get index) = none)
    (chains : after.chains = before.chains.modify chainId fun chain => chain.setLeaf index .cancelled)
    (jobs : after.jobs = before.jobs) (places : after.jobToChain = before.jobToChain)
    (nextChain : after.nextChain = before.nextChain) : after.Paired none := by
  have kept {other : ChainId} {later : ChainState} (found : after.chains.get other = some later) :
      ∃ chain, before.chains.get other = some chain ∧ later.leafJobs = chain.leafJobs ∧
        later.scopeEnabled = chain.scopeEnabled ∧
          ∀ position, (chain.leafJobs.get position).isSome →
            later.leafStatus position = chain.leafStatus position := by
    rw [chains, Table.get_modify] at found
    split at found
    · rename_i same
      obtain ⟨chain, known, rfl⟩ := Option.map_eq_some_iff.mp found
      refine ⟨chain, same ▸ known, rfl, rfl, fun position started => ?_⟩
      refine ChainState.setLeaf_of_ne _ _ ?_
      rintro rfl
      rw [known, Option.bind_some] at idle
      simp [idle] at started
    · exact ⟨later, found, rfl, rfl, fun _ _ => rfl⟩
  constructor
  · intro other later position jobId found started _
    obtain ⟨chain, known, leafJobs, -, same⟩ := kept found
    rw [leafJobs] at started
    rw [same position (by simp [started]), jobs]
    exact paired.shown known started
  · intro other later position jobId found process place
    obtain ⟨chain, known, leafJobs, enabled, -⟩ := kept found
    rw [places] at place
    rw [leafJobs]
    exact paired.owner other chain position jobId known (enabled ▸ process) place
  · intro other later position jobId entry found transforms place _ stored
    obtain ⟨chain, known, -, enabled, -⟩ := kept found
    rw [places] at place
    rw [jobs] at stored
    exact paired.transformed known (enabled ▸ transforms) place stored
  · rw [places, nextChain]
    exact paired.placed

/-- A new chain has no leaves that were started. -/
theorem activate (paired : before.Paired none) {chain : ChainState} (fresh : chain.Fresh) :
    (before.activate chain).Paired none := by
  have place {jobId : JobId} {other : ChainId} {index : ℕ}
      (place : before.jobToChain.get jobId = some (other, index)) : other ≠ before.nextChain :=
    Nat.ne_of_lt (paired.placed jobId other index place)
  have old {other : ChainId} {later : ChainState} (different : other ≠ before.nextChain)
      (found : (before.activate chain).chains.get other = some later) :
      before.chains.get other = some later :=
    ((Table.get_insert ..).trans (if_neg different)).symm.trans found
  constructor
  · intro other later index jobId found started _
    by_cases same : other = before.nextChain
    · have isNew : later = chain :=
        Option.some.inj (found.symm.trans ((Table.get_insert ..).trans (if_pos same)))
      rw [isNew, fresh.leafJobs] at started
      cases started
    · exact paired.shown (old same found) started
  · intro other later index jobId found process located
    exact paired.owner other later index jobId (old (place located) found) process located
  · intro other later index jobId entry found transforms located _ stored
    exact paired.transformed (old (place located) found) transforms located stored
  · exact fun jobId other index located => Nat.lt_succ_of_lt (paired.placed jobId other index located)

/-- A chain that is closed takes its places with it. -/
theorem close (paired : before.Paired none) (chain : ChainState)
    (completed : Table ChainId ChainCompletion) : (before.close chainId chain completed).Paired none := by
  have old {other : ChainId} {later : ChainState}
      (found : (before.close chainId chain completed).chains.get other = some later) :
      before.chains.get other = some later := by
    dsimp only [Board.close] at found
    rw [Table.get_erase] at found
    split at found
    · cases found
    · exact found
  have place {jobId : JobId} {other : ChainId} {index : ℕ}
      (place : (before.close chainId chain completed).jobToChain.get jobId = some (other, index)) :
      before.jobToChain.get jobId = some (other, index) := (Option.filter_eq_some_iff.mp place).1
  constructor
  · exact fun other later index jobId found started _ => paired.shown (old found) started
  · exact fun other later index jobId found process located =>
      paired.owner other later index jobId (old found) process (place located)
  · exact fun other later index jobId entry found transforms located _ stored =>
      paired.transformed (old found) transforms (place located) stored
  · exact fun jobId other index located => paired.placed jobId other index (place located)

end Board.Paired

end Paired

end CueShell

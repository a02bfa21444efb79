import CueShell.Model.ScriptSnapshots
import Mathlib.Algebra.BigOperators.Group.Finset.Piecewise

/-! # The ledger of completed scripts

The order, the map and the counters of the ledger agree in every run, the counters stay within their
limits, and a snapshot stays known until its time to live has passed at some pruning.
-/

namespace CueShell.SnapshotLedger

open CompletedScriptSnapshot

variable {Info : Type} {scriptId : Info → ScriptId} {serializedSize : Info → ℕ} {past : List ℕ}
  {ledger : SnapshotLedger Info} {now : ℕ} {id oldest : ScriptId}

/-- The parts of the ledger agree; its snapshots were recorded at past instants, in the order of their ids. -/
structure Sound (serializedSize : Info → ℕ) (past : List ℕ) (ledger : SnapshotLedger Info) : Prop where
  order : ledger.snapshots.Enumerates ledger.order
  responses : ledger.responses = ledger.snapshots.total response
  bytes : ledger.bytes = ledger.snapshots.total responseBytes
  sized : ∀ id snapshot, ledger.snapshots.get id = some snapshot →
    snapshot.responseBytes = snapshot.info.elim 0 serializedSize
  timed : ∀ id snapshot, ledger.snapshots.get id = some snapshot → snapshot.completedAt ∈ past
  sorted : ledger.order.Pairwise fun first later => ∀ snapshot later', ledger.snapshots.get first = some snapshot →
    ledger.snapshots.get later = some later' → snapshot.completedAt ≤ later'.completedAt

theorem sound_new : (new : SnapshotLedger Info).Sound serializedSize [] where
  order := Table.enumerates_empty
  responses := rfl
  bytes := rfl
  sized := by simp [new]
  timed := by simp [new]
  sorted := List.Pairwise.nil

theorem Sound.responseBytes_eq_zero (sound : ledger.Sound serializedSize past)
    {snapshot : CompletedScriptSnapshot Info} (found : ledger.snapshots.get id = some snapshot)
    (none : snapshot.info = none) : snapshot.responseBytes = 0 := by
  rw [sound.sized id snapshot found, none]
  rfl

section Prune

/-- One removal takes the snapshot and what it counts for. -/
theorem Sound.dropOldest_eq (sound : ledger.Sound serializedSize past) (oldest : ScriptId) :
    ledger.dropOldest oldest =
      ⟨ledger.snapshots.erase oldest, ledger.order.tail, (ledger.snapshots.erase oldest).total response,
        (ledger.snapshots.erase oldest).total responseBytes⟩ := by
  have responses := Table.total_erase ledger.snapshots response oldest
  have bytes := Table.total_erase ledger.snapshots responseBytes oldest
  rw [← sound.responses] at responses
  rw [← sound.bytes] at bytes
  rw [SnapshotLedger.dropOldest]
  cases found : ledger.snapshots.get oldest with
  | none =>
    rw [found] at responses bytes
    dsimp only
    rw [mk.injEq]
    exact ⟨rfl, rfl, responses.symm, bytes.symm⟩
  | some snapshot =>
    rw [found, Option.elim_some] at responses bytes
    dsimp only
    split_ifs with info
    · rw [response, if_pos info] at responses
      rw [mk.injEq]
      exact ⟨rfl, rfl, by omega, by omega⟩
    · have empty := sound.responseBytes_eq_zero found (by simpa using info)
      rw [response, if_neg info] at responses
      rw [mk.injEq]
      exact ⟨rfl, rfl, responses.symm, by omega⟩

theorem Sound.dropOldest (sound : ledger.Sound serializedSize past) {rest : List ScriptId}
    (front : ledger.order = oldest :: rest) : (ledger.dropOldest oldest).Sound serializedSize past := by
  obtain ⟨nodup, same⟩ := sound.order
  rw [front] at nodup same
  obtain ⟨fresh, nodup⟩ := List.nodup_cons.mp nodup
  have kept (id : ScriptId) (snapshot : CompletedScriptSnapshot Info)
      (found : (ledger.snapshots.erase oldest).get id = some snapshot) : ledger.snapshots.get id = some snapshot := by
    rw [Table.get_erase] at found
    split_ifs at found
    exact found
  rw [sound.dropOldest_eq]
  refine ⟨⟨by rwa [front], fun id => ?_⟩, rfl, rfl, fun id snapshot found => sound.sized id snapshot (kept id _ found),
    fun id snapshot found => sound.timed id snapshot (kept id _ found), ?_⟩
  · rw [front, List.tail_cons, Table.keys_erase, Finset.mem_erase, ← same id, List.mem_cons]
    constructor
    · intro member
      exact ⟨ne_of_mem_of_not_mem member fresh, .inr member⟩
    · rintro ⟨other, here | member⟩
      · exact absurd here other
      · exact member
  · have sorted := sound.sorted
    rw [front] at sorted ⊢
    exact (List.pairwise_cons.mp sorted).2.imp fun ordered first later found found' =>
      ordered first later (kept _ _ found) (kept _ _ found')

/-- Whether a snapshot is within its time to live. -/
def Alive (now : ℕ) (snapshot : CompletedScriptSnapshot Info) : Bool :=
  now - snapshot.completedAt < scriptSnapshotTtl

theorem expired_eq (ledger : SnapshotLedger Info) (now : ℕ) (id : ScriptId) :
    ledger.expired now id = !(ledger.snapshots.get id).any (Alive now) := by
  rw [expired]
  cases ledger.snapshots.get id with
  | none => rfl
  | some snapshot =>
    rw [Option.all_some, Option.any_some, Alive, ← decide_not, decide_eq_decide]
    exact Nat.not_lt.symm

/-- A pruning keeps exactly the snapshots within their time to live. -/
theorem Sound.pruneLoop (now : ℕ) {order : List ScriptId} (sound : ledger.Sound serializedSize past)
    (whole : ledger.order = order) : (SnapshotLedger.pruneLoop now order ledger).Sound serializedSize past ∧
      ∀ id, (SnapshotLedger.pruneLoop now order ledger).snapshots.get id =
        (ledger.snapshots.get id).filter (Alive now) := by
  induction order generalizing ledger with
  | nil =>
    refine ⟨sound, fun id => ?_⟩
    have absent : id ∉ ledger.snapshots.keys := by
      rw [← sound.order.2 id, whole]
      exact List.not_mem_nil
    rw [SnapshotLedger.pruneLoop, Table.get_of_not_mem _ absent]
    rfl
  | cons oldest rest ih =>
    rw [SnapshotLedger.pruneLoop, expired_eq]
    split_ifs with gone
    · obtain ⟨sound', kept⟩ := ih (sound.dropOldest whole) (by rw [sound.dropOldest_eq, whole]; rfl)
      refine ⟨sound', fun id => ?_⟩
      rw [kept id, sound.dropOldest_eq, Table.get_erase]
      split_ifs with same
      · subst same
        cases found : ledger.snapshots.get id with
        | none => rfl
        | some snapshot =>
          rw [found] at gone
          rw [Option.filter_some, if_neg (by simpa using gone)]
          rfl
      · rfl
    · refine ⟨sound, fun id => ?_⟩
      cases found : ledger.snapshots.get id with
      | none => rfl
      | some snapshot =>
        have member : id ∈ oldest :: rest := by
          rw [← whole, sound.order.2 id, Table.mem_keys, found]
          rfl
        obtain ⟨first, here, alive⟩ : ∃ first, ledger.snapshots.get oldest = some first ∧ Alive now first = true := by
          simpa [Option.any_eq_true] using gone
        have ordered : first.completedAt ≤ snapshot.completedAt := by
          rcases List.mem_cons.mp member with rfl | later
          · rw [here] at found
            rw [Option.some.inj found]
          · have sorted := sound.sorted
            rw [whole] at sorted
            exact (List.pairwise_cons.mp sorted).1 id later first snapshot here found
        have alive' : Alive now snapshot = true := by
          simp only [Alive, decide_eq_true_eq] at alive ⊢
          omega
        rw [Option.filter_some, if_pos alive']

theorem Sound.prune (now : ℕ) (sound : ledger.Sound serializedSize past) :
    (ledger.pruneCompletedScriptSnapshots now).Sound serializedSize past ∧
      ∀ id, (ledger.pruneCompletedScriptSnapshots now).snapshots.get id =
        (ledger.snapshots.get id).filter (Alive now) :=
  sound.pruneLoop now rfl

end Prune

section Record

/-- A snapshot whose size is that of its answer, and not zero if there is one. -/
structure Sized (serializedSize : Info → ℕ) (snapshot : CompletedScriptSnapshot Info) : Prop where
  size : snapshot.responseBytes = snapshot.info.elim 0 serializedSize
  response : snapshot.response = if 0 < snapshot.responseBytes then 1 else 0

theorem snapshotOf_sized (positive : ∀ info, 0 < serializedSize info) (info : Info) (sessionId : Option String)
    (completedAt : ℕ) : Sized serializedSize (snapshotOf serializedSize info sessionId completedAt) := by
  rw [snapshotOf]
  split_ifs
  · refine ⟨rfl, ?_⟩
    change 1 = if 0 < serializedSize info then 1 else 0
    rw [if_pos (positive info)]
  · exact ⟨rfl, rfl⟩

theorem snapshotOf_identity (info : Info) (sessionId : Option String) (completedAt : ℕ) :
    (snapshotOf serializedSize info sessionId completedAt).sessionId = sessionId ∧
      (snapshotOf serializedSize info sessionId completedAt).completedAt = completedAt := by
  rw [snapshotOf]
  split_ifs <;> exact ⟨rfl, rfl⟩

/-- The snapshot that was stored under the id is not counted any more. -/
theorem Sound.replacePrevious_eq (sound : ledger.Sound serializedSize past) (id : ScriptId) :
    ledger.replacePrevious id = ⟨ledger.snapshots, ledger.order.filter (· ≠ id),
      (ledger.snapshots.erase id).total response, (ledger.snapshots.erase id).total responseBytes⟩ := by
  have responses := Table.total_erase ledger.snapshots response id
  have bytes := Table.total_erase ledger.snapshots responseBytes id
  rw [← sound.responses] at responses
  rw [← sound.bytes] at bytes
  rw [replacePrevious]
  cases found : ledger.snapshots.get id with
  | none =>
    have fresh : ledger.order.filter (· ≠ id) = ledger.order := by
      refine List.filter_eq_self.mpr fun other member => decide_eq_true ?_
      rintro rfl
      rw [sound.order.2 other, Table.mem_keys, found] at member
      cases member
    rw [found] at responses bytes
    dsimp only
    rw [fresh]
    exact (mk.injEq ..).mpr ⟨rfl, rfl, responses.symm, bytes.symm⟩
  | some previous =>
    rw [found, Option.elim_some] at responses bytes
    dsimp only
    split_ifs with info
    · rw [response, if_pos info] at responses
      exact (mk.injEq ..).mpr ⟨rfl, rfl, by omega, by omega⟩
    · have empty := sound.responseBytes_eq_zero found (by simpa using info)
      rw [response, if_neg info] at responses
      exact (mk.injEq ..).mpr ⟨rfl, rfl, responses.symm, by omega⟩

/-- A new snapshot at the back keeps the parts of the ledger in agreement. -/
theorem Sound.push (sound : ledger.Sound serializedSize past) (id : ScriptId)
    {snapshot : CompletedScriptSnapshot Info} (sized : Sized serializedSize snapshot)
    (last : ∀ instant ∈ past, instant ≤ snapshot.completedAt) :
    ((ledger.replacePrevious id).pushSnapshot id snapshot).Sound serializedSize (past ++ [snapshot.completedAt]) := by
  have responses := Table.total_insert (ledger.snapshots.erase id) response id snapshot
  have bytes := Table.total_insert (ledger.snapshots.erase id) responseBytes id snapshot
  rw [Table.insert_erase, Table.get_erase, if_pos rfl] at responses bytes
  have stored (other : ScriptId) (found' : CompletedScriptSnapshot Info)
      (found : (ledger.snapshots.insert id snapshot).get other = some found') :
      (other = id ∧ found' = snapshot) ∨ (other ≠ id ∧ ledger.snapshots.get other = some found') := by
    rw [Table.get_insert] at found
    split_ifs at found with same
    · exact .inl ⟨same, (Option.some.inj found).symm⟩
    · exact .inr ⟨same, found⟩
  rw [sound.replacePrevious_eq id]
  refine ⟨⟨?_, fun other => ?_⟩, ?_, ?_, fun other found' found => ?_, fun other found' found => ?_, ?_⟩
  · exact List.Nodup.append (sound.order.1.filter _) (List.nodup_singleton id) (by simp)
  · change other ∈ ledger.order.filter (· ≠ id) ++ [id] ↔ other ∈ (ledger.snapshots.insert id snapshot).keys
    rw [Table.keys_insert, Finset.mem_insert, ← sound.order.2 other]
    simp only [List.mem_append, List.mem_filter, List.mem_singleton, decide_eq_true_eq]
    by_cases same : other = id
    · simp [same]
    · simp [same]
  · change (if 0 < snapshot.responseBytes then _ else _) = (ledger.snapshots.insert id snapshot).total response
    rw [sized.response] at responses
    split_ifs at responses ⊢ <;> exact responses.symm
  · change (if 0 < snapshot.responseBytes then _ else _) = (ledger.snapshots.insert id snapshot).total responseBytes
    split_ifs with positive
    · exact bytes.symm
    · dsimp only [Option.elim_none] at bytes ⊢
      omega
  · rcases stored other found' found with ⟨-, rfl⟩ | ⟨-, before⟩
    · exact sized.size
    · exact sound.sized other found' before
  · rcases stored other found' found with ⟨-, rfl⟩ | ⟨-, before⟩
    · exact List.mem_append_right _ (List.mem_singleton_self _)
    · exact List.mem_append_left _ (sound.timed other found' before)
  · change (ledger.order.filter (· ≠ id) ++ [id]).Pairwise _
    rw [List.pairwise_append]
    refine ⟨?_, List.pairwise_singleton .., ?_⟩
    · refine (sound.sorted.filter _).imp_of_mem fun member member' ordered before after found found' => ?_
      have other := of_decide_eq_true (List.mem_filter.mp member).2
      have other' := of_decide_eq_true (List.mem_filter.mp member').2
      exact ordered before after ((stored _ _ found).resolve_left fun same => other same.1).2
        ((stored _ _ found').resolve_left fun same => other' same.1).2
    · intro first member later member' before after found found'
      obtain rfl := List.mem_singleton.mp member'
      have other := of_decide_eq_true (List.mem_filter.mp member).2
      have old := ((stored _ _ found).resolve_left fun same => other same.1).2
      obtain rfl := ((stored _ _ found').resolve_right fun other => other.1 rfl).2
      exact last _ (sound.timed first before old)

end Record

section Evict

/-- What a snapshot is known by. -/
def identity (snapshot : CompletedScriptSnapshot Info) : Option String × ℕ :=
  (snapshot.sessionId, snapshot.completedAt)

/-- Taking an answer keeps the parts of the ledger in agreement and every snapshot known. -/
theorem Sound.evictInfo (sound : ledger.Sound serializedSize past)
    (found : ledger.order.find? ledger.holdsInfo = some oldest) :
    (ledger.evictInfo oldest).Sound serializedSize past ∧
      ∀ id, ((ledger.evictInfo oldest).snapshots.get id).map identity = (ledger.snapshots.get id).map identity := by
  have holds := List.find?_some found
  rw [holdsInfo] at holds
  cases here : ledger.snapshots.get oldest with
  | none =>
    rw [here] at holds
    cases holds
  | some snapshot =>
    rw [here, Option.any_some] at holds
    have responses := Table.total_modify ledger.snapshots response evicted here
    have bytes := Table.total_modify ledger.snapshots responseBytes evicted here
    rw [← sound.responses] at responses
    rw [← sound.bytes] at bytes
    have known (id : ScriptId) :
        ((ledger.evictInfo oldest).snapshots.get id).map identity = (ledger.snapshots.get id).map identity := by
      change ((ledger.snapshots.modify oldest evicted).get id).map identity = _
      rw [Table.get_modify]
      split_ifs with same
      · rw [same, here]
        rfl
      · rfl
    have stored (id : ScriptId) (after : CompletedScriptSnapshot Info)
        (found : (ledger.snapshots.modify oldest evicted).get id = some after) :
        ∃ before, ledger.snapshots.get id = some before ∧ (after = before ∨ after = before.evicted) := by
      rw [Table.get_modify] at found
      split_ifs at found with same
      · rw [here] at found
        exact ⟨snapshot, same ▸ here, .inr (Option.some.inj found).symm⟩
      · exact ⟨after, found, .inl rfl⟩
    refine ⟨⟨⟨sound.order.1, fun id => ?_⟩, ?_, ?_, fun id after found => ?_, fun id after found => ?_, ?_⟩, known⟩
    · exact sound.order.2 id
    · change ledger.responses - 1 = (ledger.snapshots.modify oldest evicted).total response
      have one : snapshot.response = 1 := if_pos holds
      have zero : snapshot.evicted.response = 0 := rfl
      omega
    · change ledger.bytes - ((ledger.snapshots.get oldest).map responseBytes).getD 0 =
        (ledger.snapshots.modify oldest evicted).total responseBytes
      have zero : snapshot.evicted.responseBytes = 0 := rfl
      rw [here, Option.map_some, Option.getD_some]
      omega
    · obtain ⟨before, old, rfl | rfl⟩ := stored id after found
      · exact sound.sized id _ old
      · rfl
    · obtain ⟨before, old, rfl | rfl⟩ := stored id after found
      · exact sound.timed id _ old
      · exact sound.timed id before old
    · refine sound.sorted.imp fun ordered after after' found found' => ?_
      obtain ⟨before, old, same⟩ := stored _ after found
      obtain ⟨before', old', same'⟩ := stored _ after' found'
      have early : after.completedAt = before.completedAt := by rcases same with rfl | rfl <;> rfl
      have late : after'.completedAt = before'.completedAt := by rcases same' with rfl | rfl <;> rfl
      rw [early, late]
      exact ordered before before' old old'

/-- Without an answer left the counters are zero. -/
theorem Sound.counters_of_none (sound : ledger.Sound serializedSize past)
    (none : ledger.order.find? ledger.holdsInfo = none) : ledger.responses = 0 ∧ ledger.bytes = 0 := by
  have gone (id : ScriptId) (snapshot : CompletedScriptSnapshot Info)
      (found : ledger.snapshots.get id = some snapshot) : snapshot.info = Option.none := by
    have member : id ∈ ledger.order := by
      rw [sound.order.2 id, Table.mem_keys, found]
      rfl
    have empty := List.find?_eq_none.mp none id member
    rw [holdsInfo, found] at empty
    simpa using empty
  constructor
  · by_contra some
    rw [sound.responses] at some
    obtain ⟨id, snapshot, found, counted⟩ := (Table.total_ne_zero_iff ..).mp some
    exact counted (by rw [response, gone id snapshot found]; rfl)
  · by_contra some
    rw [sound.bytes] at some
    obtain ⟨id, snapshot, found, counted⟩ := (Table.total_ne_zero_iff ..).mp some
    exact counted (sound.responseBytes_eq_zero found (gone id snapshot found))

theorem Sound.evictLoop (sound : ledger.Sound serializedSize past) :
    ledger.evictLoop.Sound serializedSize past ∧ ledger.evictLoop.overLimit = false ∧
      ∀ id, (ledger.evictLoop.snapshots.get id).map identity = (ledger.snapshots.get id).map identity := by
  induction ledger using SnapshotLedger.evictLoop.induct with
  | case1 ledger large none =>
    obtain ⟨responses, bytes⟩ := sound.counters_of_none none
    rw [overLimit, responses, bytes] at large
    simp at large
  | case2 ledger large oldest found ih =>
    obtain ⟨sound', known⟩ := sound.evictInfo found
    obtain ⟨after, small, known'⟩ := ih sound'
    have turn : ledger.evictLoop = (ledger.evictInfo oldest).evictLoop := by
      rw [SnapshotLedger.evictLoop, if_pos large]
      split
      · next none => simp [none] at found
      · next other same =>
        rw [same] at found
        rw [Option.some.inj found]
    rw [turn]
    exact ⟨after, small, fun id => (known' id).trans (known id)⟩
  | case3 ledger small =>
    rw [SnapshotLedger.evictLoop, if_neg small]
    exact ⟨sound, by simpa using small, fun _ => rfl⟩

end Evict

section Runs

variable {calls : List (SnapshotCall Info)}

/-- The owner and the completion of the last snapshot that was recorded under an id. -/
def lastRecorded (scriptId : Info → ScriptId) (id : ScriptId) (calls : List (SnapshotCall Info)) :
    Option (Option String × ℕ) :=
  calls.foldl (fun last call =>
    match call with
    | .record info sessionId _ completedAt => if scriptId info = id then some (sessionId, completedAt) else last
    | .prune _ => last) none

/-- The instant of the last pruning. -/
def lastPruning (calls : List (SnapshotCall Info)) : ℕ :=
  calls.foldl (fun _ call =>
    match call with
    | .record _ _ prunedAt _ => prunedAt
    | .prune now => now) 0

/-- The ledger after the calls. -/
def after (scriptId : Info → ScriptId) (serializedSize : Info → ℕ) (calls : List (SnapshotCall Info)) :
    SnapshotLedger Info :=
  calls.foldl (call scriptId serializedSize) new

/-- The ledger and what is known of the calls: its parts agree, and it knows the snapshots within their
time to live at the last pruning. -/
structure Keeps (scriptId : Info → ScriptId) (serializedSize : Info → ℕ) (calls : List (SnapshotCall Info))
    (ledger : SnapshotLedger Info) : Prop where
  sound : ledger.Sound serializedSize (calls.flatMap SnapshotCall.instants)
  small : ledger.overLimit = false
  known : ∀ id, (ledger.snapshots.get id).map identity = (lastRecorded scriptId id calls).filter fun entry =>
    decide (lastPruning calls - entry.2 < scriptSnapshotTtl)
  pruned : lastPruning calls ∈ 0 :: calls.flatMap SnapshotCall.instants

theorem Sound.mono {more : List ℕ} (sound : ledger.Sound serializedSize past) (wider : past ⊆ more) :
    ledger.Sound serializedSize more :=
  ⟨sound.order, sound.responses, sound.bytes, sound.sized,
    fun id snapshot found => wider (sound.timed id snapshot found), sound.sorted⟩

/-- What a pruning at a later instant leaves known. -/
theorem filter_later {entry : Option (Option String × ℕ)} {earlier later : ℕ} (ordered : earlier ≤ later) :
    (entry.filter fun entry => decide (earlier - entry.2 < scriptSnapshotTtl)).filter
      (fun entry => decide (later - entry.2 < scriptSnapshotTtl)) =
      entry.filter fun entry => decide (later - entry.2 < scriptSnapshotTtl) := by
  rw [Option.filter_filter]
  congr 1
  funext entry
  rw [← Bool.decide_and, decide_eq_decide]
  omega

theorem map_filter_alive (snapshot : Option (CompletedScriptSnapshot Info)) (now : ℕ) :
    (snapshot.filter (Alive now)).map identity =
      (snapshot.map identity).filter fun entry => decide (now - entry.2 < scriptSnapshotTtl) := by
  cases snapshot with
  | none => rfl
  | some snapshot =>
    have same : decide (now - (identity snapshot).2 < scriptSnapshotTtl) = Alive now snapshot := rfl
    rw [Option.filter_some, Option.map_some, Option.filter_some, same]
    cases Alive now snapshot <;> rfl

/-- Pruning does not put a counter over its limit. -/
theorem Sound.prune_small (now : ℕ) (sound : ledger.Sound serializedSize past) (small : ledger.overLimit = false) :
    (ledger.pruneCompletedScriptSnapshots now).overLimit = false := by
  obtain ⟨sound', kept⟩ := sound.prune now
  have retained : (ledger.pruneCompletedScriptSnapshots now).snapshots =
      ledger.snapshots.retain fun _ => Alive now :=
    Table.ext_get fun id => by rw [kept id, Table.get_retain]
  have responses := Table.total_retain_le ledger.snapshots response fun _ => Alive now
  have bytes := Table.total_retain_le ledger.snapshots responseBytes fun _ => Alive now
  rw [← retained, ← sound'.responses, ← sound.responses] at responses
  rw [← retained, ← sound'.bytes, ← sound.bytes] at bytes
  simp only [overLimit, Bool.or_eq_false_iff, decide_eq_false_iff_not, Nat.not_lt] at small ⊢
  exact ⟨responses.trans small.1, bytes.trans small.2⟩

theorem Keeps.prune (keeps : ledger.Keeps scriptId serializedSize calls) {now : ℕ}
    (later : ∀ instant ∈ calls.flatMap SnapshotCall.instants, instant ≤ now) :
    (ledger.pruneCompletedScriptSnapshots now).Sound serializedSize (calls.flatMap SnapshotCall.instants) ∧
      ∀ id, ((ledger.pruneCompletedScriptSnapshots now).snapshots.get id).map identity =
        (lastRecorded scriptId id calls).filter fun entry => decide (now - entry.2 < scriptSnapshotTtl) := by
  obtain ⟨sound, kept⟩ := keeps.sound.prune now
  have ordered : lastPruning calls ≤ now := by
    rcases List.mem_cons.mp keeps.pruned with zero | member
    · exact zero ▸ Nat.zero_le _
    · exact later _ member
  refine ⟨sound, fun id => ?_⟩
  rw [kept id, map_filter_alive, keeps.known id, filter_later ordered]

/-- A call keeps what is known of the calls. -/
theorem Keeps.call (positive : ∀ info, 0 < serializedSize info) (keeps : ledger.Keeps scriptId serializedSize calls)
    (next : SnapshotCall Info) (ordered : ((calls ++ [next]).flatMap SnapshotCall.instants).Pairwise (· ≤ ·)) :
    (ledger.call scriptId serializedSize next).Keeps scriptId serializedSize (calls ++ [next]) := by
  rw [List.flatMap_append, List.flatMap_singleton] at ordered
  obtain ⟨-, inside, later⟩ := List.pairwise_append.mp ordered
  have instants : (calls ++ [next]).flatMap SnapshotCall.instants =
      calls.flatMap SnapshotCall.instants ++ next.instants := by
    rw [List.flatMap_append, List.flatMap_singleton]
  cases next with
  | prune now =>
    obtain ⟨sound, known⟩ := keeps.prune fun instant member => later instant member now (List.mem_singleton_self _)
    have pruning : lastPruning (calls ++ [.prune now]) = now := by
      rw [lastPruning, List.foldl_append]
      rfl
    have recorded (id : ScriptId) : lastRecorded scriptId id (calls ++ [.prune now]) = lastRecorded scriptId id calls := by
      rw [lastRecorded, List.foldl_append]
      rfl
    refine ⟨instants ▸ sound.mono (List.subset_append_left ..), keeps.sound.prune_small now keeps.small, fun id => ?_, ?_⟩
    · rw [pruning, recorded]
      exact known id
    · rw [pruning, instants]
      simp [SnapshotCall.instants]
  | record info sessionId prunedAt completedAt =>
    have before : prunedAt ≤ completedAt := List.rel_of_pairwise_cons inside (List.mem_singleton_self _)
    obtain ⟨sound, known⟩ := keeps.prune fun instant member => later instant member prunedAt List.mem_cons_self
    obtain ⟨owner, completed⟩ := @snapshotOf_identity _ serializedSize info sessionId completedAt
    have pushed := sound.push (scriptId info) (snapshotOf_sized positive info sessionId completedAt) (by
      intro instant member
      rw [completed]
      exact later instant member completedAt (by simp [SnapshotCall.instants]))
    obtain ⟨whole, small, same⟩ := pushed.evictLoop
    have pruning : lastPruning (calls ++ [.record info sessionId prunedAt completedAt]) = prunedAt := by
      rw [lastPruning, List.foldl_append]
      rfl
    have recorded (id : ScriptId) : lastRecorded scriptId id (calls ++ [.record info sessionId prunedAt completedAt]) =
        if scriptId info = id then some (sessionId, completedAt) else lastRecorded scriptId id calls := by
      rw [lastRecorded, List.foldl_append]
      rfl
    refine ⟨whole.mono ?_, small, fun id => (same id).trans ?_, ?_⟩
    · rw [instants, completed]
      refine List.append_subset.mpr ⟨List.subset_append_left .., fun instant member => ?_⟩
      rw [List.mem_singleton.mp member]
      simp [SnapshotCall.instants]
    · rw [pruning, recorded, sound.replacePrevious_eq]
      change ((Table.insert _ (scriptId info) _).get id).map identity = _
      rw [Table.get_insert]
      by_cases here : id = scriptId info
      · have fresh : prunedAt - completedAt < scriptSnapshotTtl := by
          rw [Nat.sub_eq_zero_of_le before]
          decide
        rw [if_pos here, if_pos here.symm, Option.map_some, identity, owner, completed, Option.filter_some,
          decide_eq_true fresh, if_pos rfl]
      · rw [if_neg here, if_neg (Ne.symm here)]
        exact known id
    · rw [pruning, instants]
      simp [SnapshotCall.instants]

theorem keeps_after (positive : ∀ info, 0 < serializedSize info) (calls : List (SnapshotCall Info))
    (ordered : (calls.flatMap SnapshotCall.instants).Pairwise (· ≤ ·)) :
    (after scriptId serializedSize calls).Keeps scriptId serializedSize calls := by
  induction calls using List.reverseRecOn with
  | nil => exact ⟨sound_new, rfl, fun id => rfl, List.mem_cons_self⟩
  | append_singleton calls next ih =>
    have earlier : (calls.flatMap SnapshotCall.instants).Pairwise (· ≤ ·) := by
      rw [List.flatMap_append] at ordered
      exact (List.pairwise_append.mp ordered).1
    rw [after, List.foldl_append]
    exact (ih earlier).call positive next ordered

theorem total_response (table : Table ScriptId (CompletedScriptSnapshot Info)) : table.total response =
    (table.keys.filter fun id => (table.get id).any fun snapshot => snapshot.info.isSome).card := by
  rw [Table.total, Finset.card_filter]
  refine Finset.sum_congr rfl fun id _ => ?_
  cases table.get id with
  | none => rfl
  | some snapshot => rfl

/-- In every run at instants that do not go back, the order names the known snapshots, the counters are
those of the answers that are kept and within their limits, and exactly the snapshots within their time
to live at the last pruning are known. -/
theorem snapshot_ledger (scriptId : Info → ScriptId) (serializedSize : Info → ℕ)
    (positive : ∀ info, 0 < serializedSize info) (calls : List (SnapshotCall Info))
    (ordered : (calls.flatMap SnapshotCall.instants).Pairwise (· ≤ ·)) :
    let ledger := after scriptId serializedSize calls
    ledger.snapshots.Enumerates ledger.order ∧
      ledger.responses = (ledger.snapshots.keys.filter fun id => ledger.holdsInfo id).card ∧
      ledger.bytes = ledger.snapshots.total (fun snapshot => snapshot.info.elim 0 serializedSize) ∧
      ledger.responses ≤ scriptSnapshotResponseCapacity ∧ ledger.bytes ≤ scriptSnapshotMaxTotalBytes ∧
      ∀ id, (ledger.snapshots.get id).map identity = (lastRecorded scriptId id calls).filter fun entry =>
        decide (lastPruning calls - entry.2 < scriptSnapshotTtl) := by
  have keeps := @keeps_after _ scriptId serializedSize positive calls ordered
  have small := keeps.small
  rw [overLimit, Bool.or_eq_false_iff, decide_eq_false_iff_not, decide_eq_false_iff_not, Nat.not_lt, Nat.not_lt]
    at small
  refine ⟨keeps.sound.order, keeps.sound.responses.trans (total_response _), ?_, small.1, small.2, keeps.known⟩
  rw [keeps.sound.bytes, Table.total, Table.total]
  refine Finset.sum_congr rfl fun id _ => ?_
  cases found : (after scriptId serializedSize calls).snapshots.get id with
  | none => rfl
  | some snapshot => exact keeps.sound.sized id snapshot found

/-- The text of the info of a script without items. -/
def doneInfoText (number : ℕ) : String :=
  "\x7b\"script_id\":\"R" ++ toString number ++
    "\",\"status\":\"done\",\"items\":[],\"exit_code\":0,\"failed_item_index\":null,\"submit_error\":null\x7d"

theorem snapshot_ledger_twice : (after (fun number => number)
    (fun number => (doneInfoText number).length)
    [.record 1 none 5 6, .record 1 (some "SS-a") 7 8, .prune 9]).responses ≤ scriptSnapshotResponseCapacity := by
  have positive (number : ℕ) : 0 < (doneInfoText number).length := by
    rw [doneInfoText, String.length_append, String.length_append]
    exact Nat.lt_of_lt_of_le (by decide) (Nat.le_add_left _ _)
  exact (snapshot_ledger (fun number => number) (fun number => (doneInfoText number).length) positive
    [.record 1 none 5 6, .record 1 (some "SS-a") 7 8, .prune 9] (by simp [SnapshotCall.instants])).2.2.2.1

end Runs

end CueShell.SnapshotLedger

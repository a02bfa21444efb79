import CueShell.Proofs.SessionSteps
import Mathlib.Algebra.BigOperators.Group.Finset.Piecewise

/-! # Sessions count their clients

Whatever clients do, the number of clients a session counts is the number of links that lead to it, no
link leads nowhere, a sweep takes no session that is in use, and named sessions keep apart by id and by
name. The ids of new sessions are random; that they are new is the only thing asked of them.
-/

namespace CueShell

namespace SessionRegistry

section Restore

variable {ids : List SessionId} {registry after : SessionRegistry}

/-- The names in use are among the given ones. -/
def NamesAmong (names : List String) (registry : SessionRegistry) : Prop :=
  ∀ id name, IsNamed registry.readyNaming registry.keptNaming id name → name ∈ names

theorem restoreSession_sound {names : List String} {row : StoredSession}
    (sound : Sound ids registry) (among : registry.NamesAmong names) (fresh : row.id ∉ ids)
    (unused : row.name ∉ names)
    (spelled : "SS-".toList <+: row.id.toList ∧ validateSessionName row.name = .ok ())
    (restored : registry.restoreSession row = .ok after) :
    Sound (row.id :: ids) after ∧ after.NamesAmong (row.name :: names) := by
  have spelling := And.intro spelled.1 (not_reserved_of_valid spelled.2)
  have nobody : ∀ other, ¬ IsNamed registry.readyNaming registry.keptNaming other row.name :=
    fun other is => unused (among other row.name is)
  simp only [restoreSession] at restored
  split at restored
  · cases restored
  · rename_i allocated _
    obtain ⟨next, rfl⟩ := allocSessionIncarnation_eq allocated
    cases restored
    have free := sound.apart.free fresh
    refine ⟨⟨(sound.alloc allocated).counted.open (Option.map_eq_none_iff.mp free.1) rfl, ?_⟩, ?_⟩
    · rw [readyNaming_insert]
      exact sound.apart.create fresh spelling nobody
    · intro id name is
      rw [readyNaming_insert] at is
      rcases is with there | there
      · by_cases same : id = row.id
        · obtain ⟨-, rfl⟩ : row.id = id ∧ row.name = name := by
            simpa [same, SessionState.naming] using there
          exact List.mem_cons_self
        · rw [Function.update_of_ne (namedSessionKey_injective.ne same)] at there
          exact List.mem_cons_of_mem _ (among id name (.inl there))
      · exact List.mem_cons_of_mem _ (among id name (.inr there))
  · rename_i allocated _
    obtain ⟨next, rfl⟩ := allocSessionIncarnation_eq allocated
    cases restored
    have kept : keptNaming { registry with
        nextSessionIncarnation := next
        unavailableNamedSessions := registry.unavailableNamedSessions.insert row.id
          ⟨⟨row.id, row.name, row.scopeHash.isSome, row.createdAtMs, row.updatedAtMs,
            row.archivedAtMs⟩, ⟨row.ptyDefault, row.wrapperEnabled⟩⟩ } =
        Function.update registry.keptNaming row.id (some (row.id, row.name)) := by
      funext other
      rw [keptNaming, Table.get_insert, Function.update_apply]
      split <;> rfl
    refine ⟨⟨⟨sound.counted.counted, sound.counted.bound⟩, ?_⟩, ?_⟩
    · rw [kept]
      exact sound.apart.keep fresh spelling nobody
    · intro id name is
      rw [kept] at is
      rcases is with there | there
      · exact List.mem_cons_of_mem _ (among id name (.inl there))
      · by_cases same : id = row.id
        · obtain ⟨-, rfl⟩ : row.id = id ∧ row.name = name := by simpa [same] using there
          exact List.mem_cons_self
        · rw [Function.update_of_ne same] at there
          exact List.mem_cons_of_mem _ (among id name (.inr there))

theorem restoreRows_sound (names : List String) (rows : List StoredSession)
    (sound : Sound ids registry) (among : registry.NamesAmong names)
    (fresh : ((rows.map StoredSession.id).reverse ++ ids).Nodup)
    (unused : ((rows.map StoredSession.name).reverse ++ names).Nodup)
    (spelled : ∀ row ∈ rows, "SS-".toList <+: row.id.toList ∧ validateSessionName row.name = .ok ())
    (restored : rows.foldlM restoreSession registry = .ok after) :
    Sound ((rows.map StoredSession.id).reverse ++ ids) after := by
  induction rows generalizing registry ids names with
  | nil =>
    cases restored
    exact sound
  | cons row rest ih =>
    simp only [List.map_cons, List.reverse_cons, List.append_assoc, List.cons_append,
      List.nil_append] at fresh unused ⊢
    cases first : registry.restoreSession row with
    | error error =>
      rw [List.foldlM_cons, first] at restored
      cases restored
    | ok middle =>
      rw [List.foldlM_cons, first] at restored
      have row_fresh := (List.nodup_cons.mp (List.nodup_append.mp fresh).2.1).1
      have row_unused := (List.nodup_cons.mp (List.nodup_append.mp unused).2.1).1
      obtain ⟨next, later⟩ := restoreSession_sound sound among row_fresh row_unused
        (spelled row List.mem_cons_self) first
      exact ih _ next later fresh unused
        (fun other member => spelled other (List.mem_cons_of_mem _ member)) restored

theorem sound_empty : Sound [] ⟨.empty, .empty, .empty, 1⟩ := by
  refine ⟨⟨fun key session found => ?_, fun clientId key link => ?_⟩, ?_⟩
  · simp at found
  · simp at link
  · refine ⟨?_, ?_, ?_, ?_, ?_, ?_⟩ <;> simp [IsNamed, readyNaming, keptNaming]

theorem restore_sound {stored : SessionRows} (restored : restoreNamedSessions stored = .ok after) :
    Sound (stored.rows.map StoredSession.id).reverse after := by
  have sound := restoreRows_sound [] stored.rows sound_empty
    (fun id name is => by simp [IsNamed, readyNaming, keptNaming] at is)
    (by simpa using stored.ids) (by simpa using stored.names) stored.spelled restored
  simpa using sound

end Restore

section Runs

variable {ids : List SessionId} {registry : SessionRegistry}

theorem Sound.apply (sound : Sound ids registry) (operation : SessionOperation)
    (fresh : ∀ id ∈ operation.newId, id ∉ ids) :
    Sound (operation.newId.toList ++ ids) (registry.apply operation) := by
  cases operation with
  | connect clientId sessionId refresh insertScope now =>
    exact sound.connectSession clientId sessionId refresh insertScope now
  | command clientId command answers workOf =>
    simp only [SessionRegistry.apply, handleSessionCommand]
    split
    · exact sound.mono (List.subset_append_right ..)
    · cases command with
      | create name => exact sound.createSession (fresh _ rfl) clientId name _
      | archive selector => exact sound.setArchived workOf clientId selector true
      | restore selector => exact sound.setArchived workOf clientId selector false
      | attach selector refresh => exact sound.attachSession clientId selector refresh _
      | list | listArchived | listAll | info => exact sound
  | setScope clientId scope answers => exact sound.updateClientSessionScope clientId scope
  | setDefaults clientId defaults answers =>
    simp only [SessionRegistry.apply]
    split
    · exact sound
    · split
      · exact sound
      · rename_i found
        exact sound.updateDefaults found defaults
  | disconnect clientId now => exact sound.disconnectSession clientId now
  | sweep now => exact sound.sweep now

theorem Sound.run (sound : Sound ids registry) (operations : List SessionOperation)
    (fresh : (ids.reverse ++ operations.filterMap SessionOperation.newId).Nodup) :
    ∃ later, Sound later (registry.run operations) := by
  induction operations generalizing registry ids with
  | nil => exact ⟨ids, sound⟩
  | cons operation rest ih =>
    have step := sound.apply operation (by
      intro id new known
      obtain ⟨-, -, apart⟩ := List.nodup_append.mp fresh
      refine apart id (List.mem_reverse.mpr known) id ?_ rfl
      rw [List.filterMap_cons, Option.mem_def.mp new]
      exact List.mem_cons_self)
    refine ih step ?_
    rw [List.filterMap_cons] at fresh
    cases new : operation.newId with
    | none => simpa [new] using fresh
    | some id => simpa [new] using fresh

theorem boundClients_eq_card (registry : SessionRegistry) (key : String) :
    registry.boundClients key = (registry.clientSessions.keys.filter fun clientId =>
      registry.clientSessions.get clientId = some key).card := by
  rw [boundClients, Table.total, Finset.card_filter]
  refine Finset.sum_congr rfl fun clientId _ => ?_
  cases registry.clientSessions.get clientId <;> simp

/-- After any operations by any clients: counts are numbers of links, links lead to sessions, a session
in use survives every sweep, and no two named sessions share an id or a name. -/
theorem sessions_account_for_clients (stored : SessionRows) (start : SessionRegistry)
    (restored : restoreNamedSessions stored = .ok start) (operations : List SessionOperation)
    (fresh : (stored.rows.map StoredSession.id ++
      operations.filterMap SessionOperation.newId).Nodup) :
    let registry := start.run operations
    (∀ key session, registry.sessions.get key = some session →
      session.connectedClients = (registry.clientSessions.keys.filter fun clientId =>
        registry.clientSessions.get clientId = some key).card) ∧
    (∀ clientId key, registry.clientSessions.get clientId = some key →
      (registry.sessions.get key).isSome) ∧
    (∀ now clientId key session, registry.clientSessions.get clientId = some key →
      registry.sessions.get key = some session →
      (registry.sweepDisconnectedSessions now).2.sessions.get key = some session) ∧
    ∀ first second firstMeta secondMeta, registry.metaAt first = some firstMeta →
      registry.metaAt second = some secondMeta →
      firstMeta.id ≠ secondMeta.name ∧
        (firstMeta.id = secondMeta.id ∨ firstMeta.name = secondMeta.name → first = second) := by
  intro registry
  obtain ⟨ids, sound⟩ := (restore_sound restored).run operations (by simpa using fresh)
  refine ⟨?_, sound.counted.bound, ?_, ?_⟩
  · intro key session found
    rw [sound.counted.counted key session found, boundClients_eq_card]
  · intro now clientId key session link found
    have kept := survives_of_bound sound.counted link found now
    simp [sweepDisconnectedSessions, registry, found, kept]
  · intro first second firstMeta secondMeta one two
    refine ⟨?_, location_unique sound one two⟩
    intro same
    have firstSpelled := sound.apart.spelled _ _ (isNamed_of_metaAt sound one).1
    have secondSpelled := sound.apart.spelled _ _ (isNamed_of_metaAt sound two).1
    exact secondSpelled.2 (same ▸ firstSpelled.1)

end Runs

end SessionRegistry

section Witness

def plainScope : ScopeHash := ⟨Vector.replicate 32 0⟩

def plainAnswers (uuid : String) : SessionAnswers :=
  ⟨uuid, 0, 0, .ok true, none, .sorted⟩

/-- One stored session that lost its scope. -/
def lostSession : SessionRows where
  rows := [⟨"SS-1", "old", none, none, none, 0, 0, none⟩]
  ids := by decide
  names := by decide
  spelled := by decide

/-- Two clients, a new session, a session that gets a scope again, a disconnect and a sweep. -/
def sessionTraffic : List SessionOperation :=
  [.connect 1 "a" false (.ok plainScope) 0, .connect 2 "b" false (.ok plainScope) 0,
    .command 1 (.create "new") (plainAnswers "2") fun _ => none,
    .command 2 (.attach "new" false) (plainAnswers "") fun _ => none,
    .command 1 (.attach "old" true) (plainAnswers "") fun _ => none,
    .disconnect 2 0, .sweep (2 * sessionGcTtl)]

theorem sessionTraffic_accounted :
    ∃ start, SessionRegistry.restoreNamedSessions lostSession = .ok start ∧
      ∀ key session, (start.run sessionTraffic).sessions.get key = some session →
        session.connectedClients = ((start.run sessionTraffic).clientSessions.keys.filter
          fun clientId => (start.run sessionTraffic).clientSessions.get clientId = some key).card := by
  refine ⟨_, rfl, ?_⟩
  exact (SessionRegistry.sessions_account_for_clients lostSession _ rfl sessionTraffic
    (by decide)).1

end Witness

end CueShell

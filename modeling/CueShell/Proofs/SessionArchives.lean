import CueShell.Proofs.SessionSteps

/-! # Archived sessions

Only the command that archives a session marks it, and that command is refused while clients are in the
session or the session owns work. A client moves into sessions only that are not marked.
-/

namespace CueShell

/-- The id of an archived session. -/
def NamedSessionMeta.mark (named : NamedSessionMeta) : Option SessionId :=
  if named.archivedAtMs.isSome then some named.id else none

theorem NamedSessionMeta.mark_eq_some {named : NamedSessionMeta} {id : SessionId} :
    named.mark = some id ↔ named.id = id ∧ named.archivedAtMs.isSome := by
  unfold NamedSessionMeta.mark
  split
  · rename_i archived
    simp [archived]
  · rename_i active
    simp [active]

def SessionState.mark (session : SessionState) : Option SessionId :=
  session.named.bind NamedSessionMeta.mark

namespace SessionRegistry

variable {registry before after : SessionRegistry} {ids : List SessionId} {answers : SessionAnswers}

def readyMark (registry : SessionRegistry) (key : String) : Option SessionId :=
  (registry.sessions.get key).bind SessionState.mark

def keptMark (registry : SessionRegistry) (id : SessionId) : Option SessionId :=
  (registry.unavailableNamedSessions.get id).bind fun session => session.named.mark

/-- A named session whose time of archival is set. -/
def Archived (registry : SessionRegistry) (id : SessionId) : Prop :=
  ∃ location named, registry.metaAt location = some named ∧ named.id = id ∧ named.archivedAtMs.isSome

theorem archived_iff {id : SessionId} :
    registry.Archived id ↔
      (∃ key, registry.readyMark key = some id) ∨ ∃ kept, registry.keptMark kept = some id := by
  constructor
  · rintro ⟨location | location, named, found, same⟩
    · obtain ⟨session, stored, is⟩ := Option.bind_eq_some_iff.mp found
      refine .inl ⟨location, ?_⟩
      rw [readyMark, stored, Option.bind_some, SessionState.mark, is, Option.bind_some]
      exact NamedSessionMeta.mark_eq_some.mpr same
    · obtain ⟨session, stored, rfl⟩ := Option.map_eq_some_iff.mp found
      refine .inr ⟨location, ?_⟩
      rw [keptMark, stored, Option.bind_some]
      exact NamedSessionMeta.mark_eq_some.mpr same
  · rintro (⟨key, marked⟩ | ⟨kept, marked⟩)
    · obtain ⟨session, stored, mark⟩ := Option.bind_eq_some_iff.mp marked
      obtain ⟨named, is, same⟩ := Option.bind_eq_some_iff.mp mark
      refine ⟨.ready key, named, ?_, NamedSessionMeta.mark_eq_some.mp same⟩
      rw [metaAt, stored, Option.bind_some, is]
    · obtain ⟨session, stored, same⟩ := Option.bind_eq_some_iff.mp marked
      refine ⟨.needsRefresh kept, session.named, ?_, NamedSessionMeta.mark_eq_some.mp same⟩
      rw [metaAt, stored, Option.map_some]

/-- No client is in an archived session. -/
def Vacant (registry : SessionRegistry) : Prop :=
  ∀ clientId key, registry.clientSessions.get clientId = some key → registry.readyMark key = none

section Fading

/-- No session gets a mark, and no client moves into a session with a mark. -/
structure Fades (before after : SessionRegistry) : Prop where
  ready : ∀ key, after.readyMark key = before.readyMark key ∨ after.readyMark key = none
  kept : ∀ id, after.keptMark id = before.keptMark id ∨ after.keptMark id = none
  clients : ∀ clientId key, after.clientSessions.get clientId = some key →
    before.clientSessions.get clientId = some key ∨ after.readyMark key = none

theorem Fades.refl (registry : SessionRegistry) : Fades registry registry :=
  ⟨fun _ => .inl rfl, fun _ => .inl rfl, fun _ _ => .inl⟩

theorem Fades.trans {middle : SessionRegistry} (first : Fades before middle)
    (second : Fades middle after) : Fades before after where
  ready key := by
    rcases second.ready key with same | none
    · rw [same]
      exact first.ready key
    · exact .inr none
  kept id := by
    rcases second.kept id with same | none
    · rw [same]
      exact first.kept id
    · exact .inr none
  clients clientId key link := by
    rcases second.clients clientId key link with old | new
    · refine (first.clients clientId key old).imp_right fun unmarked => ?_
      exact (second.ready key).elim (·.trans unmarked) id
    · exact .inr new

theorem Fades.vacant (fades : Fades before after) (vacant : before.Vacant) : after.Vacant := by
  intro clientId key link
  rcases fades.clients clientId key link with old | unmarked
  · exact (fades.ready key).elim (·.trans (vacant clientId key old)) id
  · exact unmarked

theorem Fades.archived (fades : Fades before after) {id : SessionId} (archived : after.Archived id) :
    before.Archived id := by
  rcases archived_iff.mp archived with ⟨key, marked⟩ | ⟨kept, marked⟩
  · refine archived_iff.mpr (.inl ⟨key, ?_⟩)
    rcases fades.ready key with same | none
    · exact same.symm.trans marked
    · cases none.symm.trans marked
  · refine archived_iff.mpr (.inr ⟨kept, ?_⟩)
    rcases fades.kept kept with same | none
    · exact same.symm.trans marked
    · cases none.symm.trans marked

/-- Nothing changes for the marks. -/
theorem Fades.same (sessions : after.sessions = before.sessions)
    (unavailable : after.unavailableNamedSessions = before.unavailableNamedSessions)
    (clients : after.clientSessions = before.clientSessions) : Fades before after where
  ready key := .inl (by rw [readyMark, sessions, readyMark])
  kept id := .inl (by rw [keptMark, unavailable, keptMark])
  clients clientId key link := .inl (clients ▸ link)

theorem Fades.alloc {result : Except String ℕ}
    (allocated : registry.allocSessionIncarnation = (result, after)) : Fades registry after := by
  obtain ⟨next, rfl⟩ := allocSessionIncarnation_eq allocated
  exact .same rfl rfl rfl

theorem readyMark_insert (registry : SessionRegistry) (key other : String) (session : SessionState) :
    readyMark { registry with sessions := registry.sessions.insert key session } other =
      if other = key then session.mark else registry.readyMark other := by
  rw [readyMark, Table.get_insert]
  split <;> rfl

/-- A session is stored with its mark or without one. -/
theorem Fades.store {key : String} {session : SessionState}
    (mark : session.mark = registry.readyMark key ∨ session.mark = none) :
    Fades registry { registry with sessions := registry.sessions.insert key session } where
  ready other := by
    rw [readyMark_insert]
    split
    · rename_i same
      exact same ▸ mark
    · exact .inl rfl
  kept id := .inl rfl
  clients clientId key link := .inl link

theorem Fades.moveClient {key : String} {session : SessionState} (clientId : ClientId) (now : ℕ)
    (unmarked : session.mark = none) :
    Fades registry
      (registry.moveClient clientId (registry.clientSessions.get clientId) key session now) := by
  have marks (other : String) : readyMark
      (registry.moveClient clientId (registry.clientSessions.get clientId) key session now) other =
        if other = key then none else registry.readyMark other := by
    rw [readyMark, get_moveClient]
    split
    · exact unmarked
    · split
      · rw [Option.bind_map]
        rfl
      · rfl
  have kept : (registry.moveClient clientId (registry.clientSessions.get clientId) key session
      now).unavailableNamedSessions = registry.unavailableNamedSessions := by
    simp only [SessionRegistry.moveClient, markReplacedSessionDisconnected]
    split
    · rfl
    · split <;> rfl
  refine ⟨fun other => ?_, fun id => .inl (by rw [keptMark, kept, keptMark]), fun client other link => ?_⟩
  · rw [marks]
    split
    · exact .inr rfl
    · exact .inl rfl
  · rw [clientSessions_moveClient, Table.get_insert] at link
    split at link
    · cases link
      exact .inr (by rw [marks, if_pos rfl])
    · exact .inl link

theorem Fades.enter {key : String} {session : SessionState} (clientId : ClientId)
    (found : registry.sessions.get key = some session) (unmarked : session.mark = none) :
    Fades registry (registry.enterNamedSession answers clientId key).2 := by
  have bound : Fades registry (registry.bindClientToReadySession clientId key answers.now).2 := by
    simp only [bindClientToReadySession, found]
    split
    · exact .store (.inr unmarked)
    · exact .moveClient clientId answers.now unmarked
  rcases outcome : registry.bindClientToReadySession clientId key answers.now with
    ⟨none | binding, entered⟩
  · rw [outcome] at bound
    simp only [enterNamedSession, outcome]
    exact bound
  · rw [outcome] at bound
    simp only [enterNamedSession, outcome]
    split
    · exact bound
    · exact bound

/-- A client enters a session without a mark that has just been stored. -/
theorem Fades.enterStored {key : String} {session : SessionState} (clientId : ClientId)
    (unmarked : session.mark = none) :
    Fades registry (SessionRegistry.enterNamedSession answers
      { registry with sessions := registry.sessions.insert key session } clientId key).2 :=
  (Fades.store (.inr unmarked)).trans
    (.enter clientId (by rw [Table.get_insert, if_pos rfl]) unmarked)

theorem Fades.disconnectSession (clientId : ClientId) (now : ℕ) :
    Fades registry (registry.disconnectSession clientId now) := by
  unfold SessionRegistry.disconnectSession
  split
  · exact .refl registry
  · rename_i key link
    refine ⟨fun other => .inl ?_, fun id => .inl rfl, fun client other link => .inl ?_⟩
    · rw [readyMark, Table.get_modify, readyMark]
      split
      · rename_i same
        rw [same, Option.bind_map]
        rfl
      · rfl
    · dsimp only at link
      rw [Table.get_erase] at link
      split at link
      · cases link
      · exact link

theorem Fades.sweep (now : ℕ) : Fades registry (registry.sweepDisconnectedSessions now).2 := by
  refine ⟨fun key => ?_, fun id => .inl rfl, fun client key link => .inl link⟩
  rw [readyMark, sweepDisconnectedSessions, Table.get_retain, readyMark]
  cases registry.sessions.get key with
  | none => exact .inl rfl
  | some session =>
    cases kept : session.survives now with
    | true => exact .inl (by simp [Option.filter, kept])
    | false => exact .inr (by simp [Option.filter, kept])

end Fading

section Commands

theorem Sound.ephemeral_unmarked (sound : Sound ids registry) {id : SessionId} {session : SessionState}
    (found : registry.sessions.get (ephemeralSessionKey id) = some session) : session.mark = none := by
  cases is : session.named with
  | none => rw [SessionState.mark, is, Option.bind_none]
  | some named =>
    have naming : registry.readyNaming (ephemeralSessionKey id) = some (some (named.id, named.name)) := by
      rw [readyNaming, found, Option.map_some, SessionState.naming, is, Option.map_some]
    exact absurd (sound.apart.named _ _ _ naming).symm (namedSessionKey_ne_ephemeral _ _)

theorem Sound.connect_fades (sound : Sound ids registry) (clientId : ClientId) (sessionId : SessionId)
    (refresh : Bool) (insertScope : Except String ScopeHash) (now : ℕ) :
    Fades registry (registry.connectSession clientId sessionId refresh insertScope now).2 := by
  have current : registry.dropStaleLink clientId (ephemeralSessionKey sessionId) = registry := by
    rw [dropStaleLink, if_neg]
    rintro ⟨link, gone⟩
    have known := sound.counted.bound clientId _ link
    simp_all
  simp only [SessionRegistry.connectSession, current]
  split
  · rename_i session found
    split
    · exact .refl registry
    · have unmarked : session.mark = none := sound.ephemeral_unmarked found
      exact .moveClient clientId now unmarked
  · split
    · rename_i allocated
      exact .alloc allocated
    · rename_i allocated
      exact .alloc allocated
    · rename_i allocated
      obtain ⟨next, rfl⟩ := allocSessionIncarnation_eq allocated
      exact (Fades.alloc allocated).trans (.moveClient clientId now rfl)

theorem createSession_fades (clientId : ClientId) (name : String) (current : SessionState) :
    Fades registry (registry.createSession answers clientId name current).2 := by
  simp only [SessionRegistry.createSession]
  split
  · exact .refl registry
  · split
    · exact .refl registry
    · split
      · rename_i allocated
        exact .alloc allocated
      · rename_i allocated
        split
        · exact .alloc allocated
        · exact (Fades.alloc allocated).trans (.enterStored clientId rfl)

theorem attachReady_fades (clientId : ClientId) (selector key : String) (refresh : Bool)
    (current : SessionState)
    (active : ((registry.metaAt (.ready key)).bind NamedSessionMeta.archivedAtMs) = none) :
    Fades registry (registry.attachReady answers clientId selector key refresh current).2 := by
  rw [SessionRegistry.attachReady]
  split
  · exact .refl registry
  · rename_i target found
    split
    · exact .refl registry
    · rename_i named is
      have unmarked : named.archivedAtMs = none := by simpa [metaAt, found, is] using active
      dsimp only
      split
      · exact .refl registry
      · refine .enterStored clientId ?_
        simp [SessionState.mark, NamedSessionMeta.mark, unmarked]

theorem attachUnavailable_fades (clientId : ClientId) (selector : String) (id : SessionId)
    (refresh : Bool) (current : SessionState)
    (active : ((registry.metaAt (.needsRefresh id)).bind NamedSessionMeta.archivedAtMs) = none) :
    Fades registry (registry.attachUnavailable answers clientId selector id refresh current).2 := by
  rw [SessionRegistry.attachUnavailable]
  split
  · exact .refl registry
  · split
    · exact .refl registry
    · rename_i unavailable found
      have unmarked : unavailable.named.archivedAtMs = none := by simpa [metaAt, found] using active
      dsimp only
      split
      · rename_i allocated
        exact .alloc allocated
      · rename_i later allocated
        split
        · exact .alloc allocated
        · have dropped : Fades later { later with
              unavailableNamedSessions := later.unavailableNamedSessions.erase id } := by
            refine ⟨fun _ => .inl rfl, fun other => ?_, fun _ _ => .inl⟩
            rw [keptMark, Table.get_erase]
            split
            · exact .inr rfl
            · exact .inl rfl
          refine ((Fades.alloc allocated).trans dropped).trans (.enterStored clientId ?_)
          simp [SessionState.mark, NamedSessionMeta.mark, unmarked]

theorem attachSession_fades (clientId : ClientId) (selector : String) (refresh : Bool)
    (current : SessionState) :
    Fades registry (registry.attachSession answers clientId selector refresh current).2 := by
  rw [SessionRegistry.attachSession]
  split
  · exact .refl registry
  · split
    · exact .refl registry
    · rename_i location found active
      have active : (registry.metaAt location).bind NamedSessionMeta.archivedAtMs = none := by
        simpa using active
      split
      · exact attachReady_fades clientId selector _ refresh current active
      · exact attachUnavailable_fades clientId selector _ refresh current active

theorem updateScope_fades (clientId : ClientId) (scope : ScopeHash) :
    Fades registry (registry.updateClientSessionScope answers clientId scope).2 := by
  rw [SessionRegistry.updateClientSessionScope]
  split
  · exact .refl registry
  · split
    · exact .refl registry
    · rename_i session found
      split
      · refine .store (.inl ?_)
        rw [readyMark, found, Option.bind_some, SessionState.mark, SessionState.mark]
      · rename_i named is
        dsimp only
        split
        · exact .refl registry
        · refine .store (.inl ?_)
          rw [readyMark, found, Option.bind_some, SessionState.mark, SessionState.mark, is]
          rfl

theorem updateDefaults_fades {key : String} {session : SessionState}
    (found : registry.sessions.get key = some session) (defaults : LaunchDefaults) :
    Fades registry (registry.updateDefaults answers key session defaults).2 := by
  rw [SessionRegistry.updateDefaults]
  split
  · refine .store (.inl ?_)
    rw [readyMark, found, Option.bind_some, SessionState.mark, SessionState.mark]
  · rename_i named is
    dsimp only
    split
    · exact .refl registry
    · refine .store (.inl ?_)
      rw [readyMark, found, Option.bind_some, SessionState.mark, SessionState.mark, is]
      rfl

/-- The blocker of an archival looks at the clients of the session, and at its work. -/
theorem Sound.blocker_none (sound : Sound ids registry) {workOf : SessionId → Option String}
    {id : SessionId} (free : registry.namedSessionArchiveBlocker answers workOf id = none) :
    workOf id = none ∧ ∀ key session named, registry.sessions.get key = some session →
      session.named = some named → named.id = id → session.connectedClients = 0 := by
  unfold namedSessionArchiveBlocker at free
  dsimp only at free
  split at free
  · cases free
  · rename_i connected unblocked
    refine ⟨free, fun key session named found is same => ?_⟩
    have place (other : String) (there : SessionState) (stored : registry.sessions.get other = some there)
        (kept : NamedSessionMeta) (isKept : there.named = some kept) (ident : kept.id = id) :
        other = namedSessionKey id := by
      have naming : registry.readyNaming other = some (some (kept.id, kept.name)) := by
        rw [readyNaming, stored, Option.map_some, SessionState.naming, isKept, Option.map_some]
      exact ident ▸ sound.apart.named _ _ _ naming
    let look (other : String) : Option ℕ := do
      let there ← registry.sessions.get other
      let kept ← there.named
      if kept.id = id then some there.connectedClients else none
    cases answer : (answers.walk.keys registry.sessions).findSome? look with
    | none =>
      have listed := (answers.walk.mem_keys registry.sessions key).mpr (by simp [found])
      have missed := List.findSome?_eq_none_iff.mp answer key listed
      simp [look, found, is, same] at missed
    | some count =>
      obtain ⟨other, listed, counted⟩ := List.exists_of_findSome?_eq_some answer
      cases stored : registry.sessions.get other with
      | none => simp [look, stored] at counted
      | some there =>
        cases isKept : there.named with
        | none => simp [look, stored, isKept] at counted
        | some kept =>
          simp only [look, stored, isKept, Option.bind_eq_bind, Option.bind_some] at counted
          split at counted
          · rename_i ident
            have first := place other there stored kept isKept ident
            have second := place key session found named is same
            rw [first, ← second, found] at stored
            cases stored
            cases counted
            cases count : session.connectedClients with
            | zero => rfl
            | succ clients =>
              rw [count] at answer
              exact absurd answer (unblocked clients)
          · cases counted

/-- What a session command does to the marks: they fade, or a session without clients and work gets
one. -/
inductive Marks (workOf : SessionId → Option String) (before after : SessionRegistry) : Prop
  | fades (fades : Fades before after)
  | archives (id : SessionId) (idle : workOf id = none) (vacant : before.Vacant → after.Vacant)
      (archived : ∀ other, after.Archived other → before.Archived other ∨ other = id)

theorem readyMark_modifyMeta (key other : String) (change : NamedSessionMeta → NamedSessionMeta) :
    (registry.modifyMeta (.ready key) change).readyMark other =
      if other = key then (registry.metaAt (.ready key)).bind fun named => (change named).mark
      else registry.readyMark other := by
  rw [readyMark, modifyMeta, Table.get_modify]
  split
  · cases found : registry.sessions.get key with
    | none => rw [metaAt, found]; rfl
    | some session => cases is : session.named <;> simp [metaAt, found, is, SessionState.mark]
  · rfl

theorem keptMark_modifyMeta (key other : SessionId) (change : NamedSessionMeta → NamedSessionMeta) :
    (registry.modifyMeta (.needsRefresh key) change).keptMark other =
      if other = key then (registry.metaAt (.needsRefresh key)).bind fun named => (change named).mark
      else registry.keptMark other := by
  rw [keptMark, modifyMeta, Table.get_modify]
  split
  · cases found : registry.unavailableNamedSessions.get key <;> simp [metaAt, found]
  · rfl

/-- A restored session loses its mark. -/
theorem Fades.modifyMeta (location : NamedSessionLocation)
    (change : NamedSessionMeta → NamedSessionMeta) (unmarked : ∀ named, (change named).mark = none) :
    Fades registry (registry.modifyMeta location change) := by
  cases location with
  | ready key =>
    refine ⟨fun other => ?_, fun id => .inl rfl, fun clientId other link => .inl link⟩
    rw [readyMark_modifyMeta]
    split
    · exact .inr (by cases registry.metaAt (.ready key) <;> simp [unmarked])
    · exact .inl rfl
  | needsRefresh key =>
    refine ⟨fun other => .inl rfl, fun id => ?_, fun clientId other link => .inl link⟩
    rw [keptMark_modifyMeta]
    split
    · exact .inr (by cases registry.metaAt (.needsRefresh key) <;> simp [unmarked])
    · exact .inl rfl

/-- A session that nobody is in is marked. -/
theorem Sound.archive_marks (sound : Sound ids registry) {workOf : SessionId → Option String}
    {location : NamedSessionLocation} {named : NamedSessionMeta}
    (found : registry.metaAt location = some named)
    (free : registry.namedSessionArchiveBlocker answers workOf named.id = none)
    (change : NamedSessionMeta → NamedSessionMeta) (same : ∀ named, (change named).id = named.id) :
    Marks workOf registry (registry.modifyMeta location change) := by
  obtain ⟨idle, empty⟩ := sound.blocker_none free
  have marked {other : SessionId}
      (mark : ((registry.metaAt location).bind fun named => (change named).mark) = some other) :
      other = named.id := by
    rw [found, Option.bind_some] at mark
    exact (NamedSessionMeta.mark_eq_some.mp mark).1.symm.trans (same named)
  refine .archives named.id idle (fun vacant clientId key link => ?_) fun other archived => ?_
  · cases location with
    | needsRefresh id => exact vacant clientId key link
    | ready place =>
      rw [readyMark_modifyMeta]
      split
      · rename_i here
        obtain ⟨session, stored, is⟩ := Option.bind_eq_some_iff.mp found
        have nobody := empty place session named stored is rfl
        rw [sound.counted.counted place session stored] at nobody
        have somebody : registry.boundClients place ≠ 0 :=
          (registry.clientSessions.total_ne_zero_iff _).mpr ⟨clientId, key, link, by simp [here]⟩
        exact absurd nobody somebody
      · exact vacant clientId key link
  · rcases archived_iff.mp archived with ⟨key, mark⟩ | ⟨kept, mark⟩
    · cases location with
      | needsRefresh id => exact .inl (archived_iff.mpr (.inl ⟨key, mark⟩))
      | ready place =>
        rw [readyMark_modifyMeta] at mark
        split at mark
        · exact .inr (marked mark)
        · exact .inl (archived_iff.mpr (.inl ⟨key, mark⟩))
    · cases location with
      | ready place => exact .inl (archived_iff.mpr (.inr ⟨kept, mark⟩))
      | needsRefresh id =>
        rw [keptMark_modifyMeta] at mark
        split at mark
        · exact .inr (marked mark)
        · exact .inl (archived_iff.mpr (.inr ⟨kept, mark⟩))

theorem Sound.setArchived_marks (sound : Sound ids registry) (workOf : SessionId → Option String)
    (clientId : ClientId) (selector : String) (archive : Bool) :
    Marks workOf registry
      (registry.setNamedSessionArchived answers workOf clientId selector archive).2 := by
  simp only [setNamedSessionArchived]
  split
  · exact .fades (.refl registry)
  · rename_i location _
    split
    · exact .fades (.refl registry)
    · rename_i named found
      split
      · exact .fades (.refl registry)
      · split
        · exact .fades (.refl registry)
        · rename_i free
          split
          · exact .fades (.refl registry)
          · cases archive with
            | true => exact sound.archive_marks found free _ fun _ => rfl
            | false => exact .fades (.modifyMeta location _ fun _ => rfl)

theorem Sound.command_marks (sound : Sound ids registry) (workOf : SessionId → Option String)
    (clientId : ClientId) (command : SessionCommand) :
    Marks workOf registry (registry.handleSessionCommand answers workOf clientId command).2 := by
  simp only [handleSessionCommand]
  split
  · exact .fades (.refl registry)
  · rename_i current _
    cases command with
    | create name => exact .fades (createSession_fades clientId name current)
    | archive selector => exact sound.setArchived_marks workOf clientId selector true
    | restore selector => exact sound.setArchived_marks workOf clientId selector false
    | attach selector refresh => exact .fades (attachSession_fades clientId selector refresh current)
    | list | listArchived | listAll | info => exact .fades (.refl registry)

end Commands

/-- The session of a client is not archived. -/
theorem Sound.client_active (sound : Sound ids registry) (vacant : registry.Vacant)
    {clientId : ClientId} {id : SessionId} (is : registry.namedSessionIdForClient clientId = some id) :
    ¬ registry.Archived id := by
  rintro ⟨location, named, found, same, archived⟩
  obtain ⟨current, present, rfl⟩ := Option.map_eq_some_iff.mp is
  obtain ⟨session, known, kept⟩ := Option.bind_eq_some_iff.mp present
  obtain ⟨key, link, stored⟩ := Option.bind_eq_some_iff.mp known
  have here : registry.metaAt (.ready key) = some current := by
    rw [metaAt, stored, Option.bind_some, kept]
  have place := location_unique sound found here (.inl same)
  rw [place, here] at found
  cases found
  have mark : registry.readyMark key = some named.id := by
    rw [readyMark, stored, Option.bind_some, SessionState.mark, kept, Option.bind_some]
    exact NamedSessionMeta.mark_eq_some.mpr ⟨rfl, archived⟩
  rw [vacant clientId key link] at mark
  cases mark

end SessionRegistry

end CueShell

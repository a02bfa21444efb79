import CueShell.Model.Sessions

/-! # What the operations on sessions keep

Two things: the count of a session is the number of links that lead to it, and named sessions keep
apart by id and by name. The second only depends on the ids and names, so most operations keep it
because they change neither.
-/

namespace CueShell

theorem namedSessionKey_injective : Function.Injective namedSessionKey := by
  intro first second same
  have texts := congrArg String.toList same
  simp only [namedSessionKey, String.toList_append, List.append_cancel_left_eq] at texts
  exact String.toList_inj.mp texts

theorem namedSessionKey_ne_ephemeral (id other : SessionId) :
    namedSessionKey id ≠ ephemeralSessionKey other := by
  intro same
  have heads := congrArg (fun text => text.toList.head?) same
  simp [namedSessionKey, ephemeralSessionKey] at heads

theorem Walk.mem_keys {ν : Type} (walk : Walk) (table : Table String ν) (key : String) :
    key ∈ walk.keys table ↔ (table.get key).isSome := by
  rw [Walk.keys, (walk.perm _).mem_iff, Finset.mem_sort, table.mem_keys]

section Naming

/-- The id and the name of a named session, `none` for an anonymous one. -/
def SessionState.naming (session : SessionState) : Option (SessionId × String) :=
  session.named.map fun named => (named.id, named.name)

namespace SessionRegistry

def readyNaming (registry : SessionRegistry) (key : String) : Option (Option (SessionId × String)) :=
  (registry.sessions.get key).map SessionState.naming

def keptNaming (registry : SessionRegistry) (id : SessionId) : Option (SessionId × String) :=
  (registry.unavailableNamedSessions.get id).map fun session => (session.named.id, session.named.name)

end SessionRegistry

variable (ready : String → Option (Option (SessionId × String)))
variable (kept : SessionId → Option (SessionId × String))

/-- There is a named session with this id and name, at hand or unavailable. -/
def IsNamed (id : SessionId) (name : String) : Prop :=
  ready (namedSessionKey id) = some (some (id, name)) ∨ kept id = some (id, name)

/-- Named sessions keep apart; the ids are those that have been given out. -/
structure Apart (ids : List SessionId) : Prop where
  named : ∀ key id name, ready key = some (some (id, name)) → key = namedSessionKey id
  anonymous : ∀ key, ready key = some none → ∃ id, key = ephemeralSessionKey id
  held : ∀ id other name, kept id = some (other, name) →
    other = id ∧ ready (namedSessionKey id) = none
  names : ∀ first second name, IsNamed ready kept first name → IsNamed ready kept second name →
    first = second
  spelled : ∀ id name, IsNamed ready kept id name →
    "SS-".toList <+: id.toList ∧ ¬ "SS-".toList <+: name.toList
  issued : ∀ id name, IsNamed ready kept id name → id ∈ ids

variable {ready kept} {ids : List SessionId}

theorem Apart.mono {more : List SessionId} (apart : Apart ready kept ids) (subset : ids ⊆ more) :
    Apart ready kept more :=
  { apart with issued := fun id name is => subset (apart.issued id name is) }

/-- Anonymous sessions come and go. -/
theorem Apart.anonymous_change {later : String → Option (Option (SessionId × String))}
    (apart : Apart ready kept ids)
    (same : ∀ key, later key = ready key ∨
      ready key ∈ [none, some none] ∧ (later key = none ∨
        later key = some none ∧ ∃ id, key = ephemeralSessionKey id)) :
    Apart later kept ids := by
  have back : ∀ key pair, later key = some (some pair) → ready key = some (some pair) := by
    intro key pair found
    rcases same key with equal | ⟨-, gone | ⟨anonymous, -⟩⟩
    · exact equal ▸ found
    · simp [gone] at found
    · simp [anonymous] at found
  have is : ∀ id name, IsNamed later kept id name → IsNamed ready kept id name := by
    rintro id name (found | found)
    · exact .inl (back _ _ found)
    · exact .inr found
  refine ⟨fun key id name found => apart.named key id name (back key _ found), ?_, ?_,
    fun first second name one two => apart.names first second name (is _ _ one) (is _ _ two),
    fun id name found => apart.spelled id name (is _ _ found),
    fun id name found => apart.issued id name (is _ _ found)⟩
  · intro key found
    rcases same key with equal | ⟨-, gone | ⟨-, known⟩⟩
    · exact apart.anonymous key (equal ▸ found)
    · simp [gone] at found
    · exact known
  · intro id other name found
    obtain ⟨rfl, absent⟩ := apart.held id other name found
    refine ⟨rfl, ?_⟩
    rcases same (namedSessionKey other) with equal | ⟨-, gone | ⟨-, ⟨id, clash⟩⟩⟩
    · rw [equal, absent]
    · exact gone
    · exact absurd clash (namedSessionKey_ne_ephemeral other id)

/-- Storing a session under the key of its id keeps the keys in order. -/
theorem Apart.keys_update (apart : Apart ready kept ids) (id : SessionId) (name : String) :
    let later := Function.update ready (namedSessionKey id) (some (some (id, name)))
    (∀ key other label, later key = some (some (other, label)) → key = namedSessionKey other) ∧
      ∀ key, later key = some none → ∃ other, key = ephemeralSessionKey other := by
  refine ⟨?_, ?_⟩
  · intro key other label found
    by_cases same : key = namedSessionKey id
    · obtain ⟨rfl, -⟩ : id = other ∧ name = label := by simpa [same] using found
      exact same
    · rw [Function.update_of_ne same] at found
      exact apart.named key other label found
  · intro key found
    by_cases same : key = namedSessionKey id
    · simp [same] at found
    · rw [Function.update_of_ne same] at found
      exact apart.anonymous key found

/-- The key of an id that has not been given out is free. -/
theorem Apart.free {id : SessionId} (apart : Apart ready kept ids) (fresh : id ∉ ids) :
    ready (namedSessionKey id) = none ∧ kept id = none := by
  refine ⟨?_, ?_⟩
  · cases found : ready (namedSessionKey id) with
    | none => rfl
    | some naming =>
      cases naming with
      | none =>
        obtain ⟨other, clash⟩ := apart.anonymous _ found
        exact absurd clash (namedSessionKey_ne_ephemeral id other)
      | some pair =>
        have here := namedSessionKey_injective (apart.named _ pair.1 pair.2 found)
        exact absurd (apart.issued id pair.2 (.inl (by rw [found, here]))) fresh
  · cases found : kept id with
    | none => rfl
    | some pair =>
      obtain ⟨rfl, -⟩ := apart.held id pair.1 pair.2 found
      exact absurd (apart.issued pair.1 pair.2 (.inr found)) fresh

/-- A new named session is opened. -/
theorem Apart.create {id : SessionId} {name : String} (apart : Apart ready kept ids)
    (fresh : id ∉ ids) (spelling : "SS-".toList <+: id.toList ∧ ¬ "SS-".toList <+: name.toList)
    (unused : ∀ other, ¬ IsNamed ready kept other name) :
    Apart (Function.update ready (namedSessionKey id) (some (some (id, name)))) kept (id :: ids) := by
  have unkept := (apart.free fresh).2
  have is : ∀ other label, IsNamed (Function.update ready (namedSessionKey id)
      (some (some (id, name)))) kept other label →
      (other = id ∧ label = name) ∨ IsNamed ready kept other label := by
    rintro other label (found | found)
    · by_cases same : other = id
      · obtain ⟨-, rfl⟩ : id = other ∧ name = label := by simpa [same] using found
        exact .inl ⟨same, rfl⟩
      · rw [Function.update_of_ne (namedSessionKey_injective.ne same)] at found
        exact .inr (.inl found)
    · exact .inr (.inr found)
  have keys := apart.keys_update id name
  refine ⟨keys.1, keys.2, ?_, ?_, ?_, ?_⟩
  · intro other inner label found
    obtain ⟨rfl, absent⟩ := apart.held other inner label found
    refine ⟨rfl, ?_⟩
    have distinct : inner ≠ id := by
      rintro rfl
      simp [unkept] at found
    rw [Function.update_of_ne (namedSessionKey_injective.ne distinct), absent]
  · intro first second label one two
    rcases is first label one with ⟨rfl, rfl⟩ | earlier
    · rcases is second label two with ⟨rfl, -⟩ | other
      · rfl
      · exact absurd other (unused second)
    · rcases is second label two with ⟨rfl, rfl⟩ | other
      · exact absurd earlier (unused first)
      · exact apart.names first second label earlier other
  · intro other label found
    rcases is other label found with ⟨rfl, rfl⟩ | found
    · exact spelling
    · exact apart.spelled other label found
  · intro other label found
    rcases is other label found with ⟨rfl, rfl⟩ | found
    · exact List.mem_cons_self
    · exact List.mem_cons_of_mem _ (apart.issued other label found)

/-- A named session without a scope is entered. -/
theorem Apart.keep {id : SessionId} {name : String} (apart : Apart ready kept ids)
    (fresh : id ∉ ids) (spelling : "SS-".toList <+: id.toList ∧ ¬ "SS-".toList <+: name.toList)
    (unused : ∀ other, ¬ IsNamed ready kept other name) :
    Apart ready (Function.update kept id (some (id, name))) (id :: ids) := by
  have is : ∀ other label, IsNamed ready (Function.update kept id (some (id, name))) other label →
      (other = id ∧ label = name) ∨ IsNamed ready kept other label := by
    rintro other label (found | found)
    · exact .inr (.inl found)
    · by_cases same : other = id
      · obtain ⟨-, rfl⟩ : id = other ∧ name = label := by simpa [same] using found
        exact .inl ⟨same, rfl⟩
      · rw [Function.update_of_ne same] at found
        exact .inr (.inr found)
  refine ⟨apart.named, apart.anonymous, ?_, ?_, ?_, ?_⟩
  · intro other inner label found
    by_cases same : other = id
    · obtain ⟨rfl, -⟩ : id = inner ∧ name = label := by simpa [same] using found
      exact ⟨same.symm, same ▸ (apart.free fresh).1⟩
    · rw [Function.update_of_ne same] at found
      exact apart.held other inner label found
  · intro first second label one two
    rcases is first label one with ⟨rfl, rfl⟩ | earlier
    · rcases is second label two with ⟨rfl, -⟩ | other
      · rfl
      · exact absurd other (unused second)
    · rcases is second label two with ⟨rfl, rfl⟩ | other
      · exact absurd earlier (unused first)
      · exact apart.names first second label earlier other
  · intro other label found
    rcases is other label found with ⟨rfl, rfl⟩ | found
    · exact spelling
    · exact apart.spelled other label found
  · intro other label found
    rcases is other label found with ⟨rfl, rfl⟩ | found
    · exact List.mem_cons_self
    · exact List.mem_cons_of_mem _ (apart.issued other label found)

/-- An unavailable session gets a scope again. -/
theorem Apart.revive {id : SessionId} {name : String} (apart : Apart ready kept ids)
    (found : kept id = some (id, name)) :
    Apart (Function.update ready (namedSessionKey id) (some (some (id, name))))
      (Function.update kept id none) ids := by
  have is : ∀ other label, IsNamed (Function.update ready (namedSessionKey id)
      (some (some (id, name)))) (Function.update kept id none) other label →
      IsNamed ready kept other label := by
    rintro other label (there | there)
    · by_cases same : other = id
      · obtain ⟨-, rfl⟩ : id = other ∧ name = label := by simpa [same] using there
        exact .inr (by rw [same, found])
      · rw [Function.update_of_ne (namedSessionKey_injective.ne same)] at there
        exact .inl there
    · by_cases same : other = id
      · rw [same, Function.update_self] at there
        simp at there
      · rw [Function.update_of_ne same] at there
        exact .inr there
  have keys := apart.keys_update id name
  refine ⟨keys.1, keys.2, ?_, fun first second label one two =>
    apart.names first second label (is _ _ one) (is _ _ two),
    fun other label there => apart.spelled other label (is _ _ there),
    fun other label there => apart.issued other label (is _ _ there)⟩
  · intro other inner label there
    by_cases same : other = id
    · rw [same, Function.update_self] at there
      simp at there
    · rw [Function.update_of_ne same] at there
      obtain ⟨rfl, absent⟩ := apart.held other inner label there
      rw [Function.update_of_ne (namedSessionKey_injective.ne same)]
      exact ⟨rfl, absent⟩

end Naming

namespace SessionRegistry

variable {registry : SessionRegistry}

section Counting

/-- How many clients are linked to a session. -/
def boundClients (registry : SessionRegistry) (key : String) : ℕ :=
  registry.clientSessions.total fun bound => if bound = key then 1 else 0

structure Counted (registry : SessionRegistry) : Prop where
  counted : ∀ key session, registry.sessions.get key = some session →
    session.connectedClients = registry.boundClients key
  bound : ∀ clientId key, registry.clientSessions.get clientId = some key →
    (registry.sessions.get key).isSome

/-- Sessions may change as long as their counts stay. -/
theorem Counted.change {sessions : Table String SessionState} (sound : registry.Counted)
    (same : ∀ key, (sessions.get key).map SessionState.connectedClients =
      (registry.sessions.get key).map SessionState.connectedClients) :
    Counted { registry with sessions := sessions } := by
  refine ⟨?_, ?_⟩
  · intro key session found
    have count := same key
    rw [found] at count
    obtain ⟨before, there, equal⟩ := Option.map_eq_some_iff.mp count.symm
    rw [← equal]
    exact sound.counted key before there
  · intro clientId key link
    have count := congrArg Option.isSome (same key)
    simp only [Option.isSome_map] at count
    rw [count]
    exact sound.bound clientId key link

/-- A session without clients is opened. -/
theorem Counted.open {key : String} {session : SessionState} (sound : registry.Counted)
    (absent : registry.sessions.get key = none) (unused : session.connectedClients = 0) :
    Counted { registry with sessions := registry.sessions.insert key session } := by
  have nobody : registry.boundClients key = 0 := by
    by_contra some_client
    obtain ⟨clientId, bound, link, weight⟩ :=
      (registry.clientSessions.total_ne_zero_iff _).mp some_client
    have here : bound = key := by
      by_contra other
      simp [other] at weight
    have known := sound.bound clientId bound link
    simp [here, absent] at known
  refine ⟨?_, ?_⟩
  · intro other found
    rw [Table.get_insert]
    split
    · rename_i same
      intro stored
      obtain rfl := Option.some.inj stored
      rw [unused, same]
      exact nobody.symm
    · exact sound.counted other found
  · intro clientId other link
    have known := sound.bound clientId other link
    rw [Table.get_insert]
    split
    · rfl
    · exact known

/-- The links after a client has moved. -/
theorem boundClients_insert (registry : SessionRegistry) (clientId : ClientId) (key other : String)
    (sessions : Table String SessionState) :
    boundClients { registry with
      sessions := sessions, clientSessions := registry.clientSessions.insert clientId key } other +
      (if registry.clientSessions.get clientId = some other then 1 else 0) =
    registry.boundClients other + if key = other then 1 else 0 := by
  have exchange := registry.clientSessions.total_insert
    (fun bound => if bound = other then 1 else 0) clientId key
  have weight : (registry.clientSessions.get clientId).elim 0
      (fun bound => if bound = other then 1 else 0) =
      if registry.clientSessions.get clientId = some other then 1 else 0 := by
    cases registry.clientSessions.get clientId <;> simp
  rw [weight] at exchange
  exact exchange

theorem boundClients_erase (registry : SessionRegistry) (clientId : ClientId) (other : String)
    (sessions : Table String SessionState) :
    boundClients { registry with
      sessions := sessions, clientSessions := registry.clientSessions.erase clientId } other +
      (if registry.clientSessions.get clientId = some other then 1 else 0) =
    registry.boundClients other := by
  have less := registry.clientSessions.total_erase
    (fun bound => if bound = other then 1 else 0) clientId
  have weight : (registry.clientSessions.get clientId).elim 0
      (fun bound => if bound = other then 1 else 0) =
      if registry.clientSessions.get clientId = some other then 1 else 0 := by
    cases registry.clientSessions.get clientId <;> simp
  rw [weight] at less
  exact less

/-- The count of a session that a client moves into. -/
def arriving (registry : SessionRegistry) (clientId : ClientId) (key : String)
    (session : SessionState) : ℕ :=
  if registry.clientSessions.get clientId = some key then session.connectedClients
  else session.connectedClients + 1

theorem get_moveClient (clientId : ClientId) (key : String) (session : SessionState) (now : ℕ)
    (other : String) :
    (registry.moveClient clientId (registry.clientSessions.get clientId) key session now).sessions.get
        other =
      if other = key then some session
      else if registry.clientSessions.get clientId = some other then
        (registry.sessions.get other).map (·.leave now)
      else registry.sessions.get other := by
  simp only [moveClient, markReplacedSessionDisconnected]
  cases registry.clientSessions.get clientId with
  | none => simp [Table.get_insert]
  | some old =>
    by_cases here : old = key
    · simp only [here, if_true, Table.get_insert]
      by_cases same : other = key
      · simp [same]
      · simp [same, Ne.symm same]
    · simp only [here, if_false, Table.get_modify, Table.get_insert]
      by_cases same : other = key
      · simp [same, Ne.symm here]
      · by_cases leaving : other = old
        · simp [leaving, here]
        · simp [same, leaving, Ne.symm leaving]

theorem clientSessions_moveClient (clientId : ClientId) (old : Option String) (key : String)
    (session : SessionState) (now : ℕ) :
    (registry.moveClient clientId old key session now).clientSessions =
      registry.clientSessions.insert clientId key := by
  simp only [moveClient, markReplacedSessionDisconnected]
  split
  · rfl
  · split <;> rfl

theorem Counted.moveClient {clientId : ClientId} {key : String} {before session : SessionState}
    (sound : registry.Counted) (found : registry.sessions.get key = some before)
    (count : session.connectedClients = registry.arriving clientId key before) (now : ℕ) :
    Counted (registry.moveClient clientId (registry.clientSessions.get clientId) key session now) := by
  have links : ∀ other, boundClients
      (registry.moveClient clientId (registry.clientSessions.get clientId) key session now) other +
        (if registry.clientSessions.get clientId = some other then 1 else 0) =
      registry.boundClients other + if key = other then 1 else 0 := by
    intro other
    rw [← boundClients_insert registry clientId key other registry.sessions, boundClients,
      clientSessions_moveClient, boundClients]
  refine ⟨?_, ?_⟩
  · intro other after there
    have link := links other
    rw [get_moveClient] at there
    split at there
    · rename_i same
      obtain rfl := Option.some.inj there
      have earlier := sound.counted key before found
      rw [count, arriving]
      subst same
      split at link <;> simp_all
    · rename_i distinct
      rw [if_neg (Ne.symm distinct), Nat.add_zero] at link
      split at there
      · rename_i leaving
        obtain ⟨old, stored, rfl⟩ := Option.map_eq_some_iff.mp there
        have earlier := sound.counted other old stored
        rw [if_pos leaving] at link
        change old.connectedClients - 1 = _
        omega
      · rename_i elsewhere
        rw [if_neg elsewhere, Nat.add_zero] at link
        rw [link]
        exact sound.counted other after there
  · intro other bound link
    rw [clientSessions_moveClient, Table.get_insert] at link
    rw [get_moveClient]
    split
    · rfl
    · rename_i distinct
      split at link
      · exact absurd (Option.some.inj link).symm distinct
      · have known := sound.bound other bound link
        split
        · rw [Option.isSome_map]
          exact known
        · exact known

theorem Counted.disconnectSession (sound : registry.Counted) (clientId : ClientId) (now : ℕ) :
    (registry.disconnectSession clientId now).Counted := by
  rw [SessionRegistry.disconnectSession]
  split
  · exact sound
  · rename_i key link
    have links := fun other => boundClients_erase registry clientId other
      (registry.sessions.modify key (·.leave now))
    refine ⟨?_, ?_⟩
    · intro other after there
      have count := links other
      rw [Table.get_modify] at there
      split at there
      · rename_i same
        obtain ⟨old, stored, rfl⟩ := Option.map_eq_some_iff.mp there
        have earlier := sound.counted key old stored
        subst same
        rw [link, if_pos rfl] at count
        change old.connectedClients - 1 = _
        omega
      · rename_i distinct
        rw [link, if_neg fun same => distinct (Option.some.inj same).symm, Nat.add_zero] at count
        rw [count]
        exact sound.counted other after there
    · intro other bound still
      rw [Table.get_erase] at still
      split at still
      · cases still
      · have known := sound.bound other bound still
        rw [Table.get_modify]
        split
        · rename_i same
          rw [Option.isSome_map, ← same]
          exact known
        · exact known

/-- A session with a client survives a sweep. -/
theorem survives_of_bound (sound : registry.Counted) {clientId : ClientId} {key : String}
    {session : SessionState} (link : registry.clientSessions.get clientId = some key)
    (found : registry.sessions.get key = some session) (now : ℕ) : session.survives now = true := by
  have positive : registry.boundClients key ≠ 0 :=
    (registry.clientSessions.total_ne_zero_iff _).mpr ⟨clientId, key, link, by simp⟩
  have count := sound.counted key session found
  have busy : session.connectedClients > 0 := by omega
  simp [SessionState.survives, busy]

theorem Counted.sweep (sound : registry.Counted) (now : ℕ) :
    (registry.sweepDisconnectedSessions now).2.Counted := by
  refine ⟨?_, ?_⟩
  · intro key session found
    rw [sweepDisconnectedSessions, Table.get_retain, Option.filter_eq_some_iff] at found
    exact sound.counted key session found.1
  · intro clientId key link
    obtain ⟨session, found⟩ := Option.isSome_iff_exists.mp (sound.bound clientId key link)
    have kept := survives_of_bound sound link found now
    simp [sweepDisconnectedSessions, found, kept]

end Counting

section Steps

variable {ids : List SessionId}

/-- What every operation keeps. -/
structure Sound (ids : List SessionId) (registry : SessionRegistry) : Prop where
  counted : registry.Counted
  apart : Apart registry.readyNaming registry.keptNaming ids

theorem Sound.mono {more : List SessionId} (sound : Sound ids registry) (subset : ids ⊆ more) :
    Sound more registry :=
  ⟨sound.counted, sound.apart.mono subset⟩

theorem readyNaming_insert (registry : SessionRegistry) (key : String) (session : SessionState) :
    readyNaming { registry with sessions := registry.sessions.insert key session } =
      Function.update registry.readyNaming key (some session.naming) := by
  funext other
  rw [readyNaming, Table.get_insert, Function.update_apply]
  split
  · rfl
  · rfl

/-- A session is stored again with the same count and name. -/
theorem Sound.store {key : String} {before session : SessionState} (sound : Sound ids registry)
    (found : registry.sessions.get key = some before)
    (count : session.connectedClients = before.connectedClients)
    (naming : session.naming = before.naming) :
    Sound ids { registry with sessions := registry.sessions.insert key session } := by
  refine ⟨sound.counted.change ?_, ?_⟩
  · intro other
    rw [Table.get_insert]
    split
    · rename_i same
      rw [same, found, Option.map_some, Option.map_some, count]
    · rfl
  · have same : readyNaming { registry with sessions := registry.sessions.insert key session } =
        registry.readyNaming := by
      rw [readyNaming_insert, naming]
      refine Function.update_eq_self_iff.mpr ?_
      rw [readyNaming, found, Option.map_some]
    exact same ▸ sound.apart

theorem Sound.moveClient {key : String} {before : SessionState} (sound : Sound ids registry)
    (clientId : ClientId) (session : SessionState) (now : ℕ)
    (found : registry.sessions.get key = some before)
    (count : session.connectedClients = registry.arriving clientId key before)
    (naming : session.naming = before.naming) :
    Sound ids
      (registry.moveClient clientId (registry.clientSessions.get clientId) key session now) := by
  refine ⟨sound.counted.moveClient found count now, ?_⟩
  have kept : (registry.moveClient clientId (registry.clientSessions.get clientId) key session
      now).keptNaming = registry.keptNaming := by
    simp only [SessionRegistry.moveClient, markReplacedSessionDisconnected]
    split
    · rfl
    · split <;> rfl
  have ready : (registry.moveClient clientId (registry.clientSessions.get clientId) key session
      now).readyNaming = registry.readyNaming := by
    funext other
    rw [readyNaming, get_moveClient, readyNaming]
    split
    · rename_i same
      rw [same, found, Option.map_some, Option.map_some, naming]
    · split
      · rw [Option.map_map]
        rfl
      · rfl
  rw [kept, ready]
  exact sound.apart

/-- An anonymous session is opened for the client that asks for it. -/
theorem Sound.moveIntoNew {clientId : ClientId} {id : SessionId} {session : SessionState}
    (sound : Sound ids registry) (absent : registry.sessions.get (ephemeralSessionKey id) = none)
    (count : session.connectedClients = 1) (anonymous : session.named = none) (now : ℕ) :
    Sound ids (registry.moveClient clientId (registry.clientSessions.get clientId)
      (ephemeralSessionKey id) session now) := by
  let key := ephemeralSessionKey id
  let opened : SessionRegistry := { registry with
    sessions := registry.sessions.insert key { session with connectedClients := 0 } }
  have elsewhere : registry.clientSessions.get clientId ≠ some key := by
    intro link
    have known := sound.counted.bound clientId key link
    simp [key, absent] at known
  have unnamed : session.naming = none := by rw [SessionState.naming, anonymous, Option.map_none]
  have soundOpened : Sound ids opened := by
    refine ⟨sound.counted.open absent rfl, ?_⟩
    have ready : opened.readyNaming = Function.update registry.readyNaming key (some none) := by
      rw [readyNaming_insert]
      exact congrArg (fun naming => Function.update registry.readyNaming key (some naming)) unnamed
    rw [ready]
    refine sound.apart.anonymous_change fun other => ?_
    by_cases same : other = key
    · refine .inr ⟨?_, .inr ⟨?_, id, same⟩⟩
      · rw [same, readyNaming, absent]
        exact List.mem_cons_self
      · rw [same, Function.update_self]
    · exact .inl (Function.update_of_ne same ..)
  have stored : opened.sessions.get key = some { session with connectedClients := 0 } := by
    simp [opened, Table.get_insert]
  have moved := soundOpened.moveClient clientId session now stored
    (by simp [arriving, opened, elsewhere, count]) rfl
  have same : opened.moveClient clientId (opened.clientSessions.get clientId) key session now =
      registry.moveClient clientId (registry.clientSessions.get clientId) key session now := by
    simp only [SessionRegistry.moveClient, opened, Table.insert_insert]
  exact same ▸ moved

theorem allocSessionIncarnation_eq {result : Except String ℕ} {after : SessionRegistry}
    (allocated : registry.allocSessionIncarnation = (result, after)) :
    ∃ next, after = { registry with nextSessionIncarnation := next } := by
  rw [allocSessionIncarnation] at allocated
  split at allocated
  · cases allocated
    exact ⟨registry.nextSessionIncarnation, rfl⟩
  · cases allocated
    exact ⟨_, rfl⟩

theorem Sound.alloc {result : Except String ℕ} {after : SessionRegistry} (sound : Sound ids registry)
    (allocated : registry.allocSessionIncarnation = (result, after)) : Sound ids after := by
  obtain ⟨next, rfl⟩ := allocSessionIncarnation_eq allocated
  exact ⟨⟨sound.counted.counted, sound.counted.bound⟩, sound.apart⟩

theorem Sound.connectSession (sound : Sound ids registry) (clientId : ClientId) (sessionId : SessionId)
    (refresh : Bool) (insertScope : Except String ScopeHash) (now : ℕ) :
    Sound ids (registry.connectSession clientId sessionId refresh insertScope now).2 := by
  have current : registry.dropStaleLink clientId (ephemeralSessionKey sessionId) = registry := by
    rw [dropStaleLink, if_neg]
    rintro ⟨link, gone⟩
    have known := sound.counted.bound clientId _ link
    simp_all
  simp only [SessionRegistry.connectSession, current]
  split
  · rename_i session found
    split
    · exact sound
    · exact sound.moveClient clientId _ now found rfl rfl
  · rename_i absent
    split
    · rename_i allocated
      exact sound.alloc allocated
    · rename_i allocated
      exact sound.alloc allocated
    · rename_i allocated
      have later := sound.alloc allocated
      obtain ⟨next, rfl⟩ := allocSessionIncarnation_eq allocated
      exact later.moveIntoNew absent rfl rfl now

theorem Sound.disconnectSession (sound : Sound ids registry) (clientId : ClientId) (now : ℕ) :
    Sound ids (registry.disconnectSession clientId now) := by
  refine ⟨sound.counted.disconnectSession clientId now, ?_⟩
  rw [SessionRegistry.disconnectSession]
  split
  · exact sound.apart
  · rename_i key link
    have ready : readyNaming { registry with
        sessions := registry.sessions.modify key (·.leave now)
        clientSessions := registry.clientSessions.erase clientId } = registry.readyNaming := by
      funext other
      rw [readyNaming, Table.get_modify, readyNaming]
      split
      · rename_i same
        rw [same, Option.map_map]
        rfl
      · rfl
    rw [ready]
    exact sound.apart

theorem Sound.sweep (sound : Sound ids registry) (now : ℕ) :
    Sound ids (registry.sweepDisconnectedSessions now).2 := by
  refine ⟨sound.counted.sweep now, ?_⟩
  refine sound.apart.anonymous_change fun key => ?_
  rw [readyNaming, sweepDisconnectedSessions, Table.get_retain, readyNaming]
  cases found : registry.sessions.get key with
  | none => exact .inl rfl
  | some session =>
    cases kept : session.survives now with
    | true => exact .inl (by simp [Option.filter, kept])
    | false =>
      have anonymous : session.named = none := by
        cases named : session.named with
        | none => rfl
        | some _ => simp [SessionState.survives, named] at kept
      exact .inr ⟨by simp [SessionState.naming, anonymous], .inl (by simp [Option.filter, kept])⟩

end Steps

section Commands

variable {ids : List SessionId} {answers : SessionAnswers}

theorem Sound.bindClient (sound : Sound ids registry) {key : String} {session : SessionState}
    {named : NamedSessionMeta} (found : registry.sessions.get key = some session)
    (is : session.named = some named) (clientId : ClientId) (now : ℕ) :
    Sound ids (registry.bindClientToReadySession clientId key now).2 := by
  simp only [bindClientToReadySession, found, is]
  exact sound.moveClient clientId _ now found rfl (by simp [SessionState.naming, is])

theorem Sound.enterNamedSession (sound : Sound ids registry) {key : String} {session : SessionState}
    {named : NamedSessionMeta} (found : registry.sessions.get key = some session)
    (is : session.named = some named) (clientId : ClientId) :
    Sound ids (registry.enterNamedSession answers clientId key).2 := by
  have bound := sound.bindClient found is clientId answers.now
  rcases outcome : registry.bindClientToReadySession clientId key answers.now with
    ⟨none | binding, after⟩
  · rw [outcome] at bound
    simp only [SessionRegistry.enterNamedSession, outcome]
    exact bound
  · rw [outcome] at bound
    simp only [SessionRegistry.enterNamedSession, outcome]
    split
    · exact bound
    · exact bound

/-- A client enters the session that has just been stored. -/
theorem enterStored (registry : SessionRegistry) {key : String} {session : SessionState}
    {named : NamedSessionMeta} (sound : Sound ids { registry with sessions := registry.sessions.insert key session })
    (is : session.named = some named) (clientId : ClientId) :
    Sound ids (SessionRegistry.enterNamedSession answers
      { registry with sessions := registry.sessions.insert key session } clientId key).2 :=
  sound.enterNamedSession (by rw [Table.get_insert, if_pos rfl]) is clientId

/-- No named session answers to a selector that is not found. -/
theorem not_isNamed_of_findNamedSession {walk : Walk} {selector : String}
    (missing : registry.findNamedSession walk selector = none) (id : SessionId) :
    ¬ IsNamed registry.readyNaming registry.keptNaming id selector := by
  obtain ⟨ready, unavailable⟩ := Option.or_eq_none_iff.mp missing
  rw [Option.map_eq_none_iff, List.find?_eq_none] at ready unavailable
  rintro (found | found)
  · obtain ⟨session, stored, naming⟩ := Option.map_eq_some_iff.mp found
    obtain ⟨named, is, pair⟩ := Option.map_eq_some_iff.mp naming
    have listed := (walk.mem_keys registry.sessions (namedSessionKey id)).mpr (by simp [stored])
    have answers := ready _ listed
    obtain ⟨-, rfl⟩ := Prod.mk.inj pair
    simp [stored, is, NamedSessionMeta.answersTo] at answers
  · obtain ⟨session, stored, pair⟩ := Option.map_eq_some_iff.mp found
    have listed := (walk.mem_keys registry.unavailableNamedSessions id).mpr (by simp [stored])
    have answers := unavailable _ listed
    obtain ⟨-, rfl⟩ := Prod.mk.inj pair
    simp [stored] at answers

theorem not_reserved_of_valid {name : String} (valid : validateSessionName name = .ok ()) :
    ¬ "SS-".toList <+: name.toList := by
  intro reserved
  have rejected : "SS-".toList.isPrefixOf name.toList = true :=
    List.isPrefixOf_iff_prefix.mpr reserved
  unfold validateSessionName at valid
  split_ifs at valid

theorem Sound.createSession (sound : Sound ids registry) (fresh : "SS-" ++ answers.uuid ∉ ids)
    (clientId : ClientId) (name : String) (current : SessionState) :
    Sound (("SS-" ++ answers.uuid) :: ids)
      (registry.createSession answers clientId name current).2 := by
  have same : Sound (("SS-" ++ answers.uuid) :: ids) registry :=
    sound.mono (List.subset_cons_self ..)
  simp only [SessionRegistry.createSession]
  split
  · exact same
  · rename_i valid
    split
    · exact same
    · rename_i missing
      split
      · rename_i allocated
        exact same.alloc allocated
      · rename_i allocated
        split
        · exact same.alloc allocated
        · rename_i durable _
          have later := sound.alloc allocated
          obtain ⟨next, rfl⟩ := allocSessionIncarnation_eq allocated
          let id := "SS-" ++ answers.uuid
          have unused : ∀ other, ¬ IsNamed registry.readyNaming registry.keptNaming other name :=
            not_isNamed_of_findNamedSession missing
          have spelling : "SS-".toList <+: id.toList ∧ ¬ "SS-".toList <+: name.toList := by
            exact ⟨by simp [id], not_reserved_of_valid valid⟩
          have absent : registry.sessions.get (namedSessionKey id) = none :=
            Option.map_eq_none_iff.mp (sound.apart.free fresh).1
          refine enterStored _ ⟨later.counted.open absent rfl, ?_⟩ rfl clientId
          rw [readyNaming_insert]
          exact later.apart.create fresh spelling unused

theorem Sound.attachReady (sound : Sound ids registry) (clientId : ClientId) (selector key : String)
    (refresh : Bool) (current : SessionState) :
    Sound ids (registry.attachReady answers clientId selector key refresh current).2 := by
  rw [SessionRegistry.attachReady]
  split
  · exact sound
  · rename_i target found
    split
    · exact sound
    · rename_i named is
      simp only
      split
      · exact sound
      · refine enterStored _ (sound.store found ?_ ?_) rfl clientId
        · rfl
        · simp [SessionState.naming, is]

theorem Sound.attachUnavailable (sound : Sound ids registry) (clientId : ClientId) (selector : String)
    (id : SessionId) (refresh : Bool) (current : SessionState) :
    Sound ids (registry.attachUnavailable answers clientId selector id refresh current).2 := by
  rw [SessionRegistry.attachUnavailable]
  split
  · exact sound
  · split
    · exact sound
    · rename_i unavailable found
      simp only
      split
      · rename_i allocated
        exact sound.alloc allocated
      · rename_i allocated
        have later := sound.alloc allocated
        split
        · exact later
        · obtain ⟨next, rfl⟩ := allocSessionIncarnation_eq allocated
          have kept : registry.keptNaming id = some (unavailable.named.id, unavailable.named.name) := by
            rw [keptNaming, found, Option.map_some]
          obtain ⟨here, absent⟩ := sound.apart.held id _ _ kept
          have missing : registry.sessions.get (namedSessionKey id) = none :=
            Option.map_eq_none_iff.mp absent
          rw [here] at kept
          let waiting : SessionRegistry := { registry with
            nextSessionIncarnation := next
            unavailableNamedSessions := registry.unavailableNamedSessions.erase id }
          have kept_waiting : waiting.keptNaming = Function.update registry.keptNaming id none := by
            funext other
            rw [keptNaming, Table.get_erase, Function.update_apply]
            split <;> rfl
          have counted : waiting.Counted := ⟨sound.counted.counted, sound.counted.bound⟩
          refine waiting.enterStored ⟨counted.open missing rfl, ?_⟩ rfl clientId
          rw [readyNaming_insert]
          simp only [SessionState.naming, here, Option.map_some]
          exact kept_waiting ▸ sound.apart.revive kept

theorem Sound.attachSession (sound : Sound ids registry) (clientId : ClientId) (selector : String)
    (refresh : Bool) (current : SessionState) :
    Sound ids (registry.attachSession answers clientId selector refresh current).2 := by
  rw [SessionRegistry.attachSession]
  split
  · exact sound
  · split
    · exact sound
    · split
      · exact sound.attachReady ..
      · exact sound.attachUnavailable ..

/-- Changing what is kept of a session, but not its id or name. -/
theorem Sound.modifyMeta (sound : Sound ids registry) (location : NamedSessionLocation)
    (change : NamedSessionMeta → NamedSessionMeta)
    (same : ∀ named, (change named).id = named.id ∧ (change named).name = named.name) :
    Sound ids (registry.modifyMeta location change) := by
  cases location with
  | ready key =>
    refine ⟨sound.counted.change fun other => ?_, ?_⟩
    · rw [Table.get_modify]
      split
      · rename_i here
        rw [here, Option.map_map]
        rfl
      · rfl
    · have ready : (registry.modifyMeta (.ready key) change).readyNaming = registry.readyNaming := by
        funext other
        rw [readyNaming, SessionRegistry.modifyMeta, Table.get_modify, readyNaming]
        split
        · rename_i here
          rw [here, Option.map_map]
          congr 1
          funext session
          simp only [Function.comp_apply, SessionState.naming, Option.map_map]
          congr 1
          funext named
          simp [same named]
        · rfl
      rw [ready]
      exact sound.apart
  | needsRefresh id =>
    refine ⟨⟨sound.counted.counted, sound.counted.bound⟩, ?_⟩
    have kept : (registry.modifyMeta (.needsRefresh id) change).keptNaming =
        registry.keptNaming := by
      funext other
      rw [keptNaming, SessionRegistry.modifyMeta, Table.get_modify, keptNaming]
      split
      · rename_i here
        rw [here, Option.map_map]
        congr 1
        funext session
        simp [same session.named]
      · rfl
    rw [kept]
    exact sound.apart

theorem Sound.setArchived (sound : Sound ids registry) (workOf : SessionId → Option String)
    (clientId : ClientId) (selector : String) (archive : Bool) :
    Sound ids (registry.setNamedSessionArchived answers workOf clientId selector archive).2 := by
  simp only [setNamedSessionArchived]
  split
  · exact sound
  · split
    · exact sound
    · split
      · exact sound
      · split
        · exact sound
        · split
          · exact sound
          · exact sound.modifyMeta _ _ fun _ => ⟨rfl, rfl⟩

theorem Sound.updateClientSessionScope (sound : Sound ids registry) (clientId : ClientId)
    (scope : ScopeHash) :
    Sound ids (registry.updateClientSessionScope answers clientId scope).2 := by
  rw [SessionRegistry.updateClientSessionScope]
  split
  · exact sound
  · split
    · exact sound
    · rename_i session found
      split
      · exact sound.store found rfl rfl
      · rename_i named is
        simp only
        split
        · exact sound
        · exact sound.store found rfl (by simp [SessionState.naming, is])

theorem Sound.updateDefaults (sound : Sound ids registry) {key : String} {session : SessionState}
    (found : registry.sessions.get key = some session) (defaults : LaunchDefaults) :
    Sound ids (registry.updateDefaults answers key session defaults).2 := by
  rw [SessionRegistry.updateDefaults]
  split
  · exact sound.store found rfl rfl
  · rename_i named is
    simp only
    split
    · exact sound
    · exact sound.store found rfl (by simp [SessionState.naming, is])

end Commands

section Locations

variable {ids : List SessionId}

/-- The id and the name of the session at a location. -/
theorem isNamed_of_metaAt (sound : Sound ids registry) {location : NamedSessionLocation}
    {named : NamedSessionMeta} (found : registry.metaAt location = some named) :
    IsNamed registry.readyNaming registry.keptNaming named.id named.name ∧
      (location = .ready (namedSessionKey named.id) ∨
        location = .needsRefresh named.id ∧ registry.readyNaming (namedSessionKey named.id) = none) := by
  cases location with
  | ready key =>
    obtain ⟨session, stored, is⟩ := Option.bind_eq_some_iff.mp found
    have naming : registry.readyNaming key = some (some (named.id, named.name)) := by
      rw [readyNaming, stored, Option.map_some, SessionState.naming, is, Option.map_some]
    obtain rfl := sound.apart.named key named.id named.name naming
    exact ⟨.inl naming, .inl rfl⟩
  | needsRefresh id =>
    obtain ⟨session, stored, rfl⟩ := Option.map_eq_some_iff.mp found
    have naming : registry.keptNaming id = some (session.named.id, session.named.name) := by
      rw [keptNaming, stored, Option.map_some]
    obtain ⟨rfl, absent⟩ := sound.apart.held id _ _ naming
    exact ⟨.inr naming, .inr ⟨rfl, absent⟩⟩

theorem location_unique (sound : Sound ids registry) {first second : NamedSessionLocation}
    {firstMeta secondMeta : NamedSessionMeta} (one : registry.metaAt first = some firstMeta)
    (two : registry.metaAt second = some secondMeta)
    (same : firstMeta.id = secondMeta.id ∨ firstMeta.name = secondMeta.name) : first = second := by
  obtain ⟨firstNamed, firstPlace⟩ := isNamed_of_metaAt sound one
  obtain ⟨secondNamed, secondPlace⟩ := isNamed_of_metaAt sound two
  have ids : firstMeta.id = secondMeta.id := by
    rcases same with equal | equal
    · exact equal
    · rw [equal] at firstNamed
      exact sound.apart.names _ _ _ firstNamed secondNamed
  rw [ids] at firstPlace
  rcases firstPlace with rfl | ⟨rfl, absent⟩
  · rcases secondPlace with rfl | ⟨rfl, absent⟩
    · rfl
    · obtain ⟨session, stored, is⟩ := Option.bind_eq_some_iff.mp one
      rw [readyNaming, stored] at absent
      cases absent
  · rcases secondPlace with rfl | ⟨rfl, _⟩
    · obtain ⟨session, stored, is⟩ := Option.bind_eq_some_iff.mp two
      rw [readyNaming, stored] at absent
      cases absent
    · rfl

end Locations

end SessionRegistry

end CueShell

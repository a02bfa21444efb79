import CueShell.Model.OperationLedger
import CueShell.Model.Resource
import Mathlib.Data.Finset.Sort
import Mathlib.Data.List.Sort
import Mathlib.Data.String.Basic

/-! # Sessions

A client works in a session: an anonymous one, which it names in its handshake, or a named one, which
the daemon keeps. How many clients are in a session is counted beside the links from clients to
sessions. Named sessions whose scope did not survive a restart are kept apart until a client brings a
new scope. What the clock, the scope store and the database answer is an argument of each operation;
instants are in nanoseconds.
-/

namespace CueShell

abbrev ClientId := UInt64
abbrev SessionId := String

structure ScopeHash where
  digest : Digest
deriving DecidableEq, Repr

structure LaunchDefaults where
  pty : Option Bool := none
  wrapperEnabled : Option Bool := none
deriving DecidableEq, Repr

structure NamedSessionMeta where
  id : SessionId
  name : String
  scopeDurable : Bool
  createdAtMs : ℤ
  updatedAtMs : ℤ
  archivedAtMs : Option ℤ
deriving DecidableEq, Repr

structure SessionState where
  scope : ScopeHash
  incarnation : ℕ
  defaults : LaunchDefaults
  connectedClients : ℕ
  disconnectedAt : Option ℕ
  /-- Only for named sessions. -/
  named : Option NamedSessionMeta
deriving DecidableEq, Repr

structure UnavailableNamedSession where
  named : NamedSessionMeta
  defaults : LaunchDefaults
deriving DecidableEq, Repr

structure SessionRegistry where
  sessions : Table String SessionState
  unavailableNamedSessions : Table SessionId UnavailableNamedSession
  clientSessions : Table ClientId String
  nextSessionIncarnation : ℕ

structure SessionBinding where
  sessionId : SessionId
  namedSessionId : Option SessionId
  scope : ScopeHash
  incarnation : ℕ
deriving DecidableEq, Repr

def namedSessionKey (id : SessionId) : String := "named:" ++ id
def ephemeralSessionKey (id : SessionId) : String := "ephemeral:" ++ id

/-- How long an anonymous session outlives its last client: five minutes. -/
def sessionGcTtl : ℕ := 300 * secondNanos

/-- The order in which a hash map with these keys is walked. -/
structure Walk where
  order : List String → List String
  perm : ∀ keys, (order keys).Perm keys

def Walk.sorted : Walk := ⟨id, fun _ => .refl _⟩

def Walk.keys {ν : Type} (walk : Walk) (table : Table String ν) : List String :=
  walk.order (table.keys.sort (· ≤ ·))

namespace SessionRegistry

variable (registry : SessionRegistry)

def sessionForClient (clientId : ClientId) : Option SessionState :=
  (registry.clientSessions.get clientId).bind registry.sessions.get

def clientScope (clientId : ClientId) : Option ScopeHash :=
  (registry.sessionForClient clientId).map SessionState.scope

def namedSessionIdForClient (clientId : ClientId) : Option SessionId :=
  ((registry.sessionForClient clientId).bind SessionState.named).map NamedSessionMeta.id

def allocSessionIncarnation : Except String ℕ × SessionRegistry :=
  if registry.nextSessionIncarnation = u64Max then
    (.error "session incarnation space exhausted", registry)
  else
    (.ok registry.nextSessionIncarnation,
      { registry with nextSessionIncarnation := registry.nextSessionIncarnation + 1 })

end SessionRegistry

section Connections

/-- One client leaves. -/
def SessionState.leave (session : SessionState) (now : ℕ) : SessionState :=
  let connectedClients := session.connectedClients - 1
  { session with
    connectedClients := connectedClients
    disconnectedAt := if connectedClients = 0 then some now else session.disconnectedAt }

/-- Whether a sweep keeps a session. -/
def SessionState.survives (session : SessionState) (now : ℕ) : Bool :=
  session.named.isSome || session.connectedClients > 0 ||
    session.disconnectedAt.all fun disconnectedAt => now - disconnectedAt < sessionGcTtl

namespace SessionRegistry

variable (registry : SessionRegistry)

def markReplacedSessionDisconnected (oldSessionId : Option String) (newSessionId : String) (now : ℕ) :
    SessionRegistry :=
  match oldSessionId with
  | none => registry
  | some old =>
      if old = newSessionId then registry
      else { registry with sessions := registry.sessions.modify old (·.leave now) }

/-- Store the session a client moves into, and take it out of its old one. -/
def moveClient (clientId : ClientId) (oldSessionId : Option String) (key : String)
    (session : SessionState) (now : ℕ) : SessionRegistry :=
  let linked := { registry with
    sessions := registry.sessions.insert key session
    clientSessions := registry.clientSessions.insert clientId key }
  linked.markReplacedSessionDisconnected oldSessionId key now

/-- A link to a session that is gone is dropped before the client connects again. -/
def dropStaleLink (clientId : ClientId) (key : String) : SessionRegistry :=
  if registry.clientSessions.get clientId = some key ∧ (registry.sessions.get key).isNone then
    { registry with clientSessions := registry.clientSessions.erase clientId }
  else registry

/-- The handshake. The scope store is asked to insert a root scope for a new session, or if the scope
of a known one is to be refreshed. -/
def connectSession (clientId : ClientId) (sessionId : SessionId) (refresh : Bool)
    (insertScope : Except String ScopeHash) (now : ℕ) : Except String SessionBinding × SessionRegistry :=
  let key := ephemeralSessionKey sessionId
  let registry := registry.dropStaleLink clientId key
  let oldSessionId := registry.clientSessions.get clientId
  match registry.sessions.get key with
  | some session =>
      match if refresh then insertScope.map some else .ok none with
      | .error error => (.error error, registry)
      | .ok refreshedScope =>
          let scope := refreshedScope.getD session.scope
          let connectedClients :=
            if oldSessionId = some key then session.connectedClients else session.connectedClients + 1
          let session := { session with
            connectedClients := connectedClients, disconnectedAt := none, scope := scope }
          (.ok ⟨sessionId, none, scope, session.incarnation⟩,
            registry.moveClient clientId oldSessionId key session now)
  | none =>
      match registry.allocSessionIncarnation, insertScope with
      | (.error error, registry), _ => (.error error, registry)
      | (.ok _, registry), .error error => (.error error, registry)
      | (.ok incarnation, registry), .ok scope =>
          let session : SessionState :=
            { scope := scope
              incarnation := incarnation
              defaults := {}
              connectedClients := 1
              disconnectedAt := none
              named := none }
          (.ok ⟨sessionId, none, scope, incarnation⟩,
            registry.moveClient clientId oldSessionId key session now)

/-- Move a client into a named session; nothing is returned if there is no such session. -/
def bindClientToReadySession (clientId : ClientId) (key : String) (now : ℕ) :
    Option SessionBinding × SessionRegistry :=
  let oldSessionId := registry.clientSessions.get clientId
  match registry.sessions.get key with
  | none => (none, registry)
  | some target =>
      let connectedClients :=
        if oldSessionId = some key then target.connectedClients else target.connectedClients + 1
      let target := { target with connectedClients := connectedClients, disconnectedAt := none }
      match target.named with
      | none => (none, { registry with sessions := registry.sessions.insert key target })
      | some named =>
          (some ⟨named.id, some named.id, target.scope, target.incarnation⟩,
            registry.moveClient clientId oldSessionId key target now)

def disconnectSession (clientId : ClientId) (now : ℕ) : SessionRegistry :=
  match registry.clientSessions.get clientId with
  | none => registry
  | some key => { registry with
      sessions := registry.sessions.modify key (·.leave now)
      clientSessions := registry.clientSessions.erase clientId }

def sweepDisconnectedSessions (now : ℕ) : ℕ × SessionRegistry :=
  let kept := registry.sessions.retain fun _ session => session.survives now
  (registry.sessions.size - kept.size, { registry with sessions := kept })

end SessionRegistry

end Connections

section Named

/-- Where a named session is found. -/
inductive NamedSessionLocation where
  | ready (key : String)
  | needsRefresh (id : SessionId)
deriving DecidableEq, Repr

inductive SessionScopeState where
  | readyDurable
  | readyVolatile
  | needsRefresh
deriving DecidableEq, Repr

structure SessionInfo where
  id : SessionId
  name : String
  scopeState : SessionScopeState
  scopeHash : Option ScopeHash
  connectedClients : ℕ
  restartSafe : Bool
  current : Bool
  createdAtMs : ℤ
  updatedAtMs : ℤ
  archivedAtMs : Option ℤ
deriving DecidableEq, Repr

inductive NamedSessionListFilter where
  | active
  | archived
  | all
deriving DecidableEq, Repr

def validateSessionName (name : String) : Except String Unit :=
  if name = "" then .error "session name must not be empty"
  else if Text.trim name.toList ≠ name.toList then
    .error "session name must not have leading or trailing whitespace"
  else if name.length > 64 then .error "session name must be at most 64 characters"
  else if name.toList.any Text.isControl then
    .error "session name must not contain control characters"
  else if "SS-".toList.isPrefixOf name.toList then
    .error "session names beginning with `SS-` are reserved for session ids"
  else .ok ()

/-- A selector is the id or the name of a session. -/
def NamedSessionMeta.answersTo (named : NamedSessionMeta) (selector : String) : Bool :=
  named.id == selector || named.name == selector

namespace SessionRegistry

variable (walk : Walk) (registry : SessionRegistry)

def findNamedSession (selector : String) : Option NamedSessionLocation :=
  let ready := (walk.keys registry.sessions).find? fun key =>
    ((registry.sessions.get key).bind SessionState.named).any (·.answersTo selector)
  let unavailable := (walk.keys registry.unavailableNamedSessions).find? fun id =>
    id == selector ||
      (registry.unavailableNamedSessions.get id).any fun session => session.named.name == selector
  (ready.map .ready).or (unavailable.map .needsRefresh)

/-- What is kept of the session at a location. -/
def metaAt : NamedSessionLocation → Option NamedSessionMeta
  | .ready key => (registry.sessions.get key).bind SessionState.named
  | .needsRefresh id =>
      (registry.unavailableNamedSessions.get id).map UnavailableNamedSession.named

def readySessionInfo (key : String) (clientId : ClientId) : Option SessionInfo := do
  let session ← registry.sessions.get key
  let named ← session.named
  return { id := named.id
           name := named.name
           scopeState := if named.scopeDurable then .readyDurable else .readyVolatile
           scopeHash := some session.scope
           connectedClients := session.connectedClients
           restartSafe := named.scopeDurable
           current := registry.clientSessions.get clientId = some key
           createdAtMs := named.createdAtMs
           updatedAtMs := named.updatedAtMs
           archivedAtMs := named.archivedAtMs }

def unavailableSessionInfo (id : SessionId) : Option SessionInfo := do
  let session ← registry.unavailableNamedSessions.get id
  return { id := session.named.id
           name := session.named.name
           scopeState := .needsRefresh
           scopeHash := none
           connectedClients := 0
           restartSafe := false
           current := false
           createdAtMs := session.named.createdAtMs
           updatedAtMs := session.named.updatedAtMs
           archivedAtMs := session.named.archivedAtMs }

def sessionInfoForLocation (clientId : ClientId) : NamedSessionLocation → Option SessionInfo
  | .ready key => registry.readySessionInfo key clientId
  | .needsRefresh id => registry.unavailableSessionInfo id

end SessionRegistry

/-- The order of the list of sessions. -/
def SessionInfo.precedes (first second : SessionInfo) : Bool :=
  first.createdAtMs < second.createdAtMs ||
    first.createdAtMs = second.createdAtMs && (first.name < second.name ||
      first.name = second.name && first.id ≤ second.id)

def NamedSessionListFilter.keeps (info : SessionInfo) : NamedSessionListFilter → Bool
  | .active => info.archivedAtMs.isNone
  | .archived => info.archivedAtMs.isSome
  | .all => true

def SessionRegistry.namedSessionList (walk : Walk) (registry : SessionRegistry) (clientId : ClientId)
    (filter : NamedSessionListFilter) : List SessionInfo :=
  let ready := (walk.keys registry.sessions).filterMap (registry.readySessionInfo · clientId)
  let unavailable := (walk.keys registry.unavailableNamedSessions).filterMap
    registry.unavailableSessionInfo
  ((ready ++ unavailable).filter filter.keeps).insertionSort fun first second => first.precedes second

end Named

section Commands

inductive SessionCommand where
  | create (name : String)
  | list
  | listArchived
  | listAll
  | archive (selector : String)
  | restore (selector : String)
  | attach (selector : String) (refresh : Bool)
  | info (selector : Option String)
deriving DecidableEq, Repr

inductive SessionPayload where
  | info (info : SessionInfo)
  | list (sessions : List SessionInfo)
deriving DecidableEq, Repr

abbrev SessionResponse := ResponsePayload SessionPayload

structure SessionCommandResult where
  payload : SessionResponse
  binding : Option SessionBinding
deriving DecidableEq, Repr

def sessionCommandResponse (payload : SessionResponse) : SessionCommandResult := ⟨payload, none⟩

def sessionError (code message : String) : SessionCommandResult :=
  sessionCommandResponse (.err code message)

/-- What a session command is answered by the clock, the random source and the database. -/
structure SessionAnswers where
  /-- The text of a new UUID. -/
  uuid : String
  unixTimeMs : ℤ
  now : ℕ
  /-- Storing a session: whether its scope is durable, or an error. -/
  upsertSession : Except String Bool
  /-- The error of storing the time of archival, if it fails. -/
  setArchivedAt : Option String
  walk : Walk

namespace SessionRegistry

variable (answers : SessionAnswers) (registry : SessionRegistry)

def persistNamedSession (named : NamedSessionMeta) : Except String Bool :=
  answers.upsertSession.mapError fun error => "persist session " ++ named.id ++ ": " ++ error

/-- Bind a client to a session that is known to be there, and answer with its description. -/
def enterNamedSession (clientId : ClientId) (key : String) : SessionCommandResult × SessionRegistry :=
  match registry.bindClientToReadySession clientId key answers.now with
  | (none, registry) =>
      (sessionError "INTERNAL" "named session disappeared while attaching", registry)
  | (some binding, registry) =>
      match registry.readySessionInfo key clientId with
      | none => (sessionError "INTERNAL" "named session metadata disappeared", registry)
      | some info => (⟨.ok (.info info), some binding⟩, registry)

def createSession (clientId : ClientId) (name : String) (current : SessionState) :
    SessionCommandResult × SessionRegistry :=
  match validateSessionName name with
  | .error message => (sessionError "INVALID_REQUEST" message, registry)
  | .ok () =>
      match registry.findNamedSession answers.walk name with
      | some _ =>
          (sessionError "ALREADY_EXISTS" ("named session `" ++ name ++ "` already exists"), registry)
      | none =>
          let id := "SS-" ++ answers.uuid
          let named : NamedSessionMeta :=
            ⟨id, name, false, answers.unixTimeMs, answers.unixTimeMs, none⟩
          match registry.allocSessionIncarnation with
          | (.error error, registry) => (sessionError "INTERNAL" error, registry)
          | (.ok incarnation, registry) =>
              match persistNamedSession answers named with
              | .error error =>
                  (sessionError "INTERNAL" ("persist named session: " ++ error), registry)
              | .ok durable =>
                  let session : SessionState :=
                    { scope := current.scope
                      incarnation := incarnation
                      defaults := current.defaults
                      connectedClients := 0
                      disconnectedAt := none
                      named := some { named with scopeDurable := durable } }
                  let key := namedSessionKey id
                  let registry := { registry with sessions := registry.sessions.insert key session }
                  registry.enterNamedSession answers clientId key

def sessionNotFound (selector : String) : SessionCommandResult :=
  sessionError "NOT_FOUND" ("named session `" ++ selector ++ "` not found")

/-- Attach to a session whose scope is at hand. -/
def attachReady (clientId : ClientId) (selector key : String) (refresh : Bool)
    (current : SessionState) : SessionCommandResult × SessionRegistry :=
  match registry.sessions.get key with
  | none => (sessionNotFound selector, registry)
  | some target =>
      match target.named with
      | none => (sessionNotFound selector, registry)
      | some named =>
          let scope := if refresh then current.scope else target.scope
          let named := { named with updatedAtMs := answers.unixTimeMs }
          match persistNamedSession answers named with
          | .error error =>
              (sessionError "INTERNAL" ("persist named session attach: " ++ error), registry)
          | .ok durable =>
              let target := { target with
                scope := scope, named := some { named with scopeDurable := durable } }
              let registry := { registry with sessions := registry.sessions.insert key target }
              registry.enterNamedSession answers clientId key

/-- Attach to a session that lost its scope: the client brings its own. -/
def attachUnavailable (clientId : ClientId) (selector : String) (id : SessionId) (refresh : Bool)
    (current : SessionState) : SessionCommandResult × SessionRegistry :=
  if !refresh then
    let message := "named session `" ++ selector ++ "` lost its volatile scope during daemon " ++
      "restart; attach with refresh=true to replace it explicitly"
    (sessionError "INVALID_STATE" message, registry)
  else
    match registry.unavailableNamedSessions.get id with
    | none => (sessionNotFound selector, registry)
    | some unavailable =>
        let named := { unavailable.named with updatedAtMs := answers.unixTimeMs }
        match registry.allocSessionIncarnation with
        | (.error error, registry) => (sessionError "INTERNAL" error, registry)
        | (.ok incarnation, registry) =>
            match persistNamedSession answers named with
            | .error error =>
                (sessionError "INTERNAL" ("refresh named session: " ++ error), registry)
            | .ok durable =>
                let session : SessionState :=
                  { scope := current.scope
                    incarnation := incarnation
                    defaults := unavailable.defaults
                    connectedClients := 0
                    disconnectedAt := none
                    named := some { named with scopeDurable := durable } }
                let key := namedSessionKey id
                let registry := { registry with
                  unavailableNamedSessions := registry.unavailableNamedSessions.erase id
                  sessions := registry.sessions.insert key session }
                registry.enterNamedSession answers clientId key

def attachSession (clientId : ClientId) (selector : String) (refresh : Bool) (current : SessionState) :
    SessionCommandResult × SessionRegistry :=
  match registry.findNamedSession answers.walk selector with
  | none => (sessionNotFound selector, registry)
  | some location =>
      if ((registry.metaAt location).bind NamedSessionMeta.archivedAtMs).isSome then
        let message :=
          "named session `" ++ selector ++ "` is archived; restore it before attaching"
        (sessionError "INVALID_STATE" message, registry)
      else
        match location with
        | .ready key => registry.attachReady answers clientId selector key refresh current
        | .needsRefresh id => registry.attachUnavailable answers clientId selector id refresh current

/-- Change what is kept of the session at a location. -/
def modifyMeta (location : NamedSessionLocation) (change : NamedSessionMeta → NamedSessionMeta) :
    SessionRegistry :=
  match location with
  | .ready key => { registry with sessions := registry.sessions.modify key fun session =>
      { session with named := session.named.map change } }
  | .needsRefresh id => { registry with
      unavailableNamedSessions := registry.unavailableNamedSessions.modify id fun session =>
        { session with named := change session.named } }

/-- Why a session cannot be archived: the clients in it, or else the work it owns, which the rest of
the scheduler knows. -/
def namedSessionArchiveBlocker (workOf : SessionId → Option String) (sessionId : SessionId) :
    Option String :=
  let connected := (answers.walk.keys registry.sessions).findSome? fun key => do
    let session ← registry.sessions.get key
    let named ← session.named
    if named.id = sessionId then some session.connectedClients else none
  match connected with
  | some (clients + 1) =>
      some ("named session has " ++ toString (clients + 1) ++
        " connected client(s); detach them before archiving")
  | _ => workOf sessionId

def setNamedSessionArchived (workOf : SessionId → Option String) (clientId : ClientId)
    (selector : String) (archive : Bool) : SessionCommandResult × SessionRegistry :=
  let describe (registry : SessionRegistry) (location : NamedSessionLocation) :=
    match registry.sessionInfoForLocation clientId location with
    | none => sessionError "INTERNAL" "named session metadata disappeared"
    | some info => sessionCommandResponse (.ok (.info info))
  match registry.findNamedSession answers.walk selector with
  | none => (sessionNotFound selector, registry)
  | some location =>
      match registry.metaAt location with
      | none => (sessionError "INTERNAL" "named session metadata disappeared", registry)
      | some named =>
          if archive = named.archivedAtMs.isSome then (describe registry location, registry)
          else
            match if archive then registry.namedSessionArchiveBlocker answers workOf named.id else none
            with
            | some blocker => (sessionError "INVALID_STATE" blocker, registry)
            | none =>
                match answers.setArchivedAt with
                | some error =>
                    (sessionError "INTERNAL" ("persist named session lifecycle: " ++ error), registry)
                | none =>
                    let registry := registry.modifyMeta location fun named => { named with
                      archivedAtMs := if archive then some answers.unixTimeMs else none
                      updatedAtMs := answers.unixTimeMs }
                    (describe registry location, registry)

/-- The scope of a client's session changes; a named session is stored first. -/
def updateClientSessionScope (clientId : ClientId) (scope : ScopeHash) :
    Option String × SessionRegistry :=
  match registry.clientSessions.get clientId with
  | none => (some "client session handshake required", registry)
  | some key =>
      match registry.sessions.get key with
      | none => (some "client session is unavailable", registry)
      | some session =>
          match session.named with
          | none =>
              let session := { session with scope := scope }
              (none, { registry with sessions := registry.sessions.insert key session })
          | some named =>
              let named := { named with updatedAtMs := answers.unixTimeMs }
              match persistNamedSession answers named with
              | .error error => (some error, registry)
              | .ok durable =>
                  let session := { session with
                    scope := scope, named := some { named with scopeDurable := durable } }
                  (none, { registry with sessions := registry.sessions.insert key session })

/-- Store new defaults of a client's session. -/
def updateDefaults (key : String) (session : SessionState) (defaults : LaunchDefaults) :
    Option String × SessionRegistry :=
  match session.named with
  | none =>
      let session := { session with defaults := defaults }
      (none, { registry with sessions := registry.sessions.insert key session })
  | some named =>
      let named := { named with updatedAtMs := answers.unixTimeMs }
      match persistNamedSession answers named with
      | .error error => (some error, registry)
      | .ok durable =>
          let session := { session with
            defaults := defaults, named := some { named with scopeDurable := durable } }
          (none, { registry with sessions := registry.sessions.insert key session })

def describeSession (clientId : ClientId) (selector : Option String) : SessionCommandResult :=
  let current := (registry.clientSessions.get clientId).filter fun key =>
    ((registry.sessions.get key).bind SessionState.named).isSome
  let location := match selector with
    | some selector => registry.findNamedSession answers.walk selector
    | none => current.map .ready
  match location with
  | none => sessionError "NOT_FOUND" "client is not attached to a named session"
  | some location =>
      match registry.sessionInfoForLocation clientId location with
      | none => sessionError "NOT_FOUND" "named session not found"
      | some info => sessionCommandResponse (.ok (.info info))

def handleSessionCommand (workOf : SessionId → Option String) (clientId : ClientId)
    (command : SessionCommand) : SessionCommandResult × SessionRegistry :=
  match registry.sessionForClient clientId with
  | none => (sessionError "INVALID_REQUEST" "client session handshake required", registry)
  | some current =>
      let listed (filter : NamedSessionListFilter) :=
        sessionCommandResponse
          (.ok (.list (registry.namedSessionList answers.walk clientId filter)))
      match command with
      | .create name => registry.createSession answers clientId name current
      | .list => (listed .active, registry)
      | .listArchived => (listed .archived, registry)
      | .listAll => (listed .all, registry)
      | .archive selector => registry.setNamedSessionArchived answers workOf clientId selector true
      | .restore selector => registry.setNamedSessionArchived answers workOf clientId selector false
      | .attach selector refresh => registry.attachSession answers clientId selector refresh current
      | .info selector => (registry.describeSession answers clientId selector, registry)

end SessionRegistry

end Commands

section Restart

/-- A row of the table of named sessions. -/
structure StoredSession where
  id : SessionId
  name : String
  scopeHash : Option ScopeHash
  ptyDefault : Option Bool
  wrapperEnabled : Option Bool
  createdAtMs : ℤ
  updatedAtMs : ℤ
  archivedAtMs : Option ℤ
deriving DecidableEq, Repr

/-- The table of named sessions: ids are its primary key, names are unique, and both were spelled by
the daemon. -/
structure SessionRows where
  rows : List StoredSession
  ids : (rows.map StoredSession.id).Nodup
  names : (rows.map StoredSession.name).Nodup
  spelled : ∀ row ∈ rows, "SS-".toList <+: row.id.toList ∧ validateSessionName row.name = .ok ()

namespace SessionRegistry

def restoreSession (registry : SessionRegistry) (row : StoredSession) :
    Except String SessionRegistry :=
  let named : NamedSessionMeta :=
    ⟨row.id, row.name, row.scopeHash.isSome, row.createdAtMs, row.updatedAtMs, row.archivedAtMs⟩
  let defaults : LaunchDefaults := ⟨row.ptyDefault, row.wrapperEnabled⟩
  match registry.allocSessionIncarnation, row.scopeHash with
  | (.error error, _), _ => .error error
  | (.ok incarnation, registry), some scope =>
      let session : SessionState := ⟨scope, incarnation, defaults, 0, none, some named⟩
      .ok { registry with sessions := registry.sessions.insert (namedSessionKey row.id) session }
  | (.ok _, registry), none =>
      .ok { registry with unavailableNamedSessions :=
        registry.unavailableNamedSessions.insert row.id ⟨named, defaults⟩ }

/-- The sessions after a start of the daemon. -/
def restoreNamedSessions (stored : SessionRows) : Except String SessionRegistry :=
  stored.rows.foldlM restoreSession ⟨.empty, .empty, .empty, 1⟩

end SessionRegistry

/-- The operations on sessions. -/
inductive SessionOperation where
  | connect (clientId : ClientId) (sessionId : SessionId) (refresh : Bool)
      (insertScope : Except String ScopeHash) (now : ℕ)
  /-- Whether the work of a session forbids to archive it is asked of the scheduler. -/
  | command (clientId : ClientId) (command : SessionCommand) (answers : SessionAnswers)
      (workOf : SessionId → Option String)
  | setScope (clientId : ClientId) (scope : ScopeHash) (answers : SessionAnswers)
  | setDefaults (clientId : ClientId) (defaults : LaunchDefaults) (answers : SessionAnswers)
  | disconnect (clientId : ClientId) (now : ℕ)
  | sweep (now : ℕ)

namespace SessionRegistry

def apply (registry : SessionRegistry) : SessionOperation → SessionRegistry
  | .connect clientId sessionId refresh insertScope now =>
      (registry.connectSession clientId sessionId refresh insertScope now).2
  | .command clientId command answers workOf =>
      (registry.handleSessionCommand answers workOf clientId command).2
  | .setScope clientId scope answers =>
      (registry.updateClientSessionScope answers clientId scope).2
  | .setDefaults clientId defaults answers =>
      match registry.clientSessions.get clientId with
      | none => registry
      | some key =>
          match registry.sessions.get key with
          | none => registry
          | some session => (registry.updateDefaults answers key session defaults).2
  | .disconnect clientId now => registry.disconnectSession clientId now
  | .sweep now => (registry.sweepDisconnectedSessions now).2

def run (registry : SessionRegistry) (operations : List SessionOperation) : SessionRegistry :=
  operations.foldl apply registry

end SessionRegistry

/-- The id that an operation gives out, if it creates a session. -/
def SessionOperation.newId : SessionOperation → Option SessionId
  | .command _ (.create _) answers _ => some ("SS-" ++ answers.uuid)
  | _ => none

end Restart

end CueShell

import CueShell.Model.EventBus

/-! # A client connection of the gateway

One task reads the requests of a client and writes its responses and events. Other actors fill its two
queues meanwhile: responses by request id, and events that are for everyone or for the owner of a
session. A session switch and a foreground attach put a fence between the events and the response of
the request. What is written, and what the fences are put up and cleared for, is kept in a log.
-/

namespace CueShell

/-- An event of the connection, known by its place among them. -/
abbrev NumberedEvent := ClientEvent ℕ

/-- A request: the id that its client gave it, and which of the requests of the connection it is. -/
structure ClientRequest where
  serial : ℕ
  id : UInt32
deriving DecidableEq, Repr

inductive ClientEventFencePolicy where
  | dropQueued
  | holdQueued
deriving DecidableEq, Repr

structure ClientEventFence where
  request : ClientRequest
  policy : ClientEventFencePolicy
deriving DecidableEq, Repr

/-- What a request asks for, as far as events are concerned. -/
inductive RequestKind where
  /-- A handshake, or a command that may attach the client to a session. -/
  | session
  /-- A foreground attach, or a change of foreground control. -/
  | foreground
  | other
deriving DecidableEq, Repr

/-- Where the task of the connection stands. While it routes a session request it reads and writes nothing. -/
inductive HandlerStage where
  | idle
  | routing (request : ClientRequest)
  /-- The scheduler has accepted the switch. -/
  | accepted (request : ClientRequest) (binding : Option String)
  /-- The fence is up. -/
  | bound (request : ClientRequest)
deriving DecidableEq, Repr

inductive ConnectionEntry where
  | accepted (request : ClientRequest) (binding : Option String)
  | held (request : ClientRequest)
  | queued (event : NumberedEvent)
  | wrote (event : NumberedEvent)
  /-- A response was written, and it cleared the fence of a request. -/
  | responded (request : ClientRequest) (cleared : Option ClientRequest)
deriving DecidableEq, Repr

structure ClientConnection where
  binding : Option (Option String)
  fence : Option ClientEventFence
  inflight : List UInt32
  stage : HandlerStage
  /-- Requests whose response is still to come from another actor. -/
  awaiting : List ClientRequest
  responses : List ClientRequest
  /-- Direct events that were let pass and are about to be queued. -/
  admitted : List ClientEventAudience
  events : List NumberedEvent
  nextRequest : ℕ
  nextEvent : ℕ
  evicted : Bool
  closed : Bool
  log : List ConnectionEntry
deriving DecidableEq, Repr

def clientResponseCap : ℕ := 64

def clientEventCap : ℕ := 64

def maxInflightRequestsPerClient : ℕ := 1024

def eventAudienceMatches (binding : Option (Option String)) : ClientEventAudience → Bool
  | .global => true
  | .session owner =>
      match binding with
      | none => false
      | some none => true
      | some (some attached) => owner == some attached

namespace ClientConnection

def initial : ClientConnection where
  binding := none
  fence := none
  inflight := []
  stage := .idle
  awaiting := []
  responses := []
  admitted := []
  events := []
  nextRequest := 0
  nextEvent := 0
  evicted := false
  closed := false
  log := []

variable (connection : ClientConnection)

def note (entry : ConnectionEntry) : ClientConnection :=
  { connection with log := connection.log ++ [entry] }

def clientEventFenced : Bool := connection.fence.isSome

def clientEventIsDeliverable (event : NumberedEvent) : Bool :=
  connection.fence.isNone && eventAudienceMatches connection.binding event.audience

def clientEventCanEnqueue (audience : ClientEventAudience) : Bool :=
  eventAudienceMatches connection.binding audience &&
    !connection.fence.any (·.policy = .dropQueued)

def beginClientEventFence (request : ClientRequest) (namedSessionId : Option String) : ClientConnection :=
  { connection with
    binding := some namedSessionId
    fence := some ⟨request, .dropQueued⟩ }

def beginClientEventHoldFence (request : ClientRequest) : ClientConnection :=
  { connection with fence := some ⟨request, .holdQueued⟩ }.note (.held request)

/-- A response with the id of the fence clears it; the events that a switch has made stale go. -/
def completeClientEventFence (requestId : UInt32) : ClientConnection :=
  match connection.fence with
  | none => connection
  | some fence =>
      if fence.request.id ≠ requestId then connection
      else
        { connection with
          events := if fence.policy = .dropQueued then [] else connection.events
          fence := none }

def reserveRequestId (requestId : UInt32) : Option ClientConnection :=
  if maxInflightRequestsPerClient ≤ connection.inflight.length then none
  else if requestId ∈ connection.inflight then none
  else some { connection with inflight := requestId :: connection.inflight }

/-- A lagging client is told to go, and gets nothing more from the gateway. -/
def evictClient : ClientConnection := { connection with evicted := true }

/-- An event goes into the queue, if there is room. -/
def queueEvent (audience : ClientEventAudience) : ClientConnection :=
  if clientEventCap ≤ connection.events.length then connection.evictClient
  else
    let event : NumberedEvent := ⟨connection.nextEvent, audience⟩
    { connection with
      events := connection.events ++ [event]
      nextEvent := connection.nextEvent + 1 }.note (.queued event)

/-- A request is read between two other turns, and not behind a fence. -/
def receive (requestId : UInt32) (kind : RequestKind) : ClientConnection :=
  if connection.stage ≠ .idle ∨ connection.clientEventFenced ∨ connection.closed then connection
  else
    match connection.reserveRequestId requestId with
    | none => { connection with closed := true }
    | some reserved =>
        let request : ClientRequest := ⟨connection.nextRequest, requestId⟩
        let counted := { reserved with nextRequest := connection.nextRequest + 1 }
        match kind with
        | .session => { counted with stage := .routing request }
        | .foreground =>
            { counted with awaiting := request :: counted.awaiting }.beginClientEventHoldFence request
        | .other => { counted with awaiting := request :: counted.awaiting }

/-- The scheduler accepts a session request, with or without a new binding. -/
def acceptSession (binding : Option (Option String)) : ClientConnection :=
  match connection.stage, binding with
  | .routing request, some binding =>
      { connection with stage := .accepted request binding }.note (.accepted request binding)
  | .routing request, none =>
      { connection with stage := .idle, awaiting := request :: connection.awaiting }
  | _, _ => connection

def prepareClientBinding : ClientConnection :=
  match connection.stage with
  | .accepted request binding =>
      { connection.beginClientEventFence request binding with stage := .bound request }
  | _ => connection

/-- The response of a switch is on its way. -/
def routed : ClientConnection :=
  match connection.stage with
  | .bound request => { connection with stage := .idle, awaiting := request :: connection.awaiting }
  | _ => connection

/-- Another actor answers a request that waits for its response. The response of a client that is evicted
for it is lost. -/
def queueResponse (request : ClientRequest) : ClientConnection :=
  if request ∈ connection.awaiting ∧ connection.evicted = false then
    if clientResponseCap ≤ connection.responses.length then connection.evictClient
    else
      { connection with
        awaiting := connection.awaiting.erase request
        responses := connection.responses ++ [request] }
  else connection

def writeResponse : ClientConnection :=
  match connection.stage, connection.closed, connection.responses with
  | .idle, false, request :: rest =>
      let completed := { connection with responses := rest }.completeClientEventFence request.id
      let cleared :=
        if completed.fence = connection.fence then none else connection.fence.map (·.request)
      { completed with inflight := completed.inflight.erase request.id }.note (.responded request cleared)
  | _, _, _ => connection

/-- The gateway looks at the binding and the fence before it queues a direct event. -/
def admitEvent (audience : ClientEventAudience) : ClientConnection :=
  if connection.evicted = false ∧ connection.clientEventCanEnqueue audience then
    { connection with admitted := connection.admitted ++ [audience] }
  else connection

def queueAdmitted : ClientConnection :=
  match connection.admitted with
  | [] => connection
  | audience :: rest => { connection with admitted := rest }.queueEvent audience

def writeEvent : ClientConnection :=
  match connection.stage, connection.closed, connection.events with
  | .idle, false, event :: rest =>
      if connection.clientEventFenced then connection
      else if connection.clientEventIsDeliverable event then
        { connection with events := rest }.note (.wrote event)
      else { connection with events := rest }
  | _, _, _ => connection

end ClientConnection

/-- A step of the connection task, or of an actor that fills its queues. -/
inductive ConnectionStep where
  | receive (requestId : UInt32) (kind : RequestKind)
  | acceptSession (binding : Option (Option String))
  | prepareBinding
  | routed
  | queueResponse (request : ClientRequest)
  | writeResponse
  | admitEvent (audience : ClientEventAudience)
  | queueAdmitted
  /-- The event bus queues an event, by what it knows of the binding. -/
  | queueEvent (audience : ClientEventAudience)
  | writeEvent
  | disconnect
deriving DecidableEq, Repr

namespace ClientConnection

def step (connection : ClientConnection) : ConnectionStep → ClientConnection
  | .receive requestId kind => connection.receive requestId kind
  | .acceptSession binding => connection.acceptSession binding
  | .prepareBinding => connection.prepareClientBinding
  | .routed => connection.routed
  | .queueResponse request => connection.queueResponse request
  | .writeResponse => connection.writeResponse
  | .admitEvent audience => connection.admitEvent audience
  | .queueAdmitted => connection.queueAdmitted
  | .queueEvent audience => connection.queueEvent audience
  | .writeEvent => connection.writeEvent
  | .disconnect => { connection with closed := true }

def run (steps : List ConnectionStep) : ClientConnection := steps.foldl step initial

end ClientConnection

end CueShell

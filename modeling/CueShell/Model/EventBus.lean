import CueShell.Model.Sessions
import Mathlib.Data.Finset.Sort

/-! # The event bus

Events are handed to the bounded queues of the clients that subscribed to a channel. A client whose
queue takes no event is taken off every channel and told to disconnect. The bus shares the queues with
the connections, which read them at any time, and with the gateway, which sends some events directly.
The log keeps what was handed to whom; no function reads it.
-/

namespace CueShell

inductive EventChannel where
  | jobs
  | crons
  | scopes
  | system
  | output (jobId : JobId)
deriving DecidableEq, Repr

inductive ClientEventAudience where
  | global
  | session (sessionId : Option SessionId)
deriving DecidableEq, Repr

structure ClientEvent (π : Type) where
  payload : π
  audience : ClientEventAudience
deriving DecidableEq, Repr

/-- The event of a publication; those of a resource name the session that owns it. -/
def ClientEvent.of {π : Type} (payload : π) : Option (Option SessionId) → ClientEvent π
  | none => ⟨payload, .global⟩
  | some owner => ⟨payload, .session owner⟩

/-- The sending ends of the event queue of a connection and of its disconnect signal. -/
structure EventSubscriber where
  sender : ℕ
  disconnect : ℕ
deriving DecidableEq, Repr

structure EventSubscriptions where
  channels : Table EventChannel (Table ClientId EventSubscriber)
  /-- A client without an entry has not finished its handshake; `none` is an anonymous client. -/
  clientSessions : Table ClientId (Option SessionId)

namespace EventSubscriptions

def setClientSession (subs : EventSubscriptions) (clientId : ClientId)
    (namedSessionId : Option SessionId) : EventSubscriptions :=
  { subs with clientSessions := subs.clientSessions.insert clientId namedSessionId }

def subscribe (subs : EventSubscriptions) (clientId : ClientId) (channel : EventChannel)
    (subscriber : EventSubscriber) : EventSubscriptions :=
  let clients := (subs.channels.get channel).getD .empty
  { subs with channels := subs.channels.insert channel (clients.insert clientId subscriber) }

def unsubscribe (subs : EventSubscriptions) (clientId : ClientId) (channel : EventChannel) :
    EventSubscriptions :=
  match subs.channels.get channel with
  | none => subs
  | some clients =>
      let left := clients.erase clientId
      { subs with channels :=
          if left.size = 0 then subs.channels.erase channel else subs.channels.insert channel left }

def unsubscribeAll (subs : EventSubscriptions) (clientId : ClientId) : EventSubscriptions where
  channels := (subs.channels.mapValues fun _ clients => clients.erase clientId).retain
    fun _ clients => clients.size ≠ 0
  clientSessions := subs.clientSessions.erase clientId

/-- How a client is reached on a channel, if it has subscribed to it. -/
def subscriber (subs : EventSubscriptions) (channel : EventChannel) (clientId : ClientId) :
    Option EventSubscriber :=
  (subs.channels.get channel).bind fun clients => clients.get clientId

/-- Whether a client may see an event. Events without an owner are for everybody. -/
def allowed (subs : EventSubscriptions) (clientId : ClientId) :
    Option (Option SessionId) → Bool
  | none => true
  | some owner =>
      match subs.clientSessions.get clientId with
      | none => false
      | some none => true
      | some (some attached) => owner = some attached

end EventSubscriptions

/-- A bounded queue with a single reader. -/
structure ClientQueue (π : Type) where
  capacity : ℕ
  items : List (ClientEvent π)
  closed : Bool
deriving DecidableEq, Repr

inductive TrySendError where
  | full
  | closed
deriving DecidableEq, Repr

def ClientQueue.trySend {π : Type} (queue : ClientQueue π) (event : ClientEvent π) :
    Except TrySendError (ClientQueue π) :=
  if queue.closed then .error .closed
  else if queue.capacity ≤ queue.items.length then .error .full
  else .ok { queue with items := queue.items ++ [event] }

inductive BusEvent (π : Type) where
  /-- An event of a channel is queued for a client. -/
  | handed (clientId : ClientId) (channel : EventChannel) (sender : ℕ) (event : ClientEvent π)
  /-- An event of a channel could not be queued for a client. -/
  | missed (clientId : ClientId) (channel : EventChannel) (sender : ℕ) (event : ClientEvent π)
  | signalled (disconnect : ℕ)
  /-- The gateway queues an event itself. -/
  | sent (sender : ℕ) (event : ClientEvent π)
  /-- The reader of a queue takes an event. -/
  | received (sender : ℕ) (event : ClientEvent π)
deriving DecidableEq, Repr

structure EventBus (π : Type) where
  subs : EventSubscriptions
  queues : ℕ → ClientQueue π
  stopped : Bool
  log : List (BusEvent π)

/-- The order in which the hash map of the clients of a channel is walked. -/
structure ClientOrder where
  walk : List ClientId → List ClientId
  perm : ∀ clients, (walk clients).Perm clients

def ClientOrder.sorted : ClientOrder := ⟨id, fun _ => .refl _⟩

inductive EventBusMsg (π : Type) where
  | setClientSession (clientId : ClientId) (namedSessionId : Option SessionId)
  | subscribe (clientId : ClientId) (channel : EventChannel) (subscriber : EventSubscriber)
  | unsubscribe (clientId : ClientId) (channel : EventChannel)
  | unsubscribeAll (clientId : ClientId)
  | publish (payload : π) (channel : EventChannel)
  | publishExcept (payload : π) (channel : EventChannel) (excludedClientId : ClientId)
  | publishSession (payload : π) (channel : EventChannel) (sessionId : Option SessionId)
  | publishSessionExcept (payload : π) (channel : EventChannel) (sessionId : Option SessionId)
      (excludedClientId : ClientId)
  | shutdown

namespace EventBus

variable {π : Type} (bus : EventBus π)

def new (queues : ℕ → ClientQueue π) : EventBus π := ⟨⟨.empty, .empty⟩, queues, false, []⟩

def record (events : List (BusEvent π)) : EventBus π := { bus with log := bus.log ++ events }

/-- One turn of the loop of `publish`: whether the client has to be evicted. -/
def deliver (channel : EventChannel) (payload : π) (sessionId : Option (Option SessionId))
    (clientId : ClientId) (subscriber : EventSubscriber) : Bool × EventBus π :=
  if bus.subs.allowed clientId sessionId then
    let event := ClientEvent.of payload sessionId
    match (bus.queues subscriber.sender).trySend event with
    | .ok queue =>
        (false, { bus.record [.handed clientId channel subscriber.sender event] with
          queues := Function.update bus.queues subscriber.sender queue })
    | .error _ =>
        (true, bus.record [.missed clientId channel subscriber.sender event,
          .signalled subscriber.disconnect])
  else (false, bus)

/-- The loop of `publish`: the clients that have to be evicted. -/
def deliverAll (channel : EventChannel) (payload : π) (sessionId : Option (Option SessionId)) :
    EventBus π → List (ClientId × EventSubscriber) → List ClientId × EventBus π
  | bus, [] => ([], bus)
  | bus, (clientId, subscriber) :: rest =>
      let (evict, bus) := bus.deliver channel payload sessionId clientId subscriber
      let (evicted, bus) := deliverAll channel payload sessionId bus rest
      (if evict then clientId :: evicted else evicted, bus)

/-- The clients a publication is for, as they were when it began. -/
def deliveries (order : ClientOrder) (channel : EventChannel) (excludedClientId : Option ClientId) :
    List (ClientId × EventSubscriber) :=
  match bus.subs.channels.get channel with
  | none => []
  | some clients =>
      ((order.walk (clients.keys.sort (· ≤ ·))).filter fun clientId =>
        some clientId ≠ excludedClientId).filterMap fun clientId =>
          (clients.get clientId).map (clientId, ·)

def publish (order : ClientOrder) (channel : EventChannel) (payload : π)
    (excludedClientId : Option ClientId) (sessionId : Option (Option SessionId)) : EventBus π :=
  let (evicted, bus) := deliverAll channel payload sessionId bus
    (bus.deliveries order channel excludedClientId)
  { bus with subs := evicted.foldl EventSubscriptions.unsubscribeAll bus.subs }

def handle (order : ClientOrder) : EventBusMsg π → EventBus π
  | .setClientSession clientId namedSessionId =>
      { bus with subs := bus.subs.setClientSession clientId namedSessionId }
  | .subscribe clientId channel subscriber =>
      { bus with subs := bus.subs.subscribe clientId channel subscriber }
  | .unsubscribe clientId channel => { bus with subs := bus.subs.unsubscribe clientId channel }
  | .unsubscribeAll clientId => { bus with subs := bus.subs.unsubscribeAll clientId }
  | .publish payload channel => bus.publish order channel payload none none
  | .publishExcept payload channel excludedClientId =>
      bus.publish order channel payload (some excludedClientId) none
  | .publishSession payload channel sessionId =>
      bus.publish order channel payload none (some sessionId)
  | .publishSessionExcept payload channel sessionId excludedClientId =>
      bus.publish order channel payload (some excludedClientId) (some sessionId)
  | .shutdown => { bus with stopped := true }

end EventBus

/-- What can happen to the bus and to the queues it shares. -/
inductive BusOp (π : Type) where
  | message (order : ClientOrder) (message : EventBusMsg π)
  /-- The connection takes one event from its queue. -/
  | receive (sender : ℕ)
  /-- The gateway sends an event to one client. -/
  | send (sender : ℕ) (event : ClientEvent π)
  /-- The connection is gone. -/
  | close (sender : ℕ)

namespace EventBus

variable {π : Type}

def setQueue (bus : EventBus π) (sender : ℕ) (queue : ClientQueue π) : EventBus π :=
  { bus with queues := Function.update bus.queues sender queue }

def step (bus : EventBus π) : BusOp π → EventBus π
  | .message order message => if bus.stopped then bus else bus.handle order message
  | .receive sender =>
      match bus.queues sender with
      | ⟨capacity, event :: items, false⟩ =>
          (bus.record [.received sender event]).setQueue sender ⟨capacity, items, false⟩
      | _ => bus
  | .send sender event =>
      match (bus.queues sender).trySend event with
      | .ok queue => (bus.record [.sent sender event]).setQueue sender queue
      | .error _ => bus
  | .close sender => bus.setQueue sender { bus.queues sender with closed := true }

def run (bus : EventBus π) (ops : List (BusOp π)) : EventBus π := ops.foldl step bus

end EventBus

end CueShell

import CueShell.ToMathlib.Table

/-! # The multiplexed client

Any number of callers share one connection. A call takes a request id, puts its waiter into the map of
pending responses, hands its request to the writer task and waits. The reader task takes waiters out of
the map, and fails all that are left when the connection breaks. The three kinds of tasks take turns in
any order; what is done under the lock of the map is one step.
-/

namespace CueShell

/-- What the receiver of a waiter finds. The id is the one the response came with. -/
inductive ResponseSlot (Payload : Type) where
  | empty
  | delivered (id : UInt32) (payload : Payload)
  | failed (message : String)
  /-- The sender was dropped. -/
  | closed
deriving DecidableEq

inductive CallStage (Payload : Type) where
  /-- The call has its request id. -/
  | allocated
  /-- Its waiter is stored, and its request is about to be queued. -/
  | sending
  | waiting
  | returned (result : Except String Payload)
deriving DecidableEq

structure ClientCall (Payload : Type) where
  requestId : UInt32
  stage : CallStage Payload
  slot : ResponseSlot Payload

inductive ReaderStage where
  | reading
  /-- The loop has ended, with the reason. -/
  | ended (reason : String)
  /-- The waiters have been failed. -/
  | drained
deriving DecidableEq, Repr

structure MultiplexedClient (Payload : Type) where
  nextId : UInt32
  pending : Table UInt32 ℕ
  calls : Table ℕ (ClientCall Payload)
  queue : List UInt32
  /-- Whether the writer task still takes requests. -/
  writerOpen : Bool
  reader : ReaderStage

/-- A step of a caller, of the reader task or of the writer task. -/
inductive ClientStep (Payload : Type) where
  | begin (call : ℕ) (supported : Bool)
  | register (call : ℕ)
  | enqueue (call : ℕ)
  | receive (call : ℕ)
  | response (id : UInt32) (payload : Payload)
  /-- An event or a request, for which no call waits. -/
  | otherMessage
  | readError (error : String)
  | failPending
  | write
  | writeError

def nextRequestId (current : UInt32) : UInt32 :=
  if current = 4294967295 then 1 else current + 1

namespace MultiplexedClient

variable {Payload : Type}

def start (nextId : UInt32) : MultiplexedClient Payload where
  nextId := nextId
  pending := .empty
  calls := .empty
  queue := []
  writerOpen := true
  reader := .reading

variable (client : MultiplexedClient Payload)

/-- Store something in the receiver that belongs to the waiter under an id. -/
def settle (id : UInt32) (slot : ResponseSlot Payload) : Table ℕ (ClientCall Payload) :=
  match client.pending.get id with
  | none => client.calls
  | some call => client.calls.modify call fun entry => { entry with slot := slot }

/-- The waiters that are in the map get an error. -/
def drained (message : String) : Table ℕ (ClientCall Payload) :=
  client.calls.mapValues fun call entry =>
    if client.pending.get entry.requestId = some call then { entry with slot := .failed message }
    else entry

/-- What a call returns when its receiver is ready. -/
def result (requestId : UInt32) : ResponseSlot Payload → Option (Except String Payload)
  | .empty => none
  | .delivered _ payload => some (.ok payload)
  | .failed message => some (.error message)
  | .closed =>
      some (.error ("response waiter for request " ++ toString requestId ++ " closed"))

def setStage (call : ℕ) (stage : CallStage Payload) : Table ℕ (ClientCall Payload) :=
  client.calls.modify call fun entry => { entry with stage := stage }

/-- The bound of the queue of the writer task. -/
def queueCap : ℕ := 64

/-- A step that is not possible changes nothing. -/
def step : ClientStep Payload → MultiplexedClient Payload
  | .begin call supported =>
      if (client.calls.get call).isSome then client
      else if supported then
        { client with
          nextId := nextRequestId client.nextId
          calls := client.calls.insert call ⟨client.nextId, .allocated, .empty⟩ }
      else
        { client with calls :=
            client.calls.insert call ⟨client.nextId, .returned (.error "unsupported capability"), .empty⟩ }
  | .register call =>
      match client.calls.get call with
      | some ⟨requestId, .allocated, _⟩ =>
          -- A waiter that is still stored under the id is dropped.
          let client := { client with calls := client.settle requestId .closed }
          { client with
            calls := client.setStage call .sending
            pending := client.pending.insert requestId call }
      | _ => client
  | .enqueue call =>
      match client.calls.get call with
      | some ⟨requestId, .sending, _⟩ =>
          if !client.writerOpen then
            let client := { client with calls := client.settle requestId .closed }
            { client with
              calls := client.setStage call
                (.returned (.error ("send request " ++ toString requestId ++ ": writer task is closed")))
              pending := client.pending.erase requestId }
          else if client.queue.length < queueCap then
            { client with
              calls := client.setStage call .waiting
              queue := client.queue ++ [requestId] }
          else client
      | _ => client
  | .receive call =>
      match client.calls.get call with
      | some ⟨requestId, .waiting, slot⟩ =>
          match result requestId slot with
          | some result => { client with calls := client.setStage call (.returned result) }
          | none => client
      | _ => client
  | .response id payload =>
      if client.reader = .reading then
        { client with
          calls := client.settle id (.delivered id payload)
          pending := client.pending.erase id }
      else client
  | .otherMessage => client
  | .readError error =>
      if client.reader = .reading then
        { client with reader := .ended ("cued connection closed: " ++ error) }
      else client
  | .failPending =>
      match client.reader with
      | .ended reason =>
          { client with
            calls := client.drained reason
            pending := .empty
            reader := .drained }
      | _ => client
  | .write => if client.writerOpen then { client with queue := client.queue.tail } else client
  | .writeError => { client with queue := [], writerOpen := false }

def run (client : MultiplexedClient Payload) (steps : List (ClientStep Payload)) :
    MultiplexedClient Payload :=
  steps.foldl step client

end MultiplexedClient

end CueShell

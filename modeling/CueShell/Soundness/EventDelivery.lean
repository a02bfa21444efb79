import CueShell.Model.EventBus

/-! # Events are delivered or the client is evicted

What a client is handed on a channel while it stays subscribed is exactly what was published there and
what its session lets it see. A client that misses an event is left on no channel and is told to
disconnect. The queue of a client is read in the order in which it was filled.
-/

namespace CueShell

variable {π : Type}

namespace EventSubscriptions

variable (subs : EventSubscriptions) (clientId : ClientId) (channel : EventChannel)

def Subscribed : Prop := (subs.subscriber channel clientId).isSome

theorem subscriber_unsubscribeAll (other : ClientId) :
    (subs.unsubscribeAll clientId).subscriber channel other =
      if other = clientId then none else subs.subscriber channel other := by
  unfold subscriber unsubscribeAll
  rw [Table.get_retain, Table.get_mapValues]
  cases found : subs.channels.get channel with
  | none => simp
  | some clients =>
    by_cases empty : (clients.erase clientId).size = 0
    · have absent : (clients.erase clientId).get other = none := by
        apply Table.get_of_not_mem
        rw [Finset.card_eq_zero.mp empty]
        exact Finset.notMem_empty other
      rw [Table.get_erase] at absent
      simp [Option.filter, empty, absent]
    · simp [Option.filter, empty, Table.get_erase]

/-- A client that has been evicted is on no channel. -/
theorem subscriber_evicted {evicted : List ClientId} (gone : clientId ∈ evicted) :
    (evicted.foldl unsubscribeAll subs).subscriber channel clientId = none := by
  induction evicted generalizing subs with
  | nil => cases gone
  | cons first rest ih =>
    by_cases later : clientId ∈ rest
    · exact ih (subs.unsubscribeAll first) later
    · obtain rfl : clientId = first := (List.mem_cons.mp gone).resolve_right later
      have away (table : EventSubscriptions) (left : table.subscriber channel clientId = none) :
          (rest.foldl unsubscribeAll table).subscriber channel clientId = none := by
        clear ih later gone
        induction rest generalizing table with
        | nil => exact left
        | cons next rest ih =>
          apply ih
          rw [subscriber_unsubscribeAll, left, ite_self]
      apply away
      rw [subscriber_unsubscribeAll, if_pos rfl]

end EventSubscriptions

/-- The events of a channel that were handed to a client. -/
def handedTo (clientId : ClientId) (channel : EventChannel) (log : List (BusEvent π)) :
    List (ClientEvent π) :=
  log.filterMap fun
    | .handed client place _ event => if client = clientId ∧ place = channel then some event else none
    | _ => none

/-- What was put into a queue. -/
def queuedOn (sender : ℕ) (log : List (BusEvent π)) : List (ClientEvent π) :=
  log.filterMap fun
    | .handed _ _ queue event | .sent queue event => if queue = sender then some event else none
    | _ => none

/-- What was taken from a queue. -/
def receivedFrom (sender : ℕ) (log : List (BusEvent π)) : List (ClientEvent π) :=
  log.filterMap fun
    | .received queue event => if queue = sender then some event else none
    | _ => none

/-- A message that publishes an event. -/
structure Publication (π : Type) where
  channel : EventChannel
  payload : π
  excluded : Option ClientId
  owner : Option (Option SessionId)

def EventBusMsg.publication : EventBusMsg π → Option (Publication π)
  | .publish payload channel => some ⟨channel, payload, none, none⟩
  | .publishExcept payload channel excluded => some ⟨channel, payload, some excluded, none⟩
  | .publishSession payload channel owner => some ⟨channel, payload, none, some owner⟩
  | .publishSessionExcept payload channel owner excluded =>
      some ⟨channel, payload, some excluded, some owner⟩
  | _ => none

namespace EventBus

variable (bus : EventBus π) (clientId : ClientId) (channel : EventChannel)

/-- What a client must be handed on a channel by one operation. -/
def entitled : BusOp π → List (ClientEvent π)
  | .message _ message =>
      match if bus.stopped then none else message.publication with
      | none => []
      | some published =>
          if published.channel = channel ∧ published.excluded ≠ some clientId ∧
              bus.subs.allowed clientId published.owner then
            [.of published.payload published.owner]
          else []
  | _ => []

/-- What a client must be handed on a channel by operations that follow each other. -/
def entitledDuring : EventBus π → List (BusOp π) → List (ClientEvent π)
  | _, [] => []
  | bus, op :: rest => bus.entitled clientId channel op ++ entitledDuring (bus.step op) rest

/-- The log since an earlier state. -/
def logSince (earlier : EventBus π) : List (BusEvent π) := bus.log.drop earlier.log.length

end EventBus

section Delivery

variable {bus : EventBus π} {published : Publication π}

/-- What the loop of `publish` does to the log. -/
structure Delivered (bus : EventBus π) (published : Publication π)
    (targets : List (ClientId × EventSubscriber)) (evicted : List ClientId) (after : EventBus π)
    (delta : List (BusEvent π)) : Prop where
  log : after.log = bus.log ++ delta
  subs : after.subs = bus.subs
  stopped : after.stopped = bus.stopped
  elsewhere : ∀ clientId channel, channel ≠ published.channel → handedTo clientId channel delta = []
  others : ∀ clientId, (∀ subscriber, (clientId, subscriber) ∉ targets) →
    handedTo clientId published.channel delta = []
  hidden : ∀ clientId, bus.subs.allowed clientId published.owner = false →
    handedTo clientId published.channel delta = []
  reached : ∀ clientId subscriber, (clientId, subscriber) ∈ targets →
    bus.subs.allowed clientId published.owner → clientId ∈ evicted ∨
      handedTo clientId published.channel delta = [.of published.payload published.owner]
  missed : ∀ clientId channel sender event, .missed clientId channel sender event ∈ delta →
    clientId ∈ evicted ∧ channel = published.channel ∧ ∃ subscriber,
      (clientId, subscriber) ∈ targets ∧ subscriber.sender = sender ∧
        .signalled subscriber.disconnect ∈ delta
  handed : ∀ clientId channel sender event, .handed clientId channel sender event ∈ delta →
    bus.subs.allowed clientId published.owner ∧ event = .of published.payload published.owner

theorem handedTo_append (clientId : ClientId) (channel : EventChannel)
    (first second : List (BusEvent π)) :
    handedTo clientId channel (first ++ second) =
      handedTo clientId channel first ++ handedTo clientId channel second :=
  List.filterMap_append

theorem Delivered.nil : Delivered bus published [] [] bus [] := by
  constructor <;> simp [handedTo]

variable {targets : List (ClientId × EventSubscriber)} {evicted : List ClientId}
variable {middle after : EventBus π} {delta : List (BusEvent π)} {clientId : ClientId}
variable {subscriber : EventSubscriber}

/-- A client that may not see the event is passed by. -/
theorem Delivered.pass (rest : Delivered bus published targets evicted after delta)
    (refused : bus.subs.allowed clientId published.owner = false) :
    Delivered bus published ((clientId, subscriber) :: targets) evicted after delta where
  log := rest.log
  subs := rest.subs
  stopped := rest.stopped
  elsewhere := rest.elsewhere
  others other absent := rest.others other fun subscriber member =>
    absent subscriber (List.mem_cons_of_mem _ member)
  hidden := rest.hidden
  reached other subscriber member visible := by
    rcases List.mem_cons.mp member with same | later
    · cases same
      simp [refused] at visible
    · exact rest.reached other subscriber later visible
  missed other channel sender event member := by
    obtain ⟨gone, same, subscriber, known, found⟩ := rest.missed other channel sender event member
    exact ⟨gone, same, subscriber, List.mem_cons_of_mem _ known, found⟩
  handed := rest.handed

/-- A client whose queue takes the event is handed it; the other clients are others. -/
theorem Delivered.hand (rest : Delivered middle published targets evicted after delta)
    (visible : bus.subs.allowed clientId published.owner)
    (fresh : ∀ subscriber, (clientId, subscriber) ∉ targets) (sender : ℕ)
    (log : middle.log = bus.log ++ [.handed clientId published.channel sender
      (.of published.payload published.owner)])
    (subs : middle.subs = bus.subs) (stopped : middle.stopped = bus.stopped) :
    Delivered bus published ((clientId, subscriber) :: targets) evicted after
      (.handed clientId published.channel sender (.of published.payload published.owner) :: delta) where
  log := by rw [rest.log, log, List.append_assoc, List.singleton_append]
  subs := rest.subs.trans subs
  stopped := rest.stopped.trans stopped
  elsewhere other channel apart := by
    have missing : ¬ published.channel = channel := Ne.symm apart
    simpa [handedTo, missing] using rest.elsewhere other channel apart
  others other absent := by
    have apart : ¬ clientId = other := by
      rintro rfl
      exact absent subscriber (List.mem_cons_self ..)
    have away := rest.others other fun subscriber member =>
      absent subscriber (List.mem_cons_of_mem _ member)
    simpa [handedTo, apart] using away
  hidden other refused := by
    have apart : ¬ clientId = other := by
      rintro rfl
      simp [visible] at refused
    have away := rest.hidden other (by rw [subs]; exact refused)
    simpa [handedTo, apart] using away
  reached other later member seen := by
    by_cases same : other = clientId
    · subst same
      refine .inr ?_
      have nothing := rest.others other fresh
      simpa [handedTo] using nothing
    · have further : (other, later) ∈ targets :=
        (List.mem_cons.mp member).resolve_left fun here => same (Prod.mk.inj here).1
      have apart : ¬ clientId = other := Ne.symm same
      refine (rest.reached other later further (by rw [subs]; exact seen)).imp_right fun given => ?_
      simpa [handedTo, apart] using given
  missed other channel sender event member := by
    have later := (List.mem_cons.mp member).resolve_left (by simp)
    obtain ⟨gone, same, subscriber, known, source, signal⟩ :=
      rest.missed other channel sender event later
    exact ⟨gone, same, subscriber, List.mem_cons_of_mem _ known, source, List.mem_cons_of_mem _ signal⟩
  handed other channel sender event member := by
    rcases List.mem_cons.mp member with same | later
    · cases same
      exact ⟨visible, rfl⟩
    · rw [← subs]
      exact rest.handed other channel sender event later

/-- A client whose queue takes no event is evicted. -/
theorem Delivered.evict (rest : Delivered middle published targets evicted after delta)
    (log : middle.log = bus.log ++ [.missed clientId published.channel subscriber.sender
      (.of published.payload published.owner), .signalled subscriber.disconnect])
    (subs : middle.subs = bus.subs) (stopped : middle.stopped = bus.stopped) :
    Delivered bus published ((clientId, subscriber) :: targets) (clientId :: evicted) after
      (.missed clientId published.channel subscriber.sender
        (.of published.payload published.owner) :: .signalled subscriber.disconnect :: delta) where
  log := by rw [rest.log, log, List.append_assoc, List.cons_append, List.singleton_append]
  subs := rest.subs.trans subs
  stopped := rest.stopped.trans stopped
  elsewhere other channel apart := by simpa [handedTo] using rest.elsewhere other channel apart
  others other absent := by
    have away := rest.others other fun subscriber member =>
      absent subscriber (List.mem_cons_of_mem _ member)
    simpa [handedTo] using away
  hidden other refused := by
    simpa [handedTo] using rest.hidden other (by rw [subs]; exact refused)
  reached other later member seen := by
    rcases List.mem_cons.mp member with same | further
    · cases same
      exact .inl (List.mem_cons_self ..)
    · refine (rest.reached other later further (by rw [subs]; exact seen)).imp
        (List.mem_cons_of_mem _) fun given => ?_
      simpa [handedTo] using given
  missed other channel sender event member := by
    rcases List.mem_cons.mp member with same | later
    · cases same
      exact ⟨List.mem_cons_self .., rfl, subscriber, List.mem_cons_self .., rfl, by simp⟩
    · have further := (List.mem_cons.mp later).resolve_left (by simp)
      obtain ⟨gone, same, known, target, source, signal⟩ :=
        rest.missed other channel sender event further
      exact ⟨List.mem_cons_of_mem _ gone, same, known, List.mem_cons_of_mem _ target, source,
        List.mem_cons_of_mem _ (List.mem_cons_of_mem _ signal)⟩
  handed other channel sender event member := by
    have later := (List.mem_cons.mp member).resolve_left (by simp)
    rw [← subs]
    exact rest.handed other channel sender event ((List.mem_cons.mp later).resolve_left (by simp))

/-- The loop of `publish`, target by target. -/
theorem deliverAll_delivered (bus : EventBus π) (published : Publication π)
    (distinct : (targets.map Prod.fst).Nodup) :
    ∃ delta, Delivered bus published targets
      (EventBus.deliverAll published.channel published.payload published.owner bus targets).1
      (EventBus.deliverAll published.channel published.payload published.owner bus targets).2 delta := by
  induction targets generalizing bus with
  | nil => exact ⟨[], .nil⟩
  | cons target rest ih =>
    obtain ⟨clientId, subscriber⟩ := target
    obtain ⟨absent, distinct⟩ := List.nodup_cons.mp distinct
    have fresh : ∀ subscriber, (clientId, subscriber) ∉ rest := fun other member =>
      absent (List.mem_map.mpr ⟨_, member, rfl⟩)
    unfold EventBus.deliverAll EventBus.deliver
    by_cases visible : bus.subs.allowed clientId published.owner
    · cases attempt : (bus.queues subscriber.sender).trySend
          (.of published.payload published.owner) with
      | ok queue =>
        obtain ⟨delta, delivered⟩ := ih { bus.record [.handed clientId published.channel
          subscriber.sender (.of published.payload published.owner)] with
            queues := Function.update bus.queues subscriber.sender queue } distinct
        simp only [visible, ↓reduceIte, attempt]
        exact ⟨_, delivered.hand visible fresh subscriber.sender rfl rfl rfl⟩
      | error reason =>
        obtain ⟨delta, delivered⟩ := ih (bus.record [.missed clientId published.channel
          subscriber.sender (.of published.payload published.owner),
            .signalled subscriber.disconnect]) distinct
        simp only [visible, ↓reduceIte, attempt]
        exact ⟨_, delivered.evict rfl rfl rfl⟩
    · obtain ⟨delta, delivered⟩ := ih bus distinct
      simp only [visible]
      exact ⟨delta, delivered.pass (by simpa using visible)⟩

end Delivery

section Steps

variable (bus : EventBus π) (order : ClientOrder) (channel : EventChannel) (excluded : Option ClientId)

theorem EventBus.mem_deliveries (clientId : ClientId) (subscriber : EventSubscriber) :
    (clientId, subscriber) ∈ bus.deliveries order channel excluded ↔
      bus.subs.subscriber channel clientId = some subscriber ∧ some clientId ≠ excluded := by
  unfold EventBus.deliveries EventSubscriptions.subscriber
  cases found : bus.subs.channels.get channel with
  | none => simp
  | some clients =>
    have known : ∀ client, client ∈ order.walk (clients.keys.sort (· ≤ ·)) ↔
        (clients.get client).isSome := fun client => by
      rw [(order.perm _).mem_iff, Finset.mem_sort, clients.mem_keys]
    simp only [List.mem_filterMap, List.mem_filter, known, Option.bind_some, Option.map_eq_some_iff]
    constructor
    · rintro ⟨client, ⟨-, apart⟩, value, present, same⟩
      cases same
      exact ⟨present, by simpa using apart⟩
    · rintro ⟨present, apart⟩
      exact ⟨clientId, ⟨by simp [present], by simpa using apart⟩, subscriber, present, rfl⟩

theorem EventBus.deliveries_nodup :
    ((bus.deliveries order channel excluded).map Prod.fst).Nodup := by
  unfold EventBus.deliveries
  cases bus.subs.channels.get channel with
  | none => exact List.nodup_nil
  | some clients =>
    have walked : (order.walk (clients.keys.sort (· ≤ ·))).Nodup :=
      (order.perm _).nodup_iff.mpr (Finset.sort_nodup ..)
    refine (walked.filter fun client => some client ≠ excluded).sublist ?_
    dsimp only
    generalize (order.walk (clients.keys.sort (· ≤ ·))).filter _ = names
    induction names with
    | nil => exact .slnil
    | cons client rest ih =>
      cases found : clients.get client with
      | none => simpa [found] using ih.cons client
      | some subscriber => simpa [found] using ih.cons_cons client

/-- What a published event does, in all: a client that stays is given what it may see. -/
structure Published (bus : EventBus π) (published : Publication π) (after : EventBus π)
    (delta : List (BusEvent π)) : Prop where
  log : after.log = bus.log ++ delta
  stopped : after.stopped = bus.stopped
  given : ∀ clientId channel, after.subs.Subscribed clientId channel →
    bus.subs.Subscribed clientId channel → handedTo clientId channel delta =
      if published.channel = channel ∧ published.excluded ≠ some clientId ∧
          bus.subs.allowed clientId published.owner then
        [.of published.payload published.owner]
      else []
  missed : ∀ clientId channel sender event, .missed clientId channel sender event ∈ delta →
    (∀ other, ¬ after.subs.Subscribed clientId other) ∧ ∃ subscriber,
      bus.subs.subscriber channel clientId = some subscriber ∧ subscriber.sender = sender ∧
        .signalled subscriber.disconnect ∈ delta
  handed : ∀ clientId channel sender event, .handed clientId channel sender event ∈ delta →
    bus.subs.allowed clientId published.owner ∧ event = .of published.payload published.owner

theorem EventBus.publish_published (published : Publication π) :
    ∃ delta, Published bus published (bus.publish order published.channel published.payload
      published.excluded published.owner) delta := by
  obtain ⟨delta, delivered⟩ := deliverAll_delivered bus published
    (bus.deliveries_nodup order published.channel published.excluded)
  have stays : ∀ clientId channel, (bus.publish order published.channel published.payload
      published.excluded published.owner).subs.Subscribed clientId channel →
      clientId ∉ (EventBus.deliverAll published.channel published.payload published.owner bus
        (bus.deliveries order published.channel published.excluded)).1 := by
    intro clientId channel subscribed gone
    rw [EventSubscriptions.Subscribed, EventBus.publish,
      EventSubscriptions.subscriber_evicted _ clientId channel gone] at subscribed
    cases subscribed
  refine ⟨delta, delivered.log, delivered.stopped, ?_, ?_, delivered.handed⟩
  · intro clientId channel later known
    split
    · rename_i entitled
      obtain ⟨rfl, included, visible⟩ := entitled
      obtain ⟨subscriber, present⟩ := Option.isSome_iff_exists.mp known
      have target := (bus.mem_deliveries order published.channel published.excluded clientId
        subscriber).mpr ⟨present, Ne.symm included⟩
      exact (delivered.reached clientId subscriber target visible).resolve_left (stays _ _ later)
    · rename_i refused
      by_cases here : channel = published.channel
      · subst here
        by_cases visible : bus.subs.allowed clientId published.owner
        · apply delivered.others
          intro subscriber target
          have found := (bus.mem_deliveries order published.channel published.excluded clientId
            subscriber).mp target
          exact refused ⟨rfl, Ne.symm found.2, visible⟩
        · exact delivered.hidden clientId (by simpa using visible)
      · exact delivered.elsewhere clientId channel here
  · intro clientId channel sender event member
    obtain ⟨gone, rfl, subscriber, target, source, signal⟩ :=
      delivered.missed clientId channel sender event member
    refine ⟨fun other subscribed => stays clientId other subscribed gone, subscriber, ?_, source, signal⟩
    exact ((bus.mem_deliveries order _ _ clientId subscriber).mp target).1

/-- What one operation does to the log. -/
structure Stepped (bus : EventBus π) (op : BusOp π) (delta : List (BusEvent π)) : Prop where
  log : (bus.step op).log = bus.log ++ delta
  given : ∀ clientId channel, (bus.step op).subs.Subscribed clientId channel →
    bus.subs.Subscribed clientId channel →
      handedTo clientId channel delta = bus.entitled clientId channel op
  missed : ∀ clientId channel sender event, .missed clientId channel sender event ∈ delta →
    (∀ other, ¬ (bus.step op).subs.Subscribed clientId other) ∧ ∃ subscriber,
      bus.subs.subscriber channel clientId = some subscriber ∧ subscriber.sender = sender ∧
        .signalled subscriber.disconnect ∈ delta
  owned : ∀ clientId channel sender payload owner attached,
    .handed clientId channel sender ⟨payload, .session owner⟩ ∈ delta →
      bus.subs.clientSessions.get clientId = some (some attached) → owner = some attached

theorem allowed_session {subs : EventSubscriptions} {clientId : ClientId} {payload body : π}
    {published : Option (Option SessionId)} {owner : Option SessionId} {attached : SessionId}
    (visible : subs.allowed clientId published)
    (same : ⟨payload, .session owner⟩ = ClientEvent.of body published)
    (bound : subs.clientSessions.get clientId = some (some attached)) : owner = some attached := by
  cases published with
  | none => cases same
  | some session =>
    cases same
    simpa [EventSubscriptions.allowed, bound] using visible

/-- An operation that hands nothing to anybody. -/
theorem Stepped.quiet {op : BusOp π} {delta : List (BusEvent π)}
    (log : (bus.step op).log = bus.log ++ delta)
    (nothing : ∀ clientId channel, bus.entitled clientId channel op = [])
    (silent : delta = [] ∨ ∃ sender event, delta = [.sent sender event] ∨
      delta = [.received sender event]) : Stepped bus op delta := by
  refine ⟨log, fun clientId channel _ _ => ?_, ?_, ?_⟩
  · rw [nothing]
    rcases silent with rfl | ⟨sender, event, rfl | rfl⟩ <;> rfl
  · rcases silent with rfl | ⟨sender, event, rfl | rfl⟩ <;> simp
  · rcases silent with rfl | ⟨sender, event, rfl | rfl⟩ <;> simp

theorem Stepped.published {message : EventBusMsg π} {published : Publication π}
    (live : bus.stopped = false) (publishes : message.publication = some published)
    (handles : bus.handle order message = bus.publish order published.channel published.payload
      published.excluded published.owner) : ∃ delta, Stepped bus (.message order message) delta := by
  obtain ⟨delta, effect⟩ := bus.publish_published order published
  have same : bus.step (.message order message) = bus.publish order published.channel
      published.payload published.excluded published.owner := by
    simp [EventBus.step, live, handles]
  refine ⟨delta, ?_, ?_, ?_, ?_⟩
  · rw [same]
    exact effect.log
  · intro clientId channel later known
    rw [same] at later
    rw [effect.given clientId channel later known]
    simp [EventBus.entitled, live, publishes]
  · rw [same]
    exact effect.missed
  · intro clientId channel sender payload owner attached member bound
    obtain ⟨visible, event⟩ := effect.handed clientId channel sender _ member
    exact allowed_session visible event bound

theorem EventBus.step_stepped (op : BusOp π) : ∃ delta, Stepped bus op delta := by
  cases op with
  | message order message =>
    cases live : bus.stopped with
    | true =>
      refine ⟨[], .quiet bus ?_ (fun _ _ => ?_) (.inl rfl)⟩
      · simp [EventBus.step, live]
      · simp [EventBus.entitled, live]
    | false =>
      cases message with
      | publish payload sent => exact Stepped.published bus order live rfl rfl
      | publishExcept payload sent left => exact Stepped.published bus order live rfl rfl
      | publishSession payload sent owner => exact Stepped.published bus order live rfl rfl
      | publishSessionExcept payload sent owner left => exact Stepped.published bus order live rfl rfl
      | _ =>
        refine ⟨[], .quiet bus ?_ (fun _ _ => ?_) (.inl rfl)⟩
        · simp [EventBus.step, EventBus.handle, live]
        · simp [EventBus.entitled, EventBusMsg.publication]
  | receive sender =>
    cases content : bus.queues sender with
    | mk capacity items closed =>
      cases items with
      | nil => exact ⟨[], .quiet bus (by simp [EventBus.step, content]) (fun _ _ => rfl) (.inl rfl)⟩
      | cons event items =>
        cases closed with
        | true =>
          exact ⟨[], .quiet bus (by simp [EventBus.step, content]) (fun _ _ => rfl) (.inl rfl)⟩
        | false =>
          refine ⟨[.received sender event], .quiet bus ?_ (fun _ _ => rfl)
            (.inr ⟨sender, event, .inr rfl⟩)⟩
          simp [EventBus.step, content, EventBus.record, EventBus.setQueue]
  | send sender event =>
    cases attempt : (bus.queues sender).trySend event with
    | ok queue =>
      refine ⟨[.sent sender event], .quiet bus ?_ (fun _ _ => rfl) (.inr ⟨sender, event, .inl rfl⟩)⟩
      simp [EventBus.step, attempt, EventBus.record, EventBus.setQueue]
    | error reason =>
      exact ⟨[], .quiet bus (by simp [EventBus.step, attempt]) (fun _ _ => rfl) (.inl rfl)⟩
  | close sender =>
    exact ⟨[], .quiet bus (by simp [EventBus.step, EventBus.setQueue]) (fun _ _ => rfl) (.inl rfl)⟩

end Steps

section Queues

variable {queues : ℕ → ClientQueue π} {bus : EventBus π}

/-- What was put into a queue has been taken from it or is still in it, in the same order. -/
def EventBus.InOrder (queues : ℕ → ClientQueue π) (bus : EventBus π) : Prop :=
  ∀ sender, (queues sender).items ++ queuedOn sender bus.log =
    receivedFrom sender bus.log ++ (bus.queues sender).items

theorem queuedOn_append (sender : ℕ) (first second : List (BusEvent π)) :
    queuedOn sender (first ++ second) = queuedOn sender first ++ queuedOn sender second :=
  List.filterMap_append

theorem receivedFrom_append (sender : ℕ) (first second : List (BusEvent π)) :
    receivedFrom sender (first ++ second) = receivedFrom sender first ++ receivedFrom sender second :=
  List.filterMap_append

theorem ClientQueue.items_trySend {queue later : ClientQueue π} {event : ClientEvent π}
    (accepted : queue.trySend event = .ok later) : later.items = queue.items ++ [event] := by
  unfold ClientQueue.trySend at accepted
  split at accepted
  · cases accepted
  · split at accepted
    · cases accepted
    · cases accepted
      rfl

/-- One more event in one queue. -/
theorem EventBus.InOrder.queue (kept : bus.InOrder queues) {after : EventBus π} {sender : ℕ}
    {event : ClientEvent π} {noted : BusEvent π} {later : ClientQueue π}
    (accepted : (bus.queues sender).trySend event = .ok later) (log : after.log = bus.log ++ [noted])
    (entry : noted = .sent sender event ∨ ∃ clientId channel,
      noted = .handed clientId channel sender event)
    (stored : after.queues = Function.update bus.queues sender later) : after.InOrder queues := by
  intro other
  rw [log, queuedOn_append, receivedFrom_append, stored, ← List.append_assoc, kept other]
  by_cases same : sender = other
  · subst same
    rw [Function.update_self, ClientQueue.items_trySend accepted]
    rcases entry with rfl | ⟨clientId, channel, rfl⟩ <;> simp [queuedOn, receivedFrom]
  · rw [Function.update_of_ne (Ne.symm same)]
    rcases entry with rfl | ⟨clientId, channel, rfl⟩ <;> simp [queuedOn, receivedFrom, same]

theorem EventBus.InOrder.deliver (kept : bus.InOrder queues) (channel : EventChannel) (payload : π)
    (owner : Option (Option SessionId)) (clientId : ClientId) (subscriber : EventSubscriber) :
    (bus.deliver channel payload owner clientId subscriber).2.InOrder queues := by
  unfold EventBus.deliver
  split
  · dsimp only
    cases attempt : (bus.queues subscriber.sender).trySend (.of payload owner) with
    | ok queue => exact kept.queue attempt rfl (.inr ⟨clientId, channel, rfl⟩) rfl
    | error reason =>
      intro other
      simpa [EventBus.record, queuedOn, receivedFrom] using kept other
  · exact kept

theorem EventBus.InOrder.deliverAll (kept : bus.InOrder queues) (channel : EventChannel) (payload : π)
    (owner : Option (Option SessionId)) (targets : List (ClientId × EventSubscriber)) :
    (EventBus.deliverAll channel payload owner bus targets).2.InOrder queues := by
  induction targets generalizing bus with
  | nil => exact kept
  | cons target rest ih => exact ih (kept.deliver channel payload owner target.1 target.2)

theorem EventBus.InOrder.step (kept : bus.InOrder queues) (op : BusOp π) :
    (bus.step op).InOrder queues := by
  cases op with
  | message order message =>
    dsimp only [EventBus.step]
    split
    · exact kept
    · cases message with
      | publish payload channel => exact kept.deliverAll channel payload none _
      | publishExcept payload channel excluded => exact kept.deliverAll channel payload none _
      | publishSession payload channel owner => exact kept.deliverAll channel payload (some owner) _
      | publishSessionExcept payload channel owner excluded =>
        exact kept.deliverAll channel payload (some owner) _
      | _ => exact kept
  | receive sender =>
    dsimp only [EventBus.step]
    split
    · rename_i capacity event items content
      intro other
      rw [EventBus.setQueue, EventBus.record, queuedOn_append, receivedFrom_append]
      by_cases same : sender = other
      · subst same
        simpa [queuedOn, receivedFrom, content] using kept sender
      · simpa [queuedOn, receivedFrom, same, Function.update_of_ne (Ne.symm same)] using kept other
    · exact kept
  | send sender event =>
    dsimp only [EventBus.step]
    split
    · rename_i later attempt
      exact kept.queue attempt rfl (.inl rfl) rfl
    · exact kept
  | close sender =>
    intro other
    by_cases same : sender = other
    · subst same
      simpa [EventBus.step, EventBus.setQueue] using kept sender
    · simpa [EventBus.step, EventBus.setQueue, Function.update_of_ne (Ne.symm same)] using kept other

theorem EventBus.InOrder.run (kept : bus.InOrder queues) (ops : List (BusOp π)) :
    (bus.run ops).InOrder queues := by
  induction ops generalizing bus with
  | nil => exact kept
  | cons op rest ih => exact ih (kept.step op)

end Queues

section Runs

variable (bus : EventBus π)

theorem EventBus.run_log (ops : List (BusOp π)) : bus.log <+: (bus.run ops).log := by
  induction ops generalizing bus with
  | nil => exact List.prefix_rfl
  | cons op rest ih =>
    obtain ⟨delta, stepped⟩ := bus.step_stepped op
    exact (stepped.log ▸ List.prefix_append bus.log delta).trans (ih (bus.step op))

/-- A client that stays subscribed is handed all it is entitled to, operation after operation. -/
theorem EventBus.run_handed (ops : List (BusOp π)) {clientId : ClientId} {channel : EventChannel}
    (stays : ∀ count ≤ ops.length, (bus.run (ops.take count)).subs.Subscribed clientId channel) :
    handedTo clientId channel ((bus.run ops).logSince bus) =
      bus.entitledDuring clientId channel ops := by
  induction ops generalizing bus with
  | nil => simp [EventBus.run, EventBus.logSince, EventBus.entitledDuring, handedTo]
  | cons op rest ih =>
    obtain ⟨delta, stepped⟩ := bus.step_stepped op
    have first : handedTo clientId channel delta = bus.entitled clientId channel op :=
      stepped.given clientId channel (stays 1 (by simp)) (stays 0 (by simp))
    have later := ih (bus.step op) fun count bounded => stays (count + 1) (by simpa using bounded)
    obtain ⟨more, extended⟩ := (bus.step op).run_log rest
    have since : (bus.run (op :: rest)).logSince bus = delta ++ more := by
      have whole : (bus.run (op :: rest)).log = bus.log ++ (delta ++ more) := by
        rw [← List.append_assoc, ← stepped.log, extended]
        rfl
      rw [EventBus.logSince, whole, List.drop_left]
    have tail : ((bus.step op).run rest).logSince (bus.step op) = more := by
      rw [EventBus.logSince, ← extended, List.drop_left]
    rw [since, handedTo_append, first, ← tail, later]
    rfl

end Runs

end CueShell

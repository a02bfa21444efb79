import CueShell.Model.ClientConnection
import Mathlib.Data.List.Nodup

/-! # Events behind a response

What the fences are for is said by a monitor that reads the log of a connection. From the acceptance of
a switch, and from a foreground attach, no event is written until the response of that very request;
events that come meanwhile are owed to the client in their order, but for those that a switch has made
stale. Every log of a connection is one the monitor permits, and what it finds owed is in the queue.
-/

namespace CueShell

/-- What is known of a connection from its log: the fence that is up, the session, and the events that are
owed to the client. -/
structure FenceMonitor where
  pending : Option ClientEventFence
  binding : Option (Option String)
  owed : List NumberedEvent

namespace FenceMonitor

def initial : FenceMonitor := ⟨none, none, []⟩

/-- A switch is under way. -/
def switching (monitor : FenceMonitor) : Bool := monitor.pending.any (·.policy = .dropQueued)

/-- One entry. Events that are owed when a switch is accepted may be forgotten or not. -/
def observe (forgets : Bool) (monitor : FenceMonitor) : ConnectionEntry → FenceMonitor
  | .accepted request binding =>
      ⟨some ⟨request, .dropQueued⟩, some binding, if forgets then [] else monitor.owed⟩
  | .held request => { monitor with pending := some ⟨request, .holdQueued⟩ }
  | .queued event =>
      if monitor.switching = false ∧ eventAudienceMatches monitor.binding event.audience then
        { monitor with owed := monitor.owed ++ [event] }
      else monitor
  | .wrote _ => { monitor with owed := monitor.owed.tail }
  | .responded request _ =>
      if monitor.pending.any (·.request = request) then { monitor with pending := none } else monitor

/-- The log so far. -/
def reading (forgets : Bool) (log : List ConnectionEntry) : FenceMonitor :=
  log.foldl (observe forgets) initial

/-- Which entries may come next. An event is written behind no fence, to the session it belongs to and in
its turn; a response clears the fence of its own request and no other. -/
def Permits (monitor : FenceMonitor) : ConnectionEntry → Prop
  | .accepted _ _ | .held _ => monitor.pending = none
  | .queued _ => True
  | .wrote event => monitor.pending = none ∧ eventAudienceMatches monitor.binding event.audience ∧
      monitor.owed.head? = some event
  | .responded request cleared =>
      cleared = (monitor.pending.filter (·.request = request)).map (·.request)

theorem reading_snoc (forgets : Bool) (log : List ConnectionEntry) (entry : ConnectionEntry) :
    reading forgets (log ++ [entry]) = (reading forgets log).observe forgets entry := by
  rw [reading, List.foldl_append]
  rfl

/-- What is owed is what the queue holds for the client, when no switch is under way. -/
def Owes (monitor : FenceMonitor) (events : List NumberedEvent) : Prop :=
  monitor.owed =
    if monitor.switching then []
    else events.filter fun event => eventAudienceMatches monitor.binding event.audience

section Owes

variable {monitor : FenceMonitor} {events : List NumberedEvent} {request : ClientRequest} {event : NumberedEvent}

theorem switching_of_none (free : monitor.pending = none) : monitor.switching = false := by
  rw [switching, free]
  rfl

theorem owes_accepted (binding : Option String) : (monitor.observe true (.accepted request binding)).Owes events :=
  rfl

theorem Owes.held (owes : monitor.Owes events) (free : monitor.pending = none) :
    (monitor.observe true (.held request)).Owes events := by
  rw [Owes, switching_of_none free] at owes
  exact owes

theorem Owes.queued (owes : monitor.Owes events) (event : NumberedEvent) :
    (monitor.observe true (.queued event)).Owes (events ++ [event]) := by
  rw [observe]
  split
  · rename_i wanted
    rw [Owes, wanted.1, if_neg Bool.false_ne_true] at owes
    have kept : ({ monitor with owed := monitor.owed ++ [event] } : FenceMonitor).switching = false := wanted.1
    rw [Owes, kept, if_neg Bool.false_ne_true, List.filter_append, owes]
    simp [wanted.2]
  · rename_i unwanted
    rw [Owes] at owes ⊢
    cases switches : monitor.switching with
    | true => rwa [switches] at owes
    | false =>
      have other : eventAudienceMatches monitor.binding event.audience = false := by
        simpa [switches] using unwanted
      rw [switches, if_neg Bool.false_ne_true] at owes
      rw [if_neg Bool.false_ne_true, List.filter_append, owes]
      simp [other]

/-- The first event of the queue is for the client: it is the first that is owed. -/
theorem Owes.head (owes : monitor.Owes (event :: events)) (free : monitor.pending = none)
    (wanted : eventAudienceMatches monitor.binding event.audience = true) :
    monitor.owed.head? = some event := by
  rw [Owes, switching_of_none free, if_neg Bool.false_ne_true, List.filter_cons, if_pos wanted] at owes
  rw [owes, List.head?_cons]

theorem Owes.wrote (owes : monitor.Owes (event :: events)) (free : monitor.pending = none)
    (wanted : eventAudienceMatches monitor.binding event.audience = true) :
    (monitor.observe true (.wrote event)).Owes events := by
  have open' : (monitor.observe true (.wrote event)).switching = false := switching_of_none free
  rw [Owes, switching_of_none free, if_neg Bool.false_ne_true, List.filter_cons, if_pos wanted] at owes
  rw [Owes, open', if_neg Bool.false_ne_true]
  change monitor.owed.tail = _
  rw [owes, List.tail_cons]
  rfl

/-- The first event of the queue is not for the client. -/
theorem Owes.skip (owes : monitor.Owes (event :: events)) (free : monitor.pending = none)
    (other : eventAudienceMatches monitor.binding event.audience = false) : monitor.Owes events := by
  rw [Owes, switching_of_none free, if_neg Bool.false_ne_true] at owes ⊢
  rwa [List.filter_cons_of_neg (by simp [other])] at owes

theorem observe_own {forgets : Bool} {fence : ClientEventFence} (pending : monitor.pending = some fence)
    (cleared : Option ClientRequest) :
    monitor.observe forgets (.responded fence.request cleared) = { monitor with pending := none } := by
  rw [observe, pending]
  simp

/-- The response of a request that has the fence. Behind a switch nothing is owed. -/
theorem Owes.cleared {fence : ClientEventFence} {cleared : Option ClientRequest} (owes : monitor.Owes events)
    (pending : monitor.pending = some fence) :
    (monitor.observe true (.responded fence.request cleared)).Owes
      (if fence.policy = .dropQueued then [] else events) := by
  rw [observe_own pending, Owes, switching_of_none rfl, if_neg Bool.false_ne_true]
  rw [Owes, switching, pending] at owes
  by_cases drops : fence.policy = .dropQueued
  · rw [if_pos drops]
    simpa [drops] using owes
  · rw [if_neg drops]
    simpa [drops] using owes

end Owes

end FenceMonitor

namespace ClientConnection

open FenceMonitor

variable {connection : ClientConnection}

/-- The log is permitted from its start, and what is owed is still in the queue. -/
structure FollowsFence (forgets : Bool) (connection : ClientConnection) : Prop where
  permitted : ∀ front entry behind, connection.log = front ++ entry :: behind →
    (reading forgets front).Permits entry
  kept : ∀ event ∈ (reading forgets connection.log).owed, event ∈ connection.events

/-- The requests whose response has not been written. -/
def openRequests (connection : ClientConnection) : List ClientRequest :=
  (match connection.stage with
    | .idle => []
    | .routing request | .accepted request _ | .bound request => [request]) ++
    connection.awaiting ++ connection.responses

/-- The fence that the monitor sees, and the session: between the acceptance of a switch and its fence the
connection is behind. -/
def Agrees (connection : ClientConnection) (monitor : FenceMonitor) : Prop :=
  match connection.stage with
  | .idle => monitor.pending = connection.fence ∧ monitor.binding = connection.binding
  | .routing _ => monitor.pending = none ∧ connection.fence = none ∧
      monitor.binding = connection.binding
  | .accepted request binding => monitor.pending = some ⟨request, .dropQueued⟩ ∧
      connection.fence = none ∧ monitor.binding = some binding
  | .bound request => monitor.pending = some ⟨request, .dropQueued⟩ ∧
      connection.fence = some ⟨request, .dropQueued⟩ ∧ monitor.binding = connection.binding

structure Tracked (connection : ClientConnection) : Prop where
  agrees : connection.Agrees (reading true connection.log)
  ids : (connection.openRequests.map ClientRequest.id).Nodup
  inflight : ∀ request ∈ connection.openRequests, request.id ∈ connection.inflight
  owner : ∀ fence, connection.fence = some fence → fence.request ∈ connection.openRequests
  owed : (reading true connection.log).Owes connection.events
  permitted : ∀ front entry behind, connection.log = front ++ entry :: behind →
    (reading true front).Permits entry

theorem tracked_initial : initial.Tracked where
  agrees := ⟨rfl, rfl⟩
  ids := List.nodup_nil
  inflight := fun _ member => by cases member
  owner := fun _ found => by cases found
  owed := rfl
  permitted := fun front _ _ split => by cases front <;> cases split

/-- One more entry. -/
theorem permitted_snoc {forgets : Bool} {log : List ConnectionEntry} {entry : ConnectionEntry}
    (before : ∀ front entry behind, log = front ++ entry :: behind → (reading forgets front).Permits entry)
    (permits : (reading forgets log).Permits entry) :
    ∀ front other behind, log ++ [entry] = front ++ other :: behind →
      (reading forgets front).Permits other := by
  intro front other behind split
  rcases List.eq_nil_or_concat behind with rfl | ⟨rest, last, rfl⟩
  · obtain ⟨rfl, same⟩ := List.append_inj' split rfl
    cases same
    exact permits
  · rw [List.concat_eq_append, ← List.cons_append, ← List.append_assoc] at split
    exact before front other rest (List.append_inj' split rfl).1

theorem openRequests_idle (idle : connection.stage = .idle) :
    connection.openRequests = connection.awaiting ++ connection.responses := by
  rw [openRequests, idle]
  rfl

/-- Between two turns. -/
structure Rests (connection : ClientConnection) : Prop where
  pending : (reading true connection.log).pending = connection.fence
  binding : (reading true connection.log).binding = connection.binding
  ids : ((connection.awaiting ++ connection.responses).map ClientRequest.id).Nodup
  inflight : ∀ request ∈ connection.awaiting ++ connection.responses, request.id ∈ connection.inflight
  owner : ∀ fence, connection.fence = some fence →
    fence.request ∈ connection.awaiting ++ connection.responses
  owed : (reading true connection.log).Owes connection.events
  permitted : ∀ front entry behind, connection.log = front ++ entry :: behind →
    (reading true front).Permits entry

theorem Tracked.rests (tracked : connection.Tracked) (idle : connection.stage = .idle) : connection.Rests := by
  have agrees := tracked.agrees
  rw [Agrees, idle] at agrees
  have same := openRequests_idle idle
  exact
    { pending := agrees.1
      binding := agrees.2
      ids := same ▸ tracked.ids
      inflight := same ▸ tracked.inflight
      owner := same ▸ tracked.owner
      owed := tracked.owed
      permitted := tracked.permitted }

theorem Rests.tracked (rests : connection.Rests) (idle : connection.stage = .idle) : connection.Tracked := by
  have same := openRequests_idle idle
  exact
    { agrees := by
        rw [Agrees, idle]
        exact ⟨rests.pending, rests.binding⟩
      ids := same ▸ rests.ids
      inflight := same ▸ rests.inflight
      owner := same ▸ rests.owner
      owed := rests.owed
      permitted := rests.permitted }

theorem Tracked.receive (tracked : connection.Tracked) (requestId : UInt32) (kind : RequestKind) :
    (connection.receive requestId kind).Tracked := by
  unfold ClientConnection.receive
  split
  · exact tracked
  rename_i ready
  simp only [not_or, ne_eq, not_not, Bool.not_eq_true] at ready
  obtain ⟨idle, fenced, -⟩ := ready
  have none : connection.fence = none := by simpa [clientEventFenced] using fenced
  have rests := tracked.rests idle
  have pending := rests.pending.trans none
  cases reserved : connection.reserveRequestId requestId with
  | none =>
    exact ⟨tracked.agrees, tracked.ids, tracked.inflight, tracked.owner, tracked.owed, tracked.permitted⟩
  | some next =>
    rw [reserveRequestId] at reserved
    split at reserved
    · cases reserved
    split at reserved
    · cases reserved
    rename_i fresh
    cases reserved
    have ids : ((⟨connection.nextRequest, requestId⟩ ::
        (connection.awaiting ++ connection.responses)).map ClientRequest.id).Nodup := by
      rw [List.map_cons, List.nodup_cons]
      refine ⟨fun member => ?_, rests.ids⟩
      obtain ⟨request, listed, same⟩ := List.mem_map.mp member
      have taken := rests.inflight request listed
      rw [same] at taken
      exact fresh taken
    have inflight : ∀ request ∈ (⟨connection.nextRequest, requestId⟩ : ClientRequest) ::
        (connection.awaiting ++ connection.responses), request.id ∈ requestId :: connection.inflight := by
      intro request member
      rcases List.mem_cons.mp member with rfl | listed
      · exact List.mem_cons_self
      · exact List.mem_cons_of_mem _ (rests.inflight request listed)
    have unowned : ∀ fence, connection.fence = some fence → fence.request ∈
        (⟨connection.nextRequest, requestId⟩ : ClientRequest) ::
          (connection.awaiting ++ connection.responses) := by
      intro fence found
      rw [none] at found
      cases found
    cases kind with
    | session =>
      exact
        { agrees := ⟨pending, none, rests.binding⟩
          ids := ids
          inflight := inflight
          owner := unowned
          owed := rests.owed
          permitted := rests.permitted }
    | foreground =>
      have reads := reading_snoc true connection.log (.held ⟨connection.nextRequest, requestId⟩)
      refine Rests.tracked ?_ idle
      exact
        { pending := congrArg FenceMonitor.pending reads
          binding := (congrArg FenceMonitor.binding reads).trans rests.binding
          ids := ids
          inflight := inflight
          owner := fun fence found => by
            cases found
            exact List.mem_cons_self
          owed := by
            change (reading true (connection.log ++ [_])).Owes connection.events
            rw [reads]
            exact rests.owed.held pending
          permitted := permitted_snoc rests.permitted pending }
    | other =>
      exact Rests.tracked ⟨rests.pending, rests.binding, ids, inflight, unowned, rests.owed, rests.permitted⟩ idle

theorem Tracked.requests {requests : List ClientRequest} (tracked : connection.Tracked)
    (same : connection.openRequests = requests) :
    (requests.map ClientRequest.id).Nodup ∧ (∀ request ∈ requests, request.id ∈ connection.inflight) ∧
      ∀ fence, connection.fence = some fence → fence.request ∈ requests := by
  subst same
  exact ⟨tracked.ids, tracked.inflight, tracked.owner⟩

/-- An answer without a new binding leaves the request to be answered. -/
theorem Tracked.acceptSession (tracked : connection.Tracked) (binding : Option (Option String)) :
    (connection.acceptSession binding).Tracked := by
  unfold ClientConnection.acceptSession
  split
  · rename_i request binding routing
    have agrees := tracked.agrees
    rw [Agrees, routing] at agrees
    obtain ⟨pending, none, same⟩ := agrees
    have reads := reading_snoc true connection.log (.accepted request binding)
    obtain ⟨ids, inflight, owner⟩ := tracked.requests
      (show connection.openRequests = [request] ++ connection.awaiting ++ connection.responses by
        rw [openRequests, routing])
    exact
      { agrees := ⟨congrArg FenceMonitor.pending reads, none, congrArg FenceMonitor.binding reads⟩
        ids := ids
        inflight := inflight
        owner := owner
        owed := by
          change (reading true (connection.log ++ [_])).Owes connection.events
          rw [reads]
          exact owes_accepted binding
        permitted := permitted_snoc tracked.permitted pending }
  · rename_i request routing
    have agrees := tracked.agrees
    rw [Agrees, routing] at agrees
    obtain ⟨pending, none, same⟩ := agrees
    obtain ⟨ids, inflight, owner⟩ := tracked.requests
      (show connection.openRequests = [request] ++ connection.awaiting ++ connection.responses by
        rw [openRequests, routing])
    refine Rests.tracked ?_ rfl
    exact ⟨pending.trans none.symm, same, ids, inflight,
      owner, tracked.owed, tracked.permitted⟩
  · exact tracked

theorem Tracked.prepareClientBinding (tracked : connection.Tracked) :
    connection.prepareClientBinding.Tracked := by
  unfold ClientConnection.prepareClientBinding
  split
  · rename_i request binding accepted
    have agrees := tracked.agrees
    rw [Agrees, accepted] at agrees
    obtain ⟨pending, none, same⟩ := agrees
    obtain ⟨ids, inflight, owner⟩ := tracked.requests
      (show connection.openRequests = [request] ++ connection.awaiting ++ connection.responses by
        rw [openRequests, accepted])
    exact
      { agrees := ⟨pending, rfl, same⟩
        ids := ids
        inflight := inflight
        owner := fun fence found => by
          cases found
          exact List.mem_cons_self
        owed := tracked.owed
        permitted := tracked.permitted }
  · exact tracked

theorem Tracked.routed (tracked : connection.Tracked) : connection.routed.Tracked := by
  unfold ClientConnection.routed
  split
  · rename_i request bound
    have agrees := tracked.agrees
    rw [Agrees, bound] at agrees
    obtain ⟨pending, fence, same⟩ := agrees
    obtain ⟨ids, inflight, owner⟩ := tracked.requests
      (show connection.openRequests = [request] ++ connection.awaiting ++ connection.responses by
        rw [openRequests, bound])
    refine Rests.tracked ?_ rfl
    exact ⟨pending.trans fence.symm, same, ids, inflight,
      owner, tracked.owed, tracked.permitted⟩
  · exact tracked

theorem Tracked.queueResponse (tracked : connection.Tracked) (request : ClientRequest) :
    (connection.queueResponse request).Tracked := by
  unfold ClientConnection.queueResponse
  split
  · rename_i waits
    split
    · exact ⟨tracked.agrees, tracked.ids, tracked.inflight, tracked.owner, tracked.owed, tracked.permitted⟩
    · -- The request moves from one list to the other.
      have moved : (connection.awaiting.erase request ++ (connection.responses ++ [request])).Perm
          (connection.awaiting ++ connection.responses) := by
        rw [← List.append_assoc]
        refine List.perm_append_comm.trans ?_
        rw [← List.append_assoc]
        exact (List.perm_cons_erase waits.1).symm.append_right _
      have same : ∀ front : List ClientRequest,
          (front ++ connection.awaiting.erase request ++ (connection.responses ++ [request])).Perm
            (front ++ connection.awaiting ++ connection.responses) := fun front => by
        rw [List.append_assoc, List.append_assoc]
        exact moved.append_left front
      exact
        { agrees := tracked.agrees
          ids := ((same _).map _).nodup_iff.mpr tracked.ids
          inflight := fun other member => tracked.inflight other ((same _).mem_iff.mp member)
          owner := fun fence found => (same _).mem_iff.mpr (tracked.owner fence found)
          owed := tracked.owed
          permitted := tracked.permitted }
  · exact tracked

theorem Tracked.queueEvent (tracked : connection.Tracked) (audience : ClientEventAudience) :
    (connection.queueEvent audience).Tracked := by
  unfold ClientConnection.queueEvent
  split
  · exact ⟨tracked.agrees, tracked.ids, tracked.inflight, tracked.owner, tracked.owed, tracked.permitted⟩
  · have reads := reading_snoc true connection.log (.queued ⟨connection.nextEvent, audience⟩)
    have same : ∀ monitor : FenceMonitor, ∀ event,
        (monitor.observe true (.queued event)).pending = monitor.pending ∧
          (monitor.observe true (.queued event)).binding = monitor.binding := by
      intro monitor event
      rw [observe]
      split <;> exact ⟨rfl, rfl⟩
    have agrees : connection.Agrees (reading true (connection.log ++
        [.queued ⟨connection.nextEvent, audience⟩])) := by
      have before := tracked.agrees
      unfold Agrees at before ⊢
      rw [reads, (same _ _).1, (same _ _).2]
      exact before
    exact
      { agrees := agrees
        ids := tracked.ids
        inflight := tracked.inflight
        owner := tracked.owner
        owed := by
          change (reading true (connection.log ++ [_])).Owes (connection.events ++ [_])
          rw [reads]
          exact tracked.owed.queued _
        permitted := permitted_snoc tracked.permitted trivial }

theorem Tracked.writeEvent (tracked : connection.Tracked) : connection.writeEvent.Tracked := by
  unfold ClientConnection.writeEvent
  split
  · rename_i event rest idle _ events
    split
    · exact tracked
    rename_i unfenced
    have none : connection.fence = none := by simpa [clientEventFenced] using unfenced
    have rests := tracked.rests idle
    have pending := rests.pending.trans none
    have owed := rests.owed
    rw [events] at owed
    split
    · rename_i deliverable
      have wanted : eventAudienceMatches (reading true connection.log).binding event.audience = true := by
        rw [rests.binding]
        simpa [clientEventIsDeliverable, none] using deliverable
      have reads := reading_snoc true connection.log (.wrote event)
      refine Rests.tracked ?_ idle
      exact
        { pending := (congrArg FenceMonitor.pending reads).trans rests.pending
          binding := (congrArg FenceMonitor.binding reads).trans rests.binding
          ids := rests.ids
          inflight := rests.inflight
          owner := rests.owner
          owed := by
            change (reading true (connection.log ++ [_])).Owes rest
            rw [reads]
            exact owed.wrote pending wanted
          permitted := permitted_snoc rests.permitted ⟨pending, wanted, owed.head pending wanted⟩ }
    · rename_i undeliverable
      have other : eventAudienceMatches (reading true connection.log).binding event.audience = false := by
        rw [rests.binding]
        simpa [clientEventIsDeliverable, none] using undeliverable
      refine Rests.tracked ?_ idle
      exact
        { pending := rests.pending
          binding := rests.binding
          ids := rests.ids
          inflight := rests.inflight
          owner := rests.owner
          owed := owed.skip pending other
          permitted := rests.permitted }
  · exact tracked

/-- A response without a fence of its id. -/
theorem completeClientEventFence_other {requestId : UInt32}
    (other : ∀ fence, connection.fence = some fence → fence.request.id ≠ requestId) :
    connection.completeClientEventFence requestId = connection := by
  unfold completeClientEventFence
  split
  · rfl
  · rename_i fence found
    rw [if_pos (other fence found)]

theorem completeClientEventFence_own {fence : ClientEventFence} (found : connection.fence = some fence) :
    connection.completeClientEventFence fence.request.id =
      { connection with
        events := if fence.policy = .dropQueued then [] else connection.events
        fence := none } := by
  rw [completeClientEventFence, found]
  simp

theorem Tracked.writeResponse (tracked : connection.Tracked) : connection.writeResponse.Tracked := by
  unfold ClientConnection.writeResponse
  split
  · rename_i request rest idle _ responses
    have rests := tracked.rests idle
    have ids := rests.ids
    rw [responses] at ids
    -- The fence has the id of the response when it is its own.
    have own : ∀ fence, connection.fence = some fence → fence.request.id = request.id →
        fence.request = request := by
      intro fence found same
      have here := rests.owner fence found
      rw [responses] at here
      exact List.inj_on_of_nodup_map ids here (by simp) same
    have remaining : ∀ other ∈ connection.awaiting ++ rest, other.id ∈ connection.inflight.erase request.id := by
      intro other member
      have listed := rests.inflight other (by
        rw [responses]
        rcases List.mem_append.mp member with here | there
        · exact List.mem_append_left _ here
        · exact List.mem_append_right _ (List.mem_cons_of_mem _ there))
      have differs : other.id ≠ request.id := by
        intro same
        rw [List.map_append, List.map_cons, List.nodup_middle, List.nodup_cons, ← List.map_append] at ids
        exact ids.1 (same ▸ List.mem_map_of_mem member)
      exact (List.mem_erase_of_ne differs).mpr listed
    have fewer : ((connection.awaiting ++ rest).map ClientRequest.id).Nodup :=
      ids.sublist (((List.sublist_cons_self request rest).append_left _).map _)
    dsimp only
    by_cases mine : ∃ fence, connection.fence = some fence ∧ fence.request.id = request.id
    · obtain ⟨fence, found, same⟩ := mine
      obtain rfl := own fence found same
      have pending := rests.pending.trans found
      have complete := completeClientEventFence_own
        (show ({ connection with responses := rest } : ClientConnection).fence = some fence from found)
      have reads := reading_snoc true connection.log (.responded fence.request (some fence.request))
      have cleared : (if (none : Option ClientEventFence) = connection.fence then none
          else connection.fence.map (·.request)) = some fence.request := by
        rw [found]
        rfl
      rw [complete]
      dsimp only
      rw [cleared]
      refine Rests.tracked ?_ idle
      exact
        { pending := congrArg FenceMonitor.pending (reads.trans (observe_own pending _))
          binding := (congrArg FenceMonitor.binding (reads.trans (observe_own pending _))).trans rests.binding
          ids := fewer
          inflight := remaining
          owner := fun fence found => by cases found
          owed := by
            change (reading true (connection.log ++ [_])).Owes _
            rw [reads]
            exact rests.owed.cleared pending
          permitted := permitted_snoc rests.permitted (by
            rw [Permits, pending]
            simp [Option.filter]) }
    · have other : ∀ fence, connection.fence = some fence → fence.request.id ≠ request.id :=
        fun fence found same => mine ⟨fence, found, same⟩
      have complete := completeClientEventFence_other
        (show ∀ fence, ({ connection with responses := rest } : ClientConnection).fence = some fence →
          fence.request.id ≠ request.id from other)
      have differs : ∀ fence, connection.fence = some fence → fence.request ≠ request :=
        fun fence found same => other fence found (congrArg ClientRequest.id same)
      have silent : connection.fence.any (·.request = request) = false := by
        cases found : connection.fence with
        | none => rfl
        | some fence => simpa using differs fence found
      have reads := reading_snoc true connection.log (.responded request none)
      rw [observe, rests.pending, silent, if_neg Bool.false_ne_true] at reads
      rw [complete, if_pos rfl]
      refine Rests.tracked ?_ idle
      exact
        { pending := (congrArg FenceMonitor.pending reads).trans rests.pending
          binding := (congrArg FenceMonitor.binding reads).trans rests.binding
          ids := fewer
          inflight := remaining
          owner := fun fence found => by
            have here := rests.owner fence found
            rw [responses, List.mem_append, List.mem_cons] at here
            rcases here with awaits | same | later
            · exact List.mem_append_left _ awaits
            · exact absurd same (differs fence found)
            · exact List.mem_append_right _ later
          owed := by
            change (reading true (connection.log ++ [_])).Owes connection.events
            rw [reads]
            exact rests.owed
          permitted := permitted_snoc rests.permitted (by
            rw [Permits, rests.pending]
            cases found : connection.fence with
            | none => rfl
            | some fence => simp [Option.filter, differs fence found]) }
  · exact tracked

theorem Tracked.step (tracked : connection.Tracked) (step : ConnectionStep) : (connection.step step).Tracked := by
  cases step with
  | receive requestId kind => exact tracked.receive requestId kind
  | acceptSession binding => exact tracked.acceptSession binding
  | prepareBinding => exact tracked.prepareClientBinding
  | routed => exact tracked.routed
  | queueResponse request => exact tracked.queueResponse request
  | writeResponse => exact tracked.writeResponse
  | admitEvent audience =>
    rw [ClientConnection.step, admitEvent]
    split
    · exact ⟨tracked.agrees, tracked.ids, tracked.inflight, tracked.owner, tracked.owed, tracked.permitted⟩
    · exact tracked
  | queueAdmitted =>
    rw [ClientConnection.step, queueAdmitted]
    split
    · exact tracked
    · refine Tracked.queueEvent ?_ _
      exact ⟨tracked.agrees, tracked.ids, tracked.inflight, tracked.owner, tracked.owed, tracked.permitted⟩
  | queueEvent audience => exact tracked.queueEvent audience
  | writeEvent => exact tracked.writeEvent
  | disconnect =>
    exact ⟨tracked.agrees, tracked.ids, tracked.inflight, tracked.owner, tracked.owed, tracked.permitted⟩

theorem tracked_run (steps : List ConnectionStep) : (run steps).Tracked := by
  have from_tracked : ∀ (steps : List ConnectionStep) (connection : ClientConnection), connection.Tracked →
      (steps.foldl ClientConnection.step connection).Tracked := by
    intro steps
    induction steps with
    | nil => exact fun _ tracked => tracked
    | cons step steps ih => exact fun connection tracked => ih _ (tracked.step step)
  exact from_tracked steps initial tracked_initial

/-- Whatever order the steps come in, the fences are kept. -/
theorem follows_fence (steps : List ConnectionStep) : (run steps).FollowsFence true where
  permitted := (tracked_run steps).permitted
  kept := fun event member => by
    rw [(tracked_run steps).owed] at member
    split at member
    · cases member
    · exact (List.mem_filter.mp member).1

/-- An event that was held behind a foreground attach is dropped by the switch that follows. -/
theorem switch_drops_held_event : ¬ ∀ steps, (run steps).FollowsFence false := by
  intro follows
  have kept := (follows [.receive 1 .session, .acceptSession (some none), .prepareBinding, .routed,
    .queueResponse ⟨0, 1⟩, .writeResponse, .receive 2 .foreground, .queueEvent (.session none),
    .queueResponse ⟨1, 2⟩, .writeResponse, .receive 3 .session, .acceptSession (some (some "S")),
    .prepareBinding, .routed, .queueResponse ⟨2, 3⟩, .writeResponse]).kept ⟨0, .session none⟩ (by decide)
  revert kept
  decide

end ClientConnection

end CueShell

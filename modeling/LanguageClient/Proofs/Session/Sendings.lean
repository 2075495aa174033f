import LanguageClient.Proofs.Session.Fates

/-!
# Sending a request

A call sends its request at the moment at which it turns to a task where it waits for the
answer. The request gets the next number, so nothing has been heard of it before, and the
time that the call waits is counted from this moment.
-/

namespace LanguageClient

variable {D : Type}

structure Moment.Sends (id : Nat) (task : Task) (w : Wait) (m : Moment D) : Prop where
  step : m.action = .goOn id ∨ m.before.calls.length = id ∧ exists op, m.action = .begin op
  turned : m.after.task? id = some task
  wait : task.wait? m.after.settings = some w

namespace Session

/-!
## The request
-/

/-- Call `id` has turned to a task and sent request `number` to connection `k`. The request
waits in the queue, unless the connection takes nothing any more. -/
structure Posted (id k number : Nat) (task : Task) (s u : Session D) : Prop where
  drawn : number = s.nextNumber
  next : u.nextNumber = s.nextNumber + 1
  held : forall j n, u.held j n = s.held j n
  queued : exists call, u.call? id = some call ∧ call.task = task ∧
    (call.mailbox = none ∧ (number, ⟨id, call.serial⟩) ∈ u.queued k ∨ u.queued k = s.queued k)

theorem sendRequest_posted {s : Session D} {id : Nat} {call : Call}
    (hcall : s.call? id = some call)
    (k : Nat) (method : String) (params : Json) (timeout : Nat) (task : Nat -> Nat -> Task) :
    Posted id k s.nextNumber (task s.nextNumber (s.now + timeout)) s
      (s.sendRequest id k method params timeout task) := by
  have hcall' : { s with nextNumber := s.nextNumber + 1 }.call? id = some call := hcall
  refine ⟨rfl, nextNumber_ask hcall' k _ _, held_ask hcall' k _ _, ?_⟩
  refine ⟨{ call with
    task := task s.nextNumber (s.now + timeout)
    serial := call.serial + 1
    mailbox := if s.isAlive k then none else some .dropped }, ?_, rfl, ?_⟩
  · rw [sendRequest, ask_eq hcall', call?_enqueue, call?_modifyCall, if_pos rfl, hcall']
    rfl
  · have hqueued : (s.sendRequest id k method params timeout task).queued k =
        s.queued k ++ if s.isAlive k = true ∧ k = k then
          [(s.nextNumber, ⟨id, call.serial + 1⟩)] else [] := queued_ask hcall' k _ _ k
    rw [hqueued]
    by_cases halive : s.isAlive k = true
    · simp [halive]
    · simp [halive]

theorem Turn.posted {id : Nat} {allowed : Task -> Prop} {s u : Session D} {call : Call}
    (h : Turn id allowed s u) (hcall : s.call? id = some call) {task : Task} {k number : Nat}
    (htask : u.task? id = some task) (hrequest : task.request? = some (k, number)) :
    Posted id k number task s u := by
  cases h with
  | rest task' hallowed hnone =>
      rw [(setTask_turned hcall hnone).task?, if_pos rfl] at htask
      cases Option.some.inj htask
      cases hnone.symm.trans hrequest
  | ask j question task' hallowed hnone hplain =>
      rw [task?_ask hcall j question task', if_pos rfl] at htask
      cases Option.some.inj htask
      cases hnone.symm.trans hrequest
  | send j method params timeout next hallowed hnext =>
      rw [(sendRequest_turned hcall j method params timeout next hnext).task?,
        if_pos rfl] at htask
      cases Option.some.inj htask
      cases (hnext _ _).symm.trans hrequest
      exact sendRequest_posted hcall k method params timeout next

theorem Reacts.posted {id : Nat} {allowed : Task -> Prop} {s u : Session D} {call : Call}
    (h : Reacts id allowed s u) (hcall : s.call? id = some call) {task : Task} {k number : Nat}
    (htask : u.task? id = some task) (hrequest : task.request? = some (k, number)) :
    Posted id k number task s u := by
  rcases h with ⟨t, hsame, hturn⟩
  have hposted := hturn.posted ((hsame.call? id).trans hcall) htask hrequest
  refine ⟨hposted.drawn.trans hsame.nextNumber, ?_, fun j n => ?_, ?_⟩
  · rw [hposted.next, hsame.nextNumber]
  · rw [hposted.held, hsame.held]
  · rw [← hsame.queued]
    exact hposted.queued

end Session

theorem Moment.Sends.posted [FileSystem D] {id : Nat} {task : Task} {w : Wait} {m : Moment D}
    (h : m.Sends id task w) (hact : m.before.act m.action = some m.after) :
    Session.Posted id w.connection w.number task m.before m.after := by
  have hrequest := Task.request?_of_wait? h.wait
  rcases h.step with haction | ⟨rfl, op, haction⟩
  · rw [haction] at hact
    simp only [Session.act, Session.stepCall] at hact
    split at hact
    case h_2 => contradiction
    case h_1 call hcall => exact (Session.stepTask_reacts hact).posted hcall h.turned hrequest
  · rw [haction] at hact
    have hafter : m.before.addCall.begin m.before.calls.length op = m.after :=
      Option.some.inj hact
    have hreacts := hafter ▸ Session.begin_reacts m.before.addCall op op.admits
    rcases hreacts.posted m.before.call?_addCall h.turned hrequest with
      ⟨hnumber, hnext, hheld, hqueued⟩
    exact ⟨hnumber, hnext, hheld, hqueued⟩

/-- Only a step of a call sends a request. -/
theorem Moment.sender_of_sent {m : Moment D} {id k number : Nat}
    (h : .sent id k number ∈ m.happenings) :
    exists j, (m.action = .goOn j ∨ m.before.calls.length = j ∧ exists op,
      m.action = .begin op) ∧
      .sent id k number ∈ m.after.sending j := by
  rcases m with ⟨s, a, u⟩
  cases a with
  | begin op =>
      rcases List.mem_cons.mp h with hbegan | hsending
      · contradiction
      · exact ⟨_, Or.inr ⟨rfl, op, rfl⟩, hsending⟩
  | goOn j => exact ⟨j, Or.inl rfl, h⟩
  | serve j =>
      rcases Session.mem_betweenStates h with ⟨c, c', _, _, hmem⟩
      rcases List.mem_append.mp hmem with hserved | hending
      · unfold Connection.served at hserved
        split at hserved
        · unfold Command.meaning at hserved
          split at hserved
          · split at hserved <;> simp at hserved
          · simp at hserved
          · contradiction
        · contradiction
      · cases Connection.ended_of_mem_ending hending
  | takeIn j =>
      rcases Session.mem_betweenStates h with ⟨c, c', _, _, hmem⟩
      rcases List.mem_append.mp hmem with htaken | hending
      · unfold Connection.takenIn Connection.heard at htaken
        repeat' split at htaken
        all_goals simp at htaken
      · cases Connection.ended_of_mem_ending hending
  | noticeExit j | expire j =>
      rcases Session.mem_betweenStates h with ⟨c, c', _, _, hending⟩
      cases Connection.ended_of_mem_ending hending
  | _ => contradiction

theorem exists_sends_of_recorded {moments : List (Moment D)} {id k number : Nat}
    (h : .sent id k number ∈ chronicle moments) :
    exists earlier m later task w, moments = earlier ++ m :: later ∧ m.Sends id task w ∧
      w.connection = k ∧ w.number = number := by
  rcases List.append_of_mem h with ⟨before, after, hrecord⟩
  rcases exists_moment_of_recorded hrecord with ⟨earlier, m, later, left, right, hsplit, hm, _⟩
  have hmem : .sent id k number ∈ m.happenings := by
    rw [hm]
    exact List.mem_append_right _ List.mem_cons_self
  rcases m.sender_of_sent hmem with ⟨j, hstep, hsending⟩
  rw [Session.sending] at hsending
  split at hsending
  case h_2 => contradiction
  case h_1 j' n hrequest =>
    cases List.mem_singleton.mp hsending
    rcases Option.bind_eq_some_iff.mp hrequest with ⟨call, hcall, hrequest⟩
    rcases call.task.exists_wait?_of_request? m.after.settings hrequest with ⟨w, hw, hk, hn⟩
    exact ⟨earlier, m, later, call.task, w, hsplit, ⟨hstep, Session.task?_of_call? hcall, hw⟩,
      hk, hn⟩

namespace Session

section

variable [FileSystem D] {settings : Settings} {processId : Nat} {workspace : Workspace D}
  {moments : List (Moment D)} {s : Session D} {m : Moment D} {k number : Nat}

/-!
## Nothing has been heard of it
-/

theorem Course.not_sent_next
    (course : Course (Session.new settings processId workspace) moments s) (id k : Nat) :
    .sent id k s.nextNumber ∉ chronicle moments := fun hsent =>
  Nat.lt_irrefl _ (course.sound.numbered.drawn_lt _ (List.mem_filterMap.mpr ⟨_, hsent, rfl⟩))

theorem Course.sent_of_renounces
    (course : Course (Session.new settings processId workspace) moments m.before)
    (h : m.Renounces k number) :
    exists id, m.action = .goOn id ∧ .sent id k number ∈ chronicle moments := by
  rcases h with ⟨id, call, w, failure, haction, hcall, hwait, rfl, rfl, _⟩
  exact ⟨id, haction, course.sent (task?_of_call? hcall) (Task.request?_of_wait? hwait)⟩

theorem Course.not_renounces_next
    (course : Course (Session.new settings processId workspace) moments s) (k : Nat) :
    forall g, g ∈ moments -> ¬ g.Renounces k s.nextNumber := by
  intro g hg hrenounces
  rcases List.append_of_mem hg with ⟨earlier, later, rfl⟩
  rcases course.split.1.sent_of_renounces hrenounces with ⟨id, _, hsent⟩
  refine course.not_sent_next id k ?_
  rw [chronicle_append]
  exact List.mem_append_left _ hsent

theorem Course.not_written_next
    (course : Course (Session.new settings processId workspace) moments s) (k : Nat) :
    isWritten k s.nextNumber moments = false := by
  refine Bool.eq_false_iff.mpr fun hwritten => ?_
  rcases course.registered_of_isWritten hwritten with ⟨t, ht⟩
  exact course.not_sent_next t.call k (course.sound.numbered.taken_sent _ k _ t ht rfl)

end

end Session

namespace Moment.Sends

variable [FileSystem D] {id : Nat} {task : Task} {w : Wait} {m : Moment D}

theorem letters_eq_nil (h : m.Sends id task w) (hact : m.before.act m.action = some m.after)
    (k : Nat) :
    m.letters k = [] := by
  have hcalls : m.ofCall = true := by
    rcases h.step with haction | ⟨_, op, haction⟩ <;> rw [ofCall, haction]
  cases Session.fares_of_act hact k with
  | still served dispatched written => exact letters_of_still written
  | takesIn c c' e message rest before served dispatched phase step after =>
      rw [ofCall, (action_of_dispatched? dispatched).1] at hcalls
      contradiction
  | serves c c' e command rest before served dispatched phase queue step after =>
      rw [ofCall, (action_of_served? served).1] at hcalls
      contradiction

theorem now_eq (h : m.Sends id task w) (hact : m.before.act m.action = some m.after) :
    m.after.now = m.before.now := by
  have hpause : m.pause = 0 := by
    rcases h.step with haction | ⟨_, op, haction⟩ <;> rw [pause, haction]
  exact (Session.now_of_act hact).trans (congrArg (m.before.now + ·) hpause)

end Moment.Sends

/-!
## How long a call waits
-/

namespace Session

theorem LifecycleStep.deadline {s : Session D} {id : Nat} {call : Call} {task task' : Task}
    {effects : List (Effect D)} {w : Wait} (h : LifecycleStep s id call task effects)
    (hlast : Effect.lastTask? effects = some task') (hwait : task'.wait? s.settings = some w) :
    w.deadline = s.now + w.timeout := by
  cases h with
  | launched launch turn dead =>
      rw [Effect.lastTask?_append] at hlast
      cases hlast
      cases hwait
      rfl
  | askedToShutDown force k turn alive =>
      cases hlast
      cases hwait
      rfl
  | refused launch reason turn dead =>
      rw [Effect.lastTask?_append] at hlast
      cases hlast
      contradiction
  | notIntroduced k number deadline reason before givesUp =>
      rw [Effect.lastTask?_append] at hlast
      cases hlast
      contradiction
  | sentExit k force number deadline before givesUp =>
      rw [Effect.lastTask?_append] at hlast
      cases hlast
      contradiction
  | _ =>
      cases hlast
      contradiction

theorem deadline_of_abides {l : Licence} {effects : List (Effect D)} {task : Task} {w : Wait}
    {settings : Settings} (h : forall e, e ∈ effects -> e.Abides l)
    (hlast : Effect.lastTask? effects = some task) (hwait : task.wait? settings = some w) :
    w.deadline = l.now + w.timeout := by
  rcases lastTask?_of_abides h hlast with
    ⟨outcome, rfl⟩ | hadmits | ⟨k, method, timeout, _, _, rfl⟩
  · contradiction
  · cases hadmits.idle.symm.trans (Task.request?_of_wait? hwait)
  · cases hwait
    rfl

theorem idle_of_waits [FileSystem D] {s u : Session D} {id : Nat} {call : Call} {task : Task}
    {request : Nat × Nat} (hcall : s.call? id = some call)
    (h : s.stepTask id call call.task = some u) (htask : u.task? id = some task)
    (hrequest : task.request? = some request) : call.task.request? = none := by
  cases hbefore : call.task.request? with
  | none => rfl
  | some request =>
      rcases call.task.exists_wait?_of_request? s.settings hbefore with ⟨w, hwait, _⟩
      rcases waiting_stops hwait h with ⟨answer, before, after, hstops, hu⟩
      have hafter : u.task? id = some (call.task.concluded answer) := hu ▸ hstops.task? hcall
      rw [htask] at hafter
      cases Option.some.inj hafter
      cases (Task.request?_concluded answer).symm.trans hrequest

theorem deadline_of_stepTask [FileSystem D] {s u : Session D} {id : Nat} {call : Call}
    {task : Task}
    {w : Wait} (hcall : s.call? id = some call) (h : s.stepTask id call call.task = some u)
    (htask : u.task? id = some task) (hwait : task.wait? s.settings = some w) :
    w.deadline = s.now + w.timeout := by
  have hrequest := Task.request?_of_wait? hwait
  have hidle := idle_of_waits hcall h htask hrequest
  have hturned {effects : List (Effect D)} (hu : u = s.undergo id effects) :
      Effect.lastTask? effects = some task := by
    rcases task?_of_undergo (lt_of_call? hcall) (hu ▸ htask) with hold | ⟨_, hlast⟩
    · cases Option.some.inj ((task?_of_call? hcall).symm.trans hold)
      cases hidle.symm.trans hrequest
    · exact hlast
  cases hlife : call.task.isLifecycle with
  | true =>
      rcases stepTask_lifecycleStep hlife h with ⟨effects, hstep, hu⟩
      exact hstep.deadline (hturned hu) hwait
  | false =>
      rcases stepTask_abiding hlife h with ⟨effects, habides, hu⟩
      exact deadline_of_abides habides (hturned hu) hwait

theorem deadline_of_begin {s : Session D} {op : Operation} {task : Task} {w : Wait}
    {settings : Settings} (htask : (s.beginCall op).task? s.calls.length = some task)
    (hwait : task.wait? settings = some w) : w.deadline = s.now + w.timeout := by
  have hturned {effects : List (Effect D)}
      (hu : s.beginCall op = s.addCall.undergo s.calls.length effects) :
      Effect.lastTask? effects = some task := by
    rcases task?_of_undergo s.calls_length_lt_addCall (hu ▸ htask) with hfresh | ⟨_, hlast⟩
    · rw [task?_addCall, if_pos rfl] at hfresh
      cases hfresh
      contradiction
    · exact hlast
  have hother (hstart : forall launch, op ≠ .start launch)
      (hstop : forall force, op ≠ .stop force) :
      w.deadline = s.now + w.timeout := by
    rcases s.addCall.begin_abiding s.calls.length op hstart hstop with ⟨effects, habides, hu⟩
    exact deadline_of_abides habides (hturned hu) hwait
  cases op with
  | start launch =>
      cases @hturned [.lineUp, .rest (.starting launch)] rfl
      contradiction
  | stop force =>
      cases @hturned [.lineUp, .rest (.stopping force)] rfl
      contradiction
  | _ => exact hother (by simp) (by simp)

end Session

theorem Moment.Sends.deadline [FileSystem D] {id : Nat} {task : Task} {w : Wait} {m : Moment D}
    (h : m.Sends id task w) (hact : m.before.act m.action = some m.after) :
    w.deadline = m.before.now + w.timeout := by
  have hwait : task.wait? m.before.settings = some w := Session.settings_of_act hact ▸ h.wait
  rcases h.step with haction | ⟨rfl, op, haction⟩
  · rw [haction] at hact
    simp only [Session.act, Session.stepCall] at hact
    split at hact
    case h_2 => contradiction
    case h_1 call hcall => exact Session.deadline_of_stepTask hcall hact h.turned hwait
  · rw [haction] at hact
    have hafter : m.before.beginCall op = m.after := Option.some.inj hact
    exact Session.deadline_of_begin (hafter ▸ h.turned) hwait

/-- How long a call waits for an answer: a request as long as its user says, but no less
than a tenth of a second and no more than five minutes; a stop five seconds; any other call
as long as the session says.
-/
def Operation.patience (settings : Settings) : Operation -> Nat
  | .request _ _ (some ms) => max 100 (min ms (5 * 60 * 1000))
  | .stop _ => 5000
  | _ => settings.defaultTimeoutMs

theorem Operation.patience_of_role {op : Operation} (h : op.role ≠ .stop)
    (settings : Settings) :
    Session.effectiveTimeout settings op = op.patience settings := by
  cases op with
  | stop force => exact absurd rfl h
  | request method params timeout =>
      cases timeout with
      | none => rfl
      | some ms => exact Limit.clamp_eq (by decide) ms
  | _ => rfl

/-- Whoever waits for an answer waits as long as the operation says. -/
theorem Session.Course.patience [FileSystem D] {settings : Settings} {processId : Nat}
    {workspace : Workspace D} {moments : List (Moment D)} {s : Session D}
    (course : Course (Session.new settings processId workspace) moments s) {id : Nat}
    {task : Task}
    {w : Wait} (htask : s.task? id = some task) (hwait : task.wait? s.settings = some w) :
    exists op, Began moments id op ∧ w.timeout = op.patience settings := by
  rcases course.cast id task htask with ⟨op, hop, hhosts⟩
  have hsettings : s.settings = settings := course.keeps_settings
  refine ⟨op, hop, ?_⟩
  cases task with
  | requesting k number method timeout deadline =>
      cases hwait
      have hrole : op.role = .other := hhosts.role_eq rfl
      rw [hhosts.limit _ _ _ _ _ rfl, Operation.patience_of_role (by rw [hrole]; decide)]
  | introducing k number deadline =>
      cases hwait
      have hrole : op.role = .start := hhosts.role_eq rfl
      cases op with
      | start launch => exact congrArg Settings.defaultTimeoutMs hsettings
      | _ => contradiction
  | shuttingDown k force number deadline =>
      cases hwait
      have hrole : op.role = .stop := hhosts.role_eq rfl
      cases op with
      | stop force => rfl
      | _ => contradiction
  | _ => contradiction

end LanguageClient

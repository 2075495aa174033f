import LanguageClient.Proofs.Session.Lives
import LanguageClient.Proofs.Session.Requests
import LanguageClient.Proofs.Session.Tickets

/-!
# All endings are alike

However a connection ends, whoever waits for it learns so, once: unanswered requests
fail with one error, which says whether the end was wanted, and commands that were not
served are dropped. The connection publishes one last event that goes with the error,
and is silent from then on.
-/

namespace LanguageClient

def Failure.lastEvent? : Failure -> Option Event
  | .serverStopped => some .stopped
  | .serverExited code => some (.exited code)
  | _ => none

namespace Connection

theorem lastEvent?_endError (c : Connection) (code : Option Int) :
    (c.endError code).lastEvent? = some (c.endEvent code) := by
  rw [Connection.endError, Connection.endEvent]
  split <;> rfl

theorem isTerminal_endEvent (c : Connection) (code : Option Int) :
    (c.endEvent code).isTerminal = true := by
  rw [Connection.endEvent]
  split <;> rfl

section

variable {now : Nat} {c c' : Connection} {e : Emitted} {code : Option Int}
    {asker : Option Ticket}
  {unserved : List Command} (h : Ends now c c' e code asker unserved)

include h

theorem Ends.terminated_mem {t : Ticket} (ht : asker = some t) :
    (t, .terminated) ∈ e.answers := by
  rw [h.answers, ht]
  exact List.mem_cons_self

theorem Ends.failed_mem {number : Nat} {t : Ticket} (ht : (number, t) ∈ c.pending.entries) :
    (t, .response (.error (c.endError code))) ∈ e.answers := by
  rw [h.answers]
  exact List.mem_append_right _ (List.mem_append_left _ (List.mem_map.mpr ⟨_, ht, rfl⟩))

theorem Ends.dropped_mem {command : Command} {t : Ticket} (hcommand : command ∈ unserved)
    (ht : command.ticket? = some t) : (t, .dropped) ∈ e.answers := by
  rw [h.answers]
  refine List.mem_append_right _ (List.mem_append_right _ (List.mem_map.mpr ⟨t, ?_, rfl⟩))
  exact List.mem_filterMap.mpr ⟨command, hcommand, ht⟩

end

end Connection

/-- What a call takes it for when its question is dropped: for the answer that no server is
running. Asked whether a document is open, the answer is no, and counts are zero. -/
def Task.refusal? : Task -> Option Answer
  | .introducing .. | .shuttingDown .. | .requesting .. =>
    some (.response (.error .notRunning))
  | .announcing _ | .exiting .. | .notifying | .saving .. =>
    some (.written (.error .notRunning))
  | .syncing _ => some (.synced (.error .notRunning))
  | .closing => some (.closed (.error .notRunning))
  | .checking .. => some (.isOpen false)
  | .counting _ => some (.counts 0 0)
  | .aborting _ | .terminating => some .terminated
  | _ => none

namespace Session

variable {D : Type}

/-!
## Hearing an answer
-/

section

variable {s : Session D} {t : Ticket} {call : Call} (hcall : s.call? t.call = some call)
  (hserial : call.serial = t.serial)

include hcall hserial

theorem call?_deliver_own (a : Answer) :
    (s.deliver t a).call? t.call = some { call with mailbox := some a } := by
  rw [deliver, call?_modifyCall, if_pos rfl, hcall, Option.map_some, if_pos hserial]

theorem call?_deliver_other {t' : Ticket} (ht : t' ≠ t) (a : Answer) :
    (s.deliver t' a).call? t.call = some call := by
  rw [deliver, call?_modifyCall, hcall]
  by_cases hid : t'.call = t.call
  · have hother : call.serial ≠ t'.serial := by
      intro h
      apply ht
      cases t
      cases t'
      simp_all
    rw [if_pos hid, Option.map_some, if_neg hother]
  · rw [if_neg hid]

theorem call?_deliverAll_other {answers : List (Ticket × Answer)}
    (hnone : t ∉ answers.map Prod.fst) : (s.deliverAll answers).call? t.call = some call := by
  induction answers generalizing s with
  | nil => exact hcall
  | cons answer rest ih =>
      rw [List.map_cons, List.mem_cons, not_or] at hnone
      exact ih (call?_deliver_other hcall hserial (Ne.symm hnone.1) answer.2) hnone.2

theorem call?_deliverAll {a : Answer} {answers : List (Ticket × Answer)}
    (ha : (t, a) ∈ answers) (honce : (answers.map Prod.fst).count t ≤ 1) :
    (s.deliverAll answers).call? t.call = some { call with mailbox := some a } := by
  induction answers generalizing s with
  | nil => exact nomatch ha
  | cons answer rest ih =>
      rcases answer with ⟨t', b⟩
      by_cases ht : t' = t
      · subst ht
        rw [List.map_cons, List.count_cons_self] at honce
        have hnone : t' ∉ rest.map Prod.fst := List.count_eq_zero.mp (by omega)
        have hb : a = b := by
          rcases List.mem_cons.mp ha with heq | hmem
          · exact (Prod.mk.inj heq).2
          · exact absurd (List.mem_map.mpr ⟨_, hmem, rfl⟩) hnone
        subst hb
        exact call?_deliverAll_other (call?_deliver_own hcall hserial a) hserial hnone
      · rw [List.map_cons, List.count_cons_of_ne ht] at honce
        have hrest : (t, a) ∈ rest := by
          rcases List.mem_cons.mp ha with heq | hmem
          · exact absurd (Prod.mk.inj heq).1.symm ht
          · exact hmem
        exact ih (call?_deliver_other hcall hserial ht b) hrest honce

end

theorem call?_emit {s : Session D} {k : Nat} (c' : Connection) {e : Emitted} {t : Ticket}
    {a : Answer} {call : Call} (hcall : s.call? t.call = some call)
    (hserial : call.serial = t.serial) (ha : (t, a) ∈ e.answers)
    (honce : (e.answers.map Prod.fst).count t ≤ 1) :
    ((s.setConnection k c').emit e).call? t.call = some { call with mailbox := some a } :=
  call?_deliverAll (s := s.setConnection k c') hcall hserial ha honce

/-!
## The bus
-/

theorem toList_publish (bus : EventBus) (events : List Event) :
    (events.foldl EventBus.publish bus).log.toList = bus.log.toList ++ events := by
  induction events generalizing bus with
  | nil => exact (List.append_nil _).symm
  | cons event rest ih =>
      rw [List.foldl_cons, ih, EventBus.publish, Array.toList_push, List.append_assoc]
      rfl

theorem bus_of_kind {m : Moment D} (h : m.Kind) :
    m.after.bus.log.toList = m.before.bus.log.toList ++ m.events := by
  have hnothing (hquiet : m.emitted? = none) (hbus : m.after.bus = m.before.bus) :
      m.after.bus.log.toList = m.before.bus.log.toList ++ m.events := by
    rw [hbus, Moment.events, hquiet, List.append_nil]
  cases h with
  | connection k c c' e hemitted hc halive hproceeds hafter haction =>
      rcases (m.before.setConnection k c').emit_eq e with ⟨calls, -, heq⟩
      rw [hafter, heq, toList_publish, Moment.events, hemitted]
      rfl
  | begins op effects haction hfirst hafter =>
      exact hnothing (Moment.emitted?_of_action (by rw [haction]; rfl))
        (by rw [hafter, undergo_bus]; rfl)
  | goesOn id call effects haction hcall hstep hafter =>
      exact hnothing (Moment.emitted?_of_action (by rw [haction]; rfl))
        (by rw [hafter, undergo_bus])
  | withdraws id haction hafter =>
      exact hnothing (Moment.emitted?_of_action (by rw [haction]; rfl)) (by rw [hafter]; rfl)
  | world k f hundisturbed hquiet haction hafter => exact hnothing hquiet (by rw [hafter]; rfl)
  | elapses ms haction hafter =>
      exact hnothing (Moment.emitted?_of_action (by rw [haction]; rfl)) (by rw [hafter])

/-!
## Endings
-/

theorem unused_of_ended {s : Session D} {k : Nat} (h : s.isAlive k = false) :
    s.alive? ≠ some k ∧ s.ready? ≠ some k := by
  have halive : s.alive? ≠ some k := fun halive => by
    rw [(alive?_eq_some.mp halive).2] at h
    contradiction
  refine ⟨halive, fun hready => halive ?_⟩
  exact (Option.filter_eq_some_iff.mp hready).1

theorem cause_of_ending {k : Nat} {earlier later : List (Moment D)} {m : Moment D}
    {s : Session D}
    {c c' : Connection} {e : Emitted} {code : Option Int} {asker : Option Ticket}
    {unserved : List Command} (h : Ending k earlier m later s c c' e code asker unserved) :
    c.endError code = .serverStopped ∧ (exists m', m' ∈ earlier ∧ m'.Condemns k) ∨
      (¬ exists m', m' ∈ earlier ∧ m'.Condemns k) ∧ exists code',
        c.endError code = .serverExited code' ∧ (code' = c.exitCode ∨
          code' = none ∧
            exists deadline, c.phase = .reaping deadline ∧ deadline ≤ m.before.now) := by
  rw [Connection.endError]
  by_cases hstopping : c.stopping = true
  · rw [if_pos hstopping]
    exact Or.inl ⟨rfl, h.mark.mp hstopping⟩
  · rw [if_neg hstopping]
    exact Or.inr ⟨fun hcondemned => hstopping (h.mark.mpr hcondemned), code, rfl,
      h.ends.reported⟩

/-!
## Dropped questions
-/

section

variable [FileSystem D]

/-- A call whose question was dropped goes on as if it had been refused. -/
structure TakesForRefusal (s : Session D) (id : Nat) (call : Call) : Prop where
  refused : forall a, call.task.refusal? = some a ->
    s.stepTask id call call.task = s.stepTask id { call with mailbox := some a } call.task
  listing : forall view, call.task = .listing view ->
    s.stepTask id call call.task = some (s.finish id (.error .notRunning))
  /-- All other calls do not wait for answers. -/
  others : call.task.refusal? = none -> (forall view, call.task ≠ .listing view) ->
    forall mailbox, s.stepTask id { call with mailbox } call.task =
    s.stepTask id call call.task

theorem takesForRefusal (s : Session D) (id : Nat) {call : Call}
    (h : call.mailbox = some .dropped) : s.TakesForRefusal id call := by
  constructor
  case refused =>
    intro a ha
    cases htask : call.task with
    | requesting k number method timeout deadline =>
        rw [htask] at ha
        cases ha
        simp only [stepTask, h, Except.map]
    | _ =>
        rw [htask] at ha
        first
          | contradiction
          | cases ha
            simp only [stepTask, h, Except.map]
  case listing =>
    intro view hview
    rw [hview]
    simp only [stepTask, h]
  case others =>
    intro hnone hlisting mailbox
    cases htask : call.task with
    | listing view => exact absurd htask (hlisting view)
    | _ =>
        rw [htask] at hnone
        first
          | contradiction
          | rfl

end

/-!
## The whole account
-/

variable [FileSystem D]

theorem Course.bus {s u : Session D} {moments : List (Moment D)}
    (course : Course s moments u) :
    u.bus.log.toList = s.bus.log.toList ++ moments.flatMap Moment.events := by
  induction course with
  | refl => exact (List.append_nil _).symm
  | act course a ha ih =>
      rw [bus_of_kind (kind_of_act ha), ih, List.flatMap_append, List.flatMap_singleton,
        List.append_assoc]
  | touch course disk ih => exact ih

/-- How connection `k` ends at moment `m` of a course that leads to `s`, going from `c` to
`c'`. Unanswered requests get the error `failure`. -/
structure EndsUniformly (k : Nat) (earlier : List (Moment D)) (m : Moment D)
    (later : List (Moment D)) (s : Session D) (c c' : Connection) (failure : Failure) :
    Prop where
  before : m.before.connection? k = some c
  after : m.after.connection? k = some c'
  alive : c.isAlive = true
  /-- The end was wanted if a stop, or the end of a failed start, had begun on this
  connection. The exit code is the one that the process has reported; one that is killed for
  not reporting has none.
  -/
  cause : failure = .serverStopped ∧ (exists m', m' ∈ earlier ∧ m'.Condemns k) ∨
    (¬ exists m', m' ∈ earlier ∧ m'.Condemns k) ∧ exists code, failure = .serverExited code ∧
      (code = c.exitCode ∨
        code = none ∧ exists deadline, c.phase = .reaping deadline ∧ deadline ≤ m.before.now)
  /-- Over the whole course, an unanswered request gets the error and nothing else. -/
  pending : forall number t, (number, t) ∈ c.pending.entries ->
    answersTo t (earlier ++ m :: later) = [.response (.error failure)]
  /-- A command in the queue is dropped, except the one that asks for the
  end and is being served.
  -/
  queued : forall command t, command ∈ c.commands -> command.ticket? = some t ->
    answersTo t (earlier ++ m :: later) = [.dropped] ∨
      answersTo t (earlier ++ m :: later) = [.terminated] ∧ c.phase = .serving ∧
        c.commands.head? = some command ∧ exists force, command = .terminate force t
  asked : forall t, c.phase.ticket? = some t ->
    answersTo t (earlier ++ m :: later) = [.terminated]
  /-- A call that still waits for one of these answers has it. -/
  heard : forall t a call, (t, a) ∈ m.answers -> m.before.call? t.call = some call ->
    call.serial = t.serial -> m.after.call? t.call = some { call with mailbox := some a }
  /-- A dropped command counts as refused. -/
  dropped : forall (u : Session D) id call, call.mailbox = some .dropped ->
    u.TakesForRefusal id call
  gone : c'.IsOver
  initialized : c'.initialized = false
  /-- One last event, which goes with the error. -/
  last : exists event, failure.lastEvent? = some event ∧ m.eventsOf k = [event] ∧
    (published k (earlier ++ m :: later)).filter Event.isTerminal = [event]
  silent : published k later = []
  still : exists d, s.connection? k = some d ∧ d.IsOver ∧ d.written = c.written
  refuses : forall command, s.enqueue k command = s
  unused : s.alive? ≠ some k ∧ s.ready? ≠ some k

theorem endsUniformly_of_ending {settings : Settings} {processId : Nat}
    {workspace : Workspace D}
    {k : Nat} {earlier later : List (Moment D)} {m : Moment D} {s : Session D}
    (course : Course (Session.new settings processId workspace) (earlier ++ m :: later) s)
    {c c' : Connection} {e : Emitted} {code : Option Int} {asker : Option Ticket}
    {unserved : List Command} (h : Ending k earlier m later s c c' e code asker unserved) :
    EndsUniformly k earlier m later s c c' (c.endError code) := by
  have hmember : m ∈ earlier ++ m :: later := by simp
  have hanswers : m.answers = e.answers := by rw [Moment.answers, h.emitted]
  have hevents : m.eventsOf k = [c.endEvent code] := by
    rw [Moment.eventsOf, h.emitted, ← h.ends.events]
    exact if_pos rfl
  have honce (t : Ticket) : (answered (earlier ++ m :: later)).count t ≤ 1 := by
    have hticketed := course.ticketed.once t
    omega
  have hgets {t : Ticket} {a : Answer} (ha : (t, a) ∈ e.answers) :
      answersTo t (earlier ++ m :: later) = [a] :=
    answersTo_eq_singleton hmember (hanswers ▸ ha) (honce t)
  rcases h.still with ⟨d, hd, hover, hwritten⟩
  have hdead : s.isAlive k = false := by rw [isAlive_of_connection? hd, hover.not_isAlive]
  constructor
  case before => exact h.before
  case after => exact h.after
  case alive => exact h.ends.alive
  case cause => exact cause_of_ending h
  case pending => exact fun number t ht => hgets (h.ends.failed_mem ht)
  case queued =>
    intro command t hcommand ht
    rcases h.ends.queue with ⟨_, hqueue⟩ | ⟨force, t', hserving, hasker, hqueue⟩
    · exact Or.inl (hgets (h.ends.dropped_mem (hqueue ▸ hcommand) ht))
    · rw [hqueue] at hcommand
      rcases List.mem_cons.mp hcommand with heq | hrest
      · subst heq
        cases ht
        refine Or.inr ⟨hgets (h.ends.terminated_mem hasker), hserving, ?_, force, rfl⟩
        rw [hqueue]
        rfl
      · exact Or.inl (hgets (h.ends.dropped_mem hrest ht))
  case asked =>
    intro t ht
    rcases h.ends.queue with ⟨hasker, _⟩ | ⟨force, t', hserving, _, _⟩
    · exact hgets (h.ends.terminated_mem (hasker.trans ht))
    · rw [hserving] at ht
      contradiction
  case heard =>
    intro t a call ha hcall hserial
    have hcount := honce t
    rw [answered_append, answered, answered, List.flatMap_cons, List.count_append,
      List.count_append, hanswers] at hcount
    rw [h.step]
    exact call?_emit c' hcall hserial (hanswers ▸ ha) (by omega)
  case dropped => exact fun u id call hmail => u.takesForRefusal id hmail
  case gone => exact h.ends.gone
  case initialized => exact h.ends.initialized
  case last =>
    refine ⟨c.endEvent code, c.lastEvent?_endError code, hevents, ?_⟩
    have hquiet : (published k earlier).filter Event.isTerminal = [] := by
      rw [List.filter_eq_nil_iff]
      intro event hevent
      rw [h.quiet event hevent]
      exact Bool.false_ne_true
    rw [published_append, List.filter_append, hquiet, published, List.flatMap_cons, hevents,
      ← published, h.silent, List.nil_append, List.append_nil]
    exact List.filter_cons_of_pos (c.isTerminal_endEvent code)
  case silent => exact h.silent
  case still => exact ⟨d, hd, hover, hwritten⟩
  case refuses =>
    intro command
    rw [enqueue, hdead]
    exact if_neg Bool.false_ne_true
  case unused => exact unused_of_ended hdead

/-- Connection `k` either goes on, and has published no last event, or it has ended. -/
def LivesOrHasEnded (k : Nat) (moments : List (Moment D)) (s : Session D) : Prop :=
  (forall c, s.connection? k = some c -> c.isAlive = true) ∧
      (forall event, event ∈ published k moments -> event.isTerminal = false) ∨
    exists earlier m later c c' failure, moments = earlier ++ m :: later ∧
      EndsUniformly k earlier m later s c c' failure

/-- Over every course of a new session, every connection that ends does so in the one way,
and the bus holds what connections have published. -/
theorem course_endsUniformly {settings : Settings} {processId : Nat} {workspace : Workspace D}
    {moments : List (Moment D)} {s : Session D}
    (course : Course (Session.new settings processId workspace) moments s) :
    s.bus.log.toList = moments.flatMap Moment.events ∧
      forall k, LivesOrHasEnded k moments s := by
  refine ⟨course.bus, fun k => ?_⟩
  cases course.life k with
  | absent here silent spared =>
      refine Or.inl ⟨fun c hc => ?_, fun event hevent => ?_⟩
      · rw [here] at hc
        contradiction
      · rw [silent] at hevent
        exact nomatch hevent
  | going c here alive quiet mark =>
      refine Or.inl ⟨fun c' hc' => ?_, quiet⟩
      cases Option.some.inj (here.symm.trans hc')
      exact alive
  | gone earlier m later c c' e code asker unserved split ending =>
      subst split
      exact Or.inr ⟨earlier, m, later, c, c', c.endError code, rfl,
        endsUniformly_of_ending course ending⟩

/-- A server is started; its process exits with a code while a request is unanswered and a
notification waits in the queue. -/
def crash : List Action :=
  [.begin (.start (.process none)), .goOn 0, .serve 0,
    .receive 0 (framed "\x7b\"id\":1,\"result\":null\x7d"), .takeIn 0, .goOn 0, .serve 0,
    .goOn 0, .begin (.request "m" .null none), .serve 0, .begin (.notify "n" .null),
    .exit 0 (some 3), .noticeExit 0, .hangUp 0, .takeIn 0]

theorem course_endsUniformly_crash :
    exists moments s,
      Course (Session.new { (default : Settings) with command := "server" } 0
        (Workspace.new default Memory.empty)) moments s ∧
      published 0 moments = [.exited (some 3)] ∧ s.isAlive 0 = false ∧
      s.bus.log.toList = moments.flatMap Moment.events ∧
      forall k, LivesOrHasEnded k moments s := by
  have hcourse : ((Session.new { (default : Settings) with command := "server" } 0
      (Workspace.new default Memory.empty)).proceed crash).map (fun (moments, s) =>
        (published 0 moments, s.isAlive 0)) = some ([.exited (some 3)], false) := by
    decide +kernel
  rcases Option.map_eq_some_iff.mp hcourse with ⟨⟨moments, s⟩, hproceed, heq⟩
  rcases Prod.mk.inj heq with ⟨hpublished, hended⟩
  have course := Course.refl.proceed hproceed
  rw [List.nil_append] at course
  exact ⟨moments, s, course, hpublished, hended, course_endsUniformly course⟩

end Session
end LanguageClient

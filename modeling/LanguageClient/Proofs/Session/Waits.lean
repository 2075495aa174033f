import LanguageClient.Proofs.Session.Conversations

/-!
# Waiting for an answer

A call that has sent a request waits for the answer: a call of a user, one that introduces
the client to a server, one that asks a server to shut down. It stops waiting because the
user withdraws the request, because there is an answer, or because it has waited long enough;
and only if it stops without an answer does it tell the connection to give the request up.
-/

namespace LanguageClient

variable {D : Type}

structure Wait where
  connection : Nat
  number : Nat
  method : String
  timeout : Nat
  deadline : Nat

namespace Task

def wait? (settings : Settings) : Task -> Option Wait
  | .introducing k number deadline =>
    some ⟨k, number, "initialize", settings.defaultTimeoutMs, deadline⟩
  | .shuttingDown k _ number deadline =>
    some ⟨k, number, "shutdown", Session.shutdownTimeout, deadline⟩
  | .requesting k number method timeout deadline => some ⟨k, number, method, timeout, deadline⟩
  | _ => none

def isRevocable : Task -> Bool
  | .requesting .. => true
  | _ => false

/-- What a call turns to when it has waited and this has come of it. -/
def concluded (answer : Except Failure Json) : Task -> Task
  | .introducing k _ _ =>
    match answer with
    | .ok _ => .announcing k
    | .error reason => .aborting reason
  | .shuttingDown k force _ _ => .exiting k force
  | _ => .done (answer.map .json)

section

variable {settings : Settings} {task : Task} {w : Wait}

theorem request?_of_wait? (h : task.wait? settings = some w) :
    task.request? = some (w.connection, w.number) := by
  cases task with
  | introducing | shuttingDown | requesting =>
      cases h
      rfl
  | _ => contradiction

theorem deadline?_of_wait? (h : task.wait? settings = some w) :
    Session.taskDeadline? task = some w.deadline := by
  cases task with
  | introducing | shuttingDown | requesting =>
      cases h
      rfl
  | _ => contradiction

theorem exists_wait?_of_request? (settings : Settings) {k number : Nat}
    (h : task.request? = some (k, number)) :
    exists w, task.wait? settings = some w ∧ w.connection = k ∧ w.number = number := by
  cases task with
  | introducing | shuttingDown | requesting =>
      cases h
      exact ⟨_, rfl, rfl, rfl⟩
  | _ => contradiction

theorem request?_concluded (answer : Except Failure Json) :
    (task.concluded answer).request? = none := by
  cases task with
  | introducing k number deadline => cases answer <;> rfl
  | _ => rfl

end

end Task

inductive Wait.Renounced (w : Wait) (now : Nat) (call : Call) : Failure -> Prop where
  | withdrawn (revocable : call.task.isRevocable = true) (cancelled : call.cancelled = true) :
      Renounced w now call (.requestCancelled w.method)
  | expired (kept : call.task.isRevocable = true -> call.cancelled = false)
      (unheard : call.mailbox = none) (due : w.deadline ≤ now) :
      Renounced w now call (.requestTimeout w.method w.timeout)

/-- What comes of waiting. Withdrawal by the user counts before an answer, and an answer
before the deadline. -/
inductive Wait.Concludes (w : Wait) (now : Nat) (call : Call) :
    Except Failure Json -> Prop where
  | renounced (failure : Failure) (renounced : w.Renounced now call failure) :
      Concludes w now call (.error failure)
  | answered (answer : Except Failure Json)
      (kept : call.task.isRevocable = true -> call.cancelled = false)
      (heard : call.mailbox = some (.response answer)) : Concludes w now call answer
  | refused (a : Answer) (kept : call.task.isRevocable = true -> call.cancelled = false)
      (heard : call.mailbox = some a) (other : forall answer, a ≠ .response answer) :
      Concludes w now call (.error .notRunning)

/-- At this moment a call gives up request `number` on connection `k`,
and comes to an error. -/
def Moment.Renounces (k number : Nat) (m : Moment D) : Prop :=
  exists id call w failure, m.action = .goOn id ∧ m.before.call? id = some call ∧
    call.task.wait? m.before.settings = some w ∧ w.connection = k ∧ w.number = number ∧
    w.Renounced m.before.now call failure ∧
    m.after.task? id = some (call.task.concluded (.error failure))

namespace Session

/-!
## Steps of a call that waits
-/

/-- What a call does when it does not wait any more: it gives its request up, unless there
is an answer, and turns to what it concludes. -/
structure StopsWaiting (s : Session D) (call : Call) (w : Wait) (answer : Except Failure Json)
    (before after : List (Effect D)) : Prop where
  concludes : w.Concludes s.now call answer
  givesUp : before = [] ∨ before = [.abandon w.connection w.number] ∧
    exists failure, answer = .error failure ∧ w.Renounced s.now call failure
  task : Effect.lastTask? after = some (call.task.concluded answer)
  spares : forall k number, .abandon k number ∉ after
  utters : forall k question task message t t', .ask k question task ∈ after ->
    question.command t = .notify message t' -> exists method params,
      message = .notification method params ∧ method ≠ "$/cancelRequest"

section

variable {s : Session D} {call : Call} {w : Wait} {answer : Except Failure Json}

theorem StopsWaiting.finish {before : List (Effect D)} {task : Task} (htask : call.task = task)
    (concludes : w.Concludes s.now call answer)
    (givesUp : before = [] ∨ before = [.abandon w.connection w.number] ∧
      exists failure, answer = .error failure ∧ w.Renounced s.now call failure)
    {outcome : Outcome} (hdone : task.concluded answer = .done outcome) :
    StopsWaiting s call w answer before [.finish outcome] where
  concludes := concludes
  givesUp := givesUp
  task := by
    rw [htask, hdone]
    rfl
  spares _ _ h := by simp at h
  utters _ _ _ _ _ _ h := by simp at h

theorem StopsWaiting.abort {before : List (Effect D)} {k number deadline : Nat}
    (htask : call.task = .introducing k number deadline) {reason : Failure}
    (concludes : w.Concludes s.now call (.error reason))
    (givesUp : before = [] ∨ before = [.abandon w.connection w.number] ∧
      exists failure, Except.error reason = (.error failure : Except Failure Json) ∧
        w.Renounced s.now call failure) :
    StopsWaiting s call w (.error reason) before
      [.condemn k, .ask k (.terminate true) (.aborting reason)] where
  concludes := concludes
  givesUp := givesUp
  task := by
    rw [htask]
    rfl
  spares _ _ h := by simp at h
  utters j question task message t t' h hnotify := by
    simp only [List.mem_cons, Effect.ask.injEq, List.not_mem_nil, or_false, reduceCtorEq,
      false_or] at h
    rcases h with ⟨_, rfl, _⟩
    cases hnotify

theorem utters_of_notify (before : List (Effect D)) {j : Nat} {method : String} {params : Json}
    {next : Task} (hbefore : forall k question task, .ask k question task ∉ before)
    (hmethod : method ≠ "$/cancelRequest") (k : Nat) (question : Question) (task : Task)
    (message : Message) (t t' : Ticket)
    (h : .ask k question task ∈ before ++
      [.ask j (.notify (.notification method params)) next])
    (hnotify : question.command t = .notify message t') :
    exists method params, message = .notification method params ∧
      method ≠ "$/cancelRequest" := by
  rcases List.mem_append.mp h with h | h
  · exact absurd h (hbefore k question task)
  · cases List.mem_singleton.mp h
    cases hnotify
    exact ⟨method, params, rfl, hmethod⟩

variable [FileSystem D] {u : Session D} {id : Nat}

theorem requesting_stops {k number : Nat} {method : String} {timeout deadline : Nat}
    (htask : call.task = .requesting k number method timeout deadline)
    (h : s.stepTask id call (.requesting k number method timeout deadline) = some u) :
    exists answer before after,
      StopsWaiting s call ⟨k, number, method, timeout, deadline⟩ answer before after ∧
        u = s.undergo id (before ++ after) := by
  rcases requesting_departs h with ⟨before, outcome, hdeparts, hu, hbefore⟩
  have hkept (h : call.cancelled = false) :
      call.task.isRevocable = true -> call.cancelled = false :=
    fun _ => h
  cases hdeparts with
  | withdrawn cancelled =>
      have hrenounced : Wait.Renounced ⟨k, number, method, timeout, deadline⟩ s.now call
          (.requestCancelled method) := .withdrawn (by rw [htask]; rfl) cancelled
      refine ⟨_, before, _, .finish htask (.renounced _ hrenounced) ?_ rfl, hu⟩
      exact hbefore.imp_right fun h => ⟨h.1, _, rfl, hrenounced⟩
  | answered r kept heard =>
      refine ⟨r, before, _, .finish htask (.answered r (hkept kept) heard) ?_ rfl, hu⟩
      refine hbefore.imp_right fun h => ?_
      rcases h.2 with hcancelled | hunheard
      · cases kept.symm.trans hcancelled
      · cases heard.symm.trans hunheard
  | refused a kept heard other =>
      refine ⟨_, before, _, .finish htask (.refused a (hkept kept) heard other) ?_ rfl, hu⟩
      refine hbefore.imp_right fun h => ?_
      rcases h.2 with hcancelled | hunheard
      · cases kept.symm.trans hcancelled
      · cases heard.symm.trans hunheard
  | expired kept unheard due =>
      have hrenounced : Wait.Renounced ⟨k, number, method, timeout, deadline⟩ s.now call
          (.requestTimeout method timeout) := .expired (hkept kept) unheard due
      refine ⟨_, before, _, .finish htask (.renounced _ hrenounced) ?_ rfl, hu⟩
      exact hbefore.imp_right fun h => ⟨h.1, _, rfl, hrenounced⟩

theorem introducing_stops {k number deadline : Nat}
    (htask : call.task = .introducing k number deadline)
    (h : s.stepTask id call (.introducing k number deadline) = some u) :
    exists answer before after,
      StopsWaiting s call ⟨k, number, "initialize", s.settings.defaultTimeoutMs, deadline⟩
          answer before after ∧
        u = s.undergo id (before ++ after) := by
  have hkept : call.task.isRevocable = true -> call.cancelled = false := by
    simp [htask, Task.isRevocable]
  simp only [stepTask] at h
  split at h
  case h_1 v heard =>
    cases h
    refine ⟨.ok v, [],
      [.learn ((v.get? "capabilities").getD .null),
        .ask k (.notify (.notification "initialized" (Json.ofMembers []))) (.announcing k)],
      ?_, rfl⟩
    exact {
      concludes := .answered _ hkept heard
      givesUp := Or.inl rfl
      task := by
        rw [htask]
        rfl
      spares := by simp
      utters := utters_of_notify [_] (by simp) (by decide) }
  case h_2 e heard =>
    cases h
    exact ⟨.error e, [], _, .abort htask (.answered _ hkept heard) (Or.inl rfl), rfl⟩
  case h_3 a hok herror heard =>
    cases h
    refine ⟨.error .notRunning, [], _, .abort htask (.refused a hkept heard fun r hr => ?_)
      (Or.inl rfl), rfl⟩
    cases r with
    | ok v => exact hok v hr
    | error e => exact herror e hr
  case h_4 unheard =>
    split at h
    case isFalse => contradiction
    case isTrue due =>
      cases h
      have hrenounced : Wait.Renounced
          ⟨k, number, "initialize", s.settings.defaultTimeoutMs, deadline⟩ s.now call
          (.requestTimeout "initialize" s.settings.defaultTimeoutMs) :=
          .expired hkept unheard due
      exact ⟨_, [.abandon k number], _, .abort htask (.renounced _ hrenounced)
        (Or.inr ⟨rfl, _, rfl, hrenounced⟩), rfl⟩

theorem shuttingDown_stops {k number deadline : Nat} {force : Bool}
    (htask : call.task = .shuttingDown k force number deadline)
    (h : s.stepTask id call (.shuttingDown k force number deadline) = some u) :
    exists answer before after,
      StopsWaiting s call ⟨k, number, "shutdown", shutdownTimeout, deadline⟩ answer
        before after ∧ u = s.undergo id (before ++ after) := by
  have hkept : call.task.isRevocable = true -> call.cancelled = false := by
    simp [htask, Task.isRevocable]
  have hexits (answer : Except Failure Json) (before : List (Effect D))
      (concludes :
        Wait.Concludes ⟨k, number, "shutdown", shutdownTimeout, deadline⟩ s.now call answer)
      (givesUp : before = [] ∨ before = [.abandon k number] ∧
        exists failure, answer = .error failure ∧
          Wait.Renounced ⟨k, number, "shutdown", shutdownTimeout, deadline⟩ s.now call
            failure) :
      StopsWaiting s call ⟨k, number, "shutdown", shutdownTimeout, deadline⟩ answer before
        [.ask k (.notify (.notification "exit" .null)) (.exiting k force)] :=
    { concludes
      givesUp
      task := by
        rw [htask]
        rfl
      spares := by simp
      utters := utters_of_notify [] (by simp) (by decide) }
  simp only [stepTask] at h
  split at h
  case h_1 a heard =>
    cases h
    cases a with
    | response answer =>
        exact ⟨answer, [], _, hexits _ _ (.answered _ hkept heard) (Or.inl rfl), rfl⟩
    | _ => exact ⟨_, [], _, hexits _ _ (.refused _ hkept heard (by simp)) (Or.inl rfl), rfl⟩
  case h_2 unheard =>
    split at h
    case isFalse => contradiction
    case isTrue due =>
      cases h
      have hrenounced :
          Wait.Renounced ⟨k, number, "shutdown", shutdownTimeout, deadline⟩ s.now call
          (.requestTimeout "shutdown" shutdownTimeout) := .expired hkept unheard due
      exact ⟨_, [.abandon k number], _, hexits _ _ (.renounced _ hrenounced)
        (Or.inr ⟨rfl, _, rfl, hrenounced⟩), rfl⟩

theorem waiting_stops (hwait : call.task.wait? s.settings = some w)
    (h : s.stepTask id call call.task = some u) :
    exists answer before after, StopsWaiting s call w answer before after ∧
      u = s.undergo id (before ++ after) := by
  cases htask : call.task with
  | requesting k number method timeout deadline =>
      rw [htask] at h hwait
      cases hwait
      exact requesting_stops htask h
  | introducing k number deadline =>
      rw [htask] at h hwait
      cases hwait
      exact introducing_stops htask h
  | shuttingDown k force number deadline =>
      rw [htask] at h hwait
      cases hwait
      exact shuttingDown_stops htask h
  | _ =>
      rw [htask] at hwait
      contradiction

omit [FileSystem D] in
theorem StopsWaiting.task? {before after : List (Effect D)}
    (h : StopsWaiting s call w answer before after) (hcall : s.call? id = some call) :
    (s.undergo id (before ++ after)).task? id = some (call.task.concluded answer) := by
  rw [undergo_task? (lt_of_call? hcall), if_pos rfl, Effect.lastTask?_append, h.task]
  rfl

/-- Whoever waits goes on when the request is withdrawn, when there is an answer, and when
the time is over. -/
theorem waiting_goesOn (s : Session D) (id : Nat) {call : Call} {w : Wait}
    (hwait : call.task.wait? s.settings = some w)
    (h : call.task.isRevocable = true ∧ call.cancelled = true ∨ call.mailbox ≠ none ∨
      w.deadline ≤ s.now) :
    s.stepTask id call call.task ≠ none := by
  cases htask : call.task with
  | requesting k number method timeout deadline =>
      rw [htask] at hwait h
      cases hwait
      exact s.requesting_goesOn id (h.imp_left And.right)
  | introducing k number deadline =>
      rw [htask] at hwait h
      cases hwait
      simp only [stepTask]
      split
      case h_4 hmail =>
        rw [if_pos]
        · exact Option.some_ne_none _
        · rcases h with ⟨hrevocable, _⟩ | hne | hdue
          · cases hrevocable
          · exact absurd hmail hne
          · exact hdue
      all_goals exact Option.some_ne_none _
  | shuttingDown k force number deadline =>
      rw [htask] at hwait h
      cases hwait
      simp only [stepTask]
      split
      case h_1 => exact Option.some_ne_none _
      case h_2 hmail =>
        rw [if_pos]
        · exact Option.some_ne_none _
        · rcases h with ⟨hrevocable, _⟩ | hne | hdue
          · cases hrevocable
          · exact absurd hmail hne
          · exact hdue
  | _ =>
      rw [htask] at hwait
      contradiction

end

end Session
end LanguageClient

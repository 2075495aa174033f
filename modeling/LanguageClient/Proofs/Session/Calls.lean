import LanguageClient.Proofs.Session.Queues

/-!
# What a call does to requests

A call takes a step by preparing, which concerns no requests, and then turning to a new
task: it may come to rest there, ask a connection something, or send a request. Which tasks
it may turn to depends on where it stands. A call passes on the content of a response only
if it found it in its mailbox, and sends at most one request.
-/

namespace LanguageClient

/-!
## Properties of tasks
-/

def Operation.isQuestion : Operation -> Bool
  | .request .. | .query .. => true
  | _ => false

def AfterSync.isQuestion : AfterSync -> Bool
  | .ask _ => true
  | .answer | .save .. => false

namespace Task

def carried? : Task -> Option Response
  | .done outcome => LanguageClient.carried? outcome
  | .aborting reason => LanguageClient.carried? (.error reason)
  | _ => none

def isLate : Task -> Bool
  | .introducing .. | .announcing _ | .aborting _ | .shuttingDown .. | .exiting ..
      | .terminating
  | .requesting .. | .done _ => true
  | _ => false

def isQuestion : Task -> Bool
  | .requesting .. | .done (.error _) | .done (.ok (.json _)) => true
  | .reading _ _ next | .handing _ _ next | .syncing next => next.isQuestion
  | _ => false

theorem isLate_of_request? {task : Task} {k number : Nat}
    (h : task.request? = some (k, number)) :
    task.isLate = true := by
  cases task <;> first | rfl | contradiction

end Task

/-- What makes a task a possible continuation of a call. -/
structure Call.Leads (call : Call) (task : Task) : Prop where
  content : forall r, task.carried? = some r ->
    call.task.carried? = some r ∨ exists a, call.mailbox = some a ∧ carried? a.outcome = some r
  late : call.task.isLate = true -> task.isLate = true ∧ task.request? = none
  question : call.task.isQuestion = true -> task.isQuestion = true

structure Operation.Opens (op : Operation) (task : Task) : Prop where
  content : task.carried? = none
  question : op.isQuestion = true -> task.isQuestion = true

def Admits (allowed : Task -> Prop) (question : Bool) : Prop :=
  forall task, task.carried? = none -> (question = true -> task.isQuestion = true) ->
    allowed task

theorem Admits.free {allowed : Task -> Prop} {task : Task} (h : Admits allowed false)
    (hcontent : task.carried? = none) : allowed task :=
  h task hcontent fun hquestion => absurd hquestion Bool.false_ne_true

theorem Operation.admits (op : Operation) : Admits op.Opens op.isQuestion :=
  fun _ hcontent hquestion => ⟨hcontent, hquestion⟩

theorem Call.admits {call : Call} (hlate : call.task.isLate = false) :
    Admits call.Leads call.task.isQuestion := by
  intro task hcontent hquestion
  constructor
  case content =>
    intro r hr
    rw [hcontent] at hr
    contradiction
  case late =>
    intro h
    rw [hlate] at h
    contradiction
  case question => exact hquestion

namespace Session

/-!
## Turning
-/

variable {D : Type}

inductive Turn (id : Nat) (allowed : Task -> Prop) (s : Session D) : Session D -> Prop where
  | rest (task : Task) (hallowed : allowed task) (hrequest : task.request? = none) :
      Turn id allowed s (s.setTask id task)
  | ask (k : Nat) (question : Ticket -> Command) (task : Task) (hallowed : allowed task)
      (hrequest : task.request? = none) (hplain : forall t, (question t).request? = none) :
      Turn id allowed s (s.ask id k question task)
  | send (k : Nat) (method : String) (params : Json) (timeout : Nat)
      (task : Nat -> Nat -> Task)
      (hallowed : forall number deadline, allowed (task number deadline))
      (hrequest : forall number deadline, (task number deadline).request? = some (k, number)) :
      Turn id allowed s (s.sendRequest id k method params timeout task)

def Reacts (id : Nat) (allowed : Task -> Prop) (s u : Session D) : Prop :=
  exists t, SameRequests s t ∧ Turn id allowed t u

inductive Sends (id : Nat) (task : Task) (s u : Session D) : Prop where
  | nothing (request : task.request? = none) (nextNumber : u.nextNumber = s.nextNumber)
      (queued : forall k, u.queued k = s.queued k)
  | request (k : Nat) (received : List (Nat × Ticket))
      (request : task.request? = some (k, s.nextNumber))
      (nextNumber : u.nextNumber = s.nextNumber + 1)
      (queued : forall j, u.queued j = s.queued j ++ if k = j then received else [])
      (own : received = [] ∨ exists serial, received = [(s.nextNumber, ⟨id, serial⟩)])

/-- A call has turned to a task. Nothing else that concerns requests has changed. -/
structure Turned (id : Nat) (task : Task) (s u : Session D) : Prop where
  task? : forall j, u.task? j = if id = j then some task else s.task? j
  mail? : forall j a, u.mail? j = some a -> s.mail? j = some a ∨ a = .dropped
  held : forall k number, u.held k number = s.held k number
  sends : Sends id task s u

theorem setTask_turned {s : Session D} {id : Nat} {call : Call}
    (hcall : s.call? id = some call) {task : Task} (hrequest : task.request? = none) :
    Turned id task s (s.setTask id task) where
  task? j := by
    rw [Session.task?, setTask, call?_modifyCall]
    by_cases hj : id = j
    · subst hj
      rw [if_pos rfl, if_pos rfl, hcall]
      rfl
    · rw [if_neg hj, if_neg hj, Session.task?]
  mail? j a ha := by
    rw [Session.mail?, setTask, call?_modifyCall] at ha
    by_cases hj : id = j
    · subst hj
      rw [if_pos rfl, hcall] at ha
      refine Or.inl ?_
      rw [Session.mail?, hcall]
      exact ha
    · rw [if_neg hj] at ha
      exact Or.inl ha
  held _ _ := rfl
  sends := Sends.nothing hrequest rfl fun _ => rfl

section

variable {s : Session D} {id : Nat} {call : Call} (hcall : s.call? id = some call) (k : Nat)
  (question : Ticket -> Command) (task : Task)

include hcall

theorem ask_eq :
    s.ask id k question task =
      (s.modifyCall id fun old =>
        { old with
            task
            serial := call.serial + 1
            mailbox := if s.isAlive k then none else some .dropped }).enqueue k
        (question ⟨id, call.serial + 1⟩) := by
  rw [ask, hcall]

theorem task?_ask (j : Nat) :
    (s.ask id k question task).task? j = if id = j then some task else s.task? j := by
  rw [ask_eq hcall, task?, call?_enqueue, call?_modifyCall]
  by_cases hj : id = j
  · subst hj
    rw [if_pos rfl, if_pos rfl, hcall]
    rfl
  · rw [if_neg hj, if_neg hj, task?]

theorem mail?_ask_self {a : Answer} (h : (s.ask id k question task).mail? id = some a) :
    a = .dropped := by
  rw [ask_eq hcall, mail?, call?_enqueue, call?_modifyCall, if_pos rfl, hcall] at h
  by_cases halive : s.isAlive k = true
  · simp [halive] at h
  · simp [halive] at h
    exact h.symm

theorem mail?_ask {j : Nat} {a : Answer} (h : (s.ask id k question task).mail? j = some a) :
    s.mail? j = some a ∨ a = .dropped := by
  by_cases hj : id = j
  · subst hj
    exact Or.inr (mail?_ask_self hcall k question task h)
  · rw [ask_eq hcall, mail?, call?_enqueue, call?_modifyCall, if_neg hj] at h
    exact Or.inl h

theorem held_ask (j number : Nat) :
    (s.ask id k question task).held j number = s.held j number := by
  rw [ask_eq hcall, held_enqueue]
  rfl

theorem nextNumber_ask : (s.ask id k question task).nextNumber = s.nextNumber := by
  rw [ask_eq hcall, nextNumber_enqueue]
  rfl

theorem queued_ask (j : Nat) :
    (s.ask id k question task).queued j =
      s.queued j ++ if s.isAlive k = true ∧ k = j then
        (question ⟨id, call.serial + 1⟩).request?.toList else [] := by
  rw [ask_eq hcall, queued_enqueue]
  rfl

theorem ask_turned (hrequest : task.request? = none)
    (hplain : forall t, (question t).request? = none) :
    Turned id task s (s.ask id k question task) where
  task? := task?_ask hcall k question task
  mail? _ _ := mail?_ask hcall k question task
  held := held_ask hcall k question task
  sends := by
    apply Sends.nothing hrequest (nextNumber_ask hcall k question task)
    intro j
    rw [queued_ask hcall, hplain]
    simp

end

theorem sendRequest_turned {s : Session D} {id : Nat} {call : Call}
    (hcall : s.call? id = some call)
    (k : Nat) (method : String) (params : Json) (timeout : Nat) (task : Nat -> Nat -> Task)
    (hrequest : forall number deadline, (task number deadline).request? = some (k, number)) :
    Turned id (task s.nextNumber (s.now + timeout)) s
      (s.sendRequest id k method params timeout task) := by
  have hcall' : { s with nextNumber := s.nextNumber + 1 }.call? id = some call := hcall
  constructor
  case task? => exact task?_ask hcall' k _ _
  case mail? => exact fun _ _ => mail?_ask hcall' k _ _
  case held => exact held_ask hcall' k _ _
  case sends =>
    refine Sends.request k (if s.isAlive k then [(s.nextNumber, ⟨id, call.serial + 1⟩)]
      else []) (hrequest _ _) (nextNumber_ask hcall' k _ _) (fun j => ?_) ?_
    · refine (queued_ask hcall' k _ _ j).trans ?_
      change s.queued j ++ (if s.isAlive k = true ∧ k = j then
        [(s.nextNumber, ⟨id, call.serial + 1⟩)] else []) = _
      by_cases halive : s.isAlive k = true
      · simp [halive]
      · simp [halive]
    · split
      · exact Or.inr ⟨_, rfl⟩
      · exact Or.inl rfl

theorem Turn.turned {id : Nat} {allowed : Task -> Prop} {s u : Session D} {call : Call}
    (h : Turn id allowed s u) (hcall : s.call? id = some call) :
    exists task, allowed task ∧ Turned id task s u := by
  cases h with
  | rest task hallowed hrequest => exact ⟨task, hallowed, setTask_turned hcall hrequest⟩
  | ask k question task hallowed hrequest hplain =>
      exact ⟨task, hallowed, ask_turned hcall k question task hrequest hplain⟩
  | send k method params timeout task hallowed hrequest =>
      exact ⟨_, hallowed _ _, sendRequest_turned hcall k method params timeout task hrequest⟩

theorem Reacts.turned {id : Nat} {allowed : Task -> Prop} {s u : Session D} {call : Call}
    (h : Reacts id allowed s u) (hcall : s.call? id = some call) :
    exists task, allowed task ∧ Turned id task s u := by
  rcases h with ⟨t, hsame, hturn⟩
  rcases hturn.turned ((hsame.call? id).trans hcall) with ⟨task, hallowed, hturned⟩
  refine ⟨task, hallowed, ?_⟩
  constructor
  case task? =>
    intro j
    rw [hturned.task?, hsame.task?]
  case mail? =>
    intro j a ha
    rw [← hsame.mail?]
    exact hturned.mail? j a ha
  case held =>
    intro k number
    rw [hturned.held, hsame.held]
  case sends =>
    cases hturned.sends with
    | nothing request nextNumber queued =>
        apply Sends.nothing request (nextNumber.trans hsame.nextNumber)
        intro k
        rw [queued, hsame.queued]
    | request k received request nextNumber queued own =>
        rw [hsame.nextNumber] at request nextNumber own
        refine Sends.request k received request nextNumber (fun j => ?_) own
        rw [queued, hsame.queued]

end Session
end LanguageClient

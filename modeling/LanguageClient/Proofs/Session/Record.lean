import LanguageClient.Proofs.Document.History
import LanguageClient.Session.Step

/-!
# The record of a run

A run of a session leaves a record of what became of requests: which call asked for which
number, when a connection took the request up, gave it up or heard an answer, and when the
connection ended. The record is read off the commands and messages that are processed. It
never looks at the table of unanswered requests, so that it can be compared with that table.
-/

namespace LanguageClient

abbrev Response := Except ResponseError Json

inductive Happening where
  | began (call : Nat) (op : Operation)
  /-- A call draws a number for a request to a connection. -/
  | sent (call connection number : Nat)
  /-- A connection takes a request from its queue and writes it. -/
  | registered (connection number : Nat) (ticket : Ticket)
  /-- A connection takes a request from its queue and fails to write it. -/
  | unwritten (connection number : Nat) (ticket : Ticket)
  /-- A connection learns that nobody waits for a request any more. -/
  | abandoned (connection number : Nat)
  /-- A connection takes in a response whose id denotes a number, which may be any number. -/
  | answered (connection number : Nat) (response : Response)
  | ended (connection : Nat)

/-!
## What is recorded
-/

/-- The request whose answer a call waits for: its connection and its number. -/
def Task.request? : Task -> Option (Nat × Nat)
  | .introducing k number _ | .shuttingDown k _ number _ | .requesting k number _ _ _ =>
    some (k, number)
  | _ => none

/-- What serving a command means for requests, on a connection that can
be written to or not. -/
def Command.meaning (k : Nat) (writable : Bool) : Command -> List Happening
  | .request number _ _ t =>
    [if writable then .registered k number t else .unwritten k number t]
  | .abandon number => [.abandoned k number]
  | _ => []

namespace Connection

def served (k : Nat) (c : Connection) : List Happening :=
  match c.phase, c.commands with
  | .serving, command :: _ => command.meaning k c.writable
  | _, _ => []

def heard (k : Nat) (message : Json) : List Happening :=
  match Incoming.classify message with
  | .response id response =>
    match Incoming.number? id with
    | some number => [.answered k number response]
    | none => []
  | _ => []

def takenIn (k : Nat) (c : Connection) : List Happening :=
  match c.phase, c.inbound with
  | .serving, .message v :: _ | .draining _ _, .message v :: _ => heard k v
  | _, _ => []

def ending (k : Nat) (before after : Connection) : List Happening :=
  if before.isAlive && !after.isAlive then [.ended k] else []

end Connection

namespace Session

variable {D : Type} [FileSystem D]

def sending (s : Session D) (id : Nat) : List Happening :=
  match (s.call? id).bind fun call => call.task.request? with
  | some (k, number) => [.sent id k number]
  | none => []

def betweenStates (s u : Session D) (k : Nat)
    (what : Connection -> Connection -> List Happening) : List Happening :=
  match s.connection? k, u.connection? k with
  | some c, some c' => what c c'
  | _, _ => []

def happenings (s : Session D) (a : Action) (u : Session D) : List Happening :=
  match a with
  | .begin op => .began s.calls.length op :: u.sending s.calls.length
  | .goOn id => u.sending id
  | .serve k => s.betweenStates u k fun c c' => c.served k ++ c.ending k c'
  | .takeIn k => s.betweenStates u k fun c c' => c.takenIn k ++ c.ending k c'
  | .noticeExit k | .expire k => s.betweenStates u k fun c c' => c.ending k c'
  | _ => []

/-- The runs from a session, each with its record. -/
inductive Run (s : Session D) : List Happening -> Session D -> Prop where
  | refl : Run s [] s
  | act {log : List Happening} {t u : Session D} (run : Run s log t) (a : Action)
      (h : t.act a = some u) : Run s (log ++ t.happenings a u) u
  | touch {log : List Happening} {t : Session D} (run : Run s log t) (disk : D) :
      Run s log { t with workspace := { t.workspace with disk } }

def perform (s : Session D) : List Action -> Option (List Happening × Session D)
  | [] => some ([], s)
  | a :: rest =>
    match s.act a with
    | none => none
    | some t => (t.perform rest).map fun (log, u) => (s.happenings a t ++ log, u)

theorem Run.perform {s t u : Session D} {log more : List Happening} {actions : List Action}
    (run : Run s log t) (h : t.perform actions = some (more, u)) : Run s (log ++ more) u := by
  induction actions generalizing t log more with
  | nil =>
      cases h
      rw [List.append_nil]
      exact run
  | cons a rest ih =>
      simp only [Session.perform] at h
      split at h
      case h_1 => contradiction
      case h_2 t' ht' =>
        rcases Option.map_eq_some_iff.mp h with ⟨⟨log', u'⟩, hrest, heq⟩
        rcases Prod.mk.inj heq with ⟨rfl, rfl⟩
        rw [← List.append_assoc]
        exact ih (run.act a ht') hrest

/-!
## Calls that have ended
-/

def outcome? (s : Session D) (id : Nat) : Option Outcome :=
  (s.call? id).bind Call.outcome?

theorem stepTask_done (s : Session D) (id : Nat) (call : Call) (outcome : Outcome) :
    s.stepTask id call (.done outcome) = none := by
  simp only [stepTask]

end Session

/-!
## Outstanding requests
-/

namespace Happening

def closes (k number : Nat) : Happening -> Bool
  | .abandoned connection n | .answered connection n _ => connection == k && n == number
  | .ended connection => connection == k
  | _ => false

def drawn? : Happening -> Option Nat
  | .sent _ _ number => some number
  | _ => none

def sender? : Happening -> Option Nat
  | .sent call _ _ => some call
  | _ => none

def taken? : Happening -> Option (Nat × Nat × Ticket)
  | .registered k number t | .unwritten k number t => some (k, number, t)
  | _ => none

def takenNumber? (h : Happening) : Option Nat :=
  h.taken?.map fun request => request.2.1

def isOfCall : Happening -> Bool
  | .began .. | .sent .. => true
  | _ => false

def isRegistration : Happening -> Bool
  | .registered .. => true
  | _ => false

end Happening

/-- Connection `k` has written request `number` under ticket `t`, and since then has neither
heard an answer nor learned that nobody waits for it nor ended. -/
def Outstanding (log : List Happening) (k number : Nat) (t : Ticket) : Prop :=
  exists earlier later, log = earlier ++ .registered k number t :: later ∧
    forall h, h ∈ later -> h.closes k number = false

theorem outstanding_concat {log : List Happening} {h : Happening} {k number : Nat}
    {t : Ticket} :
    Outstanding (log ++ [h]) k number t <->
      h = .registered k number t ∨ Outstanding log k number t ∧ h.closes k number = false := by
  constructor
  · rintro ⟨earlier, later, hlog, hopen⟩
    rcases split_of_concat hlog with ⟨_, hlast, _⟩ | ⟨init, rfl, hinit⟩
    · exact Or.inl hlast
    · refine Or.inr ⟨⟨earlier, init, hinit, fun e he => hopen e ?_⟩, hopen h ?_⟩
      · simp [he]
      · simp
  · rintro (rfl | ⟨⟨earlier, later, rfl, hopen⟩, hh⟩)
    · exact ⟨log, [], rfl, by simp⟩
    · refine ⟨earlier, later ++ [h], by simp, fun e he => ?_⟩
      rcases List.mem_append.mp he with he | he
      · exact hopen e he
      · rw [List.mem_singleton.mp he]
        exact hh

theorem not_outstanding_nil (k number : Nat) (t : Ticket) : ¬ Outstanding [] k number t := by
  rintro ⟨earlier, later, h, _⟩
  simp at h

theorem Outstanding.registered_mem {log : List Happening} {k number : Nat} {t : Ticket}
    (h : Outstanding log k number t) : .registered k number t ∈ log := by
  rcases h with ⟨earlier, later, rfl, _⟩
  simp

/-!
## Settled requests
-/

/-- The response at `position` of the record meets an outstanding request of call `id`, with
this number, and says `response`. -/
def Settles (log : List Happening) (position id number : Nat) (response : Response) : Prop :=
  exists k serial, Outstanding (log.take position) k number ⟨id, serial⟩ ∧
    log[position]? = some (.answered k number response)

def Settled (log : List Happening) (id : Nat) (response : Response) : Prop :=
  exists position number, Settles log position id number response

theorem Settles.append {log : List Happening} {position id number : Nat} {response : Response}
    (h : Settles log position id number response) (more : List Happening) :
    Settles (log ++ more) position id number response := by
  rcases h with ⟨k, serial, hout, hat⟩
  have hlt := (List.getElem?_eq_some_iff.mp hat).1
  refine ⟨k, serial, ?_, ?_⟩
  · rw [List.take_append_of_le_length (Nat.le_of_lt hlt)]
    exact hout
  · rw [List.getElem?_append_left hlt]
    exact hat

theorem Settled.append {log : List Happening} {id : Nat} {response : Response}
    (h : Settled log id response) (more : List Happening) :
    Settled (log ++ more) id response := by
  rcases h with ⟨position, number, h⟩
  exact ⟨position, number, h.append more⟩

theorem Outstanding.settles {log : List Happening} {k number serial id : Nat}
    (h : Outstanding log k number ⟨id, serial⟩) (response : Response) :
    Settles (log ++ [.answered k number response]) log.length id number response := by
  refine ⟨k, serial, ?_, ?_⟩
  · rw [List.take_left']
    · exact h
    · rfl
  · simp

end LanguageClient

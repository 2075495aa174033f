import LanguageClient.Session.Step

/-!
# Rehearsals

A rehearsal runs a session against a partner that plays the server. Between two cues
everything runs until nothing moves any more: the session first, then the partner. Time
passes only when it is told to, and then from deadline to deadline. Whatever happens to the
session happens by its own actions.
-/

namespace LanguageClient

/-- What plays the server. -/
class Partner (P : Type) where
  /-- The partner's next move, in view of the present moment and of all connections: its new
  state, and what it does to the session. -/
  move : P → (now : Nat) → List Connection → Option (P × List Session.Action)
  /-- The moments at which it may move by itself. -/
  deadlines : P → List Nat

structure Rehearsal (D P : Type) where
  session : Session D
  partner : P

namespace Rehearsal

variable {D P : Type} [FileSystem D] [Partner P]

def perform (r : Rehearsal D P) (a : Session.Action) : Rehearsal D P :=
  match r.session.act a with
  | some session => { r with session }
  | none => r

/-!
## Coming to rest
-/

def connectionActions (k : Nat) : List Session.Action :=
  [.serve k, .takeIn k, .noticeExit k, .expire k]

/-- What a session may do by itself, the first choice first: a call goes on when every
connection rests. -/
def ownActions (s : Session D) : List Session.Action :=
  (List.range s.connections.length).flatMap connectionActions ++
    (List.range s.calls.length).map .goOn

def move? (r : Rehearsal D P) : Option (Rehearsal D P) :=
  match (ownActions r.session).findSome? r.session.act with
  | some session => some { r with session }
  | none =>
    (Partner.move r.partner r.session.now r.session.connections).map fun (partner, actions) =>
      actions.foldl perform { r with partner }

def settleWithin (r : Rehearsal D P) : (patience : Nat) → Rehearsal D P
  | 0 => r
  | patience + 1 =>
    match r.move? with
    | some r => settleWithin r patience
    | none => r

def patience : Nat := 10000000

def settle (r : Rehearsal D P) : Rehearsal D P :=
  r.settleWithin patience

/-!
## Time
-/

def deadlines (s : Session D) : List Nat :=
  s.connections.filterMap Connection.deadline? ++
    s.calls.filterMap fun call => Session.taskDeadline? call.task

def nextDeadline? (r : Rehearsal D P) : Option Nat :=
  ((deadlines r.session ++ Partner.deadlines r.partner).filter (r.session.now < ·)).min?

def reach (r : Rehearsal D P) (moment : Nat) : Rehearsal D P :=
  (r.perform (.elapse (moment - r.session.now))).settle

/-- Time passes up to a moment, with a stop at every deadline, of which
there are at most `stops`. -/
def passWithin (r : Rehearsal D P) (moment : Nat) : (stops : Nat) → Rehearsal D P
  | 0 => r.reach moment
  | stops + 1 =>
    match r.nextDeadline? with
    | some deadline =>
      if deadline < moment then passWithin (r.reach deadline) moment stops else r.reach moment
    | none => r.reach moment

def pass (r : Rehearsal D P) (ms : Nat) : Rehearsal D P :=
  r.settle.passWithin (r.session.now + ms) ms

/-!
## Calls
-/

def nextCall (r : Rehearsal D P) : Nat :=
  r.session.calls.length

def outcome? (r : Rehearsal D P) (id : Nat) : Option Outcome :=
  (r.session.call? id).bind Call.outcome?

def begin (r : Rehearsal D P) (op : Operation) : Rehearsal D P :=
  r.perform (.begin op)

def awaitWithin (r : Rehearsal D P) (ids : List Nat) : (stops : Nat) → Rehearsal D P
  | 0 => r
  | stops + 1 =>
    if ids.all fun id => (r.outcome? id).isSome then r
    else
      match r.nextDeadline? with
      | some deadline => awaitWithin (r.reach deadline) ids stops
      | none => r

def runTogether (r : Rehearsal D P) (ops : List Operation) : Rehearsal D P :=
  let ids := (List.range ops.length).map (r.nextCall + ·)
  ((ops.foldl begin r).settle).awaitWithin ids patience

def run (r : Rehearsal D P) (op : Operation) : Rehearsal D P × Option Outcome :=
  let after := r.runTogether [op]
  (after, after.outcome? r.nextCall)

end Rehearsal
end LanguageClient

import LanguageClient.Proofs.Session.Record

/-!
# Steps of connections

A connection serves the first command in its queue, takes in the first message that has
come, or gets closer to its end. This module says once and for all when it does which; what
its steps keep is then shown for serving, for taking in, and case by case for all others.
-/

namespace LanguageClient
namespace Connection

theorem isAlive_of_phase {c : Connection} {phase : Phase} (h : c.phase = phase)
    (hphase : phase ≠ .ended) : c.isAlive = true := by
  rw [isAlive, h]
  exact bne_iff_ne.mpr hphase

theorem isAlive_of_serving {c : Connection} (h : c.phase = .serving) : c.isAlive = true :=
  isAlive_of_phase h (fun h => nomatch h)

/-!
## Serving and taking in
-/

def next? (c : Connection) : Option Command :=
  match c.phase, c.commands with
  | .serving, command :: _ => some command
  | _, _ => none

def first? (c : Connection) : Option Json :=
  match c.phase, c.inbound with
  | .serving, .message v :: _ | .draining _ _, .message v :: _ => some v
  | _, _ => none

theorem stepCommand_eq (now : Nat) {c : Connection} {command : Command}
    (h : c.next? = some command) :
    exists rest, c.phase = .serving ∧ c.commands = command :: rest ∧
      c.stepCommand now = some (serve now { c with commands := rest } command) := by
  unfold next? at h
  split at h
  case h_2 => contradiction
  case h_1 first rest hphase hcommands =>
    cases h
    exact ⟨rest, hphase, hcommands, by simp only [stepCommand, hphase, hcommands]⟩

theorem stepCommand_of_idle {now : Nat} {c : Connection} (h : c.next? = none) :
    c.stepCommand now = none := by
  unfold stepCommand
  split
  case h_1 hphase hcommands =>
    rw [next?, hphase, hcommands] at h
    contradiction
  case h_2 => rfl

theorem stepInbound_eq (now : Nat) (folder : String × String) {c : Connection} {message : Json}
    (h : c.first? = some message) :
    exists rest, c.inbound = .message message :: rest ∧
      (c.phase = .serving ∨ exists deadline code, c.phase = .draining deadline code) ∧
      c.stepInbound now folder =
      some (dispatch folder { c with inbound := rest } message) := by
  unfold first? at h
  split at h
  case h_1 v rest hphase hinbound =>
    cases h
    exact ⟨rest, hinbound, Or.inl hphase, by simp only [stepInbound, hphase, hinbound]⟩
  case h_2 deadline code v rest hphase hinbound =>
    cases h
    exact ⟨rest, hinbound, Or.inr ⟨deadline, code, hphase⟩,
      by simp only [stepInbound, hphase, hinbound]⟩
  case h_3 => contradiction

theorem stepCommand_serves {now : Nat} {c c' : Connection} {e : Emitted}
    (h : c.stepCommand now = some (c', e)) :
    exists command rest, c.next? = some command ∧ c.phase = .serving ∧
      c.commands = command :: rest ∧ serve now { c with commands := rest } command =
      (c', e) := by
  cases hnext : c.next? with
  | none => cases (stepCommand_of_idle hnext).symm.trans h
  | some command =>
      rcases stepCommand_eq now hnext with ⟨rest, hphase, hcommands, heq⟩
      exact ⟨command, rest, rfl, hphase, hcommands, Option.some.inj (heq.symm.trans h)⟩

/-!
## What is recorded of it
-/

theorem served_of_next? {k : Nat} {c : Connection} {command : Command}
    (h : c.next? = some command) :
    c.served k = command.meaning k c.writable := by
  unfold next? at h
  split at h
  case h_2 => contradiction
  case h_1 first rest hphase hcommands =>
    cases h
    simp only [served, hphase, hcommands]

theorem takenIn_of_first? {k : Nat} {c : Connection} {message : Json}
    (h : c.first? = some message) : c.takenIn k = heard k message := by
  unfold first? at h
  split at h
  case h_1 v rest hphase hinbound =>
    cases h
    simp only [takenIn, hphase, hinbound]
  case h_2 deadline code v rest hphase hinbound =>
    cases h
    simp only [takenIn, hphase, hinbound]
  case h_3 => contradiction

theorem takenIn_of_idle {k : Nat} {c : Connection} (h : c.first? = none) :
    c.takenIn k = [] := by
  unfold takenIn
  split
  case h_1 hphase hinbound =>
    rw [first?, hphase, hinbound] at h
    contradiction
  case h_2 hphase hinbound =>
    rw [first?, hphase, hinbound] at h
    contradiction
  case h_3 => rfl

theorem served_of_idle {k : Nat} {c : Connection} (h : c.next? = none) : c.served k = [] := by
  unfold served
  split
  case h_1 hphase hcommands =>
    rw [next?, hphase, hcommands] at h
    contradiction
  case h_2 => rfl

/-!
## Coming to an end
-/

/-- Why a connection comes to its end, and with which exit code. It is like `b` by then. -/
inductive Closes (now : Nat) (c : Connection) : Connection -> Option Int -> Prop where
  /-- There is no process to wait for. -/
  | hungUp (rest : List Inbound) (phase : c.phase = .serving)
      (inbound : c.inbound = .ended :: rest)
      (bare : c.process = none) : Closes now c { c with inbound := rest } none
  | drained (deadline : Nat) (code : Option Int) (rest : List Inbound)
      (phase : c.phase = .draining deadline code) (inbound : c.inbound = .ended :: rest) :
      Closes now c c code
  | drainedLate (deadline : Nat) (code : Option Int)
      (phase : c.phase = .draining deadline code) (due : deadline ≤ now) : Closes now c c code
  | reaped (deadline : Nat) (code : Option Int) (phase : c.phase = .reaping deadline)
      (exited : c.process = some (.exited code)) : Closes now c c code
  /-- The process has not reported in time. -/
  | unreported (deadline : Nat) (phase : c.phase = .reaping deadline) (due : deadline ≤ now) :
      Closes now c (c.signal .kill) none

/-- The steps of a connection that neither serves a command nor takes in a message. -/
inductive Retires (now : Nat) (c : Connection) : Connection -> Emitted -> Prop where
  | reaps (rest : List Inbound) (process : Process) (phase : c.phase = .serving)
      (inbound : c.inbound = .ended :: rest) (held : c.process = some process) :
      Retires now c { c with inbound := rest, phase := .reaping (now + drainGrace) } .nothing
  | drains (code : Option Int) (phase : c.phase = .serving)
      (exited : c.process = some (.exited code)) :
      Retires now c
        { c with phase := .draining (now + drainGrace) code, process := none } .nothing
  | signals (force : Bool) (t : Ticket) (deadline : Nat)
      (phase : c.phase = .terminating force t .leaving deadline) (due : deadline ≤ now) :
      Retires now c
        { c.signal (if force then .kill else .terminate) with
          phase := .terminating force t .signalled (now + killGrace) } .nothing
  | kills (force : Bool) (t : Ticket) (deadline : Nat)
      (phase : c.phase = .terminating force t .signalled deadline) (due : deadline ≤ now) :
      Retires now c
        { c.signal .kill with phase := .terminating force t .killed deadline } .nothing
  | closes (b : Connection) (code : Option Int) (reason : Closes now c b code) :
      Retires now c (b.teardown code).1 (b.teardown code).2
  | parts (code : Option Int) (force : Bool) (t : Ticket) (grace : Grace) (deadline : Nat)
      (phase : c.phase = .terminating force t grace deadline)
      (exited : c.process = some (.exited code)) :
      Retires now c (c.teardownFor t code).1 (c.teardownFor t code).2

theorem Closes.isAlive {now : Nat} {b c : Connection} {code : Option Int}
    (h : Closes now c b code) : c.isAlive = true := by
  cases h with
  | hungUp _ phase => exact isAlive_of_serving phase
  | drained _ _ _ phase | drainedLate _ _ phase | reaped _ _ phase | unreported _ phase =>
      exact isAlive_of_phase phase nofun

theorem Retires.isAlive {now : Nat} {c c' : Connection} {e : Emitted}
    (h : Retires now c c' e) : c.isAlive = true := by
  cases h with
  | reaps _ _ phase | drains _ phase => exact isAlive_of_serving phase
  | signals _ _ _ phase | kills _ _ _ phase | parts _ _ _ _ _ phase =>
      exact isAlive_of_phase phase nofun
  | closes _ _ reason => exact reason.isAlive

theorem Closes.same {now : Nat} {b c : Connection} {code : Option Int}
    (h : Closes now c b code) :
    b.commands = c.commands ∧ b.pending = c.pending ∧ b.written = c.written ∧
      b.stopping = c.stopping := by
  cases h <;> exact ⟨rfl, rfl, rfl, rfl⟩

theorem stepInbound_retires {now : Nat} {folder : String × String} {c c' : Connection}
    {e : Emitted} (hfirst : c.first? = none) (h : c.stepInbound now folder = some (c', e)) :
    Retires now c c' e := by
  unfold stepInbound at h
  split at h
  case h_1 v rest phase inbound =>
    rw [first?, phase, inbound] at hfirst
    contradiction
  case h_2 rest phase inbound =>
    dsimp only at h
    split at h
    case h_1 bare =>
      cases h
      exact .closes _ none (.hungUp rest phase inbound bare)
    case h_2 process held =>
      cases h
      exact .reaps rest process phase inbound held
  case h_3 deadline code v rest phase inbound =>
    rw [first?, phase, inbound] at hfirst
    contradiction
  case h_4 deadline code rest phase inbound =>
    cases h
    exact .closes c code (.drained deadline code rest phase inbound)
  case h_5 => contradiction

/-- A connection takes in its first message, or gets closer to its end. -/
theorem stepInbound_cases {now : Nat} {folder : String × String} {c c' : Connection}
    {e : Emitted} (h : c.stepInbound now folder = some (c', e)) :
    (exists message rest, c.first? = some message ∧ c.inbound = .message message :: rest ∧
        (c.phase = .serving ∨ exists deadline code, c.phase = .draining deadline code) ∧
        dispatch folder { c with inbound := rest } message = (c', e)) ∨
      c.first? = none ∧ Retires now c c' e := by
  cases hfirst : c.first? with
  | none => exact Or.inr ⟨rfl, stepInbound_retires hfirst h⟩
  | some message =>
      rcases stepInbound_eq now folder hfirst with ⟨rest, hinbound, hphase, heq⟩
      exact Or.inl ⟨message, rest, rfl, hinbound, hphase, Option.some.inj (heq.symm.trans h)⟩

theorem stepExit_retires {now : Nat} {c c' : Connection} {e : Emitted}
    (h : c.stepExit now = some (c', e)) : Retires now c c' e := by
  unfold stepExit at h
  split at h
  case h_1 code exited phase =>
    cases h
    exact .drains code phase exited
  case h_2 code deadline exited phase =>
    cases h
    exact .closes c code (.reaped deadline code phase exited)
  case h_3 code force t grace deadline exited phase =>
    cases h
    exact .parts code force t grace deadline phase exited
  case h_4 => contradiction

theorem stepDeadline_retires {now : Nat} {c c' : Connection} {e : Emitted}
    (h : c.stepDeadline now = some (c', e)) : Retires now c c' e := by
  unfold stepDeadline at h
  split at h
  case h_1 deadline phase =>
    split at h
    case isTrue due =>
      cases h
      exact .closes _ none (.unreported deadline phase due)
    case isFalse => contradiction
  case h_2 deadline code phase =>
    split at h
    case isTrue due =>
      cases h
      exact .closes c code (.drainedLate deadline code phase due)
    case isFalse => contradiction
  case h_3 force t deadline phase =>
    split at h
    case isTrue due =>
      cases h
      exact .signals force t deadline phase due
    case isFalse => contradiction
  case h_4 force t deadline phase =>
    split at h
    case isTrue due =>
      cases h
      exact .kills force t deadline phase due
    case isFalse => contradiction
  case h_5 => contradiction

end Connection
end LanguageClient

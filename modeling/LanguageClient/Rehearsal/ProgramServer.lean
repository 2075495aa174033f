import LanguageClient.Rehearsal.Basic
import LanguageClient.Rehearsal.Program

/-!
# Programs as servers

Every connection of a session gets a process of its own, which runs the same program. What
is written to the connection is the input of its process. Whenever something new has come to
a process, the program tells what it has done by then, and what is new of that is passed on.
-/

namespace LanguageClient

structure ProcessView where
  launched : Nat
  /-- How much has been written to it, and how many signals it has got. -/
  written : Nat
  signals : Nat
  /-- How many of the bytes that it printed have been passed on. -/
  printed : Nat
  wakes : Option Nat
  deriving DecidableEq, Repr

structure ProgramServer where
  program : Program
  processes : Table Nat ProcessView

namespace ProgramServer

def new (program : Program) : ProgramServer :=
  ⟨program, .empty⟩

def stirs (view : ProcessView) (now : Nat) (c : Connection) : Bool :=
  view.written < c.written.length || view.signals < c.signals.length ||
    view.wakes.any (· ≤ now)

def ended? (conduct : Program.Conduct) (signals : List Signal) : Option (Option Int) :=
  match conduct.fate with
  | .exited status => some (some status)
  | .killed => some none
  | .waiting | .sleeping _ =>
    if signals.contains .kill || (signals.contains .terminate && !conduct.deaf) then some none
    else none

def actions (k : Nat) (view : ProcessView) (conduct : Program.Conduct)
    (ended : Option (Option Int)) :
    List Session.Action :=
  let news := conduct.printed.drop view.printed
  (if news.isEmpty then [] else [.receive k news]) ++
    (if conduct.outputClosed || ended.isSome then [.hangUp k] else []) ++
    match ended with
    | some code => [.breakPipe k, .exit k code]
    | none => []

def look (s : ProgramServer) (now k : Nat) (c : Connection) (view : ProcessView) :
    ProgramServer × List Session.Action :=
  let input := c.written.flatMap Outgoing.frame
  let conduct := s.program.conduct input (now - view.launched)
  let wakes := match conduct.fate with
    | .sleeping age => some (view.launched + age)
    | _ => none
  let after : ProcessView :=
    ⟨view.launched, c.written.length, c.signals.length, conduct.printed.length, wakes⟩
  ({ s with processes := s.processes.insert k after },
    actions k view conduct (ended? conduct c.signals))

def move (s : ProgramServer) (now : Nat) (connections : List Connection) :
    Option (ProgramServer × List Session.Action) :=
  connections.zipIdx.findSome? fun (c, k) =>
    if c.process = some .running then
      match s.processes.get? k with
      | none => some (s.look now k c ⟨now, 0, 0, 0, none⟩)
      | some view => if stirs view now c then some (s.look now k c view) else none
    else none

instance : Partner ProgramServer where
  move := move
  deadlines s := s.processes.entries.filterMap fun (_, view) => view.wakes

end ProgramServer
end LanguageClient

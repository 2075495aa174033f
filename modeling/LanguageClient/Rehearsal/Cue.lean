import LanguageClient.Rehearsal.ScriptedServer

/-!
# Cues

A rehearsal with a scripted server goes from cue to cue. After each cue everything comes to
rest, and then it is noted which calls have ended, what the server has heard and what the
subscribers have learnt.
-/

namespace LanguageClient

inductive Withdrawal where
  | impossible
  | possible
  | already
  deriving DecidableEq, Repr

inductive ServerAct where
  | send (bytes : Bytes)
  | stopReading
  | stopWriting
  | vanish
  deriving DecidableEq, Repr

inductive Cue where
  | call (op : Operation) (withdrawal : Withdrawal)
  /-- The call of an earlier cue is withdrawn. -/
  | withdraw (cue : Nat)
  | server (act : ServerAct)
  | setReply (method : String) (reply : Json)
  | pass (ms : Nat)
  /-- Nothing but coming to rest. -/
  | rest

structure CuedCall where
  cue : Nat
  call : Nat
  withdrawal : Withdrawal
  deriving DecidableEq, Repr

structure Note where
  finished : List (Nat × Outcome)
  heard : List Json
  events : List Event

structure Performance (D : Type) where
  rehearsal : Rehearsal D ScriptedServer
  listener : Subscription
  cues : Nat
  /-- The calls that have not been noted as ended, in order. -/
  ongoing : List CuedCall

namespace Performance

variable {D : Type} [FileSystem D]

def new (session : Session D) (replies : Table String Json) : Performance D :=
  ⟨⟨session, .new replies⟩, session.bus.subscribe, 0, []⟩

def serverActions (k : Nat) : ServerAct → List Session.Action
  | .send bytes => [.receive k bytes]
  | .stopReading => [.breakPipe k]
  | .stopWriting => [.hangUp k]
  | .vanish => [.breakPipe k, .hangUp k]

def give (p : Performance D) : Cue → Performance D
  | .call op withdrawal =>
    let id := p.rehearsal.nextCall
    let r := p.rehearsal.begin op
    let r := if withdrawal = .already then r.perform (.cancel id) else r
    { p with rehearsal := r, ongoing := p.ongoing ++ [⟨p.cues, id, withdrawal⟩] }
  | .withdraw cue =>
    match p.ongoing.find? fun c => c.cue = cue && c.withdrawal ≠ .impossible with
    | some c => { p with rehearsal := p.rehearsal.perform (.cancel c.call) }
    | none => p
  | .server act =>
    let k := ScriptedServer.stage p.rehearsal.session.connections
    { p with rehearsal := (serverActions k act).foldl Rehearsal.perform p.rehearsal }
  | .setReply method reply =>
    let server := p.rehearsal.partner
    { p with rehearsal.partner := { server with
      replies := server.replies.insert method reply } }
  | .pass ms => { p with rehearsal := p.rehearsal.pass ms }
  | .rest => p

def note (p : Performance D) : Performance D × Note :=
  let finished :=
    p.ongoing.filterMap fun c => (p.rehearsal.outcome? c.call).map fun r => (c.cue, r)
  let unfinished := p.ongoing.filter fun c => (p.rehearsal.outcome? c.call).isNone
  let server := p.rehearsal.partner
  let (events, listener) := p.rehearsal.session.bus.unread p.listener
  ({ p with
      rehearsal.partner := { server with heard := [] }
      listener
      cues := p.cues + 1
      ongoing := unfinished },
    ⟨finished, server.heard.reverse, events⟩)

def step (p : Performance D) (cue : Cue) : Performance D × Note :=
  let p := p.give cue
  { p with rehearsal := p.rehearsal.settle }.note

def touch (p : Performance D) (change : D → D) : Performance D :=
  { p with
      rehearsal.session.workspace.disk := change p.rehearsal.session.workspace.disk }

def disk (p : Performance D) : D :=
  p.rehearsal.session.workspace.disk

def journal (p : Performance D) : List FileChange :=
  p.rehearsal.session.workspace.journal

def unfinished (p : Performance D) : List Nat :=
  p.ongoing.map (·.cue)

end Performance
end LanguageClient

import LanguageClient.Session.Step

/-!
# Effects of a call

A step of a call does a few small things to the session, one after the other: it asks a
connection something, draws a number, resets the session, and so on. This module names these
effects and says what each of them does. What a step of a call keeps need then be shown for
single effects only.
-/

namespace LanguageClient

/-- A question to a connection, still without the ticket of the call that asks it. -/
structure Question where
  command : Ticket -> Command
  own : forall t, (command t).ticket? = some t

namespace Question

def request (number : Nat) (method : String) (params : Json) : Question :=
  ⟨.request number method params, fun _ => rfl⟩

def notify (message : Message) : Question :=
  ⟨.notify message, fun _ => rfl⟩

def sync (input : SyncInput) : Question :=
  ⟨.sync input, fun _ => rfl⟩

def close (uri : String) : Question :=
  ⟨.close uri, fun _ => rfl⟩

def isOpen (uri : String) : Question :=
  ⟨.isOpen uri, fun _ => rfl⟩

def diagnostics (uri : Option String) : Question :=
  ⟨.diagnostics uri, fun _ => rfl⟩

def status : Question :=
  ⟨.status, fun _ => rfl⟩

def terminate (force : Bool) : Question :=
  ⟨.terminate force, fun _ => rfl⟩

end Question

inductive Effect (D : Type) where
  /-- Waits for a turn. -/
  | lineUp
  | rest (task : Task)
  | finish (outcome : Outcome)
  | ask (k : Nat) (question : Question) (task : Task)
  /-- Draws the next number. -/
  | draw
  | abandon (k number : Nat)
  | reset
  | learn (capabilities : Json)
  /-- Makes it known that a connection is to end. -/
  | condemn (k : Nat)
  /-- Makes it known that the server of a connection has been introduced. -/
  | welcome (k : Nat)
  | launch (launched : Bool)
  | store (workspace : Workspace D)

def Task.isLifecycle : Task -> Bool
  | .starting _ | .introducing .. | .announcing _ | .aborting _ | .stopping _
      | .shuttingDown ..
  | .exiting .. | .terminating => true
  | _ => false

def Task.waits : Task -> Bool
  | .starting _ | .stopping _ => true
  | _ => false

/-- Whether a call, if it has ended with a status that says that nothing
runs, says nothing else. -/
def Task.isCoherent : Task -> Bool
  | .done (.ok (.status r)) =>
      r.running ||
        !r.initialized && !r.process && r.openDocuments == 0 && r.pendingRequests == 0
  | _ => true

def Task.isModest (task : Task) : Bool :=
  !task.isLifecycle && task.isCoherent

namespace Effect

variable {D : Type}

def apply (id : Nat) (s : Session D) : Effect D -> Session D
  | .lineUp => { s with turns := s.turns ++ [id] }
  | .rest task => s.setTask id task
  | .finish outcome => s.finish id outcome
  | .ask k question task => s.ask id k question.command task
  | .draw => { s with nextNumber := s.nextNumber + 1 }
  | .abandon k number => s.enqueue k (.abandon number)
  | .reset => s.reset
  | .learn capabilities => { s with capabilities := some capabilities }
  | .condemn k => s.modifyConnection k fun c => { c with stopping := true }
  | .welcome k => s.modifyConnection k fun c => { c with initialized := true }
  | .launch launched => s.launch launched
  | .store workspace => { s with workspace }

def isModest : Effect D -> Bool
  | .rest task | .ask _ _ task => task.isModest
  | .finish outcome => (Task.done outcome).isModest
  | .draw | .abandon .. | .store _ => true
  | .lineUp | .reset | .learn _ | .condemn _ | .welcome _ | .launch _ => false

end Effect

namespace Session

variable {D : Type}

def undergo (s : Session D) (id : Nat) (effects : List (Effect D)) : Session D :=
  effects.foldl (Effect.apply id) s

@[simp] theorem undergo_nil (s : Session D) (id : Nat) : s.undergo id [] = s := rfl

@[simp] theorem undergo_cons (s : Session D) (id : Nat) (e : Effect D)
    (effects : List (Effect D)) :
    s.undergo id (e :: effects) = (e.apply id s).undergo id effects := rfl

end Session
end LanguageClient

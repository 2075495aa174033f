import LanguageClient.Document.Store
import LanguageClient.Failure

/-!
# Commands to a connection

A call never touches a connection itself: it queues a command and waits for the answer,
which comes back under a ticket. A ticket that its call no longer waits for goes unheard.
-/

namespace LanguageClient

/-- Which question of which call an answer belongs to. -/
structure Ticket where
  call : Nat
  serial : Nat
  deriving DecidableEq, Repr

inductive Command where
  | request (number : Nat) (method : String) (params : Json) (ticket : Ticket)
  /-- The caller no longer waits for a request. -/
  | abandon (number : Nat)
  | notify (message : Message) (ticket : Ticket)
  | sync (input : SyncInput) (ticket : Ticket)
  | close (uri : String) (ticket : Ticket)
  | isOpen (uri : String) (ticket : Ticket)
  /-- The diagnostics of one document, or of all. -/
  | diagnostics (uri : Option String) (ticket : Ticket)
  | status (ticket : Ticket)
  | terminate (force : Bool) (ticket : Ticket)
  deriving DecidableEq, Repr

def Command.ticket? : Command → Option Ticket
  | .abandon _ => none
  | .request _ _ _ t | .notify _ t | .sync _ t | .close _ t | .isOpen _ t | .diagnostics _ t
  | .status t | .terminate _ t => some t

inductive Answer where
  | response (r : Except Failure Json)
  | written (r : Except Failure Unit)
  | synced (r : Except Failure SyncedDocument)
  | closed (r : Except Failure Bool)
  | isOpen (b : Bool)
  | diagnostics (lists : List (String × List Json))
  | counts (documents requests : Nat)
  | terminated
  /-- The connection ended before the command was served. -/
  | dropped
  deriving Repr

inductive Inbound where
  | message (v : Json)
  | ended
  deriving DecidableEq, Repr

end LanguageClient

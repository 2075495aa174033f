import LanguageClient.Json.Reader
import LanguageClient.Rehearsal.Basic

/-!
# Scripted servers

A scripted server takes every message that is written to it and answers requests from a
table. It is the same on every connection.
-/

namespace LanguageClient

structure ScriptedServer where
  /-- The answers by method. Anything but an object means that no answer comes. -/
  replies : Table String Json
  /-- How many messages it has taken from each connection. -/
  taken : Table Nat Nat
  /-- The messages taken since the last cue, the latest first. -/
  heard : List Json

namespace ScriptedServer

def new (replies : Table String Json) : ScriptedServer :=
  ⟨replies, .empty, []⟩

def usualReply? (method : String) : Option Json :=
  if method = "initialize" then
    some (Json.ofMembers [("result", Json.ofMembers [("capabilities", Json.ofMembers [])])])
  else if method = "shutdown" then some (Json.ofMembers [("result", .null)])
  else none

def replyTo? (s : ScriptedServer) (message : Json) : Option Json := do
  let id ← message.get? "id"
  let method ← (← message.get? "method").str?
  if method.isEmpty then none
  else
    match ← (s.replies.get? method <|> usualReply? method) with
    | .obj members =>
      some (.obj (Json.insertMember "id" id
        (Json.insertMember "jsonrpc" (.str "2.0") members)))
    | _ => none

def take (s : ScriptedServer) (k : Nat) (out : Outgoing) :
    ScriptedServer × List Session.Action :=
  let s := { s with taken := s.taken.insert k ((s.taken.get? k).getD 0 + 1) }
  match Json.parse? out.print with
  | none => (s, [])
  | some message =>
    let actions := match s.replyTo? message with
      | some reply => [.receive k (Frame.encode reply.print)]
      | none => []
    ({ s with heard := message :: s.heard }, actions)

def waiting? (s : ScriptedServer) (connections : List Connection) : Option (Nat × Outgoing) :=
  connections.zipIdx.findSome? fun (c, k) =>
    (c.written[(s.taken.get? k).getD 0]?).map fun out => (k, out)

instance : Partner ScriptedServer where
  move s _ connections := (s.waiting? connections).map fun (k, out) => s.take k out
  deadlines _ := []

def asksIntroduction : Outgoing → Bool
  | .message m => m.method == some "initialize"
  | .reply _ => false

def stage (connections : List Connection) : Nat :=
  ((connections.zipIdx.filter fun (c, _) => c.written.any asksIntroduction).getLast?.map
    (·.2)).getD 0

end ScriptedServer
end LanguageClient

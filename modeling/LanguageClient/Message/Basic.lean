import LanguageClient.Frame.Encoder
import LanguageClient.Json.Printer
import LanguageClient.Json.Record

/-!
# Messages

The envelope of requests, notifications and responses. Requests and notifications are
written with their fields in a fixed order; replies to the server are plain objects.
-/

namespace LanguageClient

structure ResponseError where
  code : Int
  message : String
  data : Option Json
  deriving DecidableEq, Repr

namespace ResponseError

def internalError : Int := -32603

def members (e : ResponseError) : List (String × Json) :=
  [("code", .int e.code), ("message", .str e.message)] ++ e.data.toList.map (("data", ·))

def toJson (e : ResponseError) : Json :=
  Json.ofMembers e.members

def ofJson? (v : Json) : Option ResponseError := do
  match ← Json.record? 2 [["code"], ["message"], ["data"]] v with
  | [code, message, data] =>
    return { code := ← Json.required Json.signed? code
             message := ← Json.required Json.str? message
             data := ← Json.optional some data }
  | _ => none

end ResponseError

structure Message where
  jsonrpc : String
  id : Option Json
  method : Option String
  params : Option Json
  result : Option Json
  error : Option ResponseError
  deriving DecidableEq, Repr

namespace Message

def params? (params : Json) : Option Json :=
  if params.isNull then none else some params

def request (id : Nat) (method : String) (params : Json) : Message :=
  ⟨"2.0", some (Json.ofNat id), some method, params? params, none, none⟩

def notification (method : String) (params : Json) : Message :=
  ⟨"2.0", none, some method, params? params, none, none⟩

def reply (id result : Json) : Json :=
  Json.ofMembers [("jsonrpc", .str "2.0"), ("id", id), ("result", result)]

def replyError (id : Json) (e : ResponseError) : Json :=
  Json.ofMembers [("jsonrpc", .str "2.0"), ("id", id), ("error", e.toJson)]

def members (m : Message) : List (String × Json) :=
  [("jsonrpc", .str m.jsonrpc)] ++ m.id.toList.map (("id", ·)) ++
    m.method.toList.map (("method", .str ·)) ++ m.params.toList.map (("params", ·)) ++
    m.result.toList.map (("result", ·)) ++ m.error.toList.map (("error", .obj ·.members))

def print (m : Message) : Text :=
  (Json.obj m.members).print

def toJson (m : Message) : Json :=
  Json.ofMembers ([("jsonrpc", .str m.jsonrpc)] ++ m.id.toList.map (("id", ·)) ++
    m.method.toList.map (("method", .str ·)) ++ m.params.toList.map (("params", ·)) ++
    m.result.toList.map (("result", ·)) ++ m.error.toList.map (("error", ·.toJson)))

def ofJson? (v : Json) : Option Message := do
  match ← Json.record? 6 [["jsonrpc"], ["id"], ["method"], ["params"], ["result"],
    ["error"]] v with
  | [jsonrpc, id, method, params, result, error] =>
    return { jsonrpc := ← Json.required Json.str? jsonrpc
             id := ← Json.optional some id
             method := ← Json.optional Json.str? method
             params := ← Json.optional some params
             result := ← Json.optional some result
             error := ← Json.optional ResponseError.ofJson? error }
  | _ => none

end Message

inductive Outgoing where
  /-- A request or a notification. -/
  | message (m : Message)
  /-- A reply to a request of the server. -/
  | reply (v : Json)
  deriving DecidableEq, Repr

namespace Outgoing

def print : Outgoing → Text
  | .message m => m.print
  | .reply v => v.print

def toJson : Outgoing → Json
  | .message m => m.toJson
  | .reply v => v

def frame (out : Outgoing) : Bytes :=
  Frame.encode out.print

end Outgoing
end LanguageClient

import LanguageClient.Message.Basic
import LanguageClient.Number.Unsigned

/-!
# Incoming messages

A message with an id and a method is a request, with an id alone a response, with a method
alone a notification. A null id and a method that is no string count as absent.
-/

namespace LanguageClient

inductive Incoming where
  | request (id : Json) (method : String) (params : Json)
  | response (id : Json) (outcome : Except ResponseError Json)
  | notification (method : String) (params : Json)
  | invalid

namespace Incoming

/-- The error a response carries. One that has not the shape of an error is quoted in an
internal error. -/
def errorOf (v : Json) : ResponseError :=
  match ResponseError.ofJson? v with
  | some e => e
  | none => ⟨ResponseError.internalError, v.render, none⟩

def classify (message : Json) : Incoming :=
  match message with
  | .obj _ =>
    let params := (message.get? "params").getD .null
    match message.present? "id", (message.get? "method").bind Json.str? with
    | some id, some method => .request id method params
    | some id, none =>
      match message.present? "error" with
      | some e => .response id (.error (errorOf e))
      | none => .response id (.ok ((message.get? "result").getD .null))
    | none, some method => .notification method params
    | none, none => .invalid
  | _ => .invalid

/-- The request number that the id of a response denotes: the number
itself or its decimal text. -/
def number? : Json → Option Nat
  | .str s => Unsigned.read? s.toList
  | v => v.word?

end Incoming
end LanguageClient

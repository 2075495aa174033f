import LanguageClient.Message.Basic
import LanguageClient.Proofs.Json.Members

/-!
# Members of messages

What a reader finds under each name of a message that is built, whatever the order in which
its members are kept.
-/

namespace LanguageClient

namespace ResponseError

theorem get?_toJson (e : ResponseError) :
    e.toJson.get? "code" = some (.int e.code) ∧ e.toJson.get? "message" =
      some (.str e.message) ∧
      e.toJson.get? "data" = e.data := by
  rcases e with ⟨code, message, data⟩
  cases data <;> simp [toJson, members, Json.get?_ofMembers]

end ResponseError

namespace Message

theorem get?_call (id : Option Json) (method : String) (params : Option Json) :
    (Message.mk "2.0" id (some method) params none none).toJson.get? "id" = id ∧
      (Message.mk "2.0" id (some method) params none none).toJson.get? "method" =
        some (.str method) ∧
      (Message.mk "2.0" id (some method) params none none).toJson.get? "params" = params := by
  cases id <;> cases params <;> simp [toJson, Json.get?_ofMembers]

theorem get?_reply (id result : Json) (key : String) :
    (reply id result).get? key =
      if key = "result" then some result else if key = "id" then some id
      else if key = "jsonrpc" then some (.str "2.0") else none := by
  simp only [reply, Json.get?_ofMembers]
  by_cases hresult : key = "result"
  · simp [hresult]
  · by_cases hid : key = "id"
    · simp [hid]
    · by_cases hversion : key = "jsonrpc"
      · simp [hversion]
      · simp [hresult, hid, hversion, eq_comm]

theorem get?_replyError (id : Json) (e : ResponseError) (key : String) :
    (replyError id e).get? key =
      if key = "error" then some e.toJson else if key = "id" then some id
      else if key = "jsonrpc" then some (.str "2.0") else none := by
  simp only [replyError, Json.get?_ofMembers]
  by_cases herror : key = "error"
  · simp [herror]
  · by_cases hid : key = "id"
    · simp [hid]
    · by_cases hversion : key = "jsonrpc"
      · simp [hversion]
      · simp [herror, hid, hversion, eq_comm]

end Message
end LanguageClient

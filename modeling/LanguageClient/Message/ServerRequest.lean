import LanguageClient.Message.Basic

/-!
# Requests of the server

The client answers every request of the server at once. It has no configuration to hand out,
one workspace folder, and nothing to say to anything else.
-/

namespace LanguageClient.ServerRequest

def folders (rootUri name : String) : Json :=
  .arr [Json.ofMembers [("uri", .str rootUri), ("name", .str name)]]

def configuration (params : Json) : Except ResponseError Json :=
  match params.present? "items" with
  | none => .ok (.arr [])
  | some (.arr items) => .ok (.arr (items.map fun _ => Json.ofMembers []))
  | some _ =>
    .error ⟨ResponseError.internalError,
      "workspace/configuration: params.items must be an array", none⟩

def answer (method : String) (params : Json) (rootUri name : String) :
    Except ResponseError Json :=
  if method = "workspace/configuration" then configuration params
  else if method = "workspace/workspaceFolders" then .ok (folders rootUri name)
  else .ok .null

def reply (id : Json) : Except ResponseError Json → Json
  | .ok result => Message.reply id result
  | .error e => Message.replyError id e

end LanguageClient.ServerRequest

import LanguageClient.Json.Record
import LanguageClient.Text.Edit

/-!
# Edits as messages

Text edits and workspace edits as a server proposes them. Of a workspace edit only the flat
map from URIs to edits is honoured.
-/

namespace LanguageClient

namespace Position

def ofJson? (v : Json) : Option Position := do
  match ← Json.record? 2 [["line"], ["character"]] v with
  | [line, character] =>
    return ⟨← Json.required Json.halfWord? line, ← Json.required Json.halfWord? character⟩
  | _ => none

def toJson (p : Position) : Json :=
  Json.ofMembers [("line", Json.ofNat p.line), ("character", Json.ofNat p.character)]

end Position

namespace Range

def ofJson? (v : Json) : Option Range := do
  match ← Json.record? 2 [["start"], ["end"]] v with
  | [start, stop] =>
    return ⟨← Json.required Position.ofJson? start, ← Json.required Position.ofJson? stop⟩
  | _ => none

def toJson (r : Range) : Json :=
  Json.ofMembers [("start", r.start.toJson), ("end", r.stop.toJson)]

end Range

namespace TextEdit

def ofJson? (v : Json) : Option TextEdit := do
  match ← Json.record? 2 [["range"], ["newText"]] v with
  | [range, newText] =>
    return ⟨← Json.required Range.ofJson? range, (← Json.required Json.str? newText).toList⟩
  | _ => none

def toJson (e : TextEdit) : Json :=
  Json.ofMembers [("range", e.range.toJson), ("newText", .str (String.ofList e.newText))]

def listOfJson? (v : Json) : Option (List TextEdit) := do
  (← v.items?).mapM ofJson?

end TextEdit

structure WorkspaceEdit where
  changes : Option (List (String × List TextEdit))
  /-- Versioned changes, which are only recognised. -/
  documentChanges : Option Json
  deriving DecidableEq, Repr

namespace WorkspaceEdit

def changesOfJson? : Json → Option (List (String × List TextEdit))
  | .obj members => members.mapM fun (uri, v) => do return (uri, ← TextEdit.listOfJson? v)
  | _ => none

def ofJson? (v : Json) : Option WorkspaceEdit := do
  match ← Json.record? 0 [["changes"], ["documentChanges"]] v with
  | [changes, documentChanges] =>
    return ⟨← Json.optional changesOfJson? changes, ← Json.optional some documentChanges⟩
  | _ => none

def toJson (e : WorkspaceEdit) : Json :=
  let entry (c : String × List TextEdit) : String × Json :=
    (c.1, .arr (c.2.map TextEdit.toJson))
  Json.ofMembers (e.changes.toList.map
    (fun cs => ("changes", Json.ofMembers (cs.map entry))) ++
    e.documentChanges.toList.map (("documentChanges", ·)))

end WorkspaceEdit
end LanguageClient

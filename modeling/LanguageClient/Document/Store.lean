import LanguageClient.Digest.Sha256
import LanguageClient.Document.Table
import LanguageClient.Message.Basic
import LanguageClient.Path.Basic
import LanguageClient.Text.LineEnding

/-!
# Open documents

The client's record of the documents that the server has open and of the diagnostics the
server has published. Each operation says what to tell the server. A change always
carries the whole text; a document's version starts at 1 and moves only when the
fingerprint of its text does.
-/

namespace LanguageClient

structure Document where
  uri : String
  path : Path
  version : Nat
  hash : String
  languageId : String
  lineEnding : LineEnding
  deriving DecidableEq, Repr

structure SyncInput where
  uri : String
  path : Path
  text : Text
  hash : String
  languageId : String
  lineEnding : LineEnding
  deriving DecidableEq, Repr

inductive SyncAction where
  | opened
  | changed
  | unchanged
  deriving DecidableEq, Repr

def SyncAction.name : SyncAction → String
  | .opened => "opened"
  | .changed => "changed"
  | .unchanged => "unchanged"

structure SyncedDocument where
  document : Document
  action : SyncAction
  deriving DecidableEq, Repr

namespace Document

def didOpen (d : Document) (text : Text) : Message :=
  .notification "textDocument/didOpen" (Json.ofMembers [("textDocument", Json.ofMembers
    [("uri", .str d.uri), ("languageId", .str d.languageId), ("version", Json.ofNat d.version),
     ("text", .str (String.ofList text))])])

def didChange (d : Document) (text : Text) : Message :=
  .notification "textDocument/didChange" (Json.ofMembers
    [("textDocument", Json.ofMembers [("uri", .str d.uri), ("version", Json.ofNat d.version)]),
     ("contentChanges", .arr [Json.ofMembers [("text", .str (String.ofList text))]])])

def didClose (uri : String) : Message :=
  .notification "textDocument/didClose"
    (Json.ofMembers [("textDocument", Json.ofMembers [("uri", .str uri)])])

end Document

structure DocumentStore where
  documents : Table String Document
  diagnostics : Table String (List Json)
  deriving Repr, Inhabited

namespace DocumentStore

def empty : DocumentStore := ⟨.empty, .empty⟩

/-- Brings a document up to a content. Only a fingerprint that differs counts as a change. -/
def sync (s : DocumentStore) (input : SyncInput) :
    DocumentStore × SyncedDocument × Option Message :=
  match s.documents.get? input.uri with
  | none =>
    let d : Document :=
      ⟨input.uri, input.path, 1, input.hash, input.languageId, input.lineEnding⟩
    ({ s with documents := s.documents.insert input.uri d }, ⟨d, .opened⟩,
      some (d.didOpen input.text))
  | some d =>
    if d.hash = input.hash then (s, ⟨d, .unchanged⟩, none)
    else
      let d :=
        { d with version := d.version + 1, hash := input.hash, lineEnding := input.lineEnding }
      ({ s with documents := s.documents.insert input.uri d }, ⟨d, .changed⟩,
        some (d.didChange input.text))

def close (s : DocumentStore) (uri : String) : DocumentStore × Option Message :=
  match s.documents.get? uri with
  | none => (s, none)
  | some _ =>
    (⟨s.documents.erase uri, s.diagnostics.erase uri⟩, some (Document.didClose uri))

structure Published where
  uri : String
  version : Option Int
  count : Nat
  deriving DecidableEq, Repr

/-- Takes over the diagnostics of a publication, which replace those before. Without a URI the
publication is ignored. -/
def publish (s : DocumentStore) (params : Json) : DocumentStore × Option Published :=
  match (params.get? "uri").bind Json.str? with
  | none => (s, none)
  | some uri =>
    let list := ((params.get? "diagnostics").bind Json.items?).getD []
    ({ s with diagnostics := s.diagnostics.insert uri list },
      some ⟨uri, (params.get? "version").bind Json.signed?, list.length⟩)

def diagnosticsOf (s : DocumentStore) (uri : String) : List Json :=
  (s.diagnostics.get? uri).getD []

def isOpen (s : DocumentStore) (uri : String) : Bool :=
  s.documents.contains uri

def size (s : DocumentStore) : Nat :=
  s.documents.size

end DocumentStore

def SyncedDocument.toJson (s : SyncedDocument) (path : Json) : Json :=
  let d := s.document
  Json.ofMembers [("uri", .str d.uri), ("path", path), ("version", Json.ofNat d.version),
    ("hash", .str d.hash), ("languageId", .str d.languageId),
    ("lineEnding", .str d.lineEnding.name), ("action", .str s.action.name)]

end LanguageClient

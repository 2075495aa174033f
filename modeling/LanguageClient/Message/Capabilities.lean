import LanguageClient.Json.Basic

/-!
# Client capabilities

The fixed set that the client announces when it introduces itself.
-/

namespace LanguageClient

def clientCapabilities : Json :=
  let object := Json.ofMembers
  let formats := Json.arr [.str "markdown", .str "plaintext"]
  object [
    ("workspace", object [
      ("workspaceFolders", .bool true), ("configuration", .bool true),
      ("applyEdit", .bool false),
      ("workspaceEdit", object [("documentChanges", .bool false)])]),
    ("textDocument", object [
      ("synchronization", object [
        ("dynamicRegistration", .bool false), ("didSave", .bool true),
        ("willSave", .bool false), ("willSaveWaitUntil", .bool false)]),
      ("hover", object [("contentFormat", formats)]),
      ("definition", object [("linkSupport", .bool false)]),
      ("references", object []),
      ("completion", object [
        ("completionItem", object [
          ("snippetSupport", .bool true), ("commitCharactersSupport", .bool true),
          ("documentationFormat", formats)])]),
      ("documentSymbol", object [("hierarchicalDocumentSymbolSupport", .bool true)]),
      ("rename", object [("prepareSupport", .bool false)]),
      ("formatting", object []),
      ("publishDiagnostics", object [("relatedInformation", .bool true)])]),
    ("window", object [("workDoneProgress", .bool true)])]

end LanguageClient

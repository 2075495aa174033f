import LanguageClient.Config.Basic
import LanguageClient.Document.Table
import LanguageClient.Toml.Reader

/-!
# Configuration files

A configuration is a TOML document, as are the settings of the log. A file is read, then
overridden by those variables of the environment that carry the client's prefix.
-/

namespace LanguageClient

namespace Config

def ofToml? (text : Text) : Option Config :=
  (Toml.parse? text).bind ofJson?

inductive LoadError where
  /-- The file is missing or is not text. -/
  | unreadable
  | malformed
  deriving DecidableEq, Repr

def LoadError.message (file : String) : LoadError → String
  | .unreadable => "failed to read config " ++ file
  | .malformed => "failed to parse config " ++ file

def overridingVariables (environment : List (String × String)) : List (String × String) :=
  let table := environment.foldl (fun t (key, value) => t.insert key value) Table.empty
  table.entries.filter fun (key, _) => variablePrefix.toList.isPrefixOf key.toList

def load (content : Option Bytes) (environment : List (String × String)) :
    Except LoadError Config :=
  match content.bind Utf8.decode? with
  | none => .error .unreadable
  | some text =>
    match ofToml? text with
    | none => .error .malformed
    | some c => .ok (c.overrides (overridingVariables environment))

end Config

/-!
## Log settings
-/

inductive LogFormat where
  | compact
  | json
  deriving DecidableEq, Repr

namespace LogFormat

def name : LogFormat → String
  | .compact => "compact"
  | .json => "json"

def ofName? (name : String) : Option LogFormat :=
  if name = "compact" then some .compact else if name = "json" then some .json else none

def ofJson? : Json → Option LogFormat
  | .str name => ofName? name
  | .obj [(name, .arr [])] | .obj [(name, .obj [])] => ofName? name
  | _ => none

end LogFormat

structure LogSettings where
  level : String
  format : LogFormat
  file : Option String
  deriving DecidableEq, Repr

namespace LogSettings

def ofToml? (text : Text) : Option LogSettings := do
  match ← Json.record? 0 [["level"], ["format"], ["file"]] (← Toml.parse? text) with
  | [level, format, file] =>
    return { level := ← Json.defaulted "info" Json.str? level
             format := ← Json.defaulted .compact LogFormat.ofJson? format
             file := ← Json.optional Json.str? file }
  | _ => none

end LogSettings
end LanguageClient

import LanguageClient.Json.Printer
import LanguageClient.Json.Record
import LanguageClient.Number.Unsigned
import LanguageClient.Text.Blank

/-!
# Configuration

What a user sets for one client. Every field has a default; most may also be spelled
in camel case. Variables of the environment override three of the fields, and
unusable values are ignored.
-/

namespace LanguageClient

structure Config where
  command : String := ""
  args : List String := []
  cwd : Option String := none
  /-- Variables that the server gets besides the inherited ones. -/
  env : List (String × String) := []
  initializationOptions : Option Json := none
  rootUri : Option String := none
  workspaceName : Option String := none
  serverName : Option String := none
  allowWrites : Bool := false
  maxFileBytes : Nat := 512 * 1024
  defaultTimeoutMs : Nat := 30000
  deriving DecidableEq, Repr, Inhabited

namespace Config

/-!
## Reading
-/

def fields : List (List String) :=
  [["command"], ["args"], ["cwd"], ["env"],
   ["initialization_options", "initializationOptions"],
   ["root_uri", "rootUri"], ["workspace_name", "workspaceName"], ["server_name", "serverName"],
   ["allow_writes", "allowWrites"], ["max_file_bytes", "maxFileBytes"],
   ["default_timeout_ms", "defaultTimeoutMs"]]

def strings? (v : Json) : Option (List String) := do
  (← v.items?).mapM Json.str?

def stringMap? : Json → Option (List (String × String))
  | .obj members => members.mapM fun (key, v) => do return (key, ← v.str?)
  | _ => none

mutual
def finite : Json → Json
  | .float x => if x.isFinite then .float x else .null
  | .arr items => .arr (finiteItems items)
  | .obj members => .obj (finiteMembers members)
  | v => v

def finiteItems : List Json → List Json
  | [] => []
  | v :: rest => finite v :: finiteItems rest

def finiteMembers : List (String × Json) → List (String × Json)
  | [] => []
  | (key, v) :: rest => (key, finite v) :: finiteMembers rest
end

def ofJson? (v : Json) : Option Config := do
  match ← Json.record? 0 fields v with
  | [command, args, cwd, env, options, rootUri, workspaceName, serverName, allowWrites,
      maxFileBytes, defaultTimeoutMs] =>
    return {
      command := ← Json.defaulted "" Json.str? command
      args := ← Json.defaulted [] strings? args
      cwd := ← Json.optional Json.str? cwd
      env := ← Json.defaulted [] stringMap? env
      initializationOptions := ← Json.optional (fun v => some (finite v)) options
      rootUri := ← Json.optional Json.str? rootUri
      workspaceName := ← Json.optional Json.str? workspaceName
      serverName := ← Json.optional Json.str? serverName
      allowWrites := ← Json.defaulted false Json.bool? allowWrites
      maxFileBytes := ← Json.defaulted (512 * 1024) Json.word? maxFileBytes
      defaultTimeoutMs := ← Json.defaulted 30000 Json.word? defaultTimeoutMs }
  | _ => none

def toJson (c : Config) : Json :=
  let text := Json.ofOption Json.str
  Json.ofMembers [("command", .str c.command), ("args", .arr (c.args.map Json.str)),
    ("cwd", text c.cwd), ("env", Json.ofMembers (c.env.map fun (k, v) => (k, .str v))),
    ("initialization_options", c.initializationOptions.getD .null),
    ("root_uri", text c.rootUri), ("workspace_name", text c.workspaceName),
    ("server_name", text c.serverName), ("allow_writes", .bool c.allowWrites),
    ("max_file_bytes", Json.ofNat c.maxFileBytes),
    ("default_timeout_ms", Json.ofNat c.defaultTimeoutMs)]

/-!
## Overriding
-/

def variablePrefix : String := "LSP_BRIDGE_"

def flag? (text : Text) : Option Bool :=
  let word := String.ofList (text.map Char.toLower)
  if ["1", "true", "yes", "on"].contains word then some true
  else if ["0", "false", "no", "off"].contains word then some false
  else none

/-- One variable; blanks around its value do not count, and an unusable
value changes nothing. -/
def override (c : Config) (key value : String) : Config :=
  let value := Blank.trim value.toList
  if key = "LSP_BRIDGE_ALLOW_WRITES" then
    { c with allowWrites := (flag? value).getD c.allowWrites }
  else if key = "LSP_BRIDGE_MAX_FILE_BYTES" then
    { c with maxFileBytes := (Unsigned.read? value).getD c.maxFileBytes }
  else if key = "LSP_BRIDGE_TIMEOUT_MS" then
    { c with defaultTimeoutMs := (Unsigned.read? value).getD c.defaultTimeoutMs }
  else c

/-- Variables in order; the last usable one for a field counts. -/
def overrides (c : Config) (pairs : List (String × String)) : Config :=
  pairs.foldl (fun c (key, value) => c.override key value) c

def ofCommand (command : String) (args : List String) : Config :=
  { command, args }

end Config

/-!
## Limits
-/

namespace Limit

def clamp (low high n : Nat) : Nat :=
  if n < low then low else if high < n then high else n

theorem clamp_eq {low high : Nat} (h : low ≤ high) (n : Nat) :
    clamp low high n = max low (min n high) := by
  rw [clamp]
  split
  · omega
  · split <;> omega

def maxFileBytes (n : Nat) : Nat :=
  clamp 1024 (5 * 1024 * 1024) n

def sessionTimeout (ms : Nat) : Nat :=
  clamp 1000 (5 * 60 * 1000) ms

def requestTimeout (ms : Nat) : Nat :=
  clamp 100 (5 * 60 * 1000) ms

end Limit
end LanguageClient

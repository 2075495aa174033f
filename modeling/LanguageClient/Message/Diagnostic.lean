import LanguageClient.Json.Basic
import LanguageClient.Text.Utf8

/-!
# Diagnostics

A diagnostic as the server publishes it is any JSON value. Flattened, it names its file, the
start of its range, a severity, a message and where it came from; entries without a start or
a message are left out.
-/

namespace LanguageClient

inductive Severity where
  | error
  | warning
  | information
  | hint
  deriving DecidableEq, Repr

namespace Severity

def ofLevel : Nat → Severity
  | 1 => .error
  | 2 => .warning
  | 4 => .hint
  | _ => .information

def name : Severity → String
  | .error => "error"
  | .warning => "warning"
  | .information => "information"
  | .hint => "hint"

end Severity

structure DiagnosticItem where
  file : Text
  line : Nat
  column : Nat
  severity : Severity
  message : String
  source : String
  deriving DecidableEq, Repr

namespace DiagnosticItem

def coordinate? (v : Json) : Option Nat :=
  v.word?.map (· % Nat.pow 2 32)

def ofJson? (file : Text) (defaultSource : String) (v : Json) : Option DiagnosticItem := do
  let start ← (← v.get? "range").get? "start"
  let line ← coordinate? (← start.get? "line")
  let column ← coordinate? (← start.get? "character")
  let message ← (← v.get? "message").str?
  return { file, line, column, message
           severity :=
             (((v.get? "severity").bind Json.word?).map Severity.ofLevel).getD .information
           source := ((v.get? "source").bind Json.str?).getD defaultSource }

def flatten (file : Text) (diagnostics : List Json) (defaultSource : String) :
    List DiagnosticItem :=
  diagnostics.filterMap (ofJson? file defaultSource)

def toJson (item : DiagnosticItem) : Json :=
  Json.ofMembers [("file", .str (String.ofList item.file)), ("line", Json.ofNat item.line),
    ("col", Json.ofNat item.column), ("severity", .str item.severity.name),
    ("message", .str item.message), ("source", .str item.source)]

def textLe : Text → Text → Bool
  | [], _ => true
  | _ :: _, [] => false
  | a :: as, b :: bs => a < b || (a == b && textLe as bs)

def le (a b : DiagnosticItem) : Bool :=
  if a.file ≠ b.file then textLe a.file b.file
  else if a.line ≠ b.line then a.line < b.line
  else a.column ≤ b.column

end DiagnosticItem
end LanguageClient

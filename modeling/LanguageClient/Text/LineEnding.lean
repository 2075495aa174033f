import LanguageClient.Text.Utf8

/-!
# Line endings

A text that holds a carriage return before a line feed follows the CRLF convention.
Documents are kept with line feeds alone and written back in their own convention.
-/

namespace LanguageClient

inductive LineEnding where
  | lf
  | crlf
  deriving DecidableEq, Repr, Inhabited

namespace LineEnding

def name : LineEnding → String
  | .lf => "lf"
  | .crlf => "crlf"

def hasCrlf : Text → Bool
  | '\r' :: '\n' :: _ => true
  | _ :: rest => hasCrlf rest
  | [] => false

def detect (text : Text) : LineEnding :=
  if hasCrlf text then .crlf else .lf

def joinBreaks : Text → Text
  | '\r' :: '\n' :: rest => '\n' :: joinBreaks rest
  | c :: rest => c :: joinBreaks rest
  | [] => []

def splitBreaks (text : Text) : Text :=
  text.flatMap fun c => if c = '\n' then ['\r', '\n'] else [c]

def apply : LineEnding → Text → Text
  | .lf, text => text
  | .crlf, text => splitBreaks text

def normalize (text : Text) : Text × LineEnding :=
  match detect text with
  | .lf => (text, .lf)
  | .crlf => (joinBreaks text, .crlf)

end LineEnding
end LanguageClient

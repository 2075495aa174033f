import LanguageClient.Text.Utf8

/-!
# Shell commands

The commands of a small shell, in which a program that plays a server can be written. The
shell works on bytes; inside it every byte stands as the character of its number, so that
scripts, values and streams are texts of one kind.
-/

namespace LanguageClient.Shell

/-- Bytes as the shell sees them. -/
def glyphs (bytes : Bytes) : Text :=
  bytes.map fun b => Char.ofNat b.toNat

def bytesOf (text : Text) : Bytes :=
  text.map fun c => UInt8.ofNat c.toNat

def encoded (text : Text) : Text :=
  glyphs (Utf8.encode text)

structure Cut where
  fromEnd : Bool
  longest : Bool
  deriving DecidableEq, Repr

inductive Direction where
  | input
  | output
  /-- The same as another stream, or closed. -/
  | copy
  deriving DecidableEq, Repr

mutual

inductive Piece where
  | text (chars : Text) (quoted : Bool)
  | value (name : Text) (use : Use) (quoted : Bool)
  | number (expression : List Piece) (quoted : Bool)
  | output (body : Command) (quoted : Bool)

inductive Use where
  | whole
  | size
  | without (cut : Cut) (pattern : List Piece)
  /-- A word in place of a value that is missing, or also of one that is empty. -/
  | fallback (evenEmpty : Bool) (word : List Piece)
  /-- The same, and the variable keeps it. -/
  | settle (evenEmpty : Bool) (word : List Piece)
  /-- A word in place of a value that is there. -/
  | instead (evenEmpty : Bool) (word : List Piece)

inductive Command where
  | nothing
  | simple (assignments : List (Text × List Piece)) (words : List (List Piece))
  | redirected (body : Command) (redirections : List (Nat × Direction × List Piece))
  | sequence (first second : Command)
  | both (first second : Command)
  | either (first second : Command)
  | not (body : Command)
  | pipe (first second : Command)
  | subshell (body : Command)
  | branch (condition yes no : Command)
  | loop (wanted : Bool) (condition body : Command)
  | each (name : Text) (words : Option (List (List Piece))) (body : Command)
  | select (subject : List Piece) (clauses : List (List (List Piece) × Command))
  | define (name : Text) (body : Command)

end

def Command.ofWords (words : List Text) : Command :=
  .simple [] (words.map fun w => [.text w true])

def Piece.isOutput : Piece → Bool
  | .output .. => true
  | _ => false

def literal? : List Piece → Option Text
  | [] => some []
  | .text chars _ :: rest => (literal? rest).map (chars ++ ·)
  | _ => none

def Command.changesStreams : Command → Bool
  | .simple [] [word] => literal? word == some "exec".toList
  | _ => false

end LanguageClient.Shell

import LanguageClient.Text.Utf8

/-!
# Characters of TOML

Which characters may stand where, and what blanks, line breaks and comments are. A reader takes
something off the front of a text, or fails.
-/

namespace LanguageClient.Toml

/-- Takes a value off the front of a text. -/
abbrev Reader (α : Type) := Text → Option (α × Text)

def isBlank (c : Char) : Bool :=
  c = ' ' || c = '\t'

def isPrintable (c : Char) : Bool :=
  c = '\t' || (0x20 ≤ c.toNat && c.toNat ≠ 0x7F)

def isBareKey (c : Char) : Bool :=
  c.isAlphanum || c = '_' || c = '-'

def skipBlanks (text : Text) : Text :=
  text.dropWhile isBlank

def afterBreak? : Text → Option Text
  | '\n' :: rest => some rest
  | '\r' :: '\n' :: rest => some rest
  | _ => none

def skipComment : Text → Text
  | '#' :: rest => rest.dropWhile isPrintable
  | text => text

def endLine? (text : Text) : Option Text :=
  match skipComment (skipBlanks text) with
  | [] => some []
  | rest => afterBreak? rest

def skipSpace : Nat → Text → Text
  | 0, text => text
  | fuel + 1, text =>
    match text with
    | '#' :: rest => skipSpace fuel (rest.dropWhile isPrintable)
    | c :: rest =>
      if isBlank c then skipSpace fuel rest
      else
        match afterBreak? (c :: rest) with
        | some rest => skipSpace fuel rest
        | none => text
    | [] => []

def after? : Text → Text → Option Text
  | [], text => some text
  | c :: word, d :: text => if c = d then after? word text else none
  | _ :: _, [] => none

end LanguageClient.Toml

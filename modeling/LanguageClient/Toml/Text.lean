import LanguageClient.Json.Reader
import LanguageClient.Toml.Characters

/-!
# Strings and keys of TOML

Basic strings know escapes, literal strings do not. Either may span lines between triple
quotes, where a line break directly behind the opening quotes does not count and every
other one is a line feed. One or two quotes may stand inside such a string, also right
before the closing ones.
-/

namespace LanguageClient.Toml

/-!
## Escapes
-/

def letterEscape? : Char → Option Char
  | 'b' => some '\x08'
  | 't' => some '\t'
  | 'n' => some '\n'
  | 'f' => some '\x0c'
  | 'r' => some '\r'
  | '"' => some '"'
  | '\\' => some '\\'
  | _ => none

def readCodePoint (count : Nat) (text : Text) : Option (Char × Text) := do
  let digits := text.take count
  if digits.length < count then none
  else
    let n ← digits.foldlM (fun n c => do return n * 16 + (← Json.hexValue? c)) 0
    if n < 0xD800 ∨ (0xDFFF < n ∧ n < 0x110000) then some (Char.ofNat n, text.drop count)
      else none

def readEscape : Reader Char
  | 'u' :: rest => readCodePoint 4 rest
  | 'U' :: rest => readCodePoint 8 rest
  | c :: rest => (letterEscape? c).map (·, rest)
  | [] => none

/-!
## Strings on one line
-/

def readBasic : Nat → Text → Reader Text
  | 0, _, _ => none
  | fuel + 1, acc, text =>
    match text with
    | [] => none
    | '"' :: rest => some (acc.reverse, rest)
    | '\\' :: rest =>
      match readEscape rest with
      | some (c, rest) => readBasic fuel (c :: acc) rest
      | none => none
    | c :: rest => if isPrintable c then readBasic fuel (c :: acc) rest else none

def readLiteral (acc : Text) : Reader Text
  | [] => none
  | c :: rest =>
    if c = '\'' then some (acc.reverse, rest)
    else if isPrintable c then readLiteral (c :: acc) rest
    else none

/-!
## Strings over several lines
-/

def countQuotes (quote : Char) : Text → Nat × Text
  | [] => (0, [])
  | c :: rest =>
    if c = quote then
      let (n, rest) := countQuotes quote rest
      (n + 1, rest)
    else (0, c :: rest)

def skipBreaks : Text → Text
  | '\r' :: '\n' :: rest => skipBreaks rest
  | c :: rest => if isBlank c || c = '\n' then skipBreaks rest else c :: rest
  | [] => []

def foldLine? (text : Text) : Option Text :=
  (afterBreak? (skipBlanks text)).map skipBreaks

def readMultiline : Nat → Char → Text → Reader Text
  | 0, _, _, _ => none
  | fuel + 1, quote, acc, text =>
    match text with
    | [] => none
    | c :: rest =>
      if c = quote then
        let (n, rest) := countQuotes quote (c :: rest)
        let quotes := List.replicate (min n 5 - 3) quote
        if n < 3 then readMultiline fuel quote (List.replicate n quote ++ acc) rest
        else some ((quotes ++ acc).reverse, List.replicate (n - 5) quote ++ rest)
      else if c = '\\' ∧ quote = '"' then
        match foldLine? rest with
        | some rest => readMultiline fuel quote acc rest
        | none =>
          match readEscape rest with
          | some (c, rest) => readMultiline fuel quote (c :: acc) rest
          | none => none
      else
        match afterBreak? (c :: rest) with
        | some rest => readMultiline fuel quote ('\n' :: acc) rest
        | none => if isPrintable c then readMultiline fuel quote (c :: acc) rest else none

def dropFirstBreak (text : Text) : Text :=
  (afterBreak? text).getD text

def readString (text : Text) : Option (Text × Text) :=
  match text with
  | '"' :: '"' :: '"' :: rest => readMultiline (rest.length + 1) '"' [] (dropFirstBreak rest)
  | '\'' :: '\'' :: '\'' :: rest =>
    readMultiline (rest.length + 1) '\'' [] (dropFirstBreak rest)
  | '"' :: rest => readBasic (rest.length + 1) [] rest
  | '\'' :: rest => readLiteral [] rest
  | _ => none

/-!
## Keys
-/

def readSimpleKey (text : Text) : Option (Text × Text) :=
  match text with
  | '"' :: rest => readBasic (rest.length + 1) [] rest
  | '\'' :: rest => readLiteral [] rest
  | _ =>
    match text.takeWhile isBareKey with
    | [] => none
    | key => some (key, text.dropWhile isBareKey)

def readKeyParts : Nat → Reader (List Text)
  | 0, _ => none
  | fuel + 1, text =>
    match readSimpleKey (skipBlanks text) with
    | none => none
    | some (part, rest) =>
      match skipBlanks rest with
      | '.' :: rest => (readKeyParts fuel rest).map fun (parts, rest) => (part :: parts, rest)
      | rest => some ([part], rest)

def depthLimit : Nat := 80

def readKey (text : Text) : Option (List Text × Text) :=
  (readKeyParts (text.length + 1) text).filter (·.1.length < depthLimit)

end LanguageClient.Toml

import LanguageClient.Json.Number
import LanguageClient.Text.Utf8

/-!
# Reading JSON text

A strict reader: no comments, no trailing commas, no byte-order mark, no control characters
inside strings, surrogate escapes only in pairs. Arrays and objects nest at most 127 deep.
Of a repeated key the last member counts.
-/

namespace LanguageClient.Json

def depthLimit : Nat := 128

def isSpace (c : Char) : Bool :=
  c = ' ' || c = '\t' || c = '\n' || c = '\r'

def skipSpace (text : List Char) : List Char :=
  text.dropWhile isSpace

/-!
## Strings
-/

def hexValue? (c : Char) : Option Nat :=
  if '0' ≤ c ∧ c ≤ '9' then some (c.toNat - '0'.toNat)
  else if 'a' ≤ c ∧ c ≤ 'f' then some (c.toNat - 'a'.toNat + 10)
  else if 'A' ≤ c ∧ c ≤ 'F' then some (c.toNat - 'A'.toNat + 10)
  else none

def hexQuad? (a b c d : Char) : Option Nat := do
  return (((← hexValue? a) * 16 + (← hexValue? b)) * 16 + (← hexValue? c)) * 16 +
    (← hexValue? d)

def simpleEscape? : Char → Option Char
  | '"' => some '"'
  | '\\' => some '\\'
  | '/' => some '/'
  | 'b' => some '\x08'
  | 'f' => some '\x0c'
  | 'n' => some '\n'
  | 'r' => some '\r'
  | 't' => some '\t'
  | _ => none

/-- Reads up to the closing quote. `high` is a leading surrogate whose partner must come
next, and `acc` holds the characters so far, the last one first. -/
def readString (high : Option Nat) (acc : List Char) : List Char → Option (String × List Char)
  | [] => none
  | '\\' :: 'u' :: a :: b :: c :: d :: rest =>
    match hexQuad? a b c d, high with
    | none, _ => none
    | some n, some h =>
      if n < 0xDC00 ∨ 0xDFFF < n then none
      else readString none (Char.ofNat (0x10000 + (h - 0xD800) * 0x400 + (n - 0xDC00)) ::
        acc) rest
    | some n, none =>
      if n < 0xD800 ∨ 0xDFFF < n then readString none (Char.ofNat n :: acc) rest
      else if n < 0xDC00 then readString (some n) acc rest
      else none
  | c :: rest =>
    if high.isSome then none
    else if c = '"' then some (String.ofList acc.reverse, rest)
    else if c = '\\' then
      match rest with
      | e :: rest =>
        match simpleEscape? e with
        | some x => readString none (x :: acc) rest
        | none => none
      | [] => none
    else if c.toNat < 0x20 then none
    else readString none (c :: acc) rest

/-!
## Values

`fuel` bounds the recursion; the length of the text is enough, since every call but the
first has a character behind it. `depth` is the nesting still allowed.
-/

def expect? : List Char → List Char → Option (List Char)
  | [], text => some text
  | c :: word, d :: text => if c = d then expect? word text else none
  | _ :: _, [] => none

mutual
def readValue : Nat → Nat → List Char → Option (Json × List Char)
  | 0, _, _ => none
  | fuel + 1, depth, text =>
    match text with
    | 'n' :: rest => (expect? ['u', 'l', 'l'] rest).map (.null, ·)
    | 't' :: rest => (expect? ['r', 'u', 'e'] rest).map (.bool true, ·)
    | 'f' :: rest => (expect? ['a', 'l', 's', 'e'] rest).map (.bool false, ·)
    | '"' :: rest => (readString none [] rest).map fun (s, r) => (.str s, r)
    | '[' :: rest =>
      if depth ≤ 1 then none
      else
        match skipSpace rest with
        | ']' :: r => some (.arr [], r)
        | r => (readItems fuel (depth - 1) [] r).map fun (xs, r) => (.arr xs, r)
    | '\x7b' :: rest =>
      if depth ≤ 1 then none
      else
        match skipSpace rest with
        | '\x7d' :: r => some (.obj [], r)
        | r => (readMembers fuel (depth - 1) [] r).map fun (ms, r) => (ofMembers ms, r)
    | c :: _ => if c = '-' ∨ (Unsigned.digit? c).isSome then readNumber text else none
    | [] => none

def readItems : Nat → Nat → List Json → List Char → Option (List Json × List Char)
  | 0, _, _, _ => none
  | fuel + 1, depth, acc, text =>
    match readValue fuel depth (skipSpace text) with
    | none => none
    | some (x, rest) =>
      match skipSpace rest with
      | ',' :: r => readItems fuel depth (x :: acc) r
      | ']' :: r => some ((x :: acc).reverse, r)
      | _ => none

def readMembers : Nat → Nat → List (String × Json) → List Char →
    Option (List (String × Json) × List Char)
  | 0, _, _, _ => none
  | fuel + 1, depth, acc, text =>
    match skipSpace text with
    | '"' :: r =>
      match readString none [] r with
      | none => none
      | some (key, r) =>
        match skipSpace r with
        | ':' :: r =>
          match readValue fuel depth (skipSpace r) with
          | none => none
          | some (x, r) =>
            match skipSpace r with
            | ',' :: r => readMembers fuel depth ((key, x) :: acc) r
            | '\x7d' :: r => some (((key, x) :: acc).reverse, r)
            | _ => none
        | _ => none
    | _ => none
end

def parse? (text : List Char) : Option Json :=
  match readValue (text.length + 1) depthLimit (skipSpace text) with
  | some (v, rest) => if (skipSpace rest).isEmpty then some v else none
  | none => none

def parseBytes? (bytes : Bytes) : Option Json :=
  (Utf8.decode? bytes).bind parse?

end LanguageClient.Json

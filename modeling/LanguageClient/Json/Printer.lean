import LanguageClient.Json.Basic
import LanguageClient.Number.Shortest

/-!
# JSON text

The compact text of a value: no blanks, members in the order they are kept, and in strings only
quotes, backslashes and control characters escaped.
-/

namespace LanguageClient.Json

def hexDigit (n : Nat) : Char :=
  if n < 10 then Char.ofNat ('0'.toNat + n) else Char.ofNat ('a'.toNat + (n - 10))

def escape (c : Char) : List Char :=
  if c = '"' then ['\\', '"']
  else if c = '\\' then ['\\', '\\']
  else if c = '\x08' then ['\\', 'b']
  else if c = '\t' then ['\\', 't']
  else if c = '\n' then ['\\', 'n']
  else if c = '\x0c' then ['\\', 'f']
  else if c = '\r' then ['\\', 'r']
  else if c.toNat < 0x20 then
    ['\\', 'u', '0', '0', hexDigit (c.toNat / 16), hexDigit (c.toNat % 16)]
  else [c]

def quoted (s : String) : List Char :=
  '"' :: (s.toList.flatMap escape ++ ['"'])

mutual
def print : Json → List Char
  | .null => ['n', 'u', 'l', 'l']
  | .bool true => ['t', 'r', 'u', 'e']
  | .bool false => ['f', 'a', 'l', 's', 'e']
  | .int n => (toString n).toList
  | .float x => if x.isFinite then x.render.toList else ['n', 'u', 'l', 'l']
  | .str s => quoted s
  | .arr [] => ['[', ']']
  | .arr (x :: xs) => '[' :: (print x ++ printItems xs)
  | .obj [] => ['\x7b', '\x7d']
  | .obj ((k, x) :: rest) => '\x7b' :: (quoted k ++ ':' :: (print x ++ printMembers rest))

def printItems : List Json → List Char
  | [] => [']']
  | x :: xs => ',' :: (print x ++ printItems xs)

def printMembers : List (String × Json) → List Char
  | [] => ['\x7d']
  | (k, x) :: rest => ',' :: (quoted k ++ ':' :: (print x ++ printMembers rest))
end

def render (v : Json) : String :=
  String.ofList v.print

end LanguageClient.Json

/-!
# UTF-8

Characters as bytes and back. A byte sequence is read strictly, where a single bad byte
refuses the whole sequence, or loosely, where each longest broken piece becomes one
replacement character.
-/

namespace LanguageClient

abbrev Bytes := List UInt8

abbrev Text := List Char

namespace Utf8

def encode (text : Text) : Bytes :=
  text.flatMap String.utf8EncodeChar

def size (text : Text) : Nat :=
  text.foldl (fun n c => n + c.utf8Size) 0

/-!
## Reading

A character that needs several bytes is read one byte at a time. Between its bytes the
reader holds the bits seen so far and the range in which the next byte must lie.
-/

structure Partial where
  need : Nat
  bits : Nat
  low : UInt8
  high : UInt8
  deriving DecidableEq, Repr

inductive Lead where
  | whole (c : Char)
  | more (p : Partial)
  | bad
  deriving DecidableEq, Repr

/-- The narrowed second-byte ranges keep out overlong forms, surrogates and
what lies past U+10FFFF. -/
def lead (b : UInt8) : Lead :=
  if b < 0x80 then .whole (Char.ofNat b.toNat)
  else if b < 0xC2 then .bad
  else if b < 0xE0 then .more ⟨1, b.toNat % 32, 0x80, 0xBF⟩
  else if b = 0xE0 then .more ⟨2, 0, 0xA0, 0xBF⟩
  else if b = 0xED then .more ⟨2, 13, 0x80, 0x9F⟩
  else if b < 0xF0 then .more ⟨2, b.toNat % 16, 0x80, 0xBF⟩
  else if b = 0xF0 then .more ⟨3, 0, 0x90, 0xBF⟩
  else if b < 0xF4 then .more ⟨3, b.toNat % 8, 0x80, 0xBF⟩
  else if b = 0xF4 then .more ⟨3, 4, 0x80, 0x8F⟩
  else .bad

def Partial.take (p : Partial) (b : UInt8) : Option Lead :=
  if p.low ≤ b ∧ b ≤ p.high then
    let bits := p.bits * 64 + b.toNat % 64
    if p.need ≤ 1 then some (.whole (Char.ofNat bits))
    else some (.more ⟨p.need - 1, bits, 0x80, 0xBF⟩)
  else none

def decodeFrom : Option Partial → Bytes → Option Text
  | none, [] => some []
  | some _, [] => none
  | none, b :: rest =>
    match lead b with
    | .whole c => (decodeFrom none rest).map (c :: ·)
    | .more p => decodeFrom (some p) rest
    | .bad => none
  | some p, b :: rest =>
    match p.take b with
    | some (.whole c) => (decodeFrom none rest).map (c :: ·)
    | some (.more q) => decodeFrom (some q) rest
    | some .bad | none => none

def decode? (bytes : Bytes) : Option Text :=
  decodeFrom none bytes

def replacement : Char := '\uFFFD'

def displayFrom : Option Partial → Bytes → Text
  | none, [] => []
  | some _, [] => [replacement]
  | none, b :: rest =>
    match lead b with
    | .whole c => c :: displayFrom none rest
    | .more p => displayFrom (some p) rest
    | .bad => replacement :: displayFrom none rest
  | some p, b :: rest =>
    match p.take b with
    | some (.whole c) => c :: displayFrom none rest
    | some (.more q) => displayFrom (some q) rest
    | some .bad | none =>
      match lead b with
      | .whole c => replacement :: c :: displayFrom none rest
      | .more q => replacement :: displayFrom (some q) rest
      | .bad => replacement :: replacement :: displayFrom none rest

/-- Bytes as text to show: every longest broken piece becomes one replacement character. -/
def display (bytes : Bytes) : Text :=
  displayFrom none bytes

end Utf8
end LanguageClient

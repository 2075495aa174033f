import LanguageClient.Text.Utf8

/-!
# Percent encoding

A byte that may not stand in a path segment is written as a percent sign and two hexadecimal
digits. Reading takes such triples back and leaves every other byte alone.
-/

namespace LanguageClient.Percent

def percent : UInt8 := 0x25

def isReserved (b : UInt8) : Bool :=
  b < 0x20 || 0x7F ≤ b || b == 0x20 || b == 0x22 || b == 0x23 || b == percent || b == 0x2F ||
    b == 0x3C || b == 0x3E || b == 0x3F || b == 0x5C || b == 0x60 || b == 0x7B || b == 0x7D

def digit (n : Nat) : UInt8 :=
  UInt8.ofNat (if n < 10 then 0x30 + n else 0x41 + (n - 10))

def encodeByte (b : UInt8) : Bytes :=
  if isReserved b then [percent, digit (b.toNat / 16), digit (b.toNat % 16)] else [b]

def encode (bytes : Bytes) : Bytes :=
  bytes.flatMap encodeByte

def value? (b : UInt8) : Option Nat :=
  if 0x30 ≤ b ∧ b ≤ 0x39 then some (b.toNat - 0x30)
  else if 0x41 ≤ b ∧ b ≤ 0x46 then some (b.toNat - 0x41 + 10)
  else if 0x61 ≤ b ∧ b ≤ 0x66 then some (b.toNat - 0x61 + 10)
  else none

def pair? (high low : UInt8) : Option UInt8 := do
  return UInt8.ofNat ((← value? high) * 16 + (← value? low))

def decode : Bytes → Bytes
  | [] => []
  | [b] => [b]
  | [b, c] => [b, c]
  | b :: high :: low :: rest =>
    if b = percent then
      match pair? high low with
      | some decoded => decoded :: decode rest
      | none => b :: decode (high :: low :: rest)
    else b :: decode (high :: low :: rest)

end LanguageClient.Percent

/-!
# 64-bit binary floating point

A number is its bit pattern. Rounding goes through exact ratios of naturals: the nearest
value wins and a tie goes to the even one. Products and quotients are rounded exact results.
-/

namespace LanguageClient

/-- An IEEE 754 double, kept as its bits. -/
structure Binary64 where
  bits : UInt64
  deriving DecidableEq, Repr, Inhabited

namespace Binary64

def isNegative (x : Binary64) : Bool :=
  x.bits.toNat / Nat.pow 2 63 == 1

def exponentField (x : Binary64) : Nat :=
  x.bits.toNat / Nat.pow 2 52 % Nat.pow 2 11

def fractionField (x : Binary64) : Nat :=
  x.bits.toNat % Nat.pow 2 52

def isFinite (x : Binary64) : Bool :=
  x.exponentField != 2047

def parts (x : Binary64) : Nat × Int :=
  if x.exponentField = 0 then (x.fractionField, -1074)
  else (x.fractionField + Nat.pow 2 52, Int.ofNat x.exponentField - 1075)

def isZero (x : Binary64) : Bool :=
  x.exponentField == 0 && x.fractionField == 0

def ofFields (negative : Bool) (exponent fraction : Nat) : Binary64 :=
  ⟨UInt64.ofNat ((if negative then Nat.pow 2 63 else 0) + exponent * Nat.pow 2 52 + fraction)⟩

def zero (negative : Bool) : Binary64 := ofFields negative 0 0

def infinity (negative : Bool) : Binary64 := ofFields negative 2047 0

def nan : Binary64 := ofFields false 2047 (Nat.pow 2 51)

def ratio (m : Nat) (q : Int) : Nat × Nat :=
  if 0 ≤ q then (m * Nat.pow 2 q.toNat, 1) else (m, Nat.pow 2 (-q).toNat)

def roundEven (num den : Nat) : Nat :=
  let m := num / den
  let r := num % den
  if 2 * r < den then m
  else if den < 2 * r then m + 1
  else if m % 2 = 0 then m else m + 1

def inUnits (num den : Nat) (q : Int) : Nat × Nat :=
  if 0 ≤ q then (num, den * Nat.pow 2 q.toNat) else (num * Nat.pow 2 (-q).toNat, den)

def unitExponent (num den : Nat) : Int :=
  let q := Int.ofNat num.log2 - Int.ofNat den.log2 - 52
  let (n, d) := inUnits num den q
  let q := if n / d < Nat.pow 2 52 then q - 1 else q
  if q < -1074 then -1074 else q

def ofRatio (negative : Bool) (num den : Nat) : Binary64 :=
  if num = 0 then zero negative
  else
    let q := unitExponent num den
    let (n, d) := inUnits num den q
    let m := roundEven n d
    let (m, q) := if m = Nat.pow 2 53 then (Nat.pow 2 52, q + 1) else (m, q)
    if 971 < q then infinity negative
    else if m < Nat.pow 2 52 then ofFields negative 0 m
    else ofFields negative (q + 1075).toNat (m - Nat.pow 2 52)

def ofNat (n : Nat) : Binary64 := ofRatio false n 1

def ofDecimal (negative : Bool) (digits : Nat) (exponent : Int) : Binary64 :=
  if digits = 0 then zero negative
  else if 400 < exponent then infinity negative
  else if exponent < -(1200 + Int.ofNat digits.log2) then zero negative
  else if 0 ≤ exponent then ofRatio negative (digits * Nat.pow 10 exponent.toNat) 1
  else ofRatio negative digits (Nat.pow 10 (-exponent).toNat)

def mul (x y : Binary64) : Binary64 :=
  let (m, q) := x.parts
  let (n, r) := y.parts
  let (num, den) := ratio (m * n) (q + r)
  ofRatio false num den

def div (x y : Binary64) : Binary64 :=
  let (m, q) := x.parts
  let (n, r) := y.parts
  let (num, den) := ratio m (q - r)
  ofRatio false num (den * n)

def negate (x : Binary64) : Binary64 :=
  ofFields (!x.isNegative) x.exponentField x.fractionField

end Binary64
end LanguageClient

import LanguageClient.Number.Binary64

/-!
# Byte counts as text

Below 1024 the count itself; above, the count as a double in units of 1024, 1024² or 1024³
with one decimal place, two for the largest unit. Division by a power of two is exact, and
the decimal is rounded to the nearest, a tie to the even digit.
-/

namespace LanguageClient.ByteCount

def fixed (num den places : Nat) : String :=
  let scaled := Binary64.roundEven (num * Nat.pow 10 places) den
  let digits := toString (scaled % Nat.pow 10 places)
  let zeros := String.ofList (List.replicate (places - digits.length) '0')
  toString (scaled / Nat.pow 10 places) ++ "." ++ zeros ++ digits

def inUnit (count unit places : Nat) (name : String) : String :=
  let (m, q) := (Binary64.ofNat count).parts
  let (num, den) := Binary64.ratio m q
  fixed num (den * unit) places ++ " " ++ name

def render (count : Nat) : String :=
  if count < 1024 then toString count ++ " B"
  else if count < Nat.pow 1024 2 then inUnit count 1024 1 "KB"
  else if count < Nat.pow 1024 3 then inUnit count (Nat.pow 1024 2) 1 "MB"
  else inUnit count (Nat.pow 1024 3) 2 "GB"

end LanguageClient.ByteCount

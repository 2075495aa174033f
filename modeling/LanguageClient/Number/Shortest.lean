import LanguageClient.Number.Binary64

/-!
# Shortest decimal text

The fewest significant digits that read back as the same number, the nearest such where several
exist. A number is written positionally from `1e-5` up to, not including, `1e16`, always with a
fraction, and otherwise with one digit before the point and a signed exponent.
-/

namespace LanguageClient.Binary64

def decimalPoint (num den : Nat) : Nat → Int → Int
  | 0, k => k
  | fuel + 1, k =>
    let atLeast (e : Int) : Bool :=
      if 0 ≤ e then den * Nat.pow 10 e.toNat ≤ num else den ≤ num * Nat.pow 10 (-e).toNat
    if atLeast k then decimalPoint num den fuel (k + 1)
    else if atLeast (k - 1) then k
    else decimalPoint num den fuel (k - 1)

structure Digits where
  digits : Nat
  count : Nat
  point : Int
  deriving DecidableEq, Repr

/-- The nearest number on the grid of `count` digits that lies in the rounding interval of
`m * 2 ^ q`, given that the value lies below `10 ^ point`. -/
def onGrid (m : Nat) (q : Int) (point : Int) (count : Nat) : Option Nat :=
  -- All quantities are in units of `2 ^ (q - 2)`.
  let value := 4 * m
  let low := if m = Nat.pow 2 52 ∧ -1074 < q then 4 * m - 1 else 4 * m - 2
  let high := 4 * m + 2
  let closed := m % 2 = 0
  -- One step of the grid is `step / scale` units.
  let grid := point - Int.ofNat count
  let (tenNum, tenDen) :=
    if 0 ≤ grid then (Nat.pow 10 grid.toNat, 1) else (1, Nat.pow 10 (-grid).toNat)
  let unit := q - 2
  let (step, scale) :=
    if 0 ≤ unit then (tenNum, tenDen * Nat.pow 2 unit.toNat)
    else (tenNum * Nat.pow 2 (-unit).toNat, tenDen)
  let below := value * scale / step
  let inside (d : Nat) : Bool :=
    if closed then low * scale ≤ d * step ∧ d * step ≤ high * scale
    else low * scale < d * step ∧ d * step < high * scale
  let above := below + 1
  match inside below, inside above with
  | true, true =>
    let down := value * scale - below * step
    let up := above * step - value * scale
    if down < up then some below
    else if up < down then some above
    else some (if below % 2 = 0 then below else above)
  | true, false => some below
  | false, true => some above
  | false, false => none

def searchGrid (m : Nat) (q : Int) (point : Int) : Nat → Nat → Digits
  | 0, count => ⟨m, count, point⟩
  | fuel + 1, count =>
    match onGrid m q point count with
    | some d => if d = Nat.pow 10 count then ⟨1, 1, point + 1⟩ else ⟨d, count, point⟩
    | none => searchGrid m q point fuel (count + 1)

def shortest (x : Binary64) : Digits :=
  let (m, q) := x.parts
  let (num, den) := ratio m q
  let start := (Int.ofNat num.log2 - Int.ofNat den.log2) * 30103 / 100000
  let point := decimalPoint num den 8 start
  searchGrid m q point 18 1

def render (x : Binary64) : String :=
  let sign := if x.isNegative then "-" else ""
  if x.isZero then sign ++ "0.0"
  else
    let d := x.shortest
    let digits := toString d.digits
    let zeros (n : Nat) : String := String.ofList (List.replicate n '0')
    let body :=
      if -4 ≤ d.point ∧ d.point ≤ 16 then
        if d.point ≤ 0 then "0." ++ zeros (-d.point).toNat ++ digits
        else
          let whole := d.point.toNat
          if d.count ≤ whole then digits ++ zeros (whole - d.count) ++ ".0"
          else
            let cs := digits.toList
            String.ofList (cs.take whole) ++ "." ++ String.ofList (cs.drop whole)
      else
        let cs := digits.toList
        let mantissa :=
          if d.count = 1 then digits
          else String.ofList (cs.take 1) ++ "." ++ String.ofList (cs.drop 1)
        let exponent := d.point - 1
        mantissa ++ "e" ++ (if exponent < 0 then "-" else "+") ++ toString exponent.natAbs
    sign ++ body

end LanguageClient.Binary64

import LanguageClient.Json.Basic
import LanguageClient.Number.Unsigned

/-!
# JSON numbers

A number literal has an optional minus sign, an integer part without leading zeros, and
optionally a fraction and an exponent. Its digits are gathered in a 64-bit word: a digit
that no longer fits ends the gathering. An integer that fits is exact. Everything else is
the word, converted to a double and then scaled by a double power of ten, so the last bit
may differ from the nearest double. A result that is too large is refused.
-/

namespace LanguageClient.Json

/-- The digits of a number gathered so far: `word * 10 ^ scale`. -/
structure Gathered where
  word : Nat
  scale : Int
  deriving DecidableEq, Repr

def fits (word digit : Nat) : Bool :=
  word * 10 + digit < Unsigned.wordBound

def gatherWhole (full : Bool) (g : Gathered) : List Nat → Bool × Gathered
  | [] => (full, g)
  | d :: rest =>
    if full then gatherWhole true { g with scale := g.scale + 1 } rest
    else if fits g.word d then gatherWhole false { g with word := g.word * 10 + d } rest
    else gatherWhole true { g with scale := g.scale + 1 } rest

def gatherFraction (g : Gathered) : List Nat → Gathered
  | [] => g
  | d :: rest =>
    if fits g.word d then gatherFraction ⟨g.word * 10 + d, g.scale - 1⟩ rest else g

def scaleBy : Nat → Binary64 → Int → Option Binary64
  | 0, x, _ => some x
  | fuel + 1, x, exponent =>
    if exponent.natAbs ≤ 308 then
      let power := Binary64.ofNat (Nat.pow 10 exponent.natAbs)
      let y := if 0 ≤ exponent then x.mul power else x.div power
      if y.isFinite then some y else none
    else if x.isZero then some x
    else if 0 ≤ exponent then none
    else scaleBy fuel (x.div (Binary64.ofNat (Nat.pow 10 308))) (exponent + 308)

def ofGathered (negative : Bool) (g : Gathered) : Option Json :=
  (scaleBy 8 (Binary64.ofNat g.word) g.scale).map fun x =>
    .float (if negative then x.negate else x)

def exponentValue (acc : Nat) : List Nat → Option Nat
  | [] => some acc
  | d :: rest =>
    if acc * 10 + d < Nat.pow 2 31 then exponentValue (acc * 10 + d) rest else none

def numberOf (negative : Bool) (whole : List Nat) (fraction : Option (List Nat))
    (exponent : Option (Bool × List Nat)) : Option Json :=
  let (full, g) := gatherWhole false ⟨0, 0⟩ whole
  match fraction, exponent with
  | none, none =>
    if full then ofGathered negative g
    else if !negative then some (.int (Int.ofNat g.word))
    else if g.word = 0 ∨ Nat.pow 2 63 < g.word then
      some (.float (Binary64.negate (Binary64.ofNat g.word)))
    else some (.int (-(Int.ofNat g.word)))
  | _, _ =>
    let g := gatherFraction g (fraction.getD [])
    match exponent with
    | none => ofGathered negative g
    | some (down, digits) =>
      match exponentValue 0 digits with
      | some e =>
        ofGathered negative { g with scale := g.scale + (if down then -(Int.ofNat e)
          else Int.ofNat e) }
      | none => if g.word ≠ 0 ∧ !down then none else some (.float (Binary64.zero negative))

def takeDigits : List Char → List Nat × List Char
  | [] => ([], [])
  | c :: rest =>
    match Unsigned.digit? c with
    | some d => let (ds, r) := takeDigits rest; (d :: ds, r)
    | none => ([], c :: rest)

def readNumber (text : List Char) : Option (Json × List Char) := do
  let (negative, text) := match text with
    | '-' :: rest => (true, rest)
    | _ => (false, text)
  let (whole, text) ← match text with
    | '0' :: rest =>
      match rest with
      | c :: _ => if (Unsigned.digit? c).isSome then none else some ([0], rest)
      | [] => some ([0], rest)
    | _ =>
      match takeDigits text with
      | ([], _) => none
      | (ds, rest) => some (ds, rest)
  let (fraction, text) ← match text with
    | '.' :: rest =>
      match takeDigits rest with
      | ([], _) => none
      | (ds, rest) => some (some ds, rest)
    | _ => some (none, text)
  let readExponent (rest : List Char) : Option (Option (Bool × List Nat) × List Char) :=
    let (down, rest) := match rest with
      | '+' :: r => (false, r)
      | '-' :: r => (true, r)
      | _ => (false, rest)
    match takeDigits rest with
    | ([], _) => none
    | (ds, rest) => some (some (down, ds), rest)
  let (exponent, text) ← match text with
    | 'e' :: rest => readExponent rest
    | 'E' :: rest => readExponent rest
    | _ => some (none, text)
  let value ← numberOf negative whole fraction exponent
  return (value, text)

end LanguageClient.Json

import LanguageClient.Json.Number
import LanguageClient.Json.Reader
import LanguageClient.Toml.Characters

/-!
# Numbers and times of TOML

Digits may be grouped by single underscores. Integers fit 64 bits with a sign; a decimal one
has no leading zeros. A float is the nearest double and must not overflow upward. Dates and
times are checked against the calendar and written back in one spelling.
-/

namespace LanguageClient.Toml

/-!
## Digits
-/

def digitBelow? (base : Nat) (c : Char) : Option Nat :=
  (Json.hexValue? c).filter (· < base)

def moreDigits (base : Nat) : Text → Option (List Nat × Text)
  | [] => some ([], [])
  | '_' :: c :: rest =>
    match digitBelow? base c with
    | some d => (moreDigits base rest).map fun (ds, rest) => (d :: ds, rest)
    | none => none
  | c :: rest =>
    if c = '_' then none
    else
      match digitBelow? base c with
      | some d => (moreDigits base rest).map fun (ds, rest) => (d :: ds, rest)
      | none => some ([], c :: rest)

def readDigits (base : Nat) : Reader (List Nat)
  | [] => none
  | c :: rest => do
    let d ← digitBelow? base c
    let (ds, rest) ← moreDigits base rest
    return (d :: ds, rest)

def valueOf (base : Nat) (digits : List Nat) : Nat :=
  digits.foldl (· * base + ·) 0

def readWhole : Reader (List Nat)
  | '0' :: rest => some ([0], rest)
  | text => readDigits 10 text

def readSign : Text → Bool × Text
  | '-' :: rest => (true, rest)
  | '+' :: rest => (false, rest)
  | text => (false, text)

/-!
## Numbers
-/

def integer? (negative : Bool) (n : Nat) : Option Json :=
  if negative then if n ≤ Nat.pow 2 63 then some (.int (-(Int.ofNat n))) else none
  else if n < Nat.pow 2 63 then some (.int (Int.ofNat n)) else none

def readFraction (text : Text) : Option (List Nat × Text) :=
  match text with
  | '.' :: rest => readDigits 10 rest
  | _ => some ([], text)

def readExponent (text : Text) : Option (Int × Text) :=
  match text with
  | c :: rest =>
    if c = 'e' ∨ c = 'E' then
      let (negative, rest) := readSign rest
      (readDigits 10 rest).map fun (ds, rest) =>
        let e := Int.ofNat (valueOf 10 ds)
        (if negative then -e else e, rest)
    else some (0, text)
  | [] => some (0, text)

def float? (negative : Bool) (whole fraction : List Nat) (exponent : Int) : Option Json :=
  let x := Binary64.ofDecimal negative (valueOf 10 (whole ++ fraction))
    (exponent - Int.ofNat fraction.length)
  if x = Binary64.infinity false then none else some (.float x)

def isFloatMark (c : Char) : Bool :=
  c = '.' || c = 'e' || c = 'E'

def readDecimal (text : Text) : Option (Json × Text) := do
  let (negative, rest) := readSign text
  match after? "inf".toList rest, after? "nan".toList rest with
  | some rest, _ => return (.float (Binary64.infinity negative), rest)
  | _, some rest => return (.float Binary64.nan, rest)
  | none, none =>
    let (whole, rest) ← readWhole rest
    if (rest.head?.map isFloatMark).getD false then
      let (fraction, rest) ← readFraction rest
      let (exponent, rest) ← readExponent rest
      return (← float? negative whole fraction exponent, rest)
    else return (← integer? negative (valueOf 10 whole), rest)

def readRadix (base : Nat) (text : Text) : Option (Json × Text) := do
  let (ds, rest) ← readDigits base text
  return (← integer? false (valueOf base ds), rest)

def readNumber (text : Text) : Option (Json × Text) :=
  match text with
  | '0' :: 'x' :: rest => readRadix 16 rest
  | '0' :: 'o' :: rest => readRadix 8 rest
  | '0' :: 'b' :: rest => readRadix 2 rest
  | _ => readDecimal text

/-!
## Dates and times
-/

def readField (count low high : Nat) (text : Text) : Option (Nat × Text) := do
  let digits ← (text.take count).mapM Unsigned.digit?
  let n := valueOf 10 digits
  if digits.length = count ∧ low ≤ n ∧ n ≤ high then some (n, text.drop count) else none

def padded (width n : Nat) : Text :=
  let digits := (toString n).toList
  List.replicate (width - digits.length) '0' ++ digits

def daysIn (year month : Nat) : Nat :=
  if month = 2 then
    if year % 4 = 0 ∧ (year % 100 ≠ 0 ∨ year % 400 = 0) then 29 else 28
  else if month = 4 ∨ month = 6 ∨ month = 9 ∨ month = 11 then 30
  else 31

def readDate (text : Text) : Option (Text × Text) := do
  let (year, rest) ← readField 4 0 9999 text
  let (month, rest) ← readField 2 1 12 (← after? ['-'] rest)
  let (day, rest) ← readField 2 1 (daysIn year month) (← after? ['-'] rest)
  return (padded 4 year ++ '-' :: (padded 2 month ++ '-' :: padded 2 day), rest)

def readSubsecond (text : Text) : Option (Text × Text) :=
  match text with
  | '.' :: rest =>
    match rest.takeWhile Char.isDigit with
    | [] => some ([], text)
    | digits =>
      let kept := ((digits.take 9).reverse.dropWhile (· == '0')).reverse
      some (if kept.isEmpty then [] else '.' :: kept, rest.dropWhile Char.isDigit)
  | _ => some ([], text)

def readTime (text : Text) : Option (Text × Text) := do
  let (hour, rest) ← readField 2 0 23 text
  let (minute, rest) ← readField 2 0 59 (← after? [':'] rest)
  let (second, rest) ← readField 2 0 60 (← after? [':'] rest)
  let (fraction, rest) ← readSubsecond rest
  return (padded 2 hour ++ ':' ::
    (padded 2 minute ++ ':' :: (padded 2 second ++ fraction)), rest)

def readOffset (text : Text) : Option (Text × Text) :=
  match text with
  | [] => some ([], [])
  | c :: rest =>
    if c = 'Z' ∨ c = 'z' then some (['Z'], rest)
    else if c = '+' ∨ c = '-' then do
      let (hour, rest) ← readField 2 0 23 rest
      let (minute, rest) ← readField 2 0 59 (← after? [':'] rest)
      let sign := if c = '-' ∧ (hour, minute) ≠ (0, 0) then '-' else '+'
      return (sign :: (padded 2 hour ++ ':' :: padded 2 minute), rest)
    else some ([], text)

def timeFollows : Text → Bool
  | m :: a :: b :: ':' :: _ => (m = 'T' || m = 't' || m = ' ') && a.isDigit && b.isDigit
  | _ => false

def readMoment (text : Text) : Option (Text × Text) :=
  match text.take 5 with
  | [_, _, _, _, '-'] => do
    let (date, rest) ← readDate text
    if timeFollows rest then
      let (time, rest) ← readTime (rest.drop 1)
      let (offset, rest) ← readOffset rest
      return (date ++ 'T' :: (time ++ offset), rest)
    else return (date, rest)
  | _ => readTime text

def startsMoment : Text → Bool
  | [] => false
  | text =>
    let digits := text.takeWhile Char.isDigit
    match digits.length, (text.drop digits.length).head? with
    | 4, some '-' => true
    | 2, some ':' => true
    | _, _ => false

def momentKey : String := "$__toml_private_datetime"

def momentJson (moment : Text) : Json :=
  Json.ofMembers [(momentKey, .str (String.ofList moment))]

def readNumeric (text : Text) : Option (Json × Text) :=
  if startsMoment text then (readMoment text).map fun (m, rest) => (momentJson m, rest)
  else readNumber text

end LanguageClient.Toml

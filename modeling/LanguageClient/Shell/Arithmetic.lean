import LanguageClient.Text.Utf8

/-!
# Integer expressions

Sums, products, comparisons and truth values of integers and variables.
Division goes toward zero.
-/

namespace LanguageClient.Shell.Arithmetic

inductive Token where
  | number (n : Int)
  | name (text : Text)
  | mark (text : String)
  deriving DecidableEq, Repr

def isNameStart (c : Char) : Bool := c.isAlpha || c = '_'

def isNameChar (c : Char) : Bool := c.isAlphanum || c = '_'

def digitsValue (digits : Text) : Nat :=
  digits.foldl (fun n d => n * 10 + (d.toNat - '0'.toNat)) 0

def digitValue? (c : Char) : Option Nat :=
  if c.isDigit then some (c.toNat - '0'.toNat)
  else if 'a' ≤ c && c ≤ 'f' then some (c.toNat - 'a'.toNat + 10)
  else if 'A' ≤ c && c ≤ 'F' then some (c.toNat - 'A'.toNat + 10)
  else none

def inBase? (base : Nat) (digits : Text) : Option Nat :=
  digits.foldlM (fun n c => do
    let d ← digitValue? c
    if d < base then some (n * base + d) else none) 0

def literal? : Text → Option Nat
  | '0' :: 'x' :: digits | '0' :: 'X' :: digits =>
    if digits.isEmpty then none else inBase? 16 digits
  | '0' :: digits => inBase? 8 digits
  | digits => inBase? 10 digits

def marks : List String :=
  ["<=", ">=", "==", "!=", "&&", "||", "<", ">", "+", "-", "*", "/", "%", "!", "(", ")"]

def tokens : (fuel : Nat) → Text → Option (List Token)
  | 0, _ => none
  | _ + 1, [] => some []
  | fuel + 1, c :: rest =>
    if c = ' ' || c = '\t' || c = '\n' then tokens fuel rest
    else if c.isDigit then
      match literal? (c :: rest.takeWhile isNameChar) with
      | some n => (tokens fuel (rest.dropWhile isNameChar)).map (.number n :: ·)
      | none => none
    else if isNameStart c then
      (tokens fuel (rest.dropWhile isNameChar)).map
        (.name (c :: rest.takeWhile isNameChar) :: ·)
    else
      match marks.find? fun m => m.toList.isPrefixOf (c :: rest) with
      | some m => (tokens fuel ((c :: rest).drop m.length)).map (.mark m :: ·)
      | none => none

def truth (b : Bool) : Int := if b then 1 else 0

def operate? (mark : String) (a b : Int) : Option Int :=
  match mark with
  | "+" => some (a + b)
  | "-" => some (a - b)
  | "*" => some (a * b)
  | "/" => if b = 0 then none else some (a.tdiv b)
  | "%" => if b = 0 then none else some (a.tmod b)
  | "<" => some (truth (a < b))
  | "<=" => some (truth (a ≤ b))
  | ">" => some (truth (a > b))
  | ">=" => some (truth (a ≥ b))
  | "==" => some (truth (a = b))
  | "!=" => some (truth (a ≠ b))
  | "&&" => some (truth (a ≠ 0 && b ≠ 0))
  | "||" => some (truth (a ≠ 0 || b ≠ 0))
  | _ => none

def strengths : List (List String) :=
  [["||"], ["&&"], ["==", "!="], ["<", "<=", ">", ">="], ["+", "-"], ["*", "/", "%"]]

mutual

def more (values : Text → Int) : (fuel : Nat) → List String → List (List String) → Int →
    List Token → Option (Int × List Token)
  | 0, _, _, _, _ => none
  | fuel + 1, marks, stronger, a, .mark m :: rest =>
    if marks.contains m then do
      let (b, rest) ← chain values fuel stronger rest
      more values fuel marks stronger (← operate? m a b) rest
    else some (a, .mark m :: rest)
  | _ + 1, _, _, a, ts => some (a, ts)

def chain (values : Text → Int) : (fuel : Nat) → List (List String) → List Token →
    Option (Int × List Token)
  | 0, _, _ => none
  | fuel + 1, [], ts => operand values fuel ts
  | fuel + 1, marks :: stronger, ts => do
    let (a, rest) ← chain values fuel stronger ts
    more values fuel marks stronger a rest

def operand (values : Text → Int) : (fuel : Nat) → List Token → Option (Int × List Token)
  | 0, _ => none
  | _ + 1, .number n :: rest => some (n, rest)
  | _ + 1, .name x :: rest => some (values x, rest)
  | fuel + 1, .mark "-" :: rest => do
    let (a, rest) ← operand values fuel rest
    return (-a, rest)
  | fuel + 1, .mark "+" :: rest => operand values fuel rest
  | fuel + 1, .mark "!" :: rest => do
    let (a, rest) ← operand values fuel rest
    return (truth (a = 0), rest)
  | fuel + 1, .mark "(" :: rest => do
    match ← chain values fuel strengths rest with
    | (a, .mark ")" :: rest) => return (a, rest)
    | _ => none
  | _ + 1, _ => none

end

def value? (values : Text → Int) (text : Text) : Option Int := do
  match ← tokens (text.length + 1) text with
  | [] => return 0
  | ts =>
    match ← chain values (20 * (ts.length + 1)) strengths ts with
    | (n, []) => return n
    | _ => none

def integer? (text : Text) : Option Int :=
  match (text.dropWhile Char.isWhitespace) with
  | '-' :: digits => if digits.isEmpty then none else (natural? digits).map fun n => -(n : Int)
  | '+' :: digits => (natural? digits).map Int.ofNat
  | digits => (natural? digits).map Int.ofNat
where
  natural? (text : Text) : Option Nat :=
    let digits := text.takeWhile Char.isDigit
    let rest := (text.dropWhile Char.isDigit).dropWhile Char.isWhitespace
    if digits.isEmpty || !rest.isEmpty then none else some (digitsValue digits)

end LanguageClient.Shell.Arithmetic

import LanguageClient.Number.Unsigned
import LanguageClient.Text.Lines
import LanguageClient.Uri.Percent

/-!
# Hosts of file URIs

A host is an address in brackets, a dotted number or a domain. Only the domain `localhost`
denotes this machine. Domains are compared without regard to case, and letters in
compatibility forms count as the letters they stand for.
-/

namespace LanguageClient

inductive Host where
  | localhost
  | remote
  deriving DecidableEq, Repr

namespace Host

/-!
## Numeric addresses
-/

def hexDigit? (c : Char) : Option Nat :=
  Percent.value? (UInt8.ofNat (if c.toNat < 0x80 then c.toNat else 0))

def digitsIn (base : Nat) (text : Text) : Option Nat :=
  text.foldlM (fun n c => do
    let d ← hexDigit? c
    if d < base then some (n * base + d) else none) 0

def dottedPart? : Text → Option Nat
  | [] => none
  | '0' :: 'x' :: rest | '0' :: 'X' :: rest => digitsIn 16 rest
  | '0' :: d :: rest => digitsIn 8 (d :: rest)
  | text => digitsIn 10 text

def dottedParts (domain : Text) : List Text :=
  let parts := Lines.splitAt '.' domain
  if 1 < parts.length ∧ parts.getLast? = some [] then parts.dropLast else parts

def endsInNumber (domain : Text) : Bool :=
  match (dottedParts domain).getLast? with
  | none | some [] => false
  | some last => last.all Char.isDigit || (dottedPart? last).isSome

def isDottedAddress (domain : Text) : Bool :=
  let parts := dottedParts domain
  match parts.mapM dottedPart? with
  | none => false
  | some numbers =>
    match numbers.reverse with
    | [] => false
    | last :: front =>
      numbers.length ≤ 4 && front.all (· < 256) && last < Nat.pow 256 (5 - numbers.length)

def isPlainDotted (text : Text) : Bool :=
  let parts := Lines.splitAt '.' text
  parts.length == 4 && parts.all fun part =>
    match part with
    | [] => false
    | ['0'] => true
    | '0' :: _ => false
    | _ => match digitsIn 10 part with
      | some n => n < 256
      | none => false

def groupCount (last : Bool) : List Text → Option Nat
  | [] => some 0
  | [part] =>
    if part.length ≤ 4 ∧ part ≠ [] ∧ (digitsIn 16 part).isSome then some 1
    else if last ∧ isPlainDotted part then some 2
    else none
  | part :: rest =>
    if part.length ≤ 4 ∧ part ≠ [] ∧ (digitsIn 16 part).isSome then
      (groupCount last rest).map (· + 1)
    else none

def splitDoubleColon : Text → Option (Text × Text)
  | ':' :: ':' :: rest => some ([], rest)
  | c :: rest => (splitDoubleColon rest).map fun (a, b) => (c :: a, b)
  | [] => none

def groups (text : Text) : List Text :=
  if text.isEmpty then [] else Lines.splitAt ':' text

def isGroupAddress (text : Text) : Bool :=
  match splitDoubleColon text with
  | none => groupCount true (groups text) == some 8
  | some (front, back) =>
    match groupCount false (groups front), groupCount true (groups back) with
    | some m, some n => m + n ≤ 7
    | _, _ => false

/-!
## Domains
-/

def isForbidden (c : Char) : Bool :=
  c.toNat ≤ 0x20 || c.toNat == 0x7F || "%#/:<>?@[\\]^|".toList.contains c

def isInvisible (c : Char) : Bool :=
  let n := c.toNat
  n == 0xAD || n == 0x34F || (0x180B ≤ n && n ≤ 0x180D) || n == 0x180F || n == 0x200B ||
    n == 0x2060 || n == 0x2064 || (0xFE00 ≤ n && n ≤ 0xFE0F) || n == 0xFEFF ||
    (0xE0100 ≤ n && n ≤ 0xE01EF)

def letter (n : Nat) : Char :=
  Char.ofNat ('a'.toNat + n)

def letterForms : List (Char × List Nat) :=
  [('a', [0xAA, 0x1D2C, 0x1D43, 0x2090]),
   ('c', [0x1D9C, 0x2102, 0x212D, 0x216D, 0x217D]),
   ('h', [0x2B0, 0x1D34, 0x2095, 0x210B, 0x210C, 0x210D, 0x210E]),
   ('l', [0x2E1, 0x1D38, 0x2097, 0x2112, 0x2113, 0x216C, 0x217C]),
   ('o', [0xBA, 0x1D3C, 0x1D52, 0x2092, 0x2134]),
   ('s', [0x17F, 0x2E2, 0x209B]),
   ('t', [0x1D40, 0x1D57, 0x209C])]

def mathHoles : List Nat :=
  [0x1D455, 0x1D49D, 0x1D4A0, 0x1D4A1, 0x1D4A3, 0x1D4A4, 0x1D4A7, 0x1D4A8, 0x1D4AD, 0x1D4BA,
   0x1D4BC, 0x1D4C4, 0x1D506, 0x1D50B, 0x1D50C, 0x1D515, 0x1D51D, 0x1D53A, 0x1D53F, 0x1D545,
   0x1D547, 0x1D548, 0x1D549, 0x1D551]

def fold (c : Char) : Text :=
  let n := c.toNat
  if n < 0x80 then [c.toLower]
  else if isInvisible c then []
  else if 0xFF21 ≤ n ∧ n ≤ 0xFF3A then [letter (n - 0xFF21)]
  else if 0xFF41 ≤ n ∧ n ≤ 0xFF5A then [letter (n - 0xFF41)]
  else if 0x24B6 ≤ n ∧ n ≤ 0x24E9 then [letter ((n - 0x24B6) % 26)]
  else if 0x1F130 ≤ n ∧ n ≤ 0x1F149 then [letter (n - 0x1F130)]
  else if 0x1D400 ≤ n ∧ n ≤ 0x1D6A3 ∧ ¬ mathHoles.contains n then [letter ((n - 0x1D400) % 26)]
  else if n = 0xFB05 ∨ n = 0xFB06 then ['s', 't']
  else
    match letterForms.find? fun entry => entry.2.contains n with
    | some (l, _) => [l]
    | none => [c]

def ofDomain? (text : Text) : Option Host :=
  let domain := (Utf8.display (Percent.decode (Utf8.encode text))).flatMap fold
  if domain.isEmpty || domain.any (fun c => isForbidden c || c == Utf8.replacement) then none
  else if domain = "localhost".toList then some .localhost
  else if endsInNumber domain then if isDottedAddress domain then some .remote else none
  else some .remote

/-- The host that a text denotes; the empty text denotes this machine. -/
def read? (text : Text) : Option Host :=
  match text with
  | [] => some .localhost
  | '[' :: rest =>
    if rest.getLast? = some ']' ∧ isGroupAddress rest.dropLast then some .remote else none
  | _ => ofDomain? text

end Host
end LanguageClient

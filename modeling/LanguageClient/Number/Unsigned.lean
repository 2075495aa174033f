/-!
# Decimal naturals

Reading a bounded natural number the way configuration values, header fields and response ids
are read: an optional plus sign, then at least one ASCII digit, and a value below the bound.
-/

namespace LanguageClient.Unsigned

def wordBound : Nat := Nat.pow 2 64

def digit? (c : Char) : Option Nat :=
  if '0' ≤ c ∧ c ≤ '9' then some (c.toNat - '0'.toNat) else none

def digits? (acc : Nat) : List Char → Option Nat
  | [] => some acc
  | c :: rest => do digits? (acc * 10 + (← digit? c)) rest

def read? (text : List Char) : Option Nat :=
  let body := match text with
    | '+' :: rest => rest
    | _ => text
  match body with
  | [] => none
  | _ => (digits? 0 body).filter (· < wordBound)

end LanguageClient.Unsigned

import LanguageClient.Text.Utf8

/-!
# Patterns

A pattern stands for texts: a star for any text, a question mark for one character, brackets
for one of several characters, and everything else, or anything quoted, for itself.
-/

namespace LanguageClient.Shell

inductive Atom where
  | char (c : Char)
  | any
  | one
  | oneOf (negated : Bool) (ranges : List (Char × Char))
  deriving DecidableEq, Repr

namespace Atom

def inRanges (c : Char) (ranges : List (Char × Char)) : Bool :=
  ranges.any fun (low, high) => low ≤ c && c ≤ high

def fits : List Atom → Text → Bool
  | [], text => text.isEmpty
  | .any :: rest, [] => fits rest []
  | .any :: rest, c :: text => fits rest (c :: text) || fits (.any :: rest) text
  | _ :: _, [] => false
  | .char d :: rest, c :: text => c = d && fits rest text
  | .one :: rest, _ :: text => fits rest text
  | .oneOf negated ranges :: rest, c :: text =>
    (inRanges c ranges != negated) && fits rest text
termination_by atoms text => atoms.length + text.length

def ranges? (first : Bool) : Text → Option (List (Char × Char) × Text)
  | [] => none
  | a :: rest =>
    if a = ']' && !first then some ([], rest)
    else
      match rest with
      | '-' :: b :: after =>
        if b = ']' then (ranges? false ('-' :: b :: after)).map fun (rs, rest) =>
          ((a, a) :: rs, rest)
        else (ranges? false after).map fun (rs, rest) => ((a, b) :: rs, rest)
      | rest => (ranges? false rest).map fun (rs, rest) => ((a, a) :: rs, rest)
termination_by text => text.length
decreasing_by all_goals simp_all <;> omega

def ofText : Text → List Atom
  | [] => []
  | '*' :: rest => .any :: ofText rest
  | '?' :: rest => .one :: ofText rest
  | '\\' :: c :: rest => .char c :: ofText rest
  | '[' :: rest =>
    let (negated, inner) := match rest with
      | '!' :: inner => (true, inner)
      | inner => (false, inner)
    match ranges? true inner with
    | some (rs, after) =>
      if after.length < rest.length then .oneOf negated rs :: ofText after
      else .char '[' :: ofText rest
    | none => .char '[' :: ofText rest
  | c :: rest => .char c :: ofText rest
termination_by text => text.length

def dropFront (atoms : List Atom) (text : Text) : List Nat → Text
  | [] => text
  | n :: rest => if fits atoms (text.take n) then text.drop n else dropFront atoms text rest

def dropBack (atoms : List Atom) (text : Text) : List Nat → Text
  | [] => text
  | n :: rest => if fits atoms (text.drop n) then text.take n else dropBack atoms text rest

def cut (fromEnd longest : Bool) (atoms : List Atom) (text : Text) : Text :=
  let counts := List.range (text.length + 1)
  if fromEnd then dropBack atoms text (if longest then counts else counts.reverse)
  else dropFront atoms text (if longest then counts.reverse else counts)

end Atom
end LanguageClient.Shell

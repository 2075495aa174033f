import LanguageClient.Json.Basic

/-!
# Records in JSON

A record with named fields may be given as an object, where members that are no fields are
ignored, or as a list of its fields in order.
-/

namespace LanguageClient.Json

def fieldValue? (members : List (String × Json)) (names : List String) :
    Option (Option Json) :=
  match names.filterMap (lookup · members) with
  | [] => some none
  | [v] => some (some v)
  | _ => none

/-- The values given for the fields, each of which has one or more names. A list must hold
at least `least` of them and no more than all. -/
def record? (least : Nat) (fields : List (List String)) : Json → Option (List (Option Json))
  | .obj members => fields.mapM (fieldValue? members)
  | .arr items =>
    if least ≤ items.length ∧ items.length ≤ fields.length then
      some (items.map some ++ List.replicate (fields.length - items.length) none)
    else none
  | _ => none

def required (read : Json → Option α) : Option Json → Option α
  | some v => read v
  | none => none

def optional (read : Json → Option α) : Option Json → Option (Option α)
  | none | some .null => some none
  | some v => (read v).map some

def defaulted (default : α) (read : Json → Option α) : Option Json → Option α
  | none => some default
  | some v => read v

def halfWord? (v : Json) : Option Nat :=
  v.word?.filter (· < Nat.pow 2 32)

end LanguageClient.Json

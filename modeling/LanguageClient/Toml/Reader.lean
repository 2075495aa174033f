import LanguageClient.Toml.Scalar
import LanguageClient.Toml.Table
import LanguageClient.Toml.Text

/-!
# Reading TOML

A document is read as the JSON object that it denotes. Dates and times become objects with
one member, and floats that are not finite stay floats.
-/

namespace LanguageClient.Toml

/-!
## Values

`fuel` bounds the recursion; the length of the text is enough. `depth` is the
nesting still allowed.
-/

mutual
def readValue : Nat → Nat → Reader Json
  | 0, _, _ => none
  | fuel + 1, depth, text =>
    match text with
    | [] => none
    | '"' :: _ | '\'' :: _ =>
      (readString text).map fun (s, rest) => (.str (String.ofList s), rest)
    | 't' :: _ => (after? "true".toList text).map (.bool true, ·)
    | 'f' :: _ => (after? "false".toList text).map (.bool false, ·)
    | '[' :: rest =>
      if depth ≤ 1 then none
      else (readItems fuel (depth - 1) [] rest).map fun (items, rest) => (.arr items, rest)
    | '\x7b' :: rest =>
      if depth ≤ 1 then none
      else
        match skipBlanks rest with
        | '\x7d' :: rest => some (Json.ofMembers [], rest)
        | _ =>
          match readPairs fuel (depth - 1) [] rest with
          | none => none
          | some (kvs, rest) =>
            (Entries.addValues [] kvs).map fun entries =>
              (Json.ofMembers (entriesJson entries), rest)
    | _ => readNumeric text

def readItems : Nat → Nat → List Json → Reader (List Json)
  | 0, _, _, _ => none
  | fuel + 1, depth, acc, text =>
    match skipSpace text.length text with
    | ']' :: rest => some (acc.reverse, rest)
    | text =>
      match readValue fuel depth text with
      | none => none
      | some (v, rest) =>
        match skipSpace rest.length rest with
        | ',' :: rest => readItems fuel depth (v :: acc) rest
        | ']' :: rest => some ((v :: acc).reverse, rest)
        | _ => none

def readPairs : Nat → Nat → List KeyValue → Reader (List KeyValue)
  | 0, _, _, _ => none
  | fuel + 1, depth, acc, text =>
    match readKey text with
    | none => none
    | some (path, rest) =>
      match rest with
      | '=' :: rest =>
        match readValue fuel depth (skipBlanks rest) with
        | none => none
        | some (v, rest) =>
          match skipBlanks rest with
          | ',' :: rest => readPairs fuel depth (⟨path, v⟩ :: acc) rest
          | '\x7d' :: rest => some ((⟨path, v⟩ :: acc).reverse, rest)
          | _ => none
      | _ => none
end

/-!
## Documents
-/

def readKeyValue (text : Text) : Option (KeyValue × Text) := do
  let (path, rest) ← readKey text
  let rest ← after? ['='] rest
  let (v, rest) ← readValue (rest.length + 1) depthLimit (skipBlanks rest)
  return (⟨path, v⟩, ← endLine? rest)

def readHeader (text : Text) : Option (Header × Text) :=
  match text with
  | '[' :: '[' :: rest => do
    let (path, rest) ← readKey rest
    return (.item path, ← endLine? (← after? [']', ']'] rest))
  | '[' :: rest => do
    let (path, rest) ← readKey rest
    return (.table path, ← endLine? (← after? [']'] rest))
  | _ => none

def readSections : Nat → Header → List KeyValue → Text → Option (List Section)
  | 0, _, _, _ => none
  | fuel + 1, header, values, text =>
    match skipBlanks text with
    | [] => some [⟨header, values.reverse⟩]
    | '[' :: rest =>
      match readHeader ('[' :: rest) with
      | none => none
      | some (next, rest) =>
        (readSections fuel next [] rest).map fun more => ⟨header, values.reverse⟩ :: more
    | c :: rest =>
      if c = '#' ∨ (afterBreak? (c :: rest)).isSome then
        match endLine? (c :: rest) with
        | some rest => readSections fuel header values rest
        | none => none
      else
        match readKeyValue (c :: rest) with
        | some (kv, rest) => readSections fuel header (kv :: values) rest
        | none => none

def dropMark : Text → Text
  | '\uFEFF' :: rest => rest
  | text => text

def parse? (text : Text) : Option Json := do
  let sections ← readSections (text.length + 1) .top [] (dropMark text)
  let root ← sections.foldlM addSection []
  return Json.ofMembers (entriesJson root)

end LanguageClient.Toml

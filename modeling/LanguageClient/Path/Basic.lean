import LanguageClient.Text.Utf8

/-!
# Paths

A path is a sequence of bytes that slashes cut into pieces. Empty pieces and single dots
between slashes name nothing; a dot counts only at the start of a relative path.
-/

namespace LanguageClient

structure Path where
  bytes : Bytes
  deriving DecidableEq, Repr, Inhabited

namespace Path

def slash : UInt8 := 0x2F

def dot : UInt8 := 0x2E

inductive Component where
  | root
  | here
  | up
  | name (bytes : Bytes)
  deriving DecidableEq, Repr

def ofText (text : Text) : Path :=
  ⟨Utf8.encode text⟩

def ofString (s : String) : Path :=
  ofText s.toList

def display (p : Path) : Text :=
  Utf8.display p.bytes

def isAbsolute (p : Path) : Bool :=
  p.bytes.head? == some slash

/-!
## Pieces
-/

def splitPieces : Bytes → List Bytes
  | [] => [[]]
  | b :: rest =>
    match splitPieces rest with
    | [] => [[b]]
    | piece :: more => if b = slash then [] :: piece :: more else (b :: piece) :: more

def joinPieces : List Bytes → Bytes
  | [] => []
  | [piece] => piece
  | piece :: rest => piece ++ slash :: joinPieces rest

def Component.ofPiece (piece : Bytes) : Option Component :=
  if piece = [] ∨ piece = [dot] then none
  else if piece = [dot, dot] then some .up
  else some (.name piece)

def opening (p : Path) : Option Component × List Bytes :=
  match splitPieces p.bytes with
  | [] => (none, [])
  | first :: rest =>
    if p.isAbsolute then (some .root, rest)
    else if first = [dot] then (some .here, rest)
    else (none, first :: rest)

def components (p : Path) : List Component :=
  let (first, pieces) := p.opening
  first.toList ++ pieces.filterMap Component.ofPiece

/-!
## Joining and taking apart
-/

/-- `p` followed by `q`; an absolute `q` stands alone. -/
def join (p q : Path) : Path :=
  if q.isAbsolute then q
  else if p.bytes = [] ∨ p.bytes.getLast? = some slash then ⟨p.bytes ++ q.bytes⟩
  else ⟨p.bytes ++ slash :: q.bytes⟩

def fileName (p : Path) : Option Bytes :=
  match p.components.getLast? with
  | some (.name n) => some n
  | _ => none

def splitLastDot : Bytes → Option (Bytes × Bytes)
  | [] => none
  | b :: rest =>
    match splitLastDot rest with
    | some (stem, ext) => some (b :: stem, ext)
    | none => if b = dot then some ([], rest) else none

def extension (p : Path) : Option Bytes := do
  let name ← p.fileName
  let (stem, ext) ← splitLastDot name
  if stem = [] then none else some ext

def isIdle (piece : Bytes) : Bool :=
  (Component.ofPiece piece).isNone

def trimEnd (pieces : List Bytes) : List Bytes :=
  (pieces.reverse.dropWhile isIdle).reverse

def dropComponents : List Component → List Bytes → Option (List Bytes)
  | [], pieces => some pieces
  | _ :: _, [] => none
  | c :: wanted, piece :: pieces =>
    match Component.ofPiece piece with
    | none => dropComponents (c :: wanted) pieces
    | some d => if c = d then dropComponents wanted pieces else none

def trimmed (p : Path) : Path :=
  match p.opening with
  | (some .root, pieces) => ⟨slash :: joinPieces (trimEnd pieces)⟩
  | (some .here, pieces) => ⟨joinPieces ([dot] :: trimEnd pieces)⟩
  | (_, pieces) => ⟨joinPieces (trimEnd pieces)⟩

/-- The rest of `p` below `root`, compared component by component. -/
def below? (root p : Path) : Option Path :=
  match root.components, p.opening with
  | [], _ => some p.trimmed
  | wanted, (none, pieces) => (dropComponents wanted pieces).map rest
  | c :: wanted, (some d, pieces) =>
    if c = d then (dropComponents wanted pieces).map rest else none
where
  rest (pieces : List Bytes) : Path :=
    ⟨joinPieces (trimEnd (pieces.dropWhile isIdle))⟩

/-!
## Lexical normal form
-/

/-- The names that remain once every `..` has taken back the name before it; `stack` holds
those so far, the last one first. At the top, `..` stays at the top. -/
def resolveNames (stack : List Bytes) : List Component → List Bytes
  | [] => stack.reverse
  | .name n :: rest => resolveNames (n :: stack) rest
  | .up :: rest => resolveNames stack.tail rest
  | .root :: rest | .here :: rest => resolveNames stack rest

def ofNames (absolute : Bool) (names : List Bytes) : Path :=
  ⟨(if absolute then [slash] else []) ++ joinPieces names⟩

/-- The path without dots, found without looking at any file. -/
def normalize (p : Path) : Path :=
  ofNames p.isAbsolute (resolveNames [] p.components)

/-!
## Order
-/

def Component.rank : Component → Nat
  | .root => 0
  | .here => 1
  | .up => 2
  | .name _ => 3

def bytesLe : Bytes → Bytes → Bool
  | [], _ => true
  | _ :: _, [] => false
  | a :: as, b :: bs => a < b || (a == b && bytesLe as bs)

def Component.before : Component → Component → Bool
  | .name a, .name b => a != b && bytesLe a b
  | c, d => c.rank < d.rank

def componentsLe : List Component → List Component → Bool
  | [], _ => true
  | _ :: _, [] => false
  | c :: cs, d :: ds => c.before d || (c == d && componentsLe cs ds)

def le (p q : Path) : Bool :=
  componentsLe p.components q.components

end Path
end LanguageClient

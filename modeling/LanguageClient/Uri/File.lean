import LanguageClient.Path.Basic
import LanguageClient.Uri.Host

/-!
# File URIs

A document is named by the file URI of its path. Writing one encodes every component of an
absolute path. Reading one follows the rules for URLs of scheme `file`: blanks around it and
line breaks inside it do not count, a backslash is a slash, dot segments are resolved, a
drive letter is never taken back, and query and fragment are dropped.
-/

namespace LanguageClient.FileUri

/-!
## Writing
-/

def encodeComponent : Path.Component → Bytes
  | .root => []
  | .here => Path.slash :: [Path.dot]
  | .up => Path.slash :: [Path.dot, Path.dot]
  | .name n => Path.slash :: Percent.encode n

def ofPath (p : Path) : Text :=
  let scheme := "file://".toList
  if p.isAbsolute then
    match p.components.tail with
    | [] => scheme ++ ['/']
    | components => scheme ++ Utf8.display (components.flatMap encodeComponent)
  else scheme ++ p.display

/-!
## Reading
-/

def isTrimmed (c : Char) : Bool :=
  c.toNat ≤ 0x20

def isLineBreak (c : Char) : Bool :=
  c = '\t' || c = '\n' || c = '\r'

def clean (uri : Text) : Text :=
  (((uri.dropWhile isTrimmed).reverse.dropWhile isTrimmed).reverse).filter (!isLineBreak ·)

def isSchemeChar (c : Char) : Bool :=
  c.isAlphanum || c = '+' || c = '-' || c = '.'

def splitScheme? (text : Text) : Option (Text × Text) :=
  match text with
  | [] => none
  | first :: _ =>
    if first.isAlpha then
      match text.dropWhile isSchemeChar with
      | ':' :: rest => some ((text.takeWhile isSchemeChar).map Char.toLower, rest)
      | _ => none
    else none

def isSlash (c : Char) : Bool :=
  c = '/' || c = '\\'

def endsPath (c : Char) : Bool :=
  c = '?' || c = '#'

def isDrive : Text → Bool
  | [l, c] => l.isAlpha && (c = ':' || c = '|')
  | _ => false

def segments : Text → List Text
  | [] => [[]]
  | c :: rest =>
    match segments rest with
    | [] => [[c]]
    | segment :: more => if isSlash c then [] :: segment :: more else (c :: segment) :: more

inductive Dots where
  | one
  | two
  deriving DecidableEq

def plainDots : Text → Text
  | '%' :: '2' :: 'e' :: rest | '%' :: '2' :: 'E' :: rest => '.' :: plainDots rest
  | c :: rest => c :: plainDots rest
  | [] => []

def dots? (segment : Text) : Option Dots :=
  match plainDots segment with
  | ['.'] => some .one
  | ['.', '.'] => some .two
  | _ => none

/-- A path under construction: the segments so far, the last one first, and whether one of
them was a drive letter at the root, which overrides the host. -/
structure Walk where
  done : List Text
  drive : Bool
  deriving DecidableEq, Repr

def Walk.name (w : Walk) (segment : Text) : Walk × Text :=
  match w.done, segment with
  | [], [l, c] => if isDrive [l, c] then (⟨[], true⟩, [l, ':']) else (w, segment)
  | _, _ => (w, segment)

def Walk.back (w : Walk) : Walk :=
  match w.done with
  | [] => w
  | last :: rest => if isDrive last then w else { w with done := rest }

def Walk.run (w : Walk) : List Text → Walk
  | [] => w
  | [segment] =>
    match dots? segment with
    | some .one => { w with done := [] :: w.done }
    | some .two => let w := w.back; { w with done := [] :: w.done }
    | none => let (w, s) := w.name segment; { w with done := s :: w.done }
  | segment :: rest =>
    match dots? segment with
    | some .one => run w rest
    | some .two => run w.back rest
    | none => let (w, s) := w.name segment; run { w with done := s :: w.done } rest

def resolve (text : Text) : List Text × Bool :=
  let body := text.takeWhile (!endsPath ·)
  let body := match body with
    | c :: rest => if isSlash c then rest else c :: rest
    | [] => []
  let w := Walk.run ⟨[], false⟩ (segments body)
  (w.done.reverse, w.drive)

/-- Segments as a path: leading empty ones are dropped, triples are decoded, and a drive
letter at the end gets a slash. -/
def pathOf (segments : List Text) : Path :=
  let kept := segments.dropWhile List.isEmpty
  let text := match kept with
    | [] => ['/']
    | _ => kept.flatMap ('/' :: ·)
  let bytes := Percent.decode (Utf8.encode text)
  match bytes.reverse with
  | c :: l :: _ :: _ =>
    if (c = 0x3A ∨ c = 0x7C) ∧ (Char.ofNat l.toNat).isAlpha then ⟨bytes ++ [Path.slash]⟩
    else ⟨bytes⟩
  | _ => ⟨bytes⟩

def toPath? (uri : Text) : Option Path := do
  let (scheme, rest) ← splitScheme? (clean uri)
  if scheme ≠ "file".toList then none
  else
    match rest with
    | a :: b :: more =>
      if isSlash a && isSlash b then
        let isHost (c : Char) : Bool := !isSlash c && !endsPath c
        let host := more.takeWhile isHost
        if isDrive host then return pathOf (resolve more).1
        else
          let host ← Host.read? host
          let (segments, drive) := resolve (more.dropWhile isHost)
          if host = .localhost ∨ drive then return pathOf segments else none
      else return pathOf (resolve rest).1
    | _ => return pathOf (resolve rest).1

end LanguageClient.FileUri

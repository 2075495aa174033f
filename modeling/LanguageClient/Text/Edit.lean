import LanguageClient.Text.Position

/-!
# Text edits

A set of edits is applied from the bottom of the document up, so an edit not yet applied
keeps its coordinates. Edits that share a start are applied last first, so their new texts
end up in input order.
-/

namespace LanguageClient

structure TextEdit where
  range : Range
  newText : Text
  deriving DecidableEq, Repr, Inhabited

structure InvalidRange where
  start : Nat
  stop : Nat
  deriving DecidableEq, Repr

structure EditOutcome where
  text : Text
  changed : Bool
  deriving DecidableEq, Repr

namespace TextEdit

def dropBytes : Nat → Text → Text
  | _, [] => []
  | 0, text => text
  | offset, c :: rest => dropBytes (offset - c.utf8Size) rest

def takeBytes : Nat → Text → Text
  | _, [] => []
  | 0, _ => []
  | offset, c :: rest => c :: takeBytes (offset - c.utf8Size) rest

def splice (text : Text) (start stop : Nat) (new : Text) : Text :=
  takeBytes start text ++ (new ++ dropBytes stop text)

def applyOne (edit : TextEdit) (text : Text) : Except InvalidRange Text :=
  let start := edit.range.start.toOffset text
  let stop := edit.range.stop.toOffset text
  if stop < start then .error ⟨start, stop⟩ else .ok (splice text start stop edit.newText)

/-- Whether the first of two numbered edits is applied no later than the second: the later
start first, and of equal starts the later in input order. -/
def appliedFirst (a b : Nat × TextEdit) : Bool :=
  let p := a.2.range.start
  let q := b.2.range.start
  q.before p || (p == q && b.1 ≤ a.1)

def schedule (edits : List TextEdit) : List TextEdit :=
  (((List.range edits.length).zip edits).mergeSort appliedFirst).map (·.2)

def applySequence : List TextEdit → Text → Except InvalidRange Text
  | [], text => .ok text
  | edit :: rest, text =>
    match edit.applyOne text with
    | .ok text => applySequence rest text
    | .error e => .error e

def applyAll (text : Text) (edits : List TextEdit) : Except InvalidRange EditOutcome :=
  match applySequence (schedule edits) text with
  | .ok out => .ok ⟨out, out != text⟩
  | .error e => .error e

end TextEdit
end LanguageClient

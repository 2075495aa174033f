import LanguageClient.Text.Utf8

/-!
# Positions

A position names a line, counted from 0, and a column counted in UTF-16 code units. An
offset counts the UTF-8 bytes before a place in a text.
-/

namespace LanguageClient

structure Position where
  line : Nat
  character : Nat
  deriving DecidableEq, Repr, Inhabited

namespace Position

def before (p q : Position) : Bool :=
  p.line < q.line || (p.line == q.line && p.character < q.character)

def units (c : Char) : Nat :=
  if c.toNat < 0x10000 then 1 else 2

def columnBefore (column seen : Nat) : Text → Text
  | [] => []
  | c :: rest =>
    if c = '\n' ∨ column ≤ seen then []
    else c :: columnBefore column (seen + units c) rest

def textBefore (column : Nat) : Nat → Text → Text
  | 0, text => columnBefore column 0 text
  | _ + 1, [] => []
  | line + 1, c :: rest =>
    c :: (if c = '\n' then textBefore column line rest else textBefore column (line + 1) rest)

/-- The offset of a position: a line past the end denotes the end of the text, a
column past the end of its line the end of that line, and a column inside a character
the end of that character. -/
def toOffset (text : Text) (p : Position) : Nat :=
  Utf8.size (textBefore p.character p.line text)

def wholeBefore : Nat → Text → Text
  | _, [] => []
  | offset, c :: rest =>
    if c.utf8Size ≤ offset then c :: wholeBefore (offset - c.utf8Size) rest else []

def after (p : Position) : Text → Position
  | [] => p
  | c :: rest =>
    if c = '\n' then after ⟨p.line + 1, 0⟩ rest else after ⟨p.line, p.character + units c⟩ rest

/-- The position of an offset: inside a character it is that character's start, and past the
end of the text it is the end. -/
def ofOffset (text : Text) (offset : Nat) : Position :=
  after ⟨0, 0⟩ (wholeBefore offset text)

end Position

structure Range where
  start : Position
  stop : Position
  deriving DecidableEq, Repr, Inhabited

end LanguageClient

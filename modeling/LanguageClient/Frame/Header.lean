import LanguageClient.Number.Unsigned
import LanguageClient.Text.Blank
import LanguageClient.Text.Lines

/-!
# Frame headers

A header is a block of lines that a blank line ends. Line breaks may be CRLF or bare line
feeds, and the first blank line of either kind counts. The only field that matters is the
length of the body.
-/

namespace LanguageClient.Frame

structure Block where
  header : Bytes
  separator : Nat
  rest : Bytes
  deriving DecidableEq, Repr

def blankLine? : Bytes → Option (Nat × Bytes)
  | 0x0D :: 0x0A :: 0x0D :: 0x0A :: rest => some (4, rest)
  | 0x0A :: 0x0A :: rest => some (2, rest)
  | _ => none

def splitBlock : Bytes → Option Block
  | [] => none
  | b :: rest =>
    match blankLine? (b :: rest) with
    | some (size, after) => some ⟨[], size, after⟩
    | none =>
      match splitBlock rest with
      | some block => some { block with header := b :: block.header }
      | none => none

/-!
## The length field
-/

def lowerName (text : Text) : Text :=
  (Blank.trim text).map Char.toLower

def dropReturns (line : Text) : Text :=
  (line.reverse.dropWhile (· == '\r')).reverse

def lineLength? (line : Text) : Option Nat :=
  let line := dropReturns line
  match line.dropWhile (· != ':') with
  | [] => none
  | _ :: value =>
    if lowerName (line.takeWhile (· != ':')) = "content-length".toList then
      Unsigned.read? (Blank.trim value)
    else none

/-- The body's length: that of the first line which declares a usable one. -/
def bodyLength? (header : Bytes) : Option Nat :=
  (Utf8.decode? header).bind fun text => (Lines.split text).findSome? lineLength?

/-!
## Sizes
-/

theorem size_of_blankLine {bytes rest : Bytes} {n : Nat}
    (h : blankLine? bytes = some (n, rest)) :
    bytes.length = n + rest.length ∧ 0 < n := by
  unfold blankLine? at h
  split at h <;> simp at h
  all_goals
    obtain ⟨rfl, rfl⟩ := h
    simp only [List.length_cons]
    omega

theorem size_of_splitBlock {bytes : Bytes} {block : Block}
    (h : splitBlock bytes = some block) :
    bytes.length = block.header.length + block.separator + block.rest.length ∧
      0 < block.separator := by
  induction bytes generalizing block with
  | nil => simp [splitBlock] at h
  | cons b rest ih =>
    unfold splitBlock at h
    split at h
    next size after hb =>
      have hs := size_of_blankLine hb
      simp only [Option.some.injEq] at h
      subst h
      simp only [List.length_nil]
      omega
    next =>
      split at h
      next inner hi =>
        have hs := ih hi
        simp only [Option.some.injEq] at h
        subst h
        simp only [List.length_cons]
        omega
      next => simp at h

end LanguageClient.Frame

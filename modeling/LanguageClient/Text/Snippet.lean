import LanguageClient.Text.Blank
import LanguageClient.Text.Lines

/-!
# Replacing a snippet

A snippet is searched for verbatim first. If it does not occur, the first window of lines is
taken whose lines agree with the snippet's up to blanks, and the replacement is moved onto
the window's indentation.
-/

namespace LanguageClient.Snippet

inductive Strategy where
  | exact
  | whitespace
  deriving DecidableEq, Repr

def Strategy.name : Strategy → String
  | .exact => "exact"
  | .whitespace => "whitespace"

structure Replaced where
  strategy : Strategy
  /-- The line on which the replaced block started. -/
  startLine : Nat
  content : Text
  deriving DecidableEq, Repr

def windowMatches : List Text → List Text → Bool
  | [], _ => true
  | _ :: _, [] => false
  | w :: wanted, line :: lines => Blank.collapse line == w && windowMatches wanted lines

def findWindow (wanted : List Text) (index : Nat) : List Text → Option Nat
  | [] => if wanted.isEmpty then some index else none
  | line :: lines =>
    if windowMatches wanted (line :: lines) then some index
    else findWindow wanted (index + 1) lines

def reindent (line source target : Text) : Text :=
  if Blank.isEmpty line then []
  else
    match Lines.dropWord? source line with
    | some rest => target ++ rest
    | none => target ++ Blank.trimLeft line

def replaceWindow (lines : List Text) (start count : Nat) (source replacement : Text) : Text :=
  let target := Blank.indentation (lines.getD start [])
  let block := (Lines.split (Lines.dropFinalBreak replacement)).map (reindent · source target)
  Lines.join (lines.take start ++ (block ++ lines.drop (start + count)))

/-- The first occurrence of `search` in `content` replaced; nothing if `search` is blank or
does not occur. -/
def replace (content search replacement : Text) : Option Replaced :=
  if Blank.isEmpty search then none
  else
    match Lines.find? search content with
    | some (before, after) =>
      some ⟨.exact, before.count '\n', before ++ (replacement ++ after)⟩
    | none =>
      let searchLines := Lines.split (Lines.dropFinalBreak search)
      let lines := Lines.split content
      match findWindow (searchLines.map Blank.collapse) 0 lines with
      | none => none
      | some start =>
        let source := Blank.indentation (searchLines.headD [])
        some ⟨.whitespace, start,
          replaceWindow lines start searchLines.length source replacement⟩

end LanguageClient.Snippet

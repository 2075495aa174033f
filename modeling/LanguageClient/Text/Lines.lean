import LanguageClient.Text.Utf8

/-!
# Lines and occurrences

A text as the list of its lines without their line feeds, and the first place where a text
occurs in another.
-/

namespace LanguageClient.Lines

def splitAt (sep : Char) : Text → List Text
  | [] => [[]]
  | c :: rest =>
    match splitAt sep rest with
    | [] => [[c]]
    | first :: more => if c = sep then [] :: first :: more else (c :: first) :: more

def split (text : Text) : List Text :=
  splitAt '\n' text

def join : List Text → Text
  | [] => []
  | [line] => line
  | line :: rest => line ++ '\n' :: join rest

def dropWord? : Text → Text → Option Text
  | [], text => some text
  | c :: word, d :: text => if c = d then dropWord? word text else none
  | _ :: _, [] => none

def find? (word : Text) : Text → Option (Text × Text)
  | [] => (dropWord? word []).map ([], ·)
  | c :: rest =>
    match dropWord? word (c :: rest) with
    | some after => some ([], after)
    | none => (find? word rest).map fun (before, after) => (c :: before, after)

def dropFinalBreak (text : Text) : Text :=
  if text.getLast? = some '\n' then text.dropLast else text

end LanguageClient.Lines

import LanguageClient.Text.Utf8

/-!
# Blank characters

The characters with the Unicode property `White_Space`, trimming at both ends of a text, and
the collapse of inner runs.
-/

namespace LanguageClient

namespace Blank

def isBlank (c : Char) : Bool :=
  let n := c.toNat
  (9 ≤ n && n ≤ 13) || n == 0x20 || n == 0x85 || n == 0xA0 || n == 0x1680 ||
    (0x2000 ≤ n && n ≤ 0x200A) || n == 0x2028 || n == 0x2029 || n == 0x202F || n == 0x205F ||
    n == 0x3000

def trimLeft (text : Text) : Text :=
  text.dropWhile isBlank

def trimRight (text : Text) : Text :=
  (text.reverse.dropWhile isBlank).reverse

def trim (text : Text) : Text :=
  trimRight (trimLeft text)

def indentation (text : Text) : Text :=
  text.takeWhile isBlank

def squeeze (inRun : Bool) : Text → Text
  | [] => []
  | c :: rest =>
    if isBlank c then
      if inRun then squeeze true rest else ' ' :: squeeze true rest
    else c :: squeeze false rest

def collapse (text : Text) : Text :=
  squeeze false (trim text)

def isEmpty (text : Text) : Bool :=
  text.all isBlank

end Blank
end LanguageClient

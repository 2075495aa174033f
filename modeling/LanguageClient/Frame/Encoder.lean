import LanguageClient.Text.Utf8

/-!
# Encoding frames

A frame is a header with the length of the body in bytes, a blank line, and the body.
-/

namespace LanguageClient.Frame

def header (size : Nat) : Text :=
  "Content-Length: ".toList ++ ((toString size).toList ++ ['\r', '\n', '\r', '\n'])

def encode (body : Text) : Bytes :=
  let bytes := Utf8.encode body
  Utf8.encode (header bytes.length) ++ bytes

def encodeOnto (buffer : Bytes) (body : Text) : Bytes :=
  let bytes := Utf8.encode body
  buffer ++ Utf8.encode (header bytes.length) ++ bytes

end LanguageClient.Frame

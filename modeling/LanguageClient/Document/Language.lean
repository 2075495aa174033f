import LanguageClient.Path.Basic

/-!
# Language identifiers

The language of a document is guessed from its file name: first from the whole name, then
from the extension without regard to ASCII case.
-/

namespace LanguageClient.Language

def extensions : List (String × List String) :=
  [("typescript", ["ts", "mts", "cts"]), ("typescriptreact", ["tsx"]),
   ("javascript", ["js", "mjs", "cjs"]), ("javascriptreact", ["jsx"]),
   ("json", ["json"]), ("jsonc", ["jsonc"]), ("markdown", ["md", "markdown"]),
   ("python", ["py", "pyi"]), ("rust", ["rs"]), ("go", ["go"]), ("java", ["java"]),
   ("kotlin", ["kt", "kts"]), ("c", ["c", "h"]),
   ("cpp", ["cc", "cpp", "cxx", "hpp", "hh", "hxx"]), ("csharp", ["cs"]), ("ruby", ["rb"]),
   ("php", ["php"]), ("swift", ["swift"]), ("dart", ["dart"]), ("lua", ["lua"]),
   ("shellscript", ["sh", "bash", "zsh"]), ("yaml", ["yaml", "yml"]), ("toml", ["toml"]),
   ("html", ["html", "htm"]), ("css", ["css"]), ("scss", ["scss"]), ("less", ["less"]),
   ("vue", ["vue"]), ("svelte", ["svelte"]), ("sql", ["sql"]), ("xml", ["xml"]),
   ("zig", ["zig"]), ("elixir", ["ex", "exs"]), ("haskell", ["hs"]), ("scala", ["scala"]),
   ("ocaml", ["ml", "mli"])]

def ofExtension (ext : String) : String :=
  match extensions.find? fun entry => entry.2.contains ext with
  | some (language, _) => language
  | none => "plaintext"

def lower (text : Text) : Text :=
  text.map Char.toLower

def ofPath (p : Path) : String :=
  if p.fileName = some (Utf8.encode "Dockerfile".toList) then "dockerfile"
  else
    match p.extension.bind Utf8.decode? with
    | some ext => ofExtension (String.ofList (lower ext))
    | none => "plaintext"

end LanguageClient.Language

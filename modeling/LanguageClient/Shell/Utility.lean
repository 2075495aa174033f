import LanguageClient.Shell.Arithmetic
import LanguageClient.Shell.Machine

/-!
# Utilities

The commands that a shell brings along, and a few small programs that copy input and output.
-/

namespace LanguageClient.Shell

/-!
## Printing
-/

def escaped? : Char → Option Char
  | 'n' => some '\n'
  | 't' => some '\t'
  | 'r' => some '\r'
  | '\\' => some '\\'
  | 'a' => some '\x07'
  | 'b' => some '\x08'
  | 'f' => some '\x0c'
  | 'v' => some '\x0b'
  | '"' => some '"'
  | '\'' => some '\''
  | _ => none

def isOctal (c : Char) : Bool := '0' ≤ c && c ≤ '7'

def ofOctal (digits : Text) : Char :=
  Char.ofNat (digits.foldl (fun n d => n * 8 + (d.toNat - '0'.toNat)) 0 % 256)

def escape (text : Text) : Text × Text :=
  match text with
  | [] => (['\\'], [])
  | c :: rest =>
    match escaped? c with
    | some d => ([d], rest)
    | none =>
      let digits := (text.take 3).takeWhile isOctal
      if digits.isEmpty then (['\\', c], rest) else ([ofOctal digits], text.drop digits.length)

def unescape : (fuel : Nat) → Text → Text
  | 0, text => text
  | _ + 1, [] => []
  | fuel + 1, '\\' :: rest =>
    let (chars, rest) := escape rest
    chars ++ unescape fuel rest
  | fuel + 1, c :: rest => c :: unescape fuel rest

def directed? (directive : Char) (argument : Option Text) : Option Text :=
  let word := argument.getD []
  let number := (Arithmetic.integer? word).getD 0
  match directive with
  | 's' => some word
  | 'b' => some (unescape word.length word)
  | 'c' => some (word.take 1)
  | 'd' | 'i' => some (toString number).toList
  | 'u' => some (toString (number % Nat.pow 2 64)).toList
  | 'x' => some (Nat.toDigits 16 (number % Nat.pow 2 64).toNat)
  | 'o' => some (Nat.toDigits 8 (number % Nat.pow 2 64).toNat)
  | _ => none

def filled (flags : Text) (width : Nat) (text : Text) : Text :=
  let missing := width - text.length
  if flags.contains '-' then text ++ List.replicate missing ' '
  else if flags.contains '0' then List.replicate missing '0' ++ text
  else List.replicate missing ' ' ++ text

def formatOnce : (fuel : Nat) → Text → List Text → Text × List Text × Bool
  | 0, _, arguments => ([], arguments, false)
  | _ + 1, [], arguments => ([], arguments, false)
  | fuel + 1, '\\' :: rest, arguments =>
    let (chars, rest) := escape rest
    let (text, left, used) := formatOnce fuel rest arguments
    (chars ++ text, left, used)
  | fuel + 1, '%' :: '%' :: rest, arguments =>
    let (text, left, used) := formatOnce fuel rest arguments
    ('%' :: text, left, used)
  | fuel + 1, '%' :: rest, arguments =>
    let flags := rest.takeWhile fun c => c = '-' || c = '0'
    let rest := rest.drop flags.length
    let digits := rest.takeWhile Char.isDigit
    match rest.drop digits.length with
    | [] => ([], arguments, false)
    | directive :: rest =>
      match directed? directive arguments.head? with
      | none => ([], arguments, false)
      | some shown =>
        let (text, left, _) := formatOnce fuel rest arguments.tail
        (filled flags (Arithmetic.digitsValue digits) shown ++ text, left, true)
  | fuel + 1, c :: rest, arguments =>
    let (text, left, used) := formatOnce fuel rest arguments
    (c :: text, left, used)

def formatAll (format : Text) : (fuel : Nat) → List Text → Text
  | 0, _ => []
  | fuel + 1, arguments =>
    let (text, left, used) := formatOnce (format.length + 1) format arguments
    if used && !left.isEmpty then text ++ formatAll format fuel left else text

/-!
## Tests
-/

def compare? (mark : String) (a b : Int) : Option Bool :=
  match mark with
  | "-eq" => some (a = b)
  | "-ne" => some (a ≠ b)
  | "-lt" => some (a < b)
  | "-le" => some (a ≤ b)
  | "-gt" => some (a > b)
  | "-ge" => some (a ≥ b)
  | _ => none

def test? : List Text → Option Bool
  | [] => some false
  | [a] => some (!a.isEmpty)
  | [['!'], a] => some a.isEmpty
  | [mark, a] =>
    if mark = ['-', 'z'] then some a.isEmpty
    else if mark = ['-', 'n'] then some (!a.isEmpty)
    else if [['-', 'e'], ['-', 'f'], ['-', 'd'], ['-', 'r'], ['-', 'x'],
      ['-', 's']].contains mark then
      some false
    else none
  | ['!'] :: rest => (test? rest).map (!·)
  | [a, mark, b] =>
    if mark = ['='] then some (a = b)
    else if mark = ['!', '='] then some (a ≠ b)
    else
      match Arithmetic.integer? a, Arithmetic.integer? b with
      | some m, some n => compare? (String.ofList mark) m n
      | _, _ => none
  | _ => none

/-!
## Reading lines
-/

def unquoted : Text → Text
  | '\\' :: c :: rest => c :: unquoted rest
  | c :: rest => c :: unquoted rest
  | [] => []

def trimmed (separators text : Text) : Text :=
  ((text.dropWhile separators.contains).reverse.dropWhile separators.contains).reverse

def spread (separators : Text) : List Text → Text → List (Text × Text)
  | [], _ => []
  | [name], text => [(name, trimmed separators text)]
  | name :: names, text =>
    let text := text.dropWhile separators.contains
    let first := text.takeWhile fun c => !separators.contains c
    (name, first) :: spread separators names (text.drop first.length)

def readLine (arguments : List Text) : Act Unit := do
  let raw := arguments.head? = some ['-', 'r']
  let names := if raw then arguments.tail else arguments
  let (line, whole) ← Act.takeLine
  let line := if raw then line else unquoted line
  for (name, value) in spread (← Act.separators) names line do Act.setValue name value
  Act.answer whole

/-!
## Programs that copy
-/

def named (name : String) (arguments : List Text) : Option Nat :=
  arguments.findSome? fun a =>
    if (name.toList ++ ['=']).isPrefixOf a then
      (Arithmetic.integer? (a.drop (name.length + 1))).map Int.toNat
    else none

def firstLines : Nat → Act Unit
  | 0 => pure ()
  | n + 1 => do
    let (line, whole) ← Act.takeLine
    Act.print line
    if whole then
      Act.print ['\n']
      firstLines n

def head (arguments : List Text) : Act Unit := do
  let number (text : Text) : Nat := ((Arithmetic.integer? text).getD 0).toNat
  match arguments with
  | [['-', 'c'], n] => Act.print (← Act.take (number n))
  | [['-', 'n'], n] => firstLines (number n)
  | ['-' :: 'c' :: n] => Act.print (← Act.take (number n))
  | ['-' :: 'n' :: n] => firstLines (number n)
  | ['-' :: n] => firstLines (number n)
  | _ => firstLines 10
  Act.setStatus 0

def copyBlocks (arguments : List Text) : Act Unit := do
  match named "count" arguments with
  | some count => Act.print (← Act.take (count * (named "bs" arguments).getD 512))
  | none => Act.copyAll
  Act.setStatus 0

def milliseconds (text : Text) : Nat :=
  let whole := text.takeWhile Char.isDigit
  let fraction :=
    ((text.drop (whole.length + 1)).takeWhile Char.isDigit ++ ['0', '0', '0']).take 3
  Arithmetic.digitsValue whole * 1000 + Arithmetic.digitsValue fraction

/-!
## Signals
-/

def namesTerminate (word : Text) : Bool :=
  [['T', 'E', 'R', 'M'], ['S', 'I', 'G', 'T', 'E', 'R', 'M'], ['1', '5']].contains word

def signalSelf (arguments : List Text) : Act Unit := do
  let signal := match arguments with
    | [['-', 's'], s, _] => s
    | ['-' :: s, _] => s
    | _ => ['T', 'E', 'R', 'M']
  if signal = ['0'] then Act.setStatus 0
  else if namesTerminate signal && (← get).deaf then Act.setStatus 0
  else throw .killed

def trap (arguments : List Text) : Act Unit := do
  match arguments with
  | action :: signals =>
    if signals.any namesTerminate then modify fun m => { m with deaf := action ≠ ['-'] }
  | [] => pure ()
  Act.setStatus 0

/-!
## All of them
-/

def statusOf (current : Nat) : List Text → Nat
  | n :: _ => (((Arithmetic.integer? n).getD 2) % 256).toNat
  | [] => current

def levels : List Text → Nat
  | n :: _ => max 1 ((Arithmetic.integer? n).getD 1).toNat
  | [] => 1

def control? (name : String) (arguments : List Text) : Option (Act Unit) :=
  match name with
  | ":" | "true" => some (Act.setStatus 0)
  | "false" => some (Act.setStatus 1)
  | "exit" => some do throw (.exit (statusOf (← get).status arguments))
  | "return" => some do
    Act.setStatus (statusOf (← get).status arguments)
    throw .returnFrom
  | "break" => some (throw (.breakLoop (levels arguments)))
  | "continue" => some (throw (.continueLoop (levels arguments)))
  | "shift" => some do
    modify fun m => { m with arguments := m.arguments.drop (levels arguments) }
    Act.setStatus 0
  | "set" => some do
    match arguments with
    | ['-', '-'] :: rest => modify fun m => { m with arguments := rest }
    | _ => pure ()
    Act.setStatus 0
  | "export" | "readonly" | "local" => some do
    for a in arguments do
      let name := a.takeWhile (· ≠ '=')
      if name.length < a.length then Act.setValue name (a.drop (name.length + 1))
    Act.setStatus 0
  | "unset" => some do
    for a in arguments do modify fun m => { m with bindings := m.bindings.erase a }
    Act.setStatus 0
  | "trap" => some (trap arguments)
  | "kill" => some (signalSelf arguments)
  | _ => none

def program? (name : String) (arguments : List Text) : Option (Act Unit) :=
  match name with
  | "printf" => some do
    match arguments with
    | format :: rest => Act.print (formatAll format (rest.length + 1) rest)
    | [] => pure ()
    Act.answer (!arguments.isEmpty && (← Act.canPrint))
  | "echo" => some do
    let bare := arguments.head? = some ['-', 'n']
    let words := if bare then arguments.tail else arguments
    let text := (words.intersperse [' ']).flatten
    Act.print (unescape text.length text ++ if bare then [] else ['\n'])
    Act.answer (← Act.canPrint)
  | "read" => some (readLine arguments)
  | "test" => some (Act.setStatus (match test? arguments with
    | some holds => if holds then 0 else 1
    | none => 2))
  | "[" => some (Act.setStatus (match test? arguments.dropLast with
    | some holds => if holds then 0 else 1
    | none => 2))
  | "pwd" => some do
    Act.print ((← Act.value? "PWD".toList).getD ['/'] ++ ['\n'])
    Act.setStatus 0
  | "cat" => some do
    Act.copyAll
    Act.setStatus 0
  | "head" => some (head arguments)
  | "dd" => some (copyBlocks arguments)
  | "sleep" => some do
    Act.sleep ((arguments.map milliseconds).foldr (· + ·) 0)
    Act.setStatus 0
  | _ => none

def programFiles : List String :=
  ["sh", "dash", "cat", "head", "dd", "sleep", "printf", "echo", "test", "[", "pwd", "true",
    "false"]

end LanguageClient.Shell

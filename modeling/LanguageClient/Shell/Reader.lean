import LanguageClient.Shell.Arithmetic
import LanguageClient.Shell.Basic

/-!
# Reading scripts

A reader takes a construct off the front of a text and gives the rest of the text. Every
construct of the shell but background jobs and here-documents is read.
-/

namespace LanguageClient.Shell.Reader

open Arithmetic (isNameStart isNameChar)

/-!
## Blanks and words
-/

def isBlank (c : Char) : Bool := c = ' ' || c = '\t'

def endsWord (c : Char) : Bool :=
  isBlank c || c = '\n' || c = ';' || c = '&' || c = '|' || c = '<' || c = '>' || c = '(' ||
    c = ')'

def skipBlanks : Text → Text
  | '\\' :: '\n' :: rest => skipBlanks rest
  | '#' :: rest => rest.dropWhile (· ≠ '\n')
  | c :: rest => if isBlank c then skipBlanks rest else c :: rest
  | [] => []

def skipLines : (fuel : Nat) → Text → Text
  | 0, text => text
  | fuel + 1, text =>
    match skipBlanks text with
    | '\n' :: rest => skipLines fuel rest
    | text => text

def afterWord? (word : String) (text : Text) : Option Text :=
  let text := skipBlanks text
  if word.toList.isPrefixOf text then
    let rest := text.drop word.length
    match rest with
    | [] => some []
    | c :: _ => if endsWord c then some rest else none
  else none

def afterMark? (mark : String) (text : Text) : Option Text :=
  let text := skipBlanks text
  if mark.toList.isPrefixOf text then some (text.drop mark.length) else none

def closers : List String := ["then", "else", "elif", "fi", "do", "done", "esac", "\x7d"]

def atClose (text : Text) : Bool :=
  text.isEmpty || (afterMark? ")" text).isSome || (afterMark? ";;" text).isSome ||
    closers.any fun w => (afterWord? w text).isSome

def name? (text : Text) : Option (Text × Text) :=
  match text with
  | c :: _ =>
    if isNameStart c then some (text.takeWhile isNameChar, text.dropWhile isNameChar) else none
  | [] => none

def parameter? (text : Text) : Option (Text × Text) :=
  match text with
  | c :: rest =>
    if isNameStart c then name? text
    else if c.isDigit || "@*#?$!-".toList.contains c then some ([c], rest)
    else none
  | [] => none

def expression? : (depth : Nat) → Text → Option (Text × Text)
  | _, [] => none
  | 0, ')' :: ')' :: rest => some ([], rest)
  | depth, '(' :: rest => (expression? (depth + 1) rest).map fun (t, rest) => ('(' :: t, rest)
  | depth, ')' :: rest => (expression? (depth - 1) rest).map fun (t, rest) => (')' :: t, rest)
  | depth, c :: rest => (expression? depth rest).map fun (t, rest) => (c :: t, rest)

def uses : List (String × (List Piece → Use)) :=
  [("%%", .without ⟨true, true⟩), ("%", .without ⟨true, false⟩),
    ("##", .without ⟨false, true⟩),
   ("#", .without ⟨false, false⟩), (":-", .fallback true), ("-", .fallback false),
   (":=", .settle true), ("=", .settle false), (":+", .instead true), ("+", .instead false)]

def redirection? (text : Text) : Option ((Nat × Direction) × Text) :=
  let text := skipBlanks text
  let (stream, text) := match text with
    | d :: rest =>
      if d.isDigit && (rest.head? = some '<' || rest.head? = some '>')
      then (some (d.toNat - '0'.toNat), rest) else (none, text)
    | [] => (none, text)
  let direction : Option (Direction × Nat × Nat) :=
    if ">&".toList.isPrefixOf text then some (.copy, 1, 2)
    else if "<&".toList.isPrefixOf text then some (.copy, 0, 2)
    else if ">>".toList.isPrefixOf text || ">|".toList.isPrefixOf text then
      some (.output, 1, 2)
    else if "<<".toList.isPrefixOf text then none
    else if ">".toList.isPrefixOf text then some (.output, 1, 1)
    else if "<".toList.isPrefixOf text then some (.input, 0, 1)
    else none
  direction.map fun (d, usual, length) =>
    ((stream.getD usual, d), skipBlanks (text.drop length))

def assignment? (text : Text) : Option (Text × Text) :=
  match name? text with
  | some (name, '=' :: rest) => some (name, rest)
  | _ => none

def definition? (text : Text) : Option (Text × Text) := do
  let (name, rest) ← name? text
  let rest ← afterMark? "(" rest
  return (name, ← afterMark? ")" rest)

/-!
## Words and commands
-/

mutual

def pieces (stop : Char → Bool) : (fuel : Nat) → Text → Option ((List Piece) × Text)
  | 0, _ => none
  | _ + 1, [] => some ([], [])
  | fuel + 1, c :: rest =>
    if stop c then some ([], c :: rest)
    else do
      let (found, rest) ← match c with
        | '\'' =>
          match rest.dropWhile (· ≠ '\'') with
          | _ :: after => some ([Piece.text (rest.takeWhile (· ≠ '\'')) true], after)
          | [] => none
        | '"' => (quotedPieces fuel rest).map fun (ps, rest) =>
          (if ps.isEmpty then [Piece.text [] true] else ps, rest)
        | '\\' =>
          match rest with
          | '\n' :: rest => some ([], rest)
          | d :: rest => some ([Piece.text [d] true], rest)
          | [] => some ([Piece.text ['\\'] true], [])
        | '$' => (dollar false fuel rest).map fun (p, rest) => ([p], rest)
        | c => some ([Piece.text [c] false], rest)
      let (more, rest) ← pieces stop fuel rest
      return (found ++ more, rest)

def quotedPieces : (fuel : Nat) → Text → Option ((List Piece) × Text)
  | 0, _ | _ + 1, [] => none
  | _ + 1, '"' :: rest => some ([], rest)
  | fuel + 1, '\\' :: '\n' :: rest => quotedPieces fuel rest
  | fuel + 1, '\\' :: c :: rest => do
    let chars := if "$\x60\"\\".toList.contains c then [c] else ['\\', c]
    let (more, rest) ← quotedPieces fuel rest
    return (.text chars true :: more, rest)
  | fuel + 1, '$' :: rest => do
    let (p, rest) ← dollar true fuel rest
    let (more, rest) ← quotedPieces fuel rest
    return (p :: more, rest)
  | fuel + 1, c :: rest => do
    let (more, rest) ← quotedPieces fuel rest
    return (.text [c] true :: more, rest)

def dollar (quoted : Bool) : (fuel : Nat) → Text → Option (Piece × Text)
  | 0, _ => none
  | fuel + 1, '\x7b' :: '#' :: rest =>
    match parameter? rest with
    | some (name, '\x7d' :: rest) => some (.value name .size quoted, rest)
    | _ => braced quoted fuel ('#' :: rest)
  | fuel + 1, '\x7b' :: rest => braced quoted fuel rest
  | fuel + 1, '(' :: '(' :: rest => do
    let (inner, rest) ← expression? 0 rest
    let (ps, _) ← pieces (fun _ => false) fuel inner
    return (.number ps quoted, rest)
  | fuel + 1, '(' :: rest => do
    let (body, rest) ← list fuel rest
    return (.output body quoted, ← afterMark? ")" rest)
  | _ + 1, text =>
    match parameter? text with
    | some (name, rest) => some (.value name .whole quoted, rest)
    | none => some (.text ['$'] true, text)

def braced (quoted : Bool) : (fuel : Nat) → Text → Option (Piece × Text)
  | 0, _ => none
  | fuel + 1, text => do
    let (name, rest) ← parameter? text
    match rest with
    | '\x7d' :: rest => return (.value name .whole quoted, rest)
    | rest =>
      let (mark, use) ← uses.find? fun (mark, _) => mark.toList.isPrefixOf rest
      let (word, rest) ← pieces (· = '\x7d') fuel (rest.drop mark.length)
      match rest with
      | '\x7d' :: rest => return (.value name (use word) quoted, rest)
      | _ => none

def list : (fuel : Nat) → Text → Option (Command × Text)
  | 0, _ => none
  | fuel + 1, text =>
    let text := skipLines text.length text
    if atClose text then some (.nothing, text)
    else do
      let (first, rest) ← chain fuel text
      match skipBlanks rest with
      | ';' :: ';' :: _ => return (first, rest)
      | ';' :: rest | '\n' :: rest =>
        let (second, rest) ← list fuel rest
        return (.sequence first second, rest)
      | rest => if atClose rest then return (first, rest) else none

def chain : (fuel : Nat) → Text → Option (Command × Text)
  | 0, _ => none
  | fuel + 1, text => do
    let (first, rest) ← pipeline fuel text
    chainAfter fuel first rest

def chainAfter : (fuel : Nat) → Command → Text → Option (Command × Text)
  | 0, _, _ => none
  | fuel + 1, first, text =>
    match afterMark? "&&" text, afterMark? "||" text with
    | some rest, _ => do
      let (second, rest) ← pipeline fuel (skipLines rest.length rest)
      chainAfter fuel (.both first second) rest
    | none, some rest => do
      let (second, rest) ← pipeline fuel (skipLines rest.length rest)
      chainAfter fuel (.either first second) rest
    | none, none => some (first, text)

def pipeline : (fuel : Nat) → Text → Option (Command × Text)
  | 0, _ => none
  | fuel + 1, text =>
    match afterWord? "!" text with
    | some rest => do
      let (body, rest) ← pipeline fuel rest
      return (.not body, rest)
    | none => do
      let (first, rest) ← command fuel text
      match skipBlanks rest with
      | '|' :: '|' :: _ => return (first, rest)
      | '|' :: rest =>
        let (second, rest) ← pipeline fuel (skipLines rest.length rest)
        return (.pipe first second, rest)
      | _ => return (first, rest)

def command : (fuel : Nat) → Text → Option (Command × Text)
  | 0, _ => none
  | fuel + 1, text =>
    let text := skipBlanks text
    match compound fuel text with
    | some (body, rest) => do
      let (redirections, rest) ← redirections fuel rest
      return (if redirections.isEmpty then body else .redirected body redirections, rest)
    | none =>
      match definition? text with
      | some (name, rest) => do
        let (body, rest) ← command fuel (skipLines rest.length rest)
        return (.define name body, rest)
      | none => simple fuel [] [] [] text

def redirections : (fuel : Nat) → Text → Option (List (Nat × Direction × List Piece) × Text)
  | 0, _ => none
  | fuel + 1, text =>
    match redirection? text with
    | some ((stream, direction), rest) => do
      let (word, rest) ← pieces endsWord fuel rest
      let (more, rest) ← redirections fuel rest
      return ((stream, direction, word) :: more, rest)
    | none => some ([], text)

def compound : (fuel : Nat) → Text → Option (Command × Text)
  | 0, _ => none
  | fuel + 1, text =>
    match text with
    | '(' :: rest => do
      let (body, rest) ← list fuel rest
      return (.subshell body, ← afterMark? ")" rest)
    | _ =>
      match afterWord? "\x7b" text, afterWord? "if" text, afterWord? "while" text,
        afterWord? "until" text with
      | some rest, _, _, _ => do
        let (body, rest) ← list fuel rest
        return (body, ← afterWord? "\x7d" rest)
      | none, some rest, _, _ => branch fuel rest
      | none, none, some rest, _ => loop true fuel rest
      | none, none, none, some rest => loop false fuel rest
      | none, none, none, none =>
        match afterWord? "for" text, afterWord? "case" text with
        | some rest, _ => each fuel rest
        | none, some rest => do
          let (subject, rest) ← pieces endsWord fuel (skipBlanks rest)
          let rest := skipLines rest.length rest
          let rest ← afterWord? "in" rest
          let (clauses, rest) ← clauses fuel rest
          return (.select subject clauses, rest)
        | none, none => none

def branch : (fuel : Nat) → Text → Option (Command × Text)
  | 0, _ => none
  | fuel + 1, text => do
    let (condition, rest) ← list fuel text
    let (yes, rest) ← list fuel (← afterWord? "then" rest)
    match afterWord? "elif" rest, afterWord? "else" rest with
    | some rest, _ =>
      let (no, rest) ← branch fuel rest
      return (.branch condition yes no, rest)
    | none, some rest =>
      let (no, rest) ← list fuel rest
      return (.branch condition yes no, ← afterWord? "fi" rest)
    | none, none => return (.branch condition yes .nothing, ← afterWord? "fi" rest)

def loop (wanted : Bool) : (fuel : Nat) → Text → Option (Command × Text)
  | 0, _ => none
  | fuel + 1, text => do
    let (condition, rest) ← list fuel text
    let (body, rest) ← list fuel (← afterWord? "do" rest)
    return (.loop wanted condition body, ← afterWord? "done" rest)

def each : (fuel : Nat) → Text → Option (Command × Text)
  | 0, _ => none
  | fuel + 1, text => do
    let (name, rest) ← name? (skipBlanks text)
    let rest := skipLines rest.length rest
    let (words, rest) ← match afterWord? "in" rest with
      | some rest => do
        let (words, rest) ← words fuel rest
        pure (some words, rest)
      | none => pure (none, rest)
    let rest := (afterMark? ";" rest).getD rest
    let rest := skipLines rest.length rest
    let (body, rest) ← list fuel (← afterWord? "do" rest)
    return (.each name words body, ← afterWord? "done" rest)

def words : (fuel : Nat) → Text → Option ((List (List Piece)) × Text)
  | 0, _ => none
  | fuel + 1, text => do
    let text := skipBlanks text
    match text with
    | [] => return ([], [])
    | c :: _ =>
      if endsWord c then return ([], text)
      else
        let (word, rest) ← pieces endsWord fuel text
        let (more, rest) ← words fuel rest
        return (word :: more, rest)

def clauses : (fuel : Nat) → Text → Option ((List (List (List Piece) × Command)) × Text)
  | 0, _ => none
  | fuel + 1, text => do
    let text := skipLines text.length text
    match afterWord? "esac" text with
    | some rest => return ([], rest)
    | none =>
      let (patterns, rest) ← patterns fuel ((afterMark? "(" text).getD text)
      let (body, rest) ← list fuel rest
      let rest := (afterMark? ";;" rest).getD rest
      let (more, rest) ← clauses fuel rest
      return ((patterns, body) :: more, rest)

def patterns : (fuel : Nat) → Text → Option ((List (List Piece)) × Text)
  | 0, _ => none
  | fuel + 1, text => do
    let (first, rest) ← pieces endsWord fuel (skipBlanks text)
    match skipBlanks rest with
    | '|' :: rest =>
      let (more, rest) ← patterns fuel rest
      return (first :: more, rest)
    | ')' :: rest => return ([first], rest)
    | _ => none

def simple : (fuel : Nat) → List (Text × List Piece) → List (List Piece) →
    List (Nat × Direction × List Piece) → Text → Option (Command × Text)
  | 0, _, _, _, _ => none
  | fuel + 1, assignments, words, redirections, text =>
    let text := skipBlanks text
    let finished : Option (Command × Text) :=
      if assignments.isEmpty && words.isEmpty && redirections.isEmpty then none
      else
        let body := Command.simple assignments.reverse words.reverse
        some (if redirections.isEmpty then body
          else .redirected body redirections.reverse, text)
    match redirection? text with
    | some ((stream, direction), rest) => do
      let (word, rest) ← pieces endsWord fuel rest
      simple fuel assignments words ((stream, direction, word) :: redirections) rest
    | none =>
      match text with
      | [] => finished
      | c :: _ =>
        if endsWord c then finished
        else
          match (if words.isEmpty then assignment? text else none) with
          | some (name, rest) => do
            let (word, rest) ← pieces endsWord fuel rest
            simple fuel ((name, word) :: assignments) words redirections rest
          | none => do
            let (word, rest) ← pieces endsWord fuel text
            simple fuel assignments (word :: words) redirections rest

end

def script? (text : Text) : Option Command :=
  match list (20 * (text.length + 1)) text with
  | some (c, rest) => if rest.isEmpty then some c else none
  | none => none

end LanguageClient.Shell.Reader

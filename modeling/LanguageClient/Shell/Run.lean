import LanguageClient.Shell.Pattern
import LanguageClient.Shell.Reader
import LanguageClient.Shell.Utility

/-!
# Running scripts

Words are expanded into fields, and commands are run one after the other. A script that runs
for too long without asking for input is given up.
-/

namespace LanguageClient.Shell

/-!
## Expansion
-/

inductive Chunk where
  /-- A text; what comes out of a variable or a command is open to
  splitting unless it is quoted. -/
  | text (chars : Text) (quoted splits : Bool)
  /-- The border between two arguments. -/
  | border
  deriving DecidableEq, Repr

namespace Chunk

def joined (chunks : List Chunk) : Text :=
  chunks.flatMap fun
    | .text chars _ _ => chars
    | .border => [' ']

def pattern (chunks : List Chunk) : List Atom :=
  let spans := chunks.map fun
    | .text chars true _ => (chars, true)
    | .text chars false _ => (chars, false)
    | .border => ([' '], true)
  atoms spans
where
  /-- Neighbours that are not quoted are read together. -/
  atoms : List (Text × Bool) → List Atom
    | [] => []
    | (chars, true) :: rest => chars.map .char ++ atoms rest
    | (chars, false) :: (more, false) :: rest => atoms ((chars ++ more, false) :: rest)
    | (chars, false) :: rest => Atom.ofText chars ++ atoms rest
  termination_by spans => spans.length

def isSoft (c : Char) : Bool := c = ' ' || c = '\t' || c = '\n'

/-- Splits a value: the field that has been begun, and the fields that are complete, the
last one first. Several soft separators count as one, and so do they around a hard one.
`closed` tells that the last field was ended by soft separators alone. -/
def split (separators : Text) (closed : Bool) (field : Option Text) (fields : List Text) :
    Text → Option Text × List Text
  | [] => (field, fields)
  | c :: rest =>
    if !separators.contains c then
      split separators false (some (field.getD [] ++ [c])) fields rest
    else if isSoft c then
      split separators (closed || field.isSome) none (field.toList ++ fields) rest
    else if closed then split separators false none fields rest
    else split separators false none (field.getD [] :: fields) rest

def fieldsFrom (separators : Text) (field : Option Text) (fields : List Text) :
    List Chunk → List Text
  | [] => (field.toList ++ fields).reverse
  | .text chars quoted splits :: rest =>
    if splits && !quoted then
      let (field, fields) := split separators false field fields chars
      fieldsFrom separators field fields rest
    else if chars.isEmpty && !quoted then fieldsFrom separators field fields rest
    else fieldsFrom separators (some (field.getD [] ++ chars)) fields rest
  | .border :: rest => fieldsFrom separators none (field.toList ++ fields) rest

def fields (separators : Text) (chunks : List Chunk) : List Text :=
  fieldsFrom separators none [] chunks

end Chunk

def lookUp (name : Text) : Act (Option Text) := do
  let m ← get
  match name with
  | ['?'] => return some (toString m.status).toList
  | ['#'] => return some (toString m.arguments.length).toList
  | ['$'] => return some "4242".toList
  | ['0'] => return some m.name
  | ['*'] | ['@'] => return some ((m.arguments.intersperse [' ']).flatten)
  | ['!'] | ['-'] => return some []
  | [c] =>
    if c.isDigit then return m.arguments[c.toNat - '1'.toNat]? else return m.bindings.get? name
  | _ => return m.bindings.get? name

def withoutLastLines (text : Text) : Text :=
  (text.reverse.dropWhile (· = '\n')).reverse

def allArguments (quoted : Bool) : Act (List Chunk) := do
  let arguments := (← get).arguments
  return (arguments.map fun a => Chunk.text a quoted true).intersperse .border

def redirect (stream : Nat) (direction : Direction) (target : Text) : Act Unit := do
  let m ← get
  let sink : Sink := match direction, target with
    | .copy, ['1'] => m.standardOut
    | .copy, ['2'] => m.standardErr
    | .copy, _ => .closed
    | _, _ => .nowhere
  if stream = 1 then set { m with standardOut := sink }
  else if stream = 2 then set { m with standardErr := sink }

/-!
## Commands
-/

mutual

def expand : (fuel : Nat) → List Piece → Act (List Chunk)
  | 0, _ => throw .lost
  | _ + 1, [] => return []
  | fuel + 1, piece :: rest => do
    let chunks ← expandPiece fuel piece
    return chunks ++ (← expand fuel rest)

def expandPiece : (fuel : Nat) → Piece → Act (List Chunk)
  | 0, _ => throw .lost
  | _ + 1, .text chars quoted => return [.text chars quoted false]
  | fuel + 1, .output body quoted => do
    let text ← Act.collect (Act.apart (run fuel body))
    return [.text (withoutLastLines text) quoted true]
  | fuel + 1, .number expression quoted => do
    let text := Chunk.joined (← expand fuel expression)
    let m ← get
    let values (name : Text) : Int := ((m.bindings.get? name).bind Arithmetic.integer?).getD 0
    match Arithmetic.value? values text with
    | some n => return [.text (toString n).toList quoted true]
    | none => throw (.exit 2)
  | fuel + 1, .value name use quoted => do
    let value? ← lookUp name
    let value := value?.getD []
    let missing (evenEmpty : Bool) : Bool := value?.isNone || (evenEmpty && value.isEmpty)
    let kept : List Chunk := [.text value quoted true]
    match use with
    | .whole => if name = ['@'] then allArguments quoted else return kept
    | .size => return [.text (toString value.length).toList quoted true]
    | .without cut pattern =>
      let atoms := Chunk.pattern (← expand fuel pattern)
      return [.text (Atom.cut cut.fromEnd cut.longest atoms value) quoted true]
    | .fallback evenEmpty word => if missing evenEmpty then expand fuel word else return kept
    | .settle evenEmpty word =>
      if missing evenEmpty then
        let text := Chunk.joined (← expand fuel word)
        Act.setValue name text
        return [.text text quoted true]
      else return kept
    | .instead evenEmpty word => if missing evenEmpty then return [] else expand fuel word

def expandAll : (fuel : Nat) → List (List Piece) → Act (List Text)
  | 0, _ => throw .lost
  | _ + 1, [] => return []
  | fuel + 1, word :: rest => do
    let fields := Chunk.fields (← Act.separators) (← expand fuel word)
    return fields ++ (← expandAll fuel rest)

def assignAll : (fuel : Nat) → List (Text × List Piece) → Act Unit
  | 0, _ => throw .lost
  | _ + 1, [] => return ()
  | fuel + 1, (name, word) :: rest => do
    Act.setValue name (Chunk.joined (← expand fuel word))
    assignAll fuel rest

def redirectAll : (fuel : Nat) → List (Nat × Direction × List Piece) → Act Unit
  | 0, _ => throw .lost
  | _ + 1, [] => return ()
  | fuel + 1, (stream, direction, word) :: rest => do
    redirect stream direction (Chunk.joined (← expand fuel word))
    redirectAll fuel rest

def run : (fuel : Nat) → Command → Act Unit
  | 0, _ => throw .lost
  | _ + 1, .nothing => Act.setStatus 0
  | fuel + 1, .sequence first second => do
    run fuel first
    match second with
    | .nothing => return ()
    | second => run fuel second
  | fuel + 1, .both first second => do
    run fuel first
    if (← get).status = 0 then run fuel second
  | fuel + 1, .either first second => do
    run fuel first
    if (← get).status ≠ 0 then run fuel second
  | fuel + 1, .not body => do
    run fuel body
    Act.answer ((← get).status ≠ 0)
  | fuel + 1, .pipe first second => do
    let text ← Act.collect (Act.apart (run fuel first))
    Act.withInput text (Act.apart (run fuel second))
  | fuel + 1, .subshell body => Act.apart (run fuel body)
  | fuel + 1, .branch condition yes no => do
    run fuel condition
    if (← get).status = 0 then run fuel yes else run fuel no
  | fuel + 1, .loop wanted condition body => runLoop fuel wanted condition body 0
  | fuel + 1, .each name words body => do
    let values ← match words with
      | some words => expandAll fuel words
      | none => do pure (← get).arguments
    Act.setStatus 0
    runEach fuel name values body
  | fuel + 1, .select subject clauses => do
    runClauses fuel (Chunk.joined (← expand fuel subject)) clauses
  | _ + 1, .define name body => do
    modify fun m => { m with functions := m.functions.insert name body }
    Act.setStatus 0
  | fuel + 1, .simple assignments words => do
    match ← expandAll fuel words with
    | [] =>
      unless assignments.any fun (_, word) => word.any Piece.isOutput do Act.setStatus 0
      assignAll fuel assignments
    | name :: arguments =>
      Act.keeping (assignments.map (·.1)) do
        assignAll fuel assignments
        call fuel name arguments
  | fuel + 1, .redirected body redirections => do
    let before ← get
    if body.changesStreams then
      redirectAll fuel redirections
      modify fun m =>
        { m with
            outputClosed :=
              m.outputClosed || (before.standardOut = .out && m.standardOut ≠ .out)
            status := 0 }
    else
      let redirected : Act Unit := do
        redirectAll fuel redirections
        if redirections.any fun (stream, _, _) => stream = 0 then
          Act.withInput [] (run fuel body)
        else run fuel body
      Act.always redirected <| modify fun m =>
        { m with standardOut := before.standardOut, standardErr := before.standardErr }

def runLoop : (fuel : Nat) → Bool → Command → Command → (status : Nat) → Act Unit
  | 0, _, _, _, _ => throw .lost
  | fuel + 1, wanted, condition, body, status => do
    let round : Act Bool := do
      run fuel condition
      if ((← get).status = 0) = wanted then
        run fuel body
        return true
      else
        Act.setStatus status
        return false
    let goesOn ← tryCatch round fun
      | .breakLoop 1 => do
        Act.setStatus 0
        return false
      | .breakLoop n => throw (.breakLoop (n - 1))
      | .continueLoop 1 => return true
      | .continueLoop n => throw (.continueLoop (n - 1))
      | e => throw e
    if goesOn then runLoop fuel wanted condition body (← get).status

def runEach : (fuel : Nat) → Text → List Text → Command → Act Unit
  | 0, _, _, _ => throw .lost
  | _ + 1, _, [], _ => return ()
  | fuel + 1, name, value :: rest, body => do
    Act.setValue name value
    let goesOn ← tryCatch (do run fuel body; return true) fun
      | .breakLoop 1 => return false
      | .breakLoop n => throw (.breakLoop (n - 1))
      | .continueLoop 1 => return true
      | .continueLoop n => throw (.continueLoop (n - 1))
      | e => throw e
    if goesOn then runEach fuel name rest body

def runClauses : (fuel : Nat) → Text → List (List (List Piece) × Command) → Act Unit
  | 0, _, _ => throw .lost
  | _ + 1, _, [] => Act.setStatus 0
  | fuel + 1, subject, (patterns, body) :: rest => do
    if ← fitsAny fuel subject patterns then run fuel body else runClauses fuel subject rest

def fitsAny : (fuel : Nat) → Text → List (List Piece) → Act Bool
  | 0, _, _ => throw .lost
  | _ + 1, _, [] => return false
  | fuel + 1, subject, word :: rest => do
    if Atom.fits (Chunk.pattern (← expand fuel word)) subject then return true
    else fitsAny fuel subject rest

def call : (fuel : Nat) → Text → List Text → Act Unit
  | 0, _, _ => throw .lost
  | fuel + 1, name, arguments => do
    let m ← get
    match m.functions.get? name with
    | some body =>
      set { m with arguments }
      Act.always
        (tryCatch (run fuel body) fun
          | .returnFrom => return ()
          | e => throw e)
        (modify fun now => { now with arguments := m.arguments })
    | none =>
      let word := String.ofList name
      match word, arguments with
      | "exec", next :: rest =>
        call fuel next rest
        throw (.exit (← get).status)
      | "command", next :: rest => call fuel next rest
      | "eval", words =>
        match Reader.script? ((words.intersperse [' ']).flatten) with
        | some body => run fuel body
        | none => throw (.exit 2)
      | word, arguments =>
        match control? word arguments <|> program? word arguments with
        | some body => body
        | none => Act.setStatus 127

end

end LanguageClient.Shell

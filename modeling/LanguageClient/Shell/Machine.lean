import LanguageClient.Document.Table
import LanguageClient.Shell.Basic

/-!
# Running scripts: state and effects

A script runs for as long as the input it has been given lasts. When it asks for
more, it stops there; it is run again from its beginning once more input has come,
and does the same again up to that point. So a script is a function of its input, and
never has to be suspended.
-/

namespace LanguageClient.Shell

inductive Sink where
  /-- The output of the whole script. -/
  | out
  /-- The value of a command substitution, or the next command of a pipeline. -/
  | collected
  | nowhere
  | closed
  deriving DecidableEq, Repr

structure Machine where
  /-- The input that has not been taken yet. -/
  input : Text
  /-- Whether no more input will come. -/
  inputEnds : Bool
  /-- What has been printed, the last piece first. -/
  printed : List Text
  collected : List Text
  standardOut : Sink
  standardErr : Sink
  /-- Whether the script has closed its output for good. -/
  outputClosed : Bool
  bindings : Table Text Text
  functions : Table Text Command
  name : Text
  arguments : List Text
  status : Nat
  /-- Whether being asked to go has no effect. -/
  deaf : Bool
  /-- How long the script has been running, in milliseconds. -/
  age : Nat
  /-- How much of that time it has slept. -/
  slept : Nat

inductive Leave where
  | exit (status : Nat)
  | breakLoop (levels : Nat)
  | continueLoop (levels : Nat)
  | returnFrom
  | killed
  /-- There is no more input yet. -/
  | starved
  /-- It sleeps up to this age. -/
  | asleep (age : Nat)
  /-- It was given up, having run for too long. -/
  | lost
  deriving DecidableEq, Repr

/-- What a command does. What it has done before it is left is kept. -/
abbrev Act := ExceptT Leave (StateM Machine)

namespace Act

def setStatus (status : Nat) : Act Unit :=
  modify fun m => { m with status }

def answer (holds : Bool) : Act Unit :=
  setStatus (if holds then 0 else 1)

def always (body : Act α) (after : Act Unit) : Act α := do
  let a ← tryCatch body fun e => do
    after
    throw e
  after
  return a

/-!
## Output
-/

def print (text : Text) : Act Unit :=
  modify fun m =>
    match m.standardOut with
    | .out => if m.outputClosed then m else { m with printed := text :: m.printed }
    | .collected => { m with collected := text :: m.collected }
    | .nowhere | .closed => m

def canPrint : Act Bool := do
  return (← get).standardOut ≠ .closed

def collect (body : Act Unit) : Act Text := do
  let before ← get
  set { before with standardOut := .collected, collected := [] }
  let restore : Act Unit :=
    modify fun m => { m with standardOut := before.standardOut, collected := before.collected }
  let text ← tryCatch
    (do
      body
      return (← get).collected.reverse.flatten)
    fun e => do
      restore
      throw e
  restore
  return text

/-!
## Input
-/

def take (n : Nat) : Act Text := do
  let m ← get
  if m.input.length < n && !m.inputEnds then throw .starved
  set { m with input := m.input.drop n }
  return m.input.take n

def takeLine : Act (Text × Bool) := do
  let m ← get
  let line := m.input.takeWhile (· ≠ '\n')
  match m.input.drop line.length with
  | _ :: rest =>
    set { m with input := rest }
    return (line, true)
  | [] =>
    if m.inputEnds then
      set { m with input := [] }
      return (line, false)
    else throw .starved

def copyAll : Act Unit := do
  let m ← get
  set { m with input := [] }
  print m.input
  if !m.inputEnds then throw .starved

def withInput (text : Text) (body : Act Unit) : Act Unit := do
  let before ← get
  set { before with input := text, inputEnds := true }
  always body (modify fun m => { m with input := before.input, inputEnds := before.inputEnds })

/-!
## Parts that run on their own
-/

/-- Runs something whose changes to the script's own state are forgotten, and out of which
only its status comes. -/
def apart (body : Act Unit) : Act Unit := do
  let before ← get
  let restore : Act Unit := modify fun m =>
    { m with
        bindings := before.bindings
        functions := before.functions
        arguments := before.arguments
        standardOut := before.standardOut
        standardErr := before.standardErr
        outputClosed := before.outputClosed
        deaf := before.deaf }
  always
    (tryCatch body fun
      | .exit status => setStatus status
      | .breakLoop _ | .continueLoop _ | .returnFrom => pure ()
      | e => throw e)
    restore

def sleep (ms : Nat) : Act Unit := do
  let m ← get
  if m.slept + ms ≤ m.age then set { m with slept := m.slept + ms }
  else throw (.asleep (m.slept + ms))

/-!
## Variables
-/

def value? (name : Text) : Act (Option Text) := do
  return (← get).bindings.get? name

def setValue (name value : Text) : Act Unit :=
  modify fun m => { m with bindings := m.bindings.insert name value }

def separators : Act Text := do
  return (← value? "IFS".toList).getD [' ', '\t', '\n']

def keeping (names : List Text) (body : Act Unit) : Act Unit := do
  let before := (← get).bindings
  let restored (bindings : Table Text Text) : Table Text Text :=
    names.foldl
      (fun bindings name => match before.get? name with
        | some value => bindings.insert name value
        | none => bindings.erase name)
      bindings
  always body (modify fun m => { m with bindings := restored m.bindings })

end Act
end LanguageClient.Shell

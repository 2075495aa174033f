import LanguageClient.Config.Settings
import LanguageClient.Failure
import LanguageClient.Shell.Run
import LanguageClient.Text.Lines

/-!
# Programs

The computer on which a rehearsal takes place has a few directories, a few files and the
programs that the shell knows. A command names a program on it, or cannot be launched.
-/

namespace LanguageClient

structure Program where
  body : Shell.Command
  /-- The name under which it runs, and its arguments. -/
  name : Text
  arguments : List Text
  bindings : Table Text Text

inductive InstalledFile where
  | program (name : String)
  /-- Nothing that can be run. -/
  | other
  deriving DecidableEq, Repr

namespace Installation

def directories : List String :=
  ["/", "/bin", "/boot", "/dev", "/etc", "/home", "/lib", "/media", "/mnt", "/opt", "/proc",
    "/root", "/run", "/sbin", "/srv", "/sys", "/tmp", "/usr", "/usr/bin", "/usr/lib",
    "/usr/local", "/usr/local/bin", "/usr/sbin", "/usr/share", "/var", "/var/log", "/var/tmp"]

def plainFiles : List String :=
  ["/dev/null", "/dev/zero", "/etc/group", "/etc/hostname", "/etc/hosts", "/etc/os-release",
   "/etc/passwd", "/etc/resolv.conf", "/etc/shadow"]

def programDirectories : List String := ["/bin", "/usr/bin"]

def usualPath : String :=
  "/usr/local/sbin:/usr/local/bin:/usr/sbin:/usr/bin:/sbin:/bin"

def programPaths : List (String × String) :=
  programDirectories.flatMap fun d => Shell.programFiles.map fun name =>
    (d ++ "/" ++ name, name)

def fileAt? (p : Path) : Option InstalledFile :=
  let text := String.ofList p.display
  match programPaths.find? (·.1 = text) with
  | some (_, name) => some (.program name)
  | none => if directories.contains text || plainFiles.contains text then some .other else none

def choose (refused : Bool) : List (Option InstalledFile) → Except LaunchFailure String
  | [] => .error (if refused then .permissionDenied else .notFound)
  | some (.program name) :: _ => .ok name
  | some .other :: rest => choose true rest
  | none :: rest => choose refused rest

end Installation

namespace Program

def environment (s : Settings) : List (String × String) :=
  ("PATH", Installation.usualPath) :: s.env

def candidates (s : Settings) : List Path :=
  let command := s.command.toList
  if command.contains '/' then [(s.cwd.join (Path.ofText command)).normalize]
  else
    let path := ((environment s).reverse.find? (·.1 = "PATH")).map (·.2)
    (Lines.splitAt ':' (path.getD "").toList).map fun directory =>
      ((s.cwd.join (Path.ofText directory)).join (Path.ofText command)).normalize

def hasZero (text : String) : Bool :=
  text.toList.contains '\x00'

def ofShell (name : Text) : List Text → Shell.Command × Text × List Text
  | ('-' :: options) :: script :: rest =>
    if options.contains 'c' then
      let body := (Shell.Reader.script? script).getD (.ofWords ["exit".toList, ['2']])
      match rest with
      | name :: arguments => (body, name, arguments)
      | [] => (body, name, [])
    else ofShell name (script :: rest)
  | _ => (.ofWords ["exit".toList, ['2']], name, [])

def find (s : Settings) : Except LaunchFailure Program := do
  let texts := s.command :: s.args ++ s.env.flatMap fun (k, v) => [k, v]
  if texts.any hasZero || s.cwd.bytes.contains 0 then throw .zeroByte
  unless Installation.directories.contains (String.ofList s.cwd.normalize.display) do
    throw .notFound
  let found ← Installation.choose false ((candidates s).map Installation.fileAt?)
  let given := Shell.encoded s.command.toList
  let arguments := s.args.map fun a => Shell.encoded a.toList
  let (body, name, arguments) :=
    if found = "sh" || found = "dash" then ofShell given arguments
    else (.ofWords (Shell.encoded found.toList :: arguments), given, [])
  let bindings := ("PWD".toList, Shell.glyphs s.cwd.normalize.bytes) ::
    (environment s).map fun (k, v) => (Shell.encoded k.toList, Shell.encoded v.toList)
  return ⟨body, name, arguments, bindings.foldl (fun t (k, v) => t.insert k v) .empty⟩

/-!
## What a program does
-/

inductive Fate where
  | waiting
  | sleeping (age : Nat)
  | exited (status : Nat)
  | killed
  deriving DecidableEq, Repr

structure Conduct where
  printed : Bytes
  outputClosed : Bool
  deaf : Bool
  fate : Fate
  deriving Repr

def patience : Nat := 10000

def launch (p : Program) (input : Bytes) (age : Nat) : Shell.Machine where
  input := Shell.glyphs input
  inputEnds := false
  printed := []
  collected := []
  standardOut := .out
  standardErr := .nowhere
  outputClosed := false
  bindings := p.bindings
  functions := .empty
  name := p.name
  arguments := p.arguments
  status := 0
  deaf := false
  age
  slept := 0

def conduct (p : Program) (input : Bytes) (age : Nat) : Conduct :=
  let (result, m) := ((Shell.run patience p.body).run).run (p.launch input age)
  let fate : Fate := match result with
    | .ok () | .error (.breakLoop _) | .error (.continueLoop _) | .error .returnFrom =>
      .exited m.status
    | .error (.exit status) => .exited status
    | .error .killed => .killed
    | .error .starved | .error .lost => .waiting
    | .error (.asleep age) => .sleeping age
  ⟨Shell.bytesOf m.printed.reverse.flatten, m.outputClosed, m.deaf, fate⟩

end Program
end LanguageClient

import LanguageClient.Failure
import LanguageClient.Workspace.Root

/-!
# Workspaces

A workspace is a root directory on some disk, with a journal of the changes made through the
client. What a disk does is given by a few operations, so the same rules hold for a real
directory and for files in memory.
-/

namespace LanguageClient

structure FileSnapshot where
  present : Bool
  content : Option Text
  deriving DecidableEq, Repr, Inhabited

namespace FileSnapshot

def missing : FileSnapshot := ⟨false, none⟩

def of (content : Text) : FileSnapshot := ⟨true, some content⟩

def text? (s : FileSnapshot) : Option Text :=
  if s.present then s.content else none

end FileSnapshot

structure FileStat where
  size : Nat
  isFile : Bool
  deriving DecidableEq, Repr

/-- What a disk can be asked. An operation that fails leaves the disk as it was. -/
class FileSystem (D : Type) where
  /-- What stands at a path; nothing if nothing does. -/
  stat : D → Path → Except FileFailure (Option FileStat)
  read : D → Path → Except FileFailure FileSnapshot
  write : D → Path → Text → Except FileFailure D
  /-- Why a change of the file may not be recorded, if so. -/
  recordFault : D → Path → Option FileFailure

/-!
## The journal
-/

structure EditContext where
  tool : String
  userMessageId : Option String
  sessionId : Option String
  deriving DecidableEq, Repr, Inhabited

inductive ChangeMode where
  | create
  | modify
  deriving DecidableEq, Repr

def ChangeMode.name : ChangeMode → String
  | .create => "create"
  | .modify => "modify"

structure FileChange where
  shown : Text
  path : Path
  before : FileSnapshot
  after : FileSnapshot
  mode : ChangeMode
  editCount : Nat
  context : EditContext
  deriving DecidableEq, Repr

structure Workspace (D : Type) where
  root : Path
  disk : D
  /-- The changes recorded so far, the oldest first. -/
  journal : List FileChange

namespace Workspace

variable {D : Type}

def new (root : Path) (disk : D) : Workspace D :=
  ⟨root.normalize, disk, []⟩

def locate (w : Workspace D) (name : Text) : Except Failure Path :=
  match Root.resolve w.root name with
  | .ok p => .ok p
  | .error p => .error (.outsideWorkspace p)

def relative (w : Workspace D) (p : Path) : Text :=
  Root.relative w.root p

variable [FileSystem D]

def stat (w : Workspace D) (p : Path) : Except Failure (Option FileStat) :=
  (FileSystem.stat w.disk p).mapError .file

def read (w : Workspace D) (p : Path) : Except Failure FileSnapshot :=
  (FileSystem.read w.disk p).mapError .file

def write (w : Workspace D) (p : Path) (content : Text) : Except Failure (Workspace D) :=
  match FileSystem.write w.disk p content with
  | .ok disk => .ok { w with disk }
  | .error e => .error (.file e)

def record (w : Workspace D) (change : FileChange) : Except Failure (Workspace D) :=
  match FileSystem.recordFault w.disk change.path with
  | some e => .error (.file e)
  | none => .ok { w with journal := w.journal ++ [change] }

end Workspace
end LanguageClient

import LanguageClient.Document.Table
import LanguageClient.Workspace.Basic

/-!
# Files in memory

A disk that holds a file or a directory under each path, without directories that nobody
made, and on which single operations can be made to fail.
-/

namespace LanguageClient

inductive MemoryEntry where
  | file (content : Text)
  | directory
  deriving DecidableEq, Repr

inductive FaultPoint where
  | stat
  | read
  | write
  | record
  deriving DecidableEq, Repr

inductive Fault where
  | fails (reason : FileFailure)
  /-- Reading finds nothing. -/
  | vanished
  /-- Reading finds a text in a file that is not there. -/
  | ghost
  deriving DecidableEq, Repr

structure Memory where
  entries : Table (List Path.Component) MemoryEntry
  faults : Table (FaultPoint × List Path.Component) Fault

namespace Memory

def empty : Memory := ⟨.empty, .empty⟩

def get? (m : Memory) (p : Path) : Option MemoryEntry :=
  m.entries.get? p.components

def set (m : Memory) (p : Path) : Option MemoryEntry → Memory
  | some entry => { m with entries := m.entries.insert p.components entry }
  | none => { m with entries := m.entries.erase p.components }

def setFault (m : Memory) (point : FaultPoint) (p : Path) : Option Fault → Memory
  | some fault => { m with faults := m.faults.insert (point, p.components) fault }
  | none => { m with faults := m.faults.erase (point, p.components) }

def fault? (m : Memory) (point : FaultPoint) (p : Path) : Option Fault :=
  m.faults.get? (point, p.components)

def failure? (m : Memory) (point : FaultPoint) (p : Path) : Option FileFailure :=
  match m.fault? point p with
  | some (.fails reason) => some reason
  | _ => none

def stat (m : Memory) (p : Path) : Except FileFailure (Option FileStat) :=
  match m.failure? .stat p with
  | some e => .error e
  | none =>
    .ok <| (m.get? p).map fun
      | .file content => ⟨Utf8.size content, true⟩
      | .directory => ⟨0, false⟩

def read (m : Memory) (p : Path) : Except FileFailure FileSnapshot :=
  match m.fault? .read p with
  | some (.fails e) => .error e
  | some .vanished => .ok .missing
  | some .ghost => .ok ⟨false, some "ghost".toList⟩
  | none =>
    match m.get? p with
    | some (.file content) => .ok (.of content)
    | some .directory => .error .isADirectory
    | none => .ok .missing

def write (m : Memory) (p : Path) (content : Text) : Except FileFailure Memory :=
  match m.failure? .write p with
  | some e => .error e
  | none => .ok (m.set p (some (.file content)))

instance : FileSystem Memory where
  stat := stat
  read := read
  write := write
  recordFault m p := m.failure? .record p

end Memory
end LanguageClient

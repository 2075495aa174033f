import LanguageClient.Message.WorkspaceEdit
import LanguageClient.Text.LineEnding
import LanguageClient.Uri.File
import LanguageClient.Workspace.Basic

/-!
# Editing files

Edits to a file are applied in stages: take a snapshot and compute the new text, write
it in the line ending the file had, read it back, and record the change. Other work
may come between two stages. The edits see line feeds alone. Edits that leave the text
as it was write nothing.
-/

namespace LanguageClient

structure FileEditResult where
  shown : Text
  path : Path
  editCount : Nat
  changed : Bool
  /-- The version that the server was told about, if it has the file open. -/
  syncedVersion : Option Nat
  deriving DecidableEq, Repr

structure WorkspaceEditResult where
  files : List FileEditResult
  deriving DecidableEq, Repr

namespace WorkspaceEditResult

def filesChanged (r : WorkspaceEditResult) : Nat :=
  r.files.countP (·.changed)

def totalEdits (r : WorkspaceEditResult) : Nat :=
  (r.files.map (·.editCount)).foldr (· + ·) 0

end WorkspaceEditResult

structure EditTarget where
  name : Text
  edits : List TextEdit
  context : EditContext
  deriving DecidableEq, Repr

structure EditPlan where
  shown : Text
  path : Path
  before : FileSnapshot
  content : Text
  editCount : Nat
  context : EditContext
  deriving DecidableEq, Repr

namespace EditPlan

def result (plan : EditPlan) (changed : Bool) : FileEditResult :=
  ⟨plan.shown, plan.path, plan.editCount, changed, none⟩

def change (plan : EditPlan) (after : FileSnapshot) : FileChange :=
  ⟨plan.shown, plan.path, plan.before, after, .modify, plan.editCount, plan.context⟩

end EditPlan

inductive EditStage where
  | snapshot (target : EditTarget)
  | write (plan : EditPlan)
  | reread (plan : EditPlan)
  | record (plan : EditPlan) (after : FileSnapshot)
  deriving DecidableEq, Repr

inductive EditProgress (D : Type) where
  | next (w : Workspace D) (stage : EditStage)
  | finished (w : Workspace D) (result : FileEditResult)
  | failed (e : Failure)

namespace Workspace

variable {D : Type} [FileSystem D]

def edited (content : Text) (edits : List TextEdit) : Except Failure (Text × Bool) :=
  let (text, ending) := LineEnding.normalize content
  match TextEdit.applyAll text edits with
  | .error e => .error (.invalidRange e.start e.stop)
  | .ok out => .ok (ending.apply out.text, out.changed)

def editStep (w : Workspace D) : EditStage → EditProgress D
  | .snapshot target =>
    match w.locate target.name with
    | .error e => .failed e
    | .ok path =>
      match w.read path with
      | .error e => .failed e
      | .ok before =>
        match before.text? with
        | none => .failed (.fileNotFound path)
        | some content =>
          match edited content target.edits with
          | .error e => .failed e
          | .ok (content, changed) =>
            let plan : EditPlan :=
              ⟨w.relative path, path, before, content, target.edits.length, target.context⟩
            if changed then .next w (.write plan) else .finished w (plan.result false)
  | .write plan =>
    match w.write plan.path plan.content with
    | .error e => .failed e
    | .ok w => .next w (.reread plan)
  | .reread plan =>
    match w.read plan.path with
    | .error e => .failed e
    | .ok after => .next w (.record plan after)
  | .record plan after =>
    match w.record (plan.change after) with
    | .error e => .failed e
    | .ok w => .finished w (plan.result true)

def stagesLeft : EditStage → Nat
  | .snapshot _ => 4
  | .write _ => 3
  | .reread _ => 2
  | .record .. => 1

theorem editStep_advances {w w' : Workspace D} {stage stage' : EditStage}
    (h : w.editStep stage = .next w' stage') : stagesLeft stage' < stagesLeft stage := by
  unfold editStep at h
  split at h
  all_goals
    repeat' split at h
    all_goals first
      | contradiction
      | (obtain ⟨_, rfl⟩ := EditProgress.next.inj h; simp [stagesLeft])

def runEdit (w : Workspace D) (stage : EditStage) :
    Workspace D × Except Failure FileEditResult :=
  match _h : w.editStep stage with
  | .next w stage => runEdit w stage
  | .finished w result => (w, .ok result)
  | .failed e => (w, .error e)
termination_by stagesLeft stage
decreasing_by exact editStep_advances _h

/-- Files one after the other, up to the first that fails. -/
def runEdits (w : Workspace D) :
    List EditTarget → Workspace D × Except Failure (List FileEditResult)
  | [] => (w, .ok [])
  | target :: rest =>
    match w.runEdit (.snapshot target) with
    | (w, .error e) => (w, .error e)
    | (w, .ok result) =>
      match runEdits w rest with
      | (w, .error e) => (w, .error e)
      | (w, .ok results) => (w, .ok (result :: results))

end Workspace

/-!
## What a workspace edit asks for
-/

namespace WorkspaceEdit

def paths? : List (String × List TextEdit) → Except Failure (List (Path × List TextEdit))
  | [] => .ok []
  | (uri, edits) :: rest =>
    match FileUri.toPath? uri.toList with
    | none => .error (.unsupportedEdit ("not a file URI: " ++ uri))
    | some p => do return (p, edits) :: (← paths? rest)

/-- The files to edit, in the order of their paths. Versioned changes are refused. -/
def targets (e : WorkspaceEdit) (context : EditContext) : Except Failure (List EditTarget) :=
  if e.documentChanges.isSome then
    .error (.unsupportedEdit
      "documentChanges is not supported; send a flat \x60changes\x60 map")
  else
    match e.changes with
    | none => .ok []
    | some changes => do
      let paths ← paths? changes
      return (paths.mergeSort fun a b => Path.le a.1 b.1).map fun (p, edits) =>
        ⟨p.display, edits, context⟩

end WorkspaceEdit
end LanguageClient

import LanguageClient.Workspace.Edits
import LanguageClient.Workspace.Memory
import Mathlib

/-!
# Files that are written again

What edits make of a file is computed from a snapshot of it, and a later stage hands the new
text to the disk. A rewriting is a pair of such stages. Other work may come between them, so
they may meet two workspaces, and the text that is written depends on the first one only.
-/

namespace LanguageClient

/-- The edits of a target computed in one workspace, and what comes of
them written in another. -/
structure Rewriting (D : Type) [FileSystem D] where
  target : EditTarget
  plan : EditPlan
  found : Workspace D
  met : Workspace D
  left : Workspace D
  planned : found.editStep (.snapshot target) = .next found (.write plan)
  written : met.editStep (.write plan) = .next left (.reread plan)

namespace Rewriting

variable {D : Type} [FileSystem D]

def before (r : Rewriting D) : Text :=
  r.plan.before.text?.getD []

def after (r : Rewriting D) : Text :=
  r.plan.content

end Rewriting

namespace Workspace

variable {D : Type} [FileSystem D]

theorem edited_eq_ok {content text : Text} {edits : List TextEdit} {changed : Bool}
    (h : edited content edits = .ok (text, changed)) :
    exists out, TextEdit.applyAll (LineEnding.normalize content).1 edits = .ok out ∧
      out.changed = changed ∧ text = (LineEnding.detect content).apply out.text := by
  have hending : (LineEnding.normalize content).2 = LineEnding.detect content := by
    unfold LineEnding.normalize
    cases LineEnding.detect content <;> rfl
  simp only [edited] at h
  split at h
  case h_1 => contradiction
  case h_2 out hout =>
    rcases Prod.mk.inj (Except.ok.inj h) with ⟨rfl, rfl⟩
    exact ⟨out, hout, rfl, by rw [hending]⟩

theorem editStep_snapshot_next {w w' : Workspace D} {target : EditTarget} {stage : EditStage}
    (h : w.editStep (.snapshot target) = .next w' stage) :
    exists path before content text, w.locate target.name = .ok path ∧
      w.read path = .ok before ∧
      before.text? = some content ∧ edited content target.edits = .ok (text, true) ∧ w' = w ∧
      stage =
        .write ⟨w.relative path, path, before, text, target.edits.length, target.context⟩ := by
  simp only [editStep] at h
  split at h
  case h_1 => contradiction
  case h_2 path hlocate =>
    split at h
    case h_1 => contradiction
    case h_2 before hread =>
      split at h
      case h_1 => contradiction
      case h_2 content htext =>
        split at h
        case h_1 => contradiction
        case h_2 text changed hedited =>
          cases changed with
          | false => contradiction
          | true =>
              rcases EditProgress.next.inj h with ⟨rfl, rfl⟩
              exact ⟨path, before, content, text, hlocate, hread, htext, hedited, rfl, rfl⟩

theorem write_eq_ok {w w' : Workspace D} {p : Path} {content : Text}
    (h : w.write p content = .ok w') :
    exists disk, FileSystem.write w.disk p content = .ok disk ∧ w' = { w with disk } := by
  unfold write at h
  split at h
  case h_1 disk hdisk => exact ⟨disk, hdisk, (Except.ok.inj h).symm⟩
  case h_2 => contradiction

theorem editStep_write_next {w w' : Workspace D} {plan : EditPlan} {stage : EditStage}
    (h : w.editStep (.write plan) = .next w' stage) :
    w.write plan.path plan.content = .ok w' ∧ stage = .reread plan := by
  simp only [editStep] at h
  split at h
  case h_1 => contradiction
  case h_2 w' hwrite =>
    rcases EditProgress.next.inj h with ⟨rfl, rfl⟩
    exact ⟨hwrite, rfl⟩

theorem editStep_reread_next {w w' : Workspace D} {plan : EditPlan} {stage : EditStage}
    (h : w.editStep (.reread plan) = .next w' stage) :
    w' = w ∧ exists after, stage = .record plan after := by
  simp only [editStep] at h
  split at h
  · contradiction
  · rcases EditProgress.next.inj h with ⟨rfl, rfl⟩
    exact ⟨rfl, _, rfl⟩

theorem not_editStep_record_next {w w' : Workspace D} {plan : EditPlan} {after : FileSnapshot}
    {stage : EditStage} : w.editStep (.record plan after) ≠ .next w' stage := by
  intro h
  have hless := editStep_advances h
  cases stage <;> simp [stagesLeft] at hless

end Workspace

namespace Rewriting

variable {D : Type} [FileSystem D]

theorem exists_outcome (r : Rewriting D) :
    exists out, TextEdit.applyAll (LineEnding.normalize r.before).1 r.target.edits = .ok out ∧
      r.after = (LineEnding.detect r.before).apply out.text := by
  obtain ⟨path, before, content, text, -, -, htext, hedited, -, hplan⟩ :=
    Workspace.editStep_snapshot_next r.planned
  obtain ⟨out, hout, -, rfl⟩ := Workspace.edited_eq_ok hedited
  have hbefore : r.before = content := by
    rw [Rewriting.before, EditStage.write.inj hplan, htext, Option.getD_some]
  refine ⟨out, ?_, ?_⟩
  · rw [hbefore, hout]
  · rw [hbefore, after, EditStage.write.inj hplan]

theorem reads (r : Rewriting D) :
    exists snapshot, FileSystem.read r.found.disk r.plan.path = .ok snapshot ∧
      snapshot.text? = some r.before := by
  obtain ⟨path, before, content, text, -, hread, htext, -, -, hplan⟩ :=
    Workspace.editStep_snapshot_next r.planned
  have hread' : FileSystem.read r.found.disk path = .ok before := by
    unfold Workspace.read at hread
    cases hdisk : FileSystem.read r.found.disk path with
    | error e =>
        rw [hdisk] at hread
        contradiction
    | ok snapshot =>
        rw [hdisk] at hread
        rw [Except.ok.inj hread]
  have hbefore : r.before = content := by
    rw [Rewriting.before, EditStage.write.inj hplan, htext, Option.getD_some]
  refine ⟨before, ?_, ?_⟩
  · rw [EditStage.write.inj hplan, hread']
  · rw [hbefore, htext]

theorem writes (r : Rewriting D) :
    FileSystem.write r.met.disk r.plan.path r.after = .ok r.left.disk := by
  obtain ⟨disk, hdisk, hleft⟩ :=
    Workspace.write_eq_ok (Workspace.editStep_write_next r.written).1
  rw [hleft]
  exact hdisk

end Rewriting

/-!
# Stages that finish
-/

namespace Workspace

variable {D : Type} [FileSystem D]

theorem editStep_finished_eq {w w' : Workspace D} {stage : EditStage} {result : FileEditResult}
    (h : w.editStep stage = .finished w' result) :
    exists journal, w' = { w with journal } := by
  unfold editStep at h
  cases stage with
  | snapshot target =>
      dsimp only at h
      repeat' split at h
      all_goals first
        | contradiction
        | exact ⟨w.journal, (EditProgress.finished.inj h).1.symm⟩
  | write plan =>
      dsimp only at h
      split at h <;> contradiction
  | reread plan =>
      dsimp only at h
      split at h <;> contradiction
  | record plan after =>
      simp only [record] at h
      cases hfault : FileSystem.recordFault w.disk (plan.change after).path with
      | some e =>
          rw [hfault] at h
          contradiction
      | none =>
          rw [hfault] at h
          exact ⟨_, (EditProgress.finished.inj h).1.symm⟩

theorem editStep_finished_disk {w w' : Workspace D} {stage : EditStage}
    {result : FileEditResult}
    (h : w.editStep stage = .finished w' result) : w'.disk = w.disk := by
  rcases editStep_finished_eq h with ⟨journal, rfl⟩
  rfl

/-!
# Files in memory
-/

def oneFile (content : Text) : Workspace Memory :=
  .new (.ofText "/w".toList)
    (Memory.empty.set (.ofText "/w/f".toList) (some (.file content)))

theorem locate_oneFile (content : Text) :
    (oneFile content).locate ['f'] = .ok (.ofText "/w/f".toList) := by
  cbv

theorem read_oneFile (content : Text) :
    (oneFile content).read (.ofText "/w/f".toList) = .ok (.of content) := by
  cbv

theorem write_oneFile (content text : Text) :
    (oneFile content).write (.ofText "/w/f".toList) text = .ok (oneFile text) := by
  cbv

end Workspace

namespace Rewriting

def inMemory (content : Text) (edits : List TextEdit) (text : Text)
    (h : Workspace.edited content edits = .ok (text, true)) : Rewriting Memory where
  target := ⟨['f'], edits, ⟨"edit", none, none⟩⟩
  plan := ⟨(Workspace.oneFile content).relative (.ofText "/w/f".toList), .ofText "/w/f".toList,
    .of content, text, edits.length, ⟨"edit", none, none⟩⟩
  found := Workspace.oneFile content
  met := Workspace.oneFile content
  left := Workspace.oneFile text
  planned := by
    have hcontent : (FileSnapshot.of content).text? = some content := rfl
    simp only [Workspace.editStep, Workspace.locate_oneFile, Workspace.read_oneFile,
      hcontent, h, if_true]
  written := by
    simp only [Workspace.editStep, Workspace.write_oneFile]

end Rewriting
end LanguageClient

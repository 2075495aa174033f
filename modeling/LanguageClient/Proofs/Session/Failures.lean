import LanguageClient.Proofs.Session.Connections
import LanguageClient.Session.Step

/-!
# Failures of the client's own making

Whatever goes wrong with names, files and edits, the failure never looks like an error that
a server has sent.
-/

namespace LanguageClient

def Failure.isOwn (e : Failure) : Prop :=
  carried? (.error e) = none

theorem error_of_bind {α β : Type} {x : Except Failure α} {f : α -> Except Failure β}
    {e : Failure}
    (h : x >>= f = .error e) : x = .error e ∨ exists a, x = .ok a ∧ f a = .error e := by
  cases x with
  | error e' => exact Or.inl (congrArg Except.error (Except.error.inj h))
  | ok a => exact Or.inr ⟨a, rfl, h⟩

theorem ok_of_bind {α β : Type} {x : Except Failure α} {f : α -> Except Failure β} {b : β}
    (h : x >>= f = .ok b) : exists a, x = .ok a ∧ f a = .ok b := by
  cases x with
  | error e => contradiction
  | ok a => exact ⟨a, rfl, h⟩

theorem isOwn_of_mapError {α : Type} {x : Except FileFailure α} {e : Failure}
    (h : x.mapError .file = .error e) : e.isOwn := by
  cases x with
  | error reason =>
      cases h
      rfl
  | ok a => contradiction

namespace Workspace

variable {D : Type}

theorem locate_isOwn {w : Workspace D} {name : Text} {e : Failure}
    (h : w.locate name = .error e) :
    e.isOwn := by
  unfold locate at h
  split at h
  · contradiction
  · rw [← Except.error.inj h]
    rfl

theorem edited_isOwn {content : Text} {edits : List TextEdit} {e : Failure}
    (h : edited content edits = .error e) : e.isOwn := by
  unfold edited at h
  split at h
  split at h
  · rw [← Except.error.inj h]
    rfl
  · contradiction

variable [FileSystem D]

theorem stat_isOwn {w : Workspace D} {p : Path} {e : Failure} (h : w.stat p = .error e) :
    e.isOwn :=
  isOwn_of_mapError h

theorem read_isOwn {w : Workspace D} {p : Path} {e : Failure} (h : w.read p = .error e) :
    e.isOwn :=
  isOwn_of_mapError h

theorem write_isOwn {w : Workspace D} {p : Path} {content : Text} {e : Failure}
    (h : w.write p content = .error e) : e.isOwn := by
  unfold write at h
  split at h
  · contradiction
  · rw [← Except.error.inj h]
    rfl

theorem record_isOwn {w : Workspace D} {change : FileChange} {e : Failure}
    (h : w.record change = .error e) : e.isOwn := by
  unfold record at h
  split at h
  · rw [← Except.error.inj h]
    rfl
  · contradiction

theorem editStep_isOwn {w : Workspace D} {stage : EditStage} {e : Failure}
    (h : w.editStep stage = .failed e) : e.isOwn := by
  cases stage with
  | snapshot target =>
      simp only [editStep] at h
      split at h
      case h_1 e' hlocate =>
        cases h
        exact locate_isOwn hlocate
      case h_2 path _ =>
        split at h
        case h_1 e' hread =>
          cases h
          exact read_isOwn hread
        case h_2 before _ =>
          split at h
          case h_1 =>
            cases h
            rfl
          case h_2 content _ =>
            split at h
            case h_1 e' hedited =>
              cases h
              exact edited_isOwn hedited
            case h_2 =>
              split at h <;> contradiction
  | write plan =>
      simp only [editStep] at h
      split at h
      case h_1 e' hwrite =>
        cases h
        exact write_isOwn hwrite
      case h_2 => contradiction
  | reread plan =>
      simp only [editStep] at h
      split at h
      case h_1 e' hread =>
        cases h
        exact read_isOwn hread
      case h_2 => contradiction
  | record plan after =>
      simp only [editStep] at h
      split at h
      case h_1 e' hrecord =>
        cases h
        exact record_isOwn hrecord
      case h_2 => contradiction

end Workspace

namespace WorkspaceEdit

theorem paths?_isOwn {changes : List (String × List TextEdit)} {e : Failure}
    (h : paths? changes = .error e) : e.isOwn := by
  induction changes with
  | nil => contradiction
  | cons change rest ih =>
      rcases change with ⟨uri, edits⟩
      simp only [paths?] at h
      split at h
      case h_1 =>
        cases h
        rfl
      case h_2 p _ =>
        rcases error_of_bind h with hrest | ⟨paths, _, h⟩
        · exact ih hrest
        · contradiction

theorem targets_isOwn {edit : WorkspaceEdit} {context : EditContext} {e : Failure}
    (h : edit.targets context = .error e) : e.isOwn := by
  unfold targets at h
  split at h
  case isTrue =>
    cases h
    rfl
  case isFalse =>
    split at h
    case h_1 => contradiction
    case h_2 changes _ =>
      rcases error_of_bind h with hpaths | ⟨paths, _, h⟩
      · exact paths?_isOwn hpaths
      · contradiction

end WorkspaceEdit

namespace Session

variable {D : Type}

variable [FileSystem D]

theorem readFile_isOwn {s : Session D} {name : Text} {e : Failure}
    (h : s.readFile name = .error e) : e.isOwn := by
  rcases error_of_bind h with hlocate | ⟨path, _, h⟩
  · exact Workspace.locate_isOwn hlocate
  rcases error_of_bind h with hstat | ⟨stat?, _, h⟩
  · exact Workspace.stat_isOwn hstat
  cases stat? with
  | none =>
      cases h
      rfl
  | some stat =>
      dsimp only at h
      split at h
      case isTrue =>
        cases h
        rfl
      case isFalse =>
        split at h
        case isTrue =>
          cases h
          rfl
        case isFalse =>
          rcases error_of_bind h with hread | ⟨snapshot, _, h⟩
          · exact Workspace.read_isOwn hread
          · split at h
            case h_1 =>
              cases h
              rfl
            case h_2 => contradiction

end Session
end LanguageClient

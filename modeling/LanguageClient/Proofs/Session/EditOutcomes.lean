import LanguageClient.Proofs.Session.EditCalls
import LanguageClient.Proofs.Session.Requests
import LanguageClient.Proofs.Workspace.EditRuns

/-!
# What comes of calls that edit files

Where a call that edits files stands says what it will make of a workspace, if it is left
alone with it: the rest of the stages of a file, then the files that remain. Every step of
the call keeps this prospect, and nothing else in the session touches it. So a call that was
left alone with the workspace has done what the edits of its files do one after the other,
without interruption.
-/

namespace LanguageClient

def Value.unsynced : Value -> Value
  | .file r => .file r.unsynced
  | .files r => .files ⟨r.files.map FileEditResult.unsynced⟩
  | v => v

namespace Workspace

variable {D : Type} [FileSystem D]

def onward (w : Workspace D) (job : EditJob) (result : FileEditResult) :
    Workspace D × Outcome :=
  match w.runEdits job.remaining with
  | (w, .error e) => (w, .error e)
  | (w, .ok results) =>
    (w, .ok (Value.unsynced (if job.whole then
      .files ⟨job.finished.reverse ++ result :: results⟩
      else .file (results.getLast?.getD result))))

/-- What a call will leave and answer, if it is left alone with the workspace. -/
def prospect? (w : Workspace D) : Task -> Option (Workspace D × Outcome)
  | .editing job stage =>
    match w.runEdit stage with
    | (w, .error e) => some (w, .error e)
    | (w, .ok result) => some (w.onward job result)
  | .done outcome => some (w, outcome.map Value.unsynced)
  | task => task.held?.map fun (job, result) => w.onward job result

theorem onward_congr (w : Workspace D) (job : EditJob) {result other : FileEditResult}
    (h : other.unsynced = result.unsynced) : w.onward job other = w.onward job result := by
  unfold onward
  split
  · rfl
  · rename_i w' results _
    have hlast :
        (results.getLast?.getD other).unsynced = (results.getLast?.getD result).unsynced := by
      cases results.getLast? with
      | none => exact h
      | some last => rfl
    cases job.whole with
    | true => simp [Value.unsynced, h]
    | false => simp [Value.unsynced, hlast]

theorem prospect?_continued (w : Workspace D) (job : EditJob) (result : FileEditResult) :
    w.prospect? (job.continued result) = some (w.onward job result) := by
  rcases job with ⟨remaining, finished, whole⟩
  cases remaining with
  | nil => cases whole <;> simp [EditJob.continued, prospect?, onward, runEdits, Except.map]
  | cons target rest =>
      simp only [EditJob.continued, prospect?, onward, runEdits]
      rcases w.runEdit (.snapshot target) with ⟨v, e | first⟩
      · rfl
      · dsimp only
        rcases v.runEdits rest with ⟨u, e | results⟩
        · rfl
        · simp [List.getLast?_cons]

theorem prospect?_of_held {w : Workspace D} {task : Task} {job : EditJob}
    {result : FileEditResult}
    (h : task.held? = some (job, result)) : w.prospect? task = some (w.onward job result) := by
  cases task <;> first
    | contradiction
    | simp only [prospect?, h, Option.map_some]

theorem prospect?_of_leaves {w : Workspace D} {job : EditJob} {result : FileEditResult}
    {task : Task} (h : job.Leaves result task) :
    w.prospect? task = some (w.onward job result) := by
  cases h with
  | continues other same => rw [prospect?_continued, onward_congr w job same]
  | holds _ other held same => rw [prospect?_of_held held, onward_congr w job same]

/-- A step of the call keeps its prospect. -/
theorem prospect?_of_editMove {w w' : Workspace D} {task task' : Task}
    (h : EditMove w task w' task') : w'.prospect? task' = w.prospect? task := by
  cases h with
  | advances job step => rw [prospect?, prospect?, runEdit_of_next step]
  | fails job step =>
      rw [prospect?, prospect?, runEdit_of_failed step]
      rfl
  | finishes job step leaves =>
      rw [prospect?_of_leaves leaves, prospect?, runEdit_of_finished step]
  | rests held leaves => rw [prospect?_of_leaves leaves, prospect?_of_held held]

theorem editsFiles_or_done {w : Workspace D} {task : Task} {prospect : Workspace D × Outcome}
    (h : w.prospect? task = some prospect) :
    task.editsFiles = true ∨ exists outcome, task = .done outcome := by
  unfold prospect? at h
  split at h
  case h_1 => exact Or.inl rfl
  case h_2 => exact Or.inr ⟨_, rfl⟩
  case h_3 =>
    rcases Option.map_eq_some_iff.mp h with ⟨held, hheld, -⟩
    exact Or.inl (Task.editsFiles_of_held hheld)

end Workspace

namespace Session

variable {D : Type} [FileSystem D]

/-- Every call that edits files has a prospect when it begins. -/
theorem exists_prospect (s : Session D) {op : Operation} (h : op.editsFiles = true) :
    exists task prospect, (s.beginCall op).task? s.calls.length = some task ∧
      (s.beginCall op).workspace.prospect? task = some prospect := by
  rcases exists_editTask h s.settings.allowWrites with ⟨task, hfirst⟩
  refine ⟨task, ?_⟩
  rw [(beginCall_editTask hfirst).2]
  rcases editing_or_done hfirst with ⟨job, target, rfl⟩ | ⟨outcome, rfl⟩
  · simp only [true_and, Workspace.prospect?]
    rcases (s.beginCall op).workspace.runEdit (.snapshot target) with ⟨w, e | result⟩
    · exact ⟨_, rfl⟩
    · exact ⟨_, rfl⟩
  · exact ⟨_, rfl, rfl⟩

/-!
# Calls that are left alone
-/

/-- The courses in which nobody but call `id` does anything to the workspace. -/
inductive Solo (id : Nat) (s : Session D) : List (Moment D) -> Session D -> Prop where
  | refl : Solo id s [] s
  | act {moments : List (Moment D)} {t u : Session D} (solo : Solo id s moments t) (a : Action)
      (h : t.act a = some u) (alone : a = .goOn id ∨ u.workspace = t.workspace) :
      Solo id s (moments ++ [⟨t, a, u⟩]) u

theorem Solo.proceed {id : Nat} {s t u : Session D} {moments more : List (Moment D)}
    {actions : List Action} (solo : Solo id s moments t)
    (h : t.proceed actions = some (more, u)) (hown : forall a, a ∈ actions -> a = .goOn id) :
    Solo id s (moments ++ more) u :=
  proceed_keeps solo h fun ha solo hact => solo.act _ hact (Or.inl (hown _ ha))

theorem exists_solo {α : Type} {id n : Nat} {s : Session D} {f : Session D -> α} {a : α}
    (h : (s.proceed (List.replicate n (.goOn id))).map (fun r => f r.2) = some a) :
    exists moments u, Solo id s moments u ∧ f u = a := by
  rcases Option.map_eq_some_iff.mp h with ⟨⟨moments, u⟩, hproceed, heq⟩
  exact ⟨_, u, Solo.refl.proceed hproceed fun a ha => (List.mem_replicate.mp ha).2, heq⟩

theorem Solo.settings {id : Nat} {s u : Session D} {moments : List (Moment D)}
    (solo : Solo id s moments u) : u.settings = s.settings := by
  induction solo with
  | refl => rfl
  | act _ a h _ ih => rw [settings_of_act h, ih]

theorem Solo.prospect {id : Nat} {s u : Session D} {moments : List (Moment D)} {task : Task}
    {prospect : Workspace D × Outcome} (solo : Solo id s moments u)
    (htask : s.task? id = some task) (h : s.workspace.prospect? task = some prospect) :
    exists task', u.task? id = some task' ∧ u.workspace.prospect? task' = some prospect := by
  induction solo with
  | refl => exact ⟨task, htask, h⟩
  | @act moments t u solo a hact alone ih =>
      rcases ih with ⟨task', htask', hprospect⟩
      rcases editMove_or_stays hact htask' (Workspace.editsFiles_or_done hprospect) with
        ⟨hown, task'', htask'', hmove⟩ | ⟨hother, hstays⟩
      · exact ⟨task'', htask'', (Workspace.prospect?_of_editMove hmove).trans hprospect⟩
      · refine ⟨task', hstays, ?_⟩
        rw [alone.resolve_left hother]
        exact hprospect

/-- A call that has ended has done what it was about to do. -/
theorem Solo.ended {id : Nat} {s u : Session D} {moments : List (Moment D)} {task : Task}
    {prospect : Workspace D × Outcome} {outcome : Outcome} (solo : Solo id s moments u)
    (htask : s.task? id = some task) (h : s.workspace.prospect? task = some prospect)
    (hended : u.outcome? id = some outcome) :
    prospect = (u.workspace, outcome.map Value.unsynced) := by
  rcases solo.prospect htask h with ⟨task', htask', hprospect⟩
  rw [outcome?_eq_some, htask'] at hended
  cases hended
  exact (Option.some.inj hprospect).symm

/-!
# Files in memory
-/

def writable (disk : Memory) : Session Memory :=
  .new { (default : Settings) with allowWrites := true } 0 (.new (.ofString "/w") disk)

def overwriteFirst (text : Text) : List TextEdit :=
  [⟨⟨⟨0, 0⟩, ⟨0, 1⟩⟩, text⟩]

end Session
end LanguageClient

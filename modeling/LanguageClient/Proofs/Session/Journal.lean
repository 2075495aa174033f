import LanguageClient.Proofs.Session.EditOutcomes

/-!
# The journal as a log

Calls that edit files, one after the other, leave a journal from which the files can be
told: replayed on what the files held at first, every entry finds what it says it found, and
in the end the files hold what they do hold. A file is recorded each time it is written, and
only then. Between the write and the record of a file the entry is still due, so the journal
together with what is due is what every step keeps faithful.
-/

namespace LanguageClient

/-!
# Replaying
-/

abbrev Contents : Type := Path -> Except FileFailure FileSnapshot

def FileChange.perform (c : FileChange) (contents : Contents) : Contents :=
  fun q => if q = c.path then .ok c.after else contents q

def replay (contents : Contents) (changes : List FileChange) : Contents :=
  changes.foldl (fun contents c => c.perform contents) contents

/-- Every change finds what it says it found. -/
def Fits : Contents -> List FileChange -> Prop
  | _, [] => True
  | contents, c :: rest => contents c.path = .ok c.before ∧ Fits (c.perform contents) rest

theorem replay_concat (contents : Contents) (changes : List FileChange) (c : FileChange) :
    replay contents (changes ++ [c]) = c.perform (replay contents changes) := by
  rw [replay, List.foldl_append]
  rfl

theorem fits_concat {contents : Contents} {changes : List FileChange} {c : FileChange}
    (h : Fits contents changes) (hc : replay contents changes c.path = .ok c.before) :
    Fits contents (changes ++ [c]) := by
  induction changes generalizing contents with
  | nil => exact ⟨hc, trivial⟩
  | cons first rest ih => exact ⟨h.1, ih h.2 hc⟩

variable {D : Type} [FileSystem D]

structure Log (w : Workspace D) (changes : List FileChange) (disk : D) : Prop where
  fits : Fits (FileSystem.read w.disk) changes
  replays : forall q, q.IsNormal ->
    replay (FileSystem.read w.disk) changes q = FileSystem.read disk q
  below : forall c, c ∈ changes -> w.root.components <+: c.path.components

theorem Log.nil (w : Workspace D) : Log w [] w.disk :=
  ⟨trivial, fun _ _ => rfl, nofun⟩

theorem Log.concat {w u : Workspace D} {changes : List FileChange} {target : EditTarget}
    {plan : EditPlan} {disk : D} (h : Log w changes u.disk) (hroot : u.root = w.root)
    (hplan : Workspace.Plans u target plan true)
    (hkept : Keeps u.disk plan.path plan.content disk) :
    Log w (changes ++ [plan.entry]) disk := by
  constructor
  case fits =>
    apply fits_concat h.fits
    change replay _ changes plan.path = .ok plan.before
    rw [h.replays plan.path hplan.isNormal]
    exact hplan.found
  case replays =>
    intro q hq
    rw [replay_concat, FileChange.perform]
    by_cases hsame : q = plan.entry.path
    · rw [if_pos hsame, hsame]
      exact hkept.holds.symm
    · rw [if_neg hsame, h.replays q hq, hkept.others q hq hsame]
  case below =>
    intro c hc
    rcases List.mem_append.mp hc with hc | hc
    · exact h.below c hc
    · rw [List.mem_singleton.mp hc, ← hroot]
      exact (Workspace.locate_eq_ok_iff.mp hplan.located).2

/-!
# What is due
-/

def EditStage.due : EditStage -> List FileChange
  | .reread plan | .record plan _ => [plan.entry]
  | .snapshot _ | .write _ => []

def Task.due : Task -> List FileChange
  | .editing _ stage => stage.due
  | _ => []

def Task.writes (disk : D) : Task -> List Path
  | .editing _ (.write plan) =>
    match FileSystem.write disk plan.path plan.content with
    | .ok _ => [plan.path]
    | .error _ => []
  | _ => []

/-- The journal and what is due are a log of everything that has been
done to the files of `w`. -/
structure Logged (w : Workspace D) (written : List Path) (u : Workspace D) (task : Task) :
    Prop where
  root : u.root = w.root
  keeps : KeepsFiles u.disk
  edits : task.editsFiles = true ∨ exists outcome, task = .done outcome
  ready : forall job stage, task = .editing job stage -> Workspace.Ready u stage
  log : exists changes, u.journal ++ task.due = w.journal ++ changes ∧ Log w changes u.disk ∧
    changes.map (·.path) = written

theorem due_of_held {task : Task} {held : EditJob × FileEditResult}
    (h : task.held? = some held) (disk : D) : task.due = [] ∧ task.writes disk = [] ∧
      forall job stage, task ≠ .editing job stage := by
  have hother : forall job stage, task ≠ .editing job stage := by
    rintro job stage rfl
    contradiction
  cases task <;> first
    | contradiction
    | exact ⟨rfl, rfl, hother⟩

theorem Logged.leaves {w u : Workspace D} {written : List Path} {job : EditJob}
    {result : FileEditResult} {task : Task} (hroot : u.root = w.root)
    (hkeeps : KeepsFiles u.disk)
    (hlog : exists changes, u.journal = w.journal ++ changes ∧ Log w changes u.disk ∧
      changes.map (·.path) = written) (h : job.Leaves result task) :
      Logged w written u task := by
  have hrest (hdue : task.due = [])
      (hedits : task.editsFiles = true ∨ exists outcome, task = .done outcome)
      (hready : forall job stage, task = .editing job stage -> Workspace.Ready u stage) :
      Logged w written u task := by
    refine ⟨hroot, hkeeps, hedits, hready, ?_⟩
    rw [hdue, List.append_nil]
    exact hlog
  cases h with
  | continues other _ =>
      unfold EditJob.continued at hrest ⊢
      split at hrest
      case h_1 => exact hrest rfl (Or.inl rfl) fun _ _ heq => by cases heq; trivial
      case h_2 => exact hrest rfl (Or.inr ⟨_, rfl⟩) nofun
  | holds _ other held _ =>
      rcases due_of_held held u.disk with ⟨hdue, -, hother⟩
      exact hrest hdue (Or.inl (Task.editsFiles_of_held held)) fun job stage heq =>
        absurd heq (hother job stage)

theorem Logged.advance {w u u' : Workspace D} {written : List Path} {job : EditJob}
    {stage stage' : EditStage} (h : Logged w written u (.editing job stage))
    (hnext : u.editStep stage = .next u' stage') :
    Logged w (written ++ Task.writes u.disk (.editing job stage)) u'
      (.editing job stage') := by
  have hready := h.ready job stage rfl
  have hstep := Workspace.editStep_stageStep hready
  rw [hnext] at hstep
  have hready' : forall job' later, Task.editing job stage' = .editing job' later ->
      Workspace.Ready u' later := by
    intro job' later heq
    cases heq
    exact hready.next h.keeps hstep
  rcases h.log with ⟨changes, hjournal, hlog, hwritten⟩
  cases hstep with
  | planned target plan plans =>
      refine ⟨h.root, h.keeps, Or.inl rfl, hready', changes, hjournal, hlog, ?_⟩
      exact hwritten.trans (List.append_nil _).symm
  | written plan disk hwrite =>
      rcases hready with ⟨target, hplan⟩
      have hover := hplan.overwrites hwrite
      refine ⟨h.root, h.keeps.overwritten (.next .refl hover), Or.inl rfl, hready',
        changes ++ [plan.entry], ?_, hlog.concat h.root hplan (h.keeps.keeps hover), ?_⟩
      · have hjournal' : u.journal = w.journal ++ changes :=
          (List.append_nil _).symm.trans hjournal
        change u.journal ++ [plan.entry] = _
        rw [hjournal', List.append_assoc]
      · rw [List.map_append, hwritten, Task.writes, hwrite]
        rfl
  | reread plan =>
      refine ⟨h.root, h.keeps, Or.inl rfl, hready', changes, hjournal, hlog, ?_⟩
      exact hwritten.trans (List.append_nil _).symm

theorem Logged.finish {w u u' : Workspace D} {written : List Path} {job : EditJob}
    {stage : EditStage} {result : FileEditResult} {task : Task}
    (h : Logged w written u (.editing job stage))
    (hfinished : u.editStep stage = .finished u' result) (hleaves : job.Leaves result task) :
    Logged w (written ++ Task.writes u.disk (.editing job stage)) u' task := by
  have hstep := Workspace.editStep_stageStep (h.ready job stage rfl)
  rw [hfinished] at hstep
  rcases h.log with ⟨changes, hjournal, hlog, hwritten⟩
  cases hstep with
  | idle target plan plans =>
      refine Logged.leaves h.root h.keeps ⟨changes, ?_, hlog, ?_⟩ hleaves
      · exact (List.append_nil _).symm.trans hjournal
      · exact hwritten.trans (List.append_nil _).symm
  | recorded plan =>
      refine Logged.leaves h.root h.keeps ⟨changes, hjournal, hlog, ?_⟩ hleaves
      exact hwritten.trans (List.append_nil _).symm

theorem Logged.fail {w u : Workspace D} {written : List Path} {job : EditJob}
    {stage : EditStage} {e : Failure} (h : Logged w written u (.editing job stage))
    (hfailed : u.editStep stage = .failed e) :
    Logged w (written ++ Task.writes u.disk (.editing job stage)) u (.done (.error e)) := by
  have hstep := Workspace.editStep_stageStep (h.ready job stage rfl)
  rw [hfailed] at hstep
  refine ⟨h.root, h.keeps, Or.inr ⟨_, rfl⟩, nofun, ?_⟩
  cases hstep with
  | refused target e hopeless =>
      rw [show Task.writes u.disk (.editing job (.snapshot target)) = [] from rfl,
        List.append_nil]
      exact h.log
  | unwritten plan e hopeless =>
      have hwrites : Task.writes u.disk (.editing job (.write plan)) = [] := by
        simp only [Task.writes]
        split
        case h_1 disk hdisk => exact absurd hdisk (hopeless disk)
        case h_2 => rfl
      rw [hwrites, List.append_nil]
      exact h.log

/-- Every step of the call keeps the log. -/
theorem Logged.move {w u u' : Workspace D} {written : List Path} {task task' : Task}
    (h : Logged w written u task) (hmove : EditMove u task u' task') :
    Logged w (written ++ task.writes u.disk) u' task' := by
  cases hmove with
  | advances job hnext => exact h.advance hnext
  | fails job hfailed => exact h.fail hfailed
  | finishes job hfinished leaves => exact h.finish hfinished leaves
  | rests held leaves =>
      rcases due_of_held held u.disk with ⟨hdue, hwrites, -⟩
      have hlog := h.log
      rw [hdue, List.append_nil] at hlog
      rw [hwrites, List.append_nil]
      exact Logged.leaves h.root h.keeps hlog leaves

/-!
# Calls one after the other
-/

def Moment.writtenBy (id : Nat) (m : Moment D) : List Path :=
  match m.action with
  | .goOn j =>
    if j = id then
      match m.before.task? id with
      | some task => task.writes m.before.workspace.disk
      | none => []
    else []
  | _ => []

def writtenBy (id : Nat) (moments : List (Moment D)) : List Path :=
  moments.flatMap (Moment.writtenBy id)

theorem writtenBy_goOn {id : Nat} {m : Moment D} {task : Task} (haction : m.action = .goOn id)
    (htask : m.before.task? id = some task) :
    m.writtenBy id = task.writes m.before.workspace.disk := by
  simp only [Moment.writtenBy, haction, if_true, htask]

theorem writtenBy_of_ne {id : Nat} {m : Moment D} (h : m.action ≠ .goOn id) :
    m.writtenBy id = [] := by
  rw [Moment.writtenBy]
  split
  case h_1 j hj =>
    rw [if_neg]
    rintro rfl
    exact h hj
  case h_2 => rfl

theorem Logged.first {w u : Workspace D} {written : List Path} {outcome : Outcome}
    {op : Operation} {allowed : Bool} {task : Task} (h : Logged w written u (.done outcome))
    (hfirst : op.editTask? allowed = some task) : Logged w written u task := by
  rcases editing_or_done hfirst with ⟨job, target, rfl⟩ | ⟨other, rfl⟩
  · refine ⟨h.root, h.keeps, Or.inl rfl, fun job stage heq => ?_, h.log⟩
    cases heq
    trivial
  · exact ⟨h.root, h.keeps, Or.inr ⟨_, rfl⟩, nofun, h.log⟩

namespace Session

/-- A call that is left alone with the workspace keeps the log. -/
theorem Solo.logged {id : Nat} {s u : Session D} {w : Workspace D} {written : List Path}
    {moments : List (Moment D)} {task : Task} (solo : Solo id s moments u)
    (htask : s.task? id = some task) (h : Logged w written s.workspace task) :
    exists task', u.task? id = some task' ∧
      Logged w (written ++ writtenBy id moments) u.workspace task' := by
  induction solo with
  | refl => exact ⟨task, htask, (List.append_nil written).symm ▸ h⟩
  | @act moments t u solo a hact alone ih =>
      rcases ih with ⟨task', htask', hlogged⟩
      rw [writtenBy, List.flatMap_append, List.flatMap_singleton, ← writtenBy,
        ← List.append_assoc]
      rcases editMove_or_stays hact htask' hlogged.edits with
        ⟨hown, task'', htask'', hmove⟩ | ⟨hother, hstays⟩
      · rw [writtenBy_goOn (m := ⟨t, a, u⟩) hown htask']
        exact ⟨task'', htask'', hlogged.move hmove⟩
      · rw [writtenBy_of_ne (m := ⟨t, a, u⟩) hother, List.append_nil,
          alone.resolve_left hother]
        exact ⟨task', hstays, hlogged⟩

/-- Calls that edit files one after the other, each left alone with the workspace until it has
ended, and the files that they write. -/
inductive EditCalls (s : Session D) : List Path -> Session D -> Prop where
  | refl : EditCalls s [] s
  | call {written : List Path} {moments : List (Moment D)} {t u : Session D}
      (calls : EditCalls s written t) (op : Operation) (edits : op.editsFiles = true)
      (solo : Solo t.calls.length (t.beginCall op) moments u)
      (ended : (u.outcome? t.calls.length).isSome = true) :
      EditCalls s (written ++ writtenBy t.calls.length moments) u

section

variable {s u : Session D} {written : List Path}

theorem EditCalls.logged (calls : EditCalls s written u)
    (hkeeps : KeepsFiles s.workspace.disk) :
    exists outcome, Logged s.workspace written u.workspace (.done outcome) := by
  induction calls with
  | refl =>
      exact ⟨.ok .unit, rfl, hkeeps, Or.inr ⟨_, rfl⟩, nofun, [], rfl, .nil s.workspace, rfl⟩
  | @call written moments t u _ op edits solo ended ih =>
      rcases ih with ⟨outcome, hlogged⟩
      rcases exists_editTask edits t.settings.allowWrites with ⟨task, hfirst⟩
      rcases beginCall_editTask hfirst with ⟨hworkspace, htask⟩
      rcases solo.logged htask (hworkspace ▸ hlogged.first hfirst) with
        ⟨task', htask', hlogged'⟩
      rcases Option.isSome_iff_exists.mp ended with ⟨outcome', houtcome⟩
      rw [outcome?_eq_some, htask'] at houtcome
      cases houtcome
      exact ⟨outcome', hlogged'⟩

theorem EditCalls.settings (calls : EditCalls s written u) : u.settings = s.settings := by
  induction calls with
  | refl => rfl
  | call _ op _ solo _ ih => rw [solo.settings, settings_of_act (a := .begin op) rfl, ih]

theorem EditCalls.refused (calls : EditCalls s written u)
    (h : s.settings.allowWrites = false) :
    u.workspace = s.workspace := by
  induction calls with
  | refl => rfl
  | @call written moments t u calls op edits solo ended ih =>
      rcases exists_editTask edits t.settings.allowWrites with ⟨task, hfirst⟩
      have hrefused : task = .done (.error .writesDisabled) := by
        rw [calls.settings, h] at hfirst
        cases op <;> first
          | contradiction
          | exact (Option.some.inj hfirst).symm
      subst hrefused
      rcases beginCall_editTask hfirst with ⟨hworkspace, htask⟩
      rcases Option.isSome_iff_exists.mp ended with ⟨outcome, houtcome⟩
      have hend := solo.ended htask rfl houtcome
      rw [← (Prod.mk.inj hend).1, hworkspace, ih]

end

/-- What calls that edit files have added to the journal. -/
structure Audited (s u : Session D) (written : List Path) (changes : List FileChange) :
    Prop where
  journal : u.workspace.journal = s.workspace.journal ++ changes
  /-- Replayed, every change finds what it says it found, and the files hold what they do. -/
  fits : Fits (FileSystem.read s.workspace.disk) changes
  replays : forall q, q.IsNormal ->
    replay (FileSystem.read s.workspace.disk) changes q = FileSystem.read u.workspace.disk q
  /-- There is a change for each time a file was written, and no other. -/
  written : changes.map (·.path) = written
  below : forall c, c ∈ changes -> s.workspace.root.components <+: c.path.components
  refused : s.settings.allowWrites = false -> u.workspace = s.workspace ∧ changes = []

/-- The journal is a faithful log of calls that edit files one after the other. -/
theorem editCalls_audited {s u : Session D} {written : List Path}
    (hkeeps : KeepsFiles s.workspace.disk) (calls : EditCalls s written u) :
    exists changes, Audited s u written changes := by
  rcases calls.logged hkeeps with ⟨outcome, hlogged⟩
  rcases hlogged.log with ⟨changes, hjournal, hlog, hwritten⟩
  have hjournal' : u.workspace.journal = s.workspace.journal ++ changes :=
    (List.append_nil _).symm.trans hjournal
  refine ⟨changes, hjournal', hlog.fits, hlog.replays, hwritten, hlog.below,
    fun hdisabled => ?_⟩
  have hsame := calls.refused hdisabled
  refine ⟨hsame, ?_⟩
  rw [hsame] at hjournal'
  exact List.self_eq_append_right.mp hjournal'

theorem EditCalls.proceed {s t u : Session D} {written : List Path} {moments : List (Moment D)}
    {n : Nat} (op : Operation) (calls : EditCalls s written t) (hedits : op.editsFiles = true)
    (h : (t.beginCall op).proceed (List.replicate n (.goOn t.calls.length)) =
      some (moments, u))
    (hended : (u.outcome? t.calls.length).isSome = true) :
    EditCalls s (written ++ writtenBy t.calls.length moments) u :=
  calls.call op hedits (Solo.refl.proceed h fun _ ha => (List.mem_replicate.mp ha).2) hended

theorem editCalls_audited_twice :
    let f := Path.ofString "/w/f"
    let disk := Memory.empty.set f (some (.file ['x']))
    KeepsFiles disk ∧
      exists u changes, EditCalls (writable disk) [f, f] u ∧
        Audited (writable disk) u [f, f] changes := by
  intro f disk
  have hkeeps : KeepsFiles disk := Memory.keepsFiles fun _ => rfl
  let both : Operation := .applyWorkspaceEdit
    ⟨some [("file:///w/f", overwriteFirst ['y']), ("file:///w/g", overwriteFirst ['y'])], none⟩
    default
  let again : Operation := .applyEdits ['f'] (overwriteFirst ['z']) default
  have hcourse : (((writable disk).beginCall both).proceed (List.replicate 5 (.goOn 0))).bind
      (fun r => ((r.2.beginCall again).proceed (List.replicate 4 (.goOn 1))).map fun r' =>
        (r.2.calls.length, (r.2.outcome? 0).isSome, (r'.2.outcome? 1).isSome,
          writtenBy 0 r.1, writtenBy 1 r'.1)) = some (1, true, true, [f], [f]) := by
    cbv
  rcases Option.bind_eq_some_iff.mp hcourse with ⟨⟨moments, t⟩, hfirst, hrest⟩
  rcases Option.map_eq_some_iff.mp hrest with ⟨⟨moments', u⟩, hsecond, heq⟩
  simp only [Prod.mk.injEq] at heq
  rcases heq with ⟨hlength, hended, hended', hwritten, hwritten'⟩
  have calls := EditCalls.proceed both (.refl (s := writable disk)) rfl hfirst hended
  have calls' := calls.proceed again rfl (hlength ▸ hsecond) (hlength ▸ hended')
  change EditCalls (writable disk)
    ([] ++ writtenBy 0 moments ++ writtenBy t.calls.length moments') u at calls'
  rw [hlength, hwritten, hwritten'] at calls'
  rcases editCalls_audited hkeeps calls' with ⟨changes, haudited⟩
  exact ⟨hkeeps, u, changes, calls', haudited⟩

end Session
end LanguageClient

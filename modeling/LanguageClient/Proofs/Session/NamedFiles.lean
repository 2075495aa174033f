import LanguageClient.Proofs.Path.Display
import LanguageClient.Proofs.Session.EditOutcomes
import LanguageClient.Proofs.Workspace.Targets

/-!
# Files that a workspace edit touches

Whatever else happens in a session and to its disk, a call that applies a workspace edit
changes the disk only by rewriting a file, with the edits of a URI of the map. The path of
the URI is shown as a text and resolved again before the file is looked up, so the file is
the one that the URI names just if the path in normal form is a text.
-/

namespace LanguageClient

open WorkspaceEdit

variable {D : Type} [FileSystem D]

def Planned (moments : List (Moment D)) (id : Nat) (targets : List EditTarget)
    (plan : EditPlan) :
    Prop :=
  exists target m, target ∈ targets ∧ m ∈ moments ∧ m.action = .goOn id ∧
    m.before.workspace.editStep (.snapshot target) = .next m.before.workspace (.write plan)

def AimsStage (moments : List (Moment D)) (id : Nat) (targets : List EditTarget) :
    EditStage -> Prop
  | .snapshot target => target ∈ targets
  | .write plan => Planned moments id targets plan
  | .reread _ | .record .. => True

inductive Aims (moments : List (Moment D)) (id : Nat) (targets : List EditTarget) :
    Task -> Prop where
  | editing (job : EditJob) (stage : EditStage)
      (remaining : forall target, target ∈ job.remaining -> target ∈ targets)
      (stage_aims : AimsStage moments id targets stage) :
      Aims moments id targets (.editing job stage)
  | rests (task : Task) (job : EditJob) (result : FileEditResult)
      (held : task.held? = some (job, result))
      (remaining : forall target, target ∈ job.remaining -> target ∈ targets) :
      Aims moments id targets task
  | done (outcome : Outcome) : Aims moments id targets (.done outcome)

/-- A change of the disk: the edits of a target have been made in a file. -/
def Rewrites (moments : List (Moment D)) (id : Nat) (targets : List EditTarget)
    (m : Moment D) :
    Prop :=
  exists r : Rewriting D, r.target ∈ targets ∧ r.met = m.before.workspace ∧
    r.left = m.after.workspace ∧
    exists earlier, earlier ∈ moments ∧ earlier.action = .goOn id ∧
      r.found = earlier.before.workspace

section

variable {moments : List (Moment D)} {id : Nat} {targets : List EditTarget}

theorem Planned.later {plan : EditPlan} (h : Planned moments id targets plan)
    (more : List (Moment D)) : Planned (moments ++ more) id targets plan := by
  rcases h with ⟨target, m, htarget, hm, hrest⟩
  exact ⟨target, m, htarget, List.mem_append_left _ hm, hrest⟩

theorem Aims.later {task : Task} (h : Aims moments id targets task) (more : List (Moment D)) :
    Aims (moments ++ more) id targets task := by
  cases h with
  | editing job stage remaining stage_aims =>
      refine .editing job stage remaining ?_
      cases stage with
      | write plan => exact Planned.later stage_aims more
      | _ => exact stage_aims
  | rests task job result held remaining => exact .rests task job result held remaining
  | done outcome => exact .done outcome

theorem Rewrites.later {m : Moment D} (h : Rewrites moments id targets m)
    (more : List (Moment D)) : Rewrites (moments ++ more) id targets m := by
  rcases h with ⟨r, htarget, hmet, hleft, earlier, hearlier, hrest⟩
  exact ⟨r, htarget, hmet, hleft, earlier, List.mem_append_left _ hearlier, hrest⟩

theorem aims_continued {job : EditJob}
    (h : forall target, target ∈ job.remaining -> target ∈ targets) (result : FileEditResult) :
    Aims moments id targets (job.continued result) := by
  unfold EditJob.continued
  split
  case h_1 target remaining hremaining =>
    rw [hremaining] at h
    exact .editing _ _ (fun other hother => h other (List.mem_cons_of_mem _ hother))
      (h target List.mem_cons_self)
  case h_2 => exact .done _

theorem aims_of_leaves {job : EditJob} {result : FileEditResult} {task : Task}
    (h : forall target, target ∈ job.remaining -> target ∈ targets)
    (hleaves : job.Leaves result task) : Aims moments id targets task := by
  cases hleaves with
  | continues other same => exact aims_continued h other
  | holds _ other held same => exact .rests task job other held h

theorem AimsStage.step {m : Moment D} {stage stage' : EditStage}
    (h : AimsStage moments id targets stage) (haction : m.action = .goOn id)
    (hnext : m.before.workspace.editStep stage = .next m.after.workspace stage') :
    AimsStage (moments ++ [m]) id targets stage' ∧
      (m.after.workspace.disk ≠ m.before.workspace.disk -> Rewrites moments id targets m) := by
  cases stage with
  | snapshot target =>
      rcases Workspace.editStep_snapshot_next hnext with
        ⟨path, before, content, text, -, -, -, -, hsame, rfl⟩
      rw [hsame] at hnext
      refine ⟨⟨target, m, h, List.mem_append_right _ List.mem_cons_self, haction, hnext⟩, ?_⟩
      exact fun hdisk => absurd (congrArg Workspace.disk hsame) hdisk
  | write plan =>
      rcases Workspace.editStep_write_next hnext with ⟨-, rfl⟩
      rcases h with ⟨target, earlier, htarget, hearlier, hgoOn, hplanned⟩
      exact ⟨trivial, fun _ => ⟨⟨target, plan, _, _, _, hplanned, hnext⟩, htarget, rfl, rfl,
        earlier, hearlier, hgoOn, rfl⟩⟩
  | reread plan =>
      rcases Workspace.editStep_reread_next hnext with ⟨hsame, after, rfl⟩
      exact ⟨trivial, fun hdisk => absurd (congrArg Workspace.disk hsame) hdisk⟩
  | record plan after => exact absurd hnext Workspace.not_editStep_record_next

theorem Aims.step {m : Moment D} {w' : Workspace D} {task task' : Task}
    (h : Aims moments id targets task) (haction : m.action = .goOn id)
    (hafter : m.after.workspace = w') (hmove : EditMove m.before.workspace task w' task') :
    Aims (moments ++ [m]) id targets task' ∧
      (m.after.workspace.disk ≠ m.before.workspace.disk -> Rewrites moments id targets m) := by
  cases hmove with
  | advances job hnext =>
      cases h with
      | editing _ _ remaining stage_aims =>
          rcases stage_aims.step haction (hafter ▸ hnext) with ⟨haims, hrewrites⟩
          exact ⟨.editing job _ remaining haims, hrewrites⟩
      | rests _ _ _ held => contradiction
  | fails job hfailed =>
      exact ⟨.done _, fun hdisk => absurd (congrArg Workspace.disk hafter) hdisk⟩
  | finishes job hfinished leaves =>
      cases h with
      | editing _ _ remaining stage_aims =>
          refine ⟨aims_of_leaves remaining leaves, fun hdisk => absurd ?_ hdisk⟩
          rw [hafter, Workspace.editStep_finished_disk hfinished]
      | rests _ _ _ held => contradiction
  | rests held leaves =>
      refine ⟨?_, fun hdisk => absurd (congrArg Workspace.disk hafter) hdisk⟩
      cases h with
      | editing => contradiction
      | rests _ job result held' remaining =>
          rw [held] at held'
          cases held'
          exact aims_of_leaves remaining leaves
      | done => contradiction

theorem Aims.editsFiles {id : Nat} {task : Task} (h : Aims moments id targets task) :
    task.editsFiles = true ∨ exists outcome, task = .done outcome := by
  cases h with
  | editing => exact Or.inl rfl
  | rests task job result held => exact Or.inl (Task.editsFiles_of_held held)
  | done outcome => exact Or.inr ⟨outcome, rfl⟩

end

namespace Session

variable {moments : List (Moment D)} {targets : List EditTarget}

/-- Over any course, a call keeps to its targets. -/
theorem Course.rewrites {id : Nat} {t u : Session D} {task : Task}
    (course : Course t moments u)
    (htask : t.task? id = some task) (haims : Aims ([] : List (Moment D)) id targets task) :
    (exists task', u.task? id = some task' ∧ Aims moments id targets task') ∧
      forall m, m ∈ moments -> m.action = .goOn id ->
        m.after.workspace.disk ≠ m.before.workspace.disk -> Rewrites moments id targets m := by
  induction course with
  | refl => exact ⟨⟨task, htask, haims⟩, fun m hm => absurd hm List.not_mem_nil⟩
  | touch _ _ ih => exact ih
  | @act moments v u course a hact ih =>
      rcases ih with ⟨⟨task', htask', haims'⟩, hrewrites⟩
      have hlater (m : Moment D) (hm : m ∈ moments) (hown : m.action = .goOn id)
          (hdisk : m.after.workspace.disk ≠ m.before.workspace.disk) :
          Rewrites (moments ++ [⟨v, a, u⟩]) id targets m := (hrewrites m hm hown hdisk).later _
      rcases editMove_or_stays hact htask' haims'.editsFiles with
        ⟨hown, task'', htask'', hmove⟩ | ⟨hother, hstays⟩
      · rcases haims'.step (m := ⟨v, a, u⟩) hown rfl hmove with ⟨haims'', hrewrite⟩
        refine ⟨⟨task'', htask'', haims''⟩, fun m hm haction hdisk => ?_⟩
        rcases List.mem_append.mp hm with hm | hm
        · exact hlater m hm haction hdisk
        · rw [List.mem_singleton.mp hm] at hdisk ⊢
          exact (hrewrite hdisk).later _
      · refine ⟨⟨task', hstays, haims'.later _⟩, fun m hm haction hdisk => ?_⟩
        rcases List.mem_append.mp hm with hm | hm
        · exact hlater m hm haction hdisk
        · rw [List.mem_singleton.mp hm] at haction
          exact absurd haction hother

theorem aims_first (moments : List (Moment D)) (id : Nat) {edit : WorkspaceEdit}
    {context : EditContext} {allowed : Bool} {task : Task}
    (h : (Operation.applyWorkspaceEdit edit context).editTask? allowed = some task) :
    exists targets, (targets = [] ∨ edit.targets context = .ok targets) ∧
      Aims moments id targets task := by
  cases h
  cases allowed with
  | false => exact ⟨[], Or.inl rfl, .done _⟩
  | true =>
      simp only [if_true]
      rcases edit.targets context with e | _ | ⟨target, remaining⟩
      · exact ⟨[], Or.inl rfl, .done _⟩
      · exact ⟨[], Or.inl rfl, .done _⟩
      · refine ⟨_, Or.inr rfl, .editing _ _ (fun other hother => ?_) List.mem_cons_self⟩
        exact List.mem_cons_of_mem _ hother

/-- Over any course, whatever else happens to the disk, every change of it by a workspace
edit is a rewriting of a file with the edits of a URI of the map. The file is the place of
the path as it is shown, which is the place of the path itself just if that is a text. -/
theorem applyWorkspaceEdit_rewrites {s u : Session D} {edit : WorkspaceEdit}
    {context : EditContext} {m : Moment D}
    (course : Course (s.beginCall (.applyWorkspaceEdit edit context)) moments u)
    (hm : m ∈ moments) (haction : m.action = .goOn s.calls.length)
    (hdisk : m.after.workspace.disk ≠ m.before.workspace.disk) :
    exists (r : Rewriting D) (earlier : Moment D) (uri : String) (p : Path),
      r.met = m.before.workspace ∧ r.left = m.after.workspace ∧
      earlier ∈ moments ∧ earlier.action = .goOn s.calls.length ∧
      r.found = earlier.before.workspace ∧
      (uri, r.target.edits) ∈ edit.changes.getD [] ∧ FileUri.toPath? uri.toList = some p ∧
      r.plan.path = (Path.ofText p.display).normalize ∧
      (r.plan.path = p.normalize <-> Path.IsText p.normalize.bytes) := by
  have hedits : (Operation.applyWorkspaceEdit edit context).editsFiles = true := rfl
  rcases exists_editTask hedits s.settings.allowWrites with ⟨task, hfirst⟩
  have htask := (beginCall_editTask hfirst).2
  rcases aims_first ([] : List (Moment D)) s.calls.length hfirst with
    ⟨targets, htargets, haims⟩
  rcases (course.rewrites htask haims).2 m hm haction hdisk with
    ⟨r, htarget, hmet, hleft, earlier, hearlier, hgoOn, hfound⟩
  rcases htargets with rfl | htargets
  · contradiction
  rcases exists_uri_of_mem_targets htargets htarget with ⟨uri, p, huri, hp, hname⟩
  have habsolute := FileUri.isAbsolute_of_toPath? hp
  rcases Workspace.editStep_snapshot_next r.planned with
    ⟨path, before, content, text, hlocate, -, -, -, -, hplan⟩
  have hpath : r.plan.path = (Path.ofText p.display).normalize := by
    rw [EditStage.write.inj hplan, (Workspace.locate_eq_ok_iff.mp hlocate).1, hname,
      Root.locate, Path.join_of_isAbsolute _ (Path.isAbsolute_shown habsolute)]
  refine ⟨r, earlier, uri, p, hmet, hleft, hearlier, hgoOn, hfound, huri, hp, hpath, ?_⟩
  rw [hpath]
  exact Path.normalize_shown_eq_iff habsolute

theorem exists_overwriting (uri : String) (f : Path) (disk : Memory)
    (h : (((writable disk).beginCall (.applyWorkspaceEdit
      ⟨some [(uri, overwriteFirst ['y'])], none⟩ default)).proceed [.goOn 0, .goOn 0]).map
        (fun r => r.1.map fun m => (m.action, FileSystem.read m.before.workspace.disk f,
          FileSystem.read m.after.workspace.disk f)) =
      some [(.goOn 0, .ok (.of ['x']), .ok (.of ['x'])),
        (.goOn 0, .ok (.of ['x']), .ok (.of ['y']))]) :
    exists moments u m,
      Course ((writable disk).beginCall (.applyWorkspaceEdit
        ⟨some [(uri, overwriteFirst ['y'])], none⟩ default)) moments u ∧
      m ∈ moments ∧ m.action = .goOn 0 ∧
      FileSystem.read m.after.workspace.disk f ≠
      FileSystem.read m.before.workspace.disk f := by
  rcases Option.map_eq_some_iff.mp h with ⟨⟨moments, u⟩, hproceed, hmoments⟩
  rcases List.map_eq_cons_iff.mp hmoments with ⟨first, rest, rfl, -, hrest⟩
  rcases List.map_eq_cons_iff.mp hrest with ⟨m, rest, rfl, hm, -⟩
  rcases Prod.mk.inj hm with ⟨haction, hreads⟩
  rcases Prod.mk.inj hreads with ⟨hbefore, hafter⟩
  refine ⟨_, u, m, Course.refl.proceed hproceed, by simp, haction, ?_⟩
  rw [hbefore, hafter]
  decide

theorem applyWorkspaceEdit_rewrites_encoded :
    let disk := Memory.empty.set (.ofString "/w/f") (some (.file ['x']))
    let edit : WorkspaceEdit := ⟨some [("file:///w/v/../%66", overwriteFirst ['y'])], none⟩
    exists moments u m,
      Course ((writable disk).beginCall (.applyWorkspaceEdit edit default)) moments u ∧
        m ∈ moments ∧ m.action = .goOn 0 ∧
        m.after.workspace.disk ≠ m.before.workspace.disk ∧
        exists r : Rewriting Memory, r.left = m.after.workspace ∧
          r.target.edits = overwriteFirst ['y'] ∧ r.plan.path = .ofString "/w/f" := by
  intro disk edit
  rcases exists_overwriting "file:///w/v/../%66" (.ofString "/w/f") disk (by cbv) with
    ⟨moments, u, m, course, hm, haction, hread⟩
  have hdisk : m.after.workspace.disk ≠ m.before.workspace.disk :=
    fun heq => hread (by rw [heq])
  rcases applyWorkspaceEdit_rewrites course hm haction hdisk with
    ⟨r, earlier, uri, p, -, hleft, -, -, -, huri, hp, hpath, -⟩
  rcases Prod.mk.inj (List.mem_singleton.mp huri) with ⟨rfl, hedits⟩
  have hplace : FileUri.toPath? "file:///w/v/../%66".toList = some (.ofString "/w/f") := by
    decide +kernel
  rw [hplace] at hp
  refine ⟨moments, u, m, course, hm, haction, hdisk, r, hleft, hedits, ?_⟩
  rw [hpath, ← Option.some.inj hp]
  decide +kernel

/-- A URI that names a byte outside UTF-8 edits the file whose name has a
replacement character there. -/
theorem not_named_of_rewrites :
    ¬ forall (s : Session Memory) (edit : WorkspaceEdit) (context : EditContext)
      (moments : List (Moment Memory)) (u : Session Memory) (m : Moment Memory) (f : Path),
      Course (s.beginCall (.applyWorkspaceEdit edit context)) moments u -> m ∈ moments ->
      m.action = .goOn s.calls.length -> f.IsNormal ->
      FileSystem.read m.after.workspace.disk f ≠ FileSystem.read m.before.workspace.disk f ->
      exists uri edits p, (uri, edits) ∈ edit.changes.getD [] ∧
        FileUri.toPath? uri.toList = some p ∧ p.normalize = f := by
  intro h
  let f := Path.ofString "/w/\uFFFD"
  let disk := Memory.empty.set f (some (.file ['x']))
  rcases exists_overwriting "file:///w/%FF" f disk (by cbv) with
    ⟨moments, u, m, course, hm, haction, hread⟩
  rcases h _ _ _ moments u m f course hm haction
    (by rw [Path.IsNormal]; decide +kernel) hread with
    ⟨uri, edits, p, huri, hp, hnormal⟩
  rcases Prod.mk.inj (List.mem_singleton.mp huri) with ⟨rfl, -⟩
  have hbyte : (FileUri.toPath? "file:///w/%FF".toList).map Path.normalize =
      some ⟨[0x2F, 0x77, 0x2F, 0xFF]⟩ := by
    decide +kernel
  rw [hp, Option.map_some, hnormal] at hbyte
  exact absurd hbyte (by decide +kernel)

end Session
end LanguageClient

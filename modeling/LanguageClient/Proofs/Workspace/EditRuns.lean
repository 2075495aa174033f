import LanguageClient.Proofs.Workspace.Confinement
import LanguageClient.Proofs.Workspace.Disks
import LanguageClient.Proofs.Workspace.Rewriting

/-!
# Edits of several files

On a disk that keeps its files, a stage of the edits of a file has one outcome to fear:
that the file cannot be edited at all, or not be written. Files are edited one after
the other up to the first for which that is so. What was done for those before it
stays, and nothing else happens.
-/

namespace LanguageClient

namespace EditPlan

def left (plan : EditPlan) (changed : Bool) : FileSnapshot :=
  if changed then .of plan.content else plan.before

def entry (plan : EditPlan) : FileChange :=
  plan.change (.of plan.content)

end EditPlan

def recorded (done : List (EditPlan × Bool)) : List FileChange :=
  done.filterMap fun d => if d.2 then some d.1.entry else none

namespace Workspace

variable {D : Type} [FileSystem D] {w w' : Workspace D}

/-!
# Plans
-/

structure Plans (w : Workspace D) (target : EditTarget) (plan : EditPlan) (changed : Bool) :
    Prop where
  located : w.locate target.name = .ok plan.path
  found : FileSystem.read w.disk plan.path = .ok plan.before
  edited : exists content, plan.before.text? = some content ∧
    Workspace.edited content target.edits = .ok (plan.content, changed)
  shown : plan.shown = w.relative plan.path
  editCount : plan.editCount = target.edits.length
  context : plan.context = target.context

/-- Carrying out a plan writes the file and records the change, if there is one. -/
inductive CarriesOut (w : Workspace D) (plan : EditPlan) : Bool -> Workspace D -> Prop where
  | idle : CarriesOut w plan false w
  | writes (disk : D) (written : FileSystem.write w.disk plan.path plan.content = .ok disk) :
      CarriesOut w plan true { w with disk, journal := w.journal ++ [plan.entry] }

/-- No plan for the target can be carried out. -/
def Blocked (w : Workspace D) (target : EditTarget) : Prop :=
  forall plan changed w', Plans w target plan changed -> ¬ CarriesOut w plan changed w'

omit [FileSystem D] in
theorem locate_eq_ok_isNormal {name : Text} {p : Path} (h : w.locate name = .ok p) :
    p.IsNormal := by
  rw [(locate_eq_ok_iff.mp h).1]
  exact Path.isNormal_normalize _

theorem Plans.isNormal {target : EditTarget} {plan : EditPlan} {changed : Bool}
    (h : Plans w target plan changed) : plan.path.IsNormal :=
  locate_eq_ok_isNormal h.located

theorem Plans.unique {target : EditTarget} {plan plan' : EditPlan} {changed changed' : Bool}
    (h : Plans w target plan changed) (h' : Plans w target plan' changed') :
    plan = plan' ∧ changed = changed' := by
  rcases plan with ⟨shown, path, before, text, count, context⟩
  rcases plan' with ⟨shown', path', before', text', count', context'⟩
  rcases h with ⟨hlocated, hfound, ⟨content, htext, hedited⟩, hshown, hcount, hcontext⟩
  rcases h' with ⟨hlocated', hfound', ⟨content', htext', hedited'⟩, hshown', hcount',
    hcontext'⟩
  dsimp only at *
  have hpath : path = path' := Except.ok.inj (hlocated.symm.trans hlocated')
  subst hpath
  have hbefore : before = before' := Except.ok.inj (hfound.symm.trans hfound')
  subst hbefore
  have hcontent : content = content' := Option.some.inj (htext.symm.trans htext')
  subst hcontent
  rcases Prod.mk.inj (Except.ok.inj (hedited.symm.trans hedited')) with ⟨rfl, rfl⟩
  subst hshown hshown' hcount hcount' hcontext hcontext'
  exact ⟨rfl, rfl⟩

theorem Plans.overwrites {target : EditTarget} {plan : EditPlan} {changed : Bool} {disk : D}
    (h : Plans w target plan changed)
    (hwrite : FileSystem.write w.disk plan.path plan.content = .ok disk) :
    Overwrites w.disk plan.path plan.content disk := by
  rcases h.edited with ⟨content, htext, -⟩
  exact ⟨h.isNormal, ⟨plan.before, content, h.found, htext⟩, hwrite⟩

theorem CarriesOut.root {plan : EditPlan} {changed : Bool} (h : CarriesOut w plan changed w') :
    w'.root = w.root := by
  cases h <;> rfl

theorem CarriesOut.keepsFiles {target : EditTarget} {plan : EditPlan} {changed : Bool}
    (h : CarriesOut w plan changed w') (hplan : Plans w target plan changed)
    (hkeeps : KeepsFiles w.disk) : KeepsFiles w'.disk := by
  cases h with
  | idle => exact hkeeps
  | writes disk hwrite =>
      exact hkeeps.overwritten (.next .refl (hplan.overwrites hwrite))

/-!
# Stages
-/

def Ready (w : Workspace D) : EditStage -> Prop
  | .snapshot _ => True
  | .write plan => exists target, Plans w target plan true
  | .reread plan =>
    FileSystem.read w.disk plan.path = .ok (.of plan.content) ∧
      FileSystem.recordFault w.disk plan.path = none
  | .record plan after =>
    after = .of plan.content ∧ FileSystem.recordFault w.disk plan.path = none

inductive StageStep (w : Workspace D) : EditStage -> EditProgress D -> Prop where
  | refused (target : EditTarget) (e : Failure)
      (hopeless : forall plan changed, ¬ Plans w target plan changed) :
      StageStep w (.snapshot target) (.failed e)
  | idle (target : EditTarget) (plan : EditPlan) (plans : Plans w target plan false) :
      StageStep w (.snapshot target) (.finished w (plan.result false))
  | planned (target : EditTarget) (plan : EditPlan) (plans : Plans w target plan true) :
      StageStep w (.snapshot target) (.next w (.write plan))
  | unwritten (plan : EditPlan) (e : Failure)
      (hopeless : forall disk, FileSystem.write w.disk plan.path plan.content ≠ .ok disk) :
      StageStep w (.write plan) (.failed e)
  | written (plan : EditPlan) (disk : D)
      (written : FileSystem.write w.disk plan.path plan.content = .ok disk) :
      StageStep w (.write plan) (.next { w with disk } (.reread plan))
  | reread (plan : EditPlan) :
      StageStep w (.reread plan) (.next w (.record plan (.of plan.content)))
  | recorded (plan : EditPlan) :
      StageStep w (.record plan (.of plan.content))
        (.finished { w with journal := w.journal ++ [plan.entry] } (plan.result true))

theorem read_eq_ok_iff {p : Path} {snapshot : FileSnapshot} :
    w.read p = .ok snapshot <-> FileSystem.read w.disk p = .ok snapshot := by
  unfold read
  cases FileSystem.read w.disk p with
  | ok found => simp [Except.mapError]
  | error e => simp [Except.mapError]

theorem stageStep_snapshot (w : Workspace D) (target : EditTarget) :
    StageStep w (.snapshot target) (w.editStep (.snapshot target)) := by
  simp only [editStep]
  split
  case h_1 e hlocate =>
    refine .refused target _ fun plan changed hplan => ?_
    rw [hplan.located] at hlocate
    contradiction
  case h_2 path hlocate =>
    have hpath {plan : EditPlan} {changed : Bool} (hplan : Plans w target plan changed) :
        plan.path = path := Except.ok.inj (hplan.located.symm.trans hlocate)
    split
    case h_1 e hread =>
      refine .refused target _ fun plan changed hplan => ?_
      rw [← hpath hplan, read_eq_ok_iff.mpr hplan.found] at hread
      contradiction
    case h_2 before hread =>
      have hbefore {plan : EditPlan} {changed : Bool} (hplan : Plans w target plan changed) :
          plan.before = before := by
        have hfound := read_eq_ok_iff.mpr hplan.found
        rw [hpath hplan] at hfound
        exact Except.ok.inj (hfound.symm.trans hread)
      split
      case h_1 htext =>
        refine .refused target _ fun plan changed hplan => ?_
        rcases hplan.edited with ⟨content, hcontent, -⟩
        rw [hbefore hplan, htext] at hcontent
        contradiction
      case h_2 content htext =>
        split
        case h_1 e hedited =>
          refine .refused target _ fun plan changed hplan => ?_
          rcases hplan.edited with ⟨content', hcontent, hresult⟩
          rw [hbefore hplan, htext] at hcontent
          rw [← Option.some.inj hcontent, hedited] at hresult
          contradiction
        case h_2 text changed hedited =>
          have hplan :
              Plans w target ⟨w.relative path, path, before, text, target.edits.length,
              target.context⟩ changed :=
            ⟨hlocate, read_eq_ok_iff.mp hread, ⟨content, htext, hedited⟩, rfl, rfl, rfl⟩
          split
          case isTrue hchanged =>
            subst hchanged
            exact .planned target _ hplan
          case isFalse hchanged =>
            rw [Bool.not_eq_true] at hchanged
            subst hchanged
            exact .idle target _ hplan

theorem plans_of_editStep {target : EditTarget} {plan : EditPlan}
    (h : w.editStep (.snapshot target) = .next w' (.write plan)) :
    Plans w target plan true := by
  have hstep := stageStep_snapshot w target
  rw [h] at hstep
  cases hstep with
  | planned _ _ plans => exact plans

theorem stageStep_write (w : Workspace D) (plan : EditPlan) :
    StageStep w (.write plan) (w.editStep (.write plan)) := by
  simp only [editStep]
  unfold write
  cases hwrite : FileSystem.write w.disk plan.path plan.content with
  | ok disk => exact .written plan disk hwrite
  | error e =>
      refine .unwritten plan _ fun disk hdisk => ?_
      rw [hwrite] at hdisk
      contradiction

theorem editStep_stageStep {stage : EditStage} (h : Ready w stage) :
    StageStep w stage (w.editStep stage) := by
  cases stage with
  | snapshot target => exact stageStep_snapshot w target
  | write plan => exact stageStep_write w plan
  | reread plan =>
      have hread : w.read plan.path = .ok (.of plan.content) := read_eq_ok_iff.mpr h.1
      simp only [editStep, hread]
      exact .reread plan
  | record plan after =>
      rcases h with ⟨rfl, hrecord⟩
      have hrecorded : w.record (plan.change (.of plan.content)) =
          .ok { w with journal := w.journal ++ [plan.entry] } := by
        have hpath : (plan.change (.of plan.content)).path = plan.path := rfl
        rw [record, hpath, hrecord]
        rfl
      simp only [editStep, hrecorded]
      exact .recorded plan

theorem Ready.next {stage stage' : EditStage} (hready : Ready w stage)
    (hkeeps : KeepsFiles w.disk) (h : StageStep w stage (.next w' stage')) :
    Ready w' stage' := by
  cases h with
  | planned target plan plans => exact ⟨target, plans⟩
  | written plan disk hwrite =>
      rcases hready with ⟨target, hplan⟩
      have hkept := hkeeps.keeps (hplan.overwrites hwrite)
      exact ⟨hkept.holds, hkept.records⟩
  | reread plan => exact ⟨rfl, hready.2⟩

/-!
# One file
-/

theorem runEdit_of_next {stage stage' : EditStage} (h : w.editStep stage = .next w' stage') :
    w.runEdit stage = w'.runEdit stage' := by
  rw [runEdit]
  split
  case h_1 hnext =>
    rw [h] at hnext
    rcases EditProgress.next.inj hnext with ⟨rfl, rfl⟩
    rfl
  case h_2 hfinished =>
    rw [h] at hfinished
    contradiction
  case h_3 hfailed =>
    rw [h] at hfailed
    contradiction

theorem runEdit_of_finished {stage : EditStage} {result : FileEditResult}
    (h : w.editStep stage = .finished w' result) : w.runEdit stage = (w', .ok result) := by
  rw [runEdit]
  split
  case h_1 hnext =>
    rw [h] at hnext
    contradiction
  case h_2 hfinished =>
    rw [h] at hfinished
    rcases EditProgress.finished.inj hfinished with ⟨rfl, rfl⟩
    rfl
  case h_3 hfailed =>
    rw [h] at hfailed
    contradiction

theorem runEdit_of_failed {stage : EditStage} {e : Failure}
    (h : w.editStep stage = .failed e) :
    w.runEdit stage = (w, .error e) := by
  rw [runEdit]
  split
  case h_1 hnext =>
    rw [h] at hnext
    contradiction
  case h_2 hfinished =>
    rw [h] at hfinished
    contradiction
  case h_3 hfailed =>
    rw [h] at hfailed
    rw [EditProgress.failed.inj hfailed]

theorem runEdit_reread {plan : EditPlan} (hkeeps : KeepsFiles w.disk)
    (hready : Ready w (.reread plan)) :
    w.runEdit (.reread plan) =
      ({ w with journal := w.journal ++ [plan.entry] }, .ok (plan.result true)) := by
  have hreread := editStep_stageStep hready
  generalize hprogress : w.editStep (.reread plan) = progress at hreread
  cases hreread with
  | reread =>
      rw [runEdit_of_next hprogress]
      have hrecord := editStep_stageStep (hready.next hkeeps (.reread plan))
      generalize hprogress' :
        w.editStep (.record plan (.of plan.content)) = progress at hrecord
      cases hrecord with
      | recorded => exact runEdit_of_finished hprogress'

/-- The edits of a file are carried out, or nothing happens. -/
theorem runEdit_carriesOut (hkeeps : KeepsFiles w.disk) (target : EditTarget) :
    (exists plan changed w', Plans w target plan changed ∧ CarriesOut w plan changed w' ∧
      w.runEdit (.snapshot target) = (w', .ok (plan.result changed))) ∨
    exists e, Blocked w target ∧ w.runEdit (.snapshot target) = (w, .error e) := by
  have hsnapshot := stageStep_snapshot w target
  generalize hprogress : w.editStep (.snapshot target) = progress at hsnapshot
  cases hsnapshot with
  | refused _ e hopeless =>
      exact Or.inr ⟨e, fun plan changed w' hplan => absurd hplan (hopeless plan changed),
        runEdit_of_failed hprogress⟩
  | idle _ plan plans =>
      exact Or.inl ⟨plan, false, w, plans, .idle, runEdit_of_finished hprogress⟩
  | planned _ plan plans =>
      rw [runEdit_of_next hprogress]
      have hready : Ready w (.write plan) := ⟨target, plans⟩
      have hwrite := stageStep_write w plan
      generalize hprogress' : w.editStep (.write plan) = progress at hwrite
      cases hwrite with
      | unwritten _ e hopeless =>
          refine Or.inr ⟨e, fun plan' changed w' hplan hcarried => ?_,
            runEdit_of_failed hprogress'⟩
          rcases plans.unique hplan with ⟨rfl, rfl⟩
          cases hcarried with
          | writes disk hdisk => exact hopeless disk hdisk
      | written _ disk hdisk =>
          rw [runEdit_of_next hprogress']
          refine Or.inl ⟨plan, true, _, plans, .writes disk hdisk, ?_⟩
          exact runEdit_reread (hkeeps.overwritten (.next .refl (plans.overwrites hdisk)))
            (hready.next hkeeps (.written plan disk hdisk))

/-!
# Several files
-/

/-- Plans for the targets are made and carried out one after the other. -/
inductive Applies : Workspace D -> List EditTarget -> List (EditPlan × Bool) -> Workspace D ->
    Prop where
  | nil (w : Workspace D) : Applies w [] [] w
  | cons {w v u : Workspace D} {target : EditTarget} {targets : List EditTarget}
      {plan : EditPlan} {changed : Bool} {done : List (EditPlan × Bool)}
      (plans : Plans w target plan changed) (carried : CarriesOut w plan changed v)
      (rest : Applies v targets done u) :
      Applies w (target :: targets) ((plan, changed) :: done) u

theorem CarriesOut.unique {plan : EditPlan} {changed : Bool} {v : Workspace D}
    (h : CarriesOut w plan changed w') (h' : CarriesOut w plan changed v) : w' = v := by
  cases h with
  | idle =>
      cases h'
      rfl
  | writes disk hdisk =>
      cases h' with
      | writes disk' hdisk' => rw [Except.ok.inj (hdisk.symm.trans hdisk')]

theorem Applies.concat {targets : List EditTarget} {done : List (EditPlan × Bool)}
    {v : Workspace D} {target : EditTarget} {plan : EditPlan} {changed : Bool}
    (h : Applies w targets done v) (plans : Plans v target plan changed)
    (carried : CarriesOut v plan changed w') :
    Applies w (targets ++ [target]) (done ++ [(plan, changed)]) w' := by
  induction h with
  | nil => exact .cons plans carried (.nil w')
  | cons plans' carried' _ ih => exact .cons plans' carried' (ih plans carried)

/-- What can be done one after the other is done when the edits are run. -/
theorem Applies.runEdits {targets : List EditTarget} {done : List (EditPlan × Bool)}
    (h : Applies w targets done w') (hkeeps : KeepsFiles w.disk) :
    w.runEdits targets = (w', .ok (done.map fun d => d.1.result d.2)) := by
  induction h with
  | nil => rfl
  | @cons w v u target targets plan changed done plans carried rest ih =>
      rcases runEdit_carriesOut hkeeps target with
        ⟨plan', changed', v', hplan, hcarried, hrun⟩ | ⟨e, hblocked, -⟩
      · rcases plans.unique hplan with ⟨rfl, rfl⟩
        cases carried.unique hcarried
        simp only [Workspace.runEdits, hrun, ih (carried.keepsFiles plans hkeeps),
          List.map_cons]
      · exact absurd carried (hblocked plan changed v plans)

/-- The targets are all edited, or those before one for which that is impossible. -/
inductive Ends (w : Workspace D) (targets : List EditTarget) (done : List (EditPlan × Bool))
    (u : Workspace D) : Except Failure (List FileEditResult) -> Prop where
  | completes (applies : Applies w targets done u) :
      Ends w targets done u (.ok (done.map fun d => d.1.result d.2))
  | stops (first rest : List EditTarget) (target : EditTarget) (e : Failure)
      (split : targets = first ++ target :: rest) (applies : Applies w first done u)
      (blocked : Blocked u target) : Ends w targets done u (.error e)

theorem runEdits_ends (hkeeps : KeepsFiles w.disk) (targets : List EditTarget) :
    exists done, Ends w targets done (w.runEdits targets).1 (w.runEdits targets).2 := by
  induction targets generalizing w with
  | nil => exact ⟨[], .completes (.nil w)⟩
  | cons target targets ih =>
      rcases runEdit_carriesOut hkeeps target with
        ⟨plan, changed, v, hplan, hcarried, hrun⟩ | ⟨e, hblocked, hrun⟩
      · rcases ih (hcarried.keepsFiles hplan hkeeps) with ⟨done, hends⟩
        refine ⟨(plan, changed) :: done, ?_⟩
        simp only [runEdits, hrun]
        generalize v.runEdits targets = answer at hends
        rcases answer with ⟨u, answer⟩
        cases hends with
        | completes applies => exact .completes (.cons hplan hcarried applies)
        | stops first rest blocked e split applies hblocked =>
            refine .stops (target :: first) rest blocked e ?_ (.cons hplan hcarried applies)
              hblocked
            rw [split, List.cons_append]
      · refine ⟨[], ?_⟩
        simp only [runEdits, hrun]
        exact .stops [] targets target e rfl (.nil w) hblocked

theorem Applies.journal {targets : List EditTarget} {done : List (EditPlan × Bool)}
    (h : Applies w targets done w') : w'.journal = w.journal ++ recorded done := by
  induction h with
  | nil => exact (List.append_nil _).symm
  | cons plans carried rest ih =>
      rw [ih]
      cases carried with
      | idle => rfl
      | writes => rw [List.append_assoc]; rfl

theorem Applies.paths {targets : List EditTarget} {done : List (EditPlan × Bool)}
    (h : Applies w targets done w') :
    done.map (·.1.path) = targets.map fun target => Root.locate w.root target.name := by
  induction h with
  | nil => rfl
  | cons plans carried rest ih =>
      rw [List.map_cons, List.map_cons, ih,
        carried.root, (locate_eq_ok_iff.mp plans.located).1]

/-!
# Different files
-/

theorem CarriesOut.reads {target : EditTarget} {plan : EditPlan} {changed : Bool}
    (h : CarriesOut w plan changed w') (hplan : Plans w target plan changed)
    (hkeeps : KeepsFiles w.disk) :
    FileSystem.read w'.disk plan.path = .ok (plan.left changed) ∧
      forall q, q.IsNormal -> q ≠ plan.path ->
        FileSystem.read w'.disk q = FileSystem.read w.disk q := by
  cases h with
  | idle => exact ⟨hplan.found, fun _ _ _ => rfl⟩
  | writes disk hwrite =>
      have hkept := hkeeps.keeps (hplan.overwrites hwrite)
      exact ⟨hkept.holds, hkept.others⟩

theorem Plans.of_reads {target : EditTarget} {plan : EditPlan} {changed : Bool}
    (h : Plans w' target plan changed) (hroot : w'.root = w.root)
    (hread : FileSystem.read w'.disk plan.path = FileSystem.read w.disk plan.path) :
    Plans w target plan changed := by
  rcases h with ⟨hlocated, hfound, hedited, hshown, hcount, hcontext⟩
  refine ⟨?_, hread ▸ hfound, hedited, ?_, hcount, hcontext⟩
  · rw [locate, ← hroot]
    exact hlocated
  · rw [hshown, relative, hroot, relative]

/-- Plans made in one workspace have all been carried out, and nothing else has been done. -/
structure Edited (w : Workspace D) (targets : List EditTarget) (done : List (EditPlan × Bool))
    (w' : Workspace D) : Prop where
  planned : List.Forall₂ (fun target d => Plans w target d.1 d.2) targets done
  contents : forall d, d ∈ done -> FileSystem.read w'.disk d.1.path = .ok (d.1.left d.2)
  others : forall q, q.IsNormal -> q ∉ done.map (·.1.path) ->
    FileSystem.read w'.disk q = FileSystem.read w.disk q
  journal : w'.journal = w.journal ++ recorded done

/-- Edits of different files do not see each other. -/
theorem Applies.edited {targets : List EditTarget} {done : List (EditPlan × Bool)}
    (h : Applies w targets done w') (hkeeps : KeepsFiles w.disk)
    (hdistinct : (done.map (·.1.path)).Nodup) : Edited w targets done w' := by
  induction h with
  | nil w => exact ⟨.nil, nofun, fun _ _ _ => rfl, (List.append_nil _).symm⟩
  | @cons w v u target targets plan changed done plans carried rest ih =>
      rw [List.map_cons, List.nodup_cons] at hdistinct
      rcases hdistinct with ⟨hnew, hdistinct⟩
      rcases ih (carried.keepsFiles plans hkeeps) hdistinct with
        ⟨hplanned, hcontents, hothers, hjournal⟩
      rcases carried.reads plans hkeeps with ⟨hleft, hbefore⟩
      constructor
      case planned =>
        refine .cons plans (List.forall₂_iff_zip.mpr ⟨hplanned.length_eq, fun hmem => ?_⟩)
        have hplan := (List.forall₂_iff_zip.mp hplanned).2 hmem
        refine hplan.of_reads carried.root (hbefore _ hplan.isNormal fun heq => hnew ?_)
        exact heq ▸ List.mem_map.mpr ⟨_, (List.of_mem_zip hmem).2, rfl⟩
      case contents =>
        intro d hd
        rcases List.mem_cons.mp hd with rfl | hd
        · rw [hothers plan.path plans.isNormal hnew]
          exact hleft
        · exact hcontents d hd
      case others =>
        intro q hq hmem
        rw [List.map_cons, List.mem_cons, not_or] at hmem
        rw [hothers q hq hmem.2, hbefore q hq hmem.1]
      case journal => exact (Applies.cons plans carried rest).journal

end Workspace
end LanguageClient

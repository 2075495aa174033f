import LanguageClient.Proofs.Path.Display
import LanguageClient.Proofs.Session.EditEndings
import LanguageClient.Proofs.Workspace.Targets

/-!
# Workspace edits stop cleanly

A call that applies a workspace edit is refused before it touches anything, or edits the
files in the order of their paths up to the first that cannot be edited. What it did to the
files before that one stays and is recorded, and it has done nothing else.
-/

namespace LanguageClient

/-!
# Places of files
-/

theorem Root.locate_display {root p : Path} (habsolute : p.isAbsolute = true)
    (htext : Path.IsText p.bytes) : locate root p.display = p.normalize := by
  rcases htext with ⟨text, htext⟩
  have hshown : Path.ofText p.display = p := by
    rcases p with ⟨bytes⟩
    dsimp only at htext
    subst htext
    rw [Path.display, Utf8.display_encode, Path.ofText]
  rw [locate, hshown, Path.join_of_isAbsolute root habsolute]

namespace Workspace

open WorkspaceEdit

variable {D : Type} [FileSystem D]

/-- The first `k` files have been edited, in the order of the entries, and nothing else has
happened; the call ends there because it is done or because the next file cannot be edited. -/
structure StopsAfter (w : Workspace D) (entries : List (Path × List TextEdit))
    (context : EditContext) (k : Nat) (done : List (EditPlan × Bool)) (u : Workspace D)
    (outcome : Outcome) : Prop where
  within : k ≤ entries.length
  places : done.map (·.1.path) = (entries.take k).map (·.1.normalize)
  applies : Applies w ((entries.take k).map (aim context)) done u
  journal : u.journal = w.journal ++ recorded done
  /-- Edits of different files are those of the files as they were. -/
  edited : (entries.map (·.1.normalize)).Nodup ->
    Edited w ((entries.take k).map (aim context)) done u
  blocked : forall e, entries[k]? = some e -> Blocked u (aim context e)
  succeeds : (exists v, outcome = .ok v) <-> k = entries.length
  result : forall v, outcome = .ok v -> exists r, v = .files r ∧
    r.files.map FileEditResult.unsynced = done.map (fun d => d.1.result d.2) ∧
    r.filesChanged = done.countP (·.2) ∧
    r.totalEdits = (entries.map (·.2.length)).sum

theorem Applies.editCounts {w u : Workspace D} {targets : List EditTarget}
    {done : List (EditPlan × Bool)} (h : Applies w targets done u) :
    done.map (·.1.editCount) = targets.map (·.edits.length) := by
  induction h with
  | nil => rfl
  | cons plans _ _ ih => rw [List.map_cons, List.map_cons, ih, plans.editCount]

theorem files_of_unsynced {outcome : Outcome} {v : Value} {results : List FileEditResult}
    (h : outcome.map Value.unsynced = .ok (Value.unsynced (.files ⟨results⟩)))
    (hv : outcome = .ok v) :
    exists r, v = .files r ∧
      r.files.map FileEditResult.unsynced = results.map FileEditResult.unsynced := by
  subst hv
  cases v with
  | files r =>
      refine ⟨r, rfl, ?_⟩
      injection h with h
      injection h with h
      injection h
  | _ => exact nomatch Except.ok.inj h

theorem counts_of_unsynced {r : WorkspaceEditResult} {done : List (EditPlan × Bool)}
    (h : r.files.map FileEditResult.unsynced = done.map fun d => d.1.result d.2) :
    r.filesChanged = done.countP (·.2) ∧ r.totalEdits = (done.map (·.1.editCount)).sum := by
  have hchanged : r.filesChanged =
      (r.files.map FileEditResult.unsynced).countP (·.changed) := by
    rw [List.countP_map]
    rfl
  have hcounts : r.totalEdits =
      ((r.files.map FileEditResult.unsynced).map (·.editCount)).sum := by
    rw [List.map_map]
    rfl
  constructor
  · rw [hchanged, h, List.countP_map]
    rfl
  · rw [hcounts, h, List.map_map]
    rfl

theorem stopsAfter_of_ends {w u : Workspace D} {entries : List (Path × List TextEdit)}
    {context : EditContext} {done : List (EditPlan × Bool)}
    {answer : Except Failure (List FileEditResult)} {outcome : Outcome}
    (hkeeps : KeepsFiles w.disk)
    (habsolute : forall e, e ∈ entries -> e.1.isAbsolute = true)
    (htext : forall e, e ∈ entries -> Path.IsText e.1.bytes)
    (h : Ends w (entries.map (aim context)) done u answer)
    (houtcome : outcome.map Value.unsynced =
      answer.map fun results => Value.unsynced (.files ⟨results⟩)) :
    exists k, StopsAfter w entries context k done u outcome := by
  have hplaces {k : Nat} (happlies : Applies w ((entries.take k).map (aim context)) done u) :
      done.map (·.1.path) = (entries.take k).map (·.1.normalize) := by
    rw [happlies.paths, List.map_map]
    apply List.map_congr_left
    intro e he
    have hmem := List.mem_of_mem_take he
    exact Root.locate_display (habsolute e hmem) (htext e hmem)
  have hedited {k : Nat} (happlies : Applies w ((entries.take k).map (aim context)) done u)
      (hdistinct : (entries.map (·.1.normalize)).Nodup) :
      Edited w ((entries.take k).map (aim context)) done u := by
    apply happlies.edited hkeeps
    rw [hplaces happlies, List.map_take]
    exact hdistinct.sublist (List.take_sublist _ _)
  cases h with
  | completes applies =>
      have happlies : Applies w ((entries.take entries.length).map (aim context)) done u := by
        rwa [List.take_length]
      refine ⟨entries.length, Nat.le_refl _, hplaces happlies, happlies, happlies.journal,
        hedited happlies, ?_, ?_, ?_⟩
      · intro e he
        rw [List.getElem?_eq_none (Nat.le_refl _)] at he
        contradiction
      · refine ⟨fun _ => rfl, fun _ => ?_⟩
        cases outcome with
        | ok v => exact ⟨v, rfl⟩
        | error e => contradiction
      · intro v hv
        rcases files_of_unsynced houtcome hv with ⟨r, rfl, hfiles⟩
        have hresults :
            r.files.map FileEditResult.unsynced = done.map fun d => d.1.result d.2 := by
          rw [hfiles, List.map_map]
          rfl
        rcases counts_of_unsynced hresults with ⟨hchanged, hcounts⟩
        refine ⟨r, rfl, hresults, hchanged, ?_⟩
        rw [hcounts, applies.editCounts, List.map_map]
        rfl
  | stops first rest target e split applies blocked =>
      rcases List.map_eq_append_iff.mp split with ⟨before, behind, rfl, rfl, hbehind⟩
      rcases List.map_eq_cons_iff.mp hbehind with ⟨entry, more, rfl, rfl, rfl⟩
      have htake : (before ++ entry :: more).take before.length = before :=
        List.take_left' rfl
      have happlies : Applies w
          (((before ++ entry :: more).take before.length).map (aim context)) done u := by
        rwa [htake]
      refine ⟨before.length, ?_, hplaces happlies, happlies, happlies.journal,
        hedited happlies, ?_, ?_, ?_⟩
      · rw [List.length_append]
        exact Nat.le_add_right _ _
      · intro e he
        rw [List.getElem?_append_right (Nat.le_refl _), Nat.sub_self] at he
        cases he
        exact blocked
      · cases outcome with
        | ok v => contradiction
        | error e => simp
      · rintro v rfl
        contradiction

end Workspace

namespace Session

open WorkspaceEdit

variable {D : Type} [FileSystem D]

/-!
# Calls
-/

theorem prospect?_targets (w : Workspace D) (targets : List EditTarget) :
    w.prospect? (match targets with
      | [] => .done (.ok (.files ⟨[]⟩))
      | target :: remaining => .editing ⟨remaining, [], true⟩ (.snapshot target)) =
      some ((w.runEdits targets).1,
        (w.runEdits targets).2.map fun results => Value.unsynced (.files ⟨results⟩)) := by
  cases targets with
  | nil => rfl
  | cons target rest =>
      simp only [Workspace.prospect?, Workspace.onward, Workspace.runEdits]
      rcases w.runEdit (.snapshot target) with ⟨v, e | first⟩
      · rfl
      · dsimp only
        rcases v.runEdits rest with ⟨u, e | results⟩ <;> rfl

theorem editTask?_refused {allowed : Bool} {edit : WorkspaceEdit} (context : EditContext)
    (h : allowed = false ∨ edit.Refused) :
    exists e, (Operation.applyWorkspaceEdit edit context).editTask? allowed =
      some (.done (.error e)) := by
  cases allowed with
  | false => exact ⟨_, rfl⟩
  | true =>
      rcases targets_of_refused (h.resolve_left Bool.noConfusion) context with ⟨text, htargets⟩
      refine ⟨.unsupportedEdit text, ?_⟩
      simp only [Operation.editTask?, htargets, if_true]

omit [FileSystem D] in
theorem ready?_beginCall {s : Session D} (edit : WorkspaceEdit) (context : EditContext) :
    (s.beginCall (.applyWorkspaceEdit edit context)).ready? = s.ready? := by
  change (s.addCall.begin s.calls.length (.applyWorkspaceEdit edit context)).ready? = _
  simp only [begin]
  split
  · rcases edit.targets context with e | _ | ⟨target, remaining⟩ <;> rfl
  · rfl

/-- A workspace edit stops cleanly. If no server has to be told, the call comes to its end;
and whenever it has ended, after any course in which nobody else did anything to the
workspace, either it was refused and did nothing, or it has edited the first of its files.
-/
theorem applyWorkspaceEdit_stopsCleanly (s : Session D) (edit : WorkspaceEdit)
    (context : EditContext) (hkeeps : KeepsFiles s.workspace.disk) :
    let id := s.calls.length
    let t := s.beginCall (.applyWorkspaceEdit edit context)
    (s.ready? = none ->
      exists moments u outcome, Solo id t moments u ∧ u.outcome? id = some outcome) ∧
    forall moments u outcome, Solo id t moments u -> u.outcome? id = some outcome ->
      (s.settings.allowWrites = false ∨ edit.Refused ->
        u.workspace = s.workspace ∧ exists e, outcome = .error e) ∧
      forall decoded, s.settings.allowWrites = true -> edit.documentChanges = none ->
        Decodes (edit.changes.getD []) decoded ->
        (forall e, e ∈ decoded -> Path.IsText e.1.bytes) ->
        exists k done, Workspace.StopsAfter s.workspace (Path.sorted decoded) context k done
          u.workspace outcome := by
  intro id t
  have hbegin {task : Task} (htask : (Operation.applyWorkspaceEdit edit context).editTask?
      s.settings.allowWrites = some task) : t.workspace = s.workspace ∧
        t.task? id = some task :=
    beginCall_editTask htask
  constructor
  · intro hready
    have hedits : (Operation.applyWorkspaceEdit edit context).editsFiles = true := rfl
    rcases exists_editTask hedits s.settings.allowWrites with ⟨task, htask⟩
    have hoffline : t.EditsOffline id := by
      refine ⟨(ready?_beginCall edit context).trans hready, task, (hbegin htask).2, ?_⟩
      exact (editing_or_done htask).imp_left fun ⟨job, target, heq⟩ =>
        ⟨job, .snapshot target, heq⟩
    rcases hoffline.exists_ended with ⟨moments, u, outcome, unaided, hended⟩
    exact ⟨moments, u, outcome, Solo.refl.unaided unaided, hended⟩
  · intro moments u outcome solo hended
    constructor
    · intro hrefused
      rcases editTask?_refused context hrefused with ⟨e, htask⟩
      rcases hbegin htask with ⟨hworkspace, htask⟩
      have hdone := solo.ended htask rfl hended
      rcases Prod.mk.inj hdone with ⟨hleft, houtcome⟩
      refine ⟨hleft.symm.trans hworkspace, ?_⟩
      cases outcome with
      | ok v => contradiction
      | error e => exact ⟨e, rfl⟩
    · intro decoded hallowed hflat hdecodes htext
      have htargets := targets_of_decodes hflat hdecodes context
      have habsolute : forall e, e ∈ Path.sorted decoded -> e.1.isAbsolute = true := by
        rintro ⟨p, edits⟩ he
        rcases hdecodes.exists_uri ((Path.sorted_perm decoded).mem_iff.mp he) with
          ⟨uri, -, huri⟩
        exact FileUri.isAbsolute_of_toPath? huri
      have htask :
          (Operation.applyWorkspaceEdit edit context).editTask? s.settings.allowWrites =
          some (match (Path.sorted decoded).map (aim context) with
            | [] => .done (.ok (.files ⟨[]⟩))
            | target :: remaining => .editing ⟨remaining, [], true⟩ (.snapshot target)) := by
        simp only [Operation.editTask?, hallowed, htargets, if_true]
        rcases (Path.sorted decoded).map (aim context) with _ | ⟨target, remaining⟩ <;> rfl
      rcases hbegin htask with ⟨hworkspace, htask⟩
      have hdone := solo.ended htask (prospect?_targets t.workspace _) hended
      rcases Prod.mk.inj hdone with ⟨hleft, houtcome⟩
      rw [hworkspace] at hleft houtcome
      rcases Workspace.runEdits_ends hkeeps ((Path.sorted decoded).map (aim context)) with
        ⟨done, hends⟩
      rw [hleft] at hends
      rcases Workspace.stopsAfter_of_ends hkeeps habsolute
        (fun e he => htext e ((Path.sorted_perm decoded).mem_iff.mp he)) hends
        houtcome.symm with
        ⟨k, hstops⟩
      exact ⟨k, done, hstops⟩

/-- With a server that is ready, too, such a call comes to its end: wherever it has
got to, nothing need happen for that but its own steps and those of connections
that get on by themselves. -/
theorem applyWorkspaceEdit_comesToEnd {settings : Settings} {processId : Nat}
    {workspace : Workspace D} {past moments : List (Moment D)} {s t : Session D}
    (course : Course (Session.new settings processId workspace) past s) (edit : WorkspaceEdit)
    (context : EditContext) :
    let id := s.calls.length
    let b := s.beginCall (.applyWorkspaceEdit edit context)
    Solo id b moments t ->
      exists more u outcome, Unaided id t more u ∧ Solo id b (moments ++ more) u ∧
        u.outcome? id = some outcome := by
  intro id b solo
  rcases course.editCall_comesToEnd rfl solo with ⟨more, u, outcome, unaided, hended⟩
  exact ⟨more, u, outcome, unaided, solo.unaided unaided, hended⟩

/-!
# An edit that stops midway
-/

def fourFiles : Memory :=
  ((((Memory.empty.set (.ofString "/w/a") (some (.file ['x']))).set
    (.ofString "/w/b") (some (.file ['y']))).set
    (.ofString "/w/c") (some (.file ['z']))).set
    (.ofString "/w/d") (some (.file ['t']))).setFault .write (.ofString "/w/c")
      (some (.fails .permissionDenied))

theorem keepsFiles_fourFiles : KeepsFiles fourFiles := by
  refine Memory.keepsFiles fun p => ?_
  have hfault : fourFiles.fault? .record p = none := by
    simp [fourFiles, Memory.setFault, Memory.fault?, Memory.set, Memory.empty,
      Table.get?_insert]
  rw [Memory.failure?, hfault]

theorem applyWorkspaceEdit_stopsCleanly_midway :
    let edit : WorkspaceEdit :=
      ⟨some [("file:///w/d", overwriteFirst ['y']), ("file:///w/c", overwriteFirst ['y']),
        ("file:///w/b", overwriteFirst ['y']), ("file:///w/a", overwriteFirst ['y'])], none⟩
    let decoded :=
      [(Path.ofString "/w/d", overwriteFirst ['y']),
        (Path.ofString "/w/c", overwriteFirst ['y']),
        (Path.ofString "/w/b", overwriteFirst ['y']),
        (Path.ofString "/w/a", overwriteFirst ['y'])]
    KeepsFiles fourFiles ∧
      exists moments u k done,
        Solo 0 ((writable fourFiles).beginCall (.applyWorkspaceEdit edit default)) moments u ∧
          u.outcome? 0 = some (.error (.file .permissionDenied)) ∧
          u.workspace.journal.map (·.path) = [.ofString "/w/a"] ∧
          Workspace.StopsAfter (writable fourFiles).workspace
          (Path.sorted decoded) default k done
            u.workspace (.error (.file .permissionDenied)) := by
  intro edit decoded
  have hcourse : (((writable fourFiles).beginCall (.applyWorkspaceEdit edit default)).proceed
      (List.replicate 7 (.goOn 0))).map
        (fun r => (r.2.outcome? 0, r.2.workspace.journal.map (·.path))) =
      some (some (.error (.file .permissionDenied)), [.ofString "/w/a"]) := by
    cbv
  rcases exists_solo (f := fun u => (u.outcome? 0, u.workspace.journal.map (·.path)))
    hcourse with
    ⟨moments, u, solo, heq⟩
  rcases Prod.mk.inj heq with ⟨hended, hjournal⟩
  have hdecodes : WorkspaceEdit.Decodes (edit.changes.getD []) decoded := by
    refine .cons ⟨?_, rfl⟩ (.cons ⟨?_, rfl⟩ (.cons ⟨?_, rfl⟩ (.cons ⟨?_, rfl⟩ .nil)))
    all_goals decide +kernel
  have htext : forall e, e ∈ decoded -> Path.IsText e.1.bytes := by
    intro e he
    simp only [decoded, List.mem_cons, List.not_mem_nil, or_false] at he
    rcases he with rfl | rfl | rfl | rfl <;> exact ⟨_, rfl⟩
  rcases ((applyWorkspaceEdit_stopsCleanly (writable fourFiles) edit default
    keepsFiles_fourFiles).2 moments u _ solo hended).2 decoded rfl rfl hdecodes htext with
    ⟨k, done, hstops⟩
  exact ⟨keepsFiles_fourFiles, _, u, k, done, solo, hended, hjournal, hstops⟩

end Session
end LanguageClient

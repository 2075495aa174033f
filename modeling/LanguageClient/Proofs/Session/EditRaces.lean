import LanguageClient.Proofs.Session.FileSteps
import LanguageClient.Proofs.Session.Journal

/-!
# Edits at the same time

A call finds a file in one step and writes it in another. Nothing keeps the file for it in
between, and nothing looks whether the file is still as it was found. So as long as only
calls touch the disk, each file holds what the last of them has written there. If every file
is as it was found when it is written, the calls together do what their edits do one after
the other. If one is not, edits may be lost, and the calls that made them still succeed.
-/

namespace LanguageClient

variable {D : Type} [FileSystem D]

/-!
# Rewritings one after the other
-/

def HoldsText (disk : D) (p : Path) : Prop :=
  exists snapshot content, FileSystem.read disk p = .ok snapshot ∧
    snapshot.text? = some content

theorem Keeps.holdsText {disk disk' : D} {p q : Path} {text : Text}
    (h : Keeps disk p text disk')
    (hq : q.IsNormal) (hholds : HoldsText disk q) : HoldsText disk' q := by
  by_cases hsame : q = p
  · exact ⟨.of text, text, hsame ▸ h.holds, rfl⟩
  · rcases hholds with ⟨snapshot, content, hread, htext⟩
    exact ⟨snapshot, content, (h.others q hq hsame).trans hread, htext⟩

theorem Workspace.Plans.holdsText {w : Workspace D} {target : EditTarget} {plan : EditPlan}
    {changed : Bool} (h : Plans w target plan changed) : HoldsText w.disk plan.path := by
  rcases h.edited with ⟨content, htext, -⟩
  exact ⟨plan.before, content, h.found, htext⟩

namespace Rewriting

/-- When the file is written, it is as it was found. -/
def IsTimely (r : Rewriting D) : Prop :=
  FileSystem.read r.met.disk r.plan.path = .ok r.plan.before

theorem plans (r : Rewriting D) : Workspace.Plans r.found r.target r.plan true :=
  Workspace.plans_of_editStep r.planned

theorem overwrites (r : Rewriting D) (h : HoldsText r.met.disk r.plan.path) :
    Overwrites r.met.disk r.plan.path r.plan.content r.left.disk :=
  ⟨r.plans.isNormal, h, r.writes⟩

end Rewriting

inductive RewritesTo (w : Workspace D) : List (Rewriting D) -> D -> Prop where
  | refl : RewritesTo w [] w.disk
  | write {rs : List (Rewriting D)} (r : Rewriting D) (chain : RewritesTo w rs r.met.disk)
      (root : r.found.root = w.root) (holds : HoldsText r.met.disk r.plan.path) :
      RewritesTo w (rs ++ [r]) r.left.disk

section

variable {w : Workspace D} {rs : List (Rewriting D)} {disk : D}

theorem RewritesTo.overwritten (h : RewritesTo w rs disk) : Overwritten w.disk disk := by
  induction h with
  | refl => exact .refl
  | write r _ _ holds ih => exact ih.next (r.overwrites holds)

theorem RewritesTo.replays (h : RewritesTo w rs disk) (hkeeps : KeepsFiles w.disk) {q : Path}
    (hq : q.IsNormal) :
    replay (FileSystem.read w.disk) (rs.map (·.plan.entry)) q = FileSystem.read disk q := by
  induction h with
  | refl => rfl
  | write r chain _ holds ih =>
      have hkept := (hkeeps.overwritten chain.overwritten).keeps (r.overwrites holds)
      rw [List.map_append, List.map_singleton, replay_concat, FileChange.perform]
      by_cases hsame : q = r.plan.entry.path
      · rw [if_pos hsame, hsame]
        exact hkept.holds.symm
      · rw [if_neg hsame, ih, hkept.others q hq hsame]

/-- Rewritings of files that are as they were found do what the edits
do one after the other. -/
theorem RewritesTo.applies (h : RewritesTo w rs disk) (htimely : forall r, r ∈ rs ->
      r.IsTimely) :
    exists w', w'.disk = disk ∧ w'.root = w.root ∧
      Workspace.Applies w (rs.map (·.target)) (rs.map fun r => (r.plan, true)) w' := by
  induction h with
  | refl => exact ⟨w, rfl, rfl, .nil w⟩
  | @write rs r chain root holds ih =>
      rcases ih fun r' hr' => htimely r' (List.mem_append_left _ hr') with
        ⟨v, hdisk, hroot, happlies⟩
      have hfound : FileSystem.read r.met.disk r.plan.path = .ok r.plan.before :=
        htimely r (List.mem_append_right _ List.mem_cons_self)
      have hplans : Workspace.Plans v r.target r.plan true := by
        refine r.plans.of_reads (root.trans hroot.symm) ?_
        rw [r.plans.found, hdisk, hfound]
      refine ⟨{ v with disk := r.left.disk, journal := v.journal ++ [r.plan.entry] }, rfl,
        hroot, ?_⟩
      simp only [List.map_append, List.map_singleton]
      exact happlies.concat hplans (.writes r.left.disk (hdisk ▸ r.writes))

end

/-!
# Calls that go on together
-/

namespace Session

def Found (moments : List (Moment D)) (id : Nat) (target : EditTarget) (found : Workspace D)
    (plan : EditPlan) : Prop :=
  found.editStep (.snapshot target) = .next found (.write plan) ∧
    exists m job, m ∈ moments ∧ m.action = .goOn id ∧ m.before.workspace = found ∧
      m.before.task? id = some (.editing job (.snapshot target))

/-- A call has made a plan at one moment and carried it out at a later one. -/
def Happens (moments : List (Moment D)) (r : Rewriting D) : Prop :=
  exists id before m after, moments = before ++ m :: after ∧
    Found before id r.target r.found r.plan ∧ m.action = .goOn id ∧
    m.before.workspace = r.met ∧ m.after.workspace = r.left ∧ m.carriedOut? = some r.plan

/-- What calls have done to files, and what they are about to do. -/
structure Races (s : Session D) (moments : List (Moment D)) (u : Session D)
    (rs : List (Rewriting D)) : Prop where
  chain : RewritesTo s.workspace rs u.workspace.disk
  root : u.workspace.root = s.workspace.root
  plans : rs.map (·.plan) = moments.filterMap Moment.carriedOut?
  happen : forall r, r ∈ rs -> Happens moments r
  pending : forall id job plan, u.task? id = some (.editing job (.write plan)) ->
    HoldsText u.workspace.disk plan.path ∧
      exists target found, found.root = s.workspace.root ∧ Found moments id target found plan

section

variable {s t u : Session D} {moments : List (Moment D)} {rs : List (Rewriting D)} {a : Action}

theorem Found.later {id : Nat} {target : EditTarget} {found : Workspace D} {plan : EditPlan}
    (h : Found moments id target found plan) (more : List (Moment D)) :
    Found (moments ++ more) id target found plan := by
  rcases h with ⟨hplanned, m, job, hm, hrest⟩
  exact ⟨hplanned, m, job, List.mem_append_left _ hm, hrest⟩

theorem Happens.later {r : Rewriting D} (h : Happens moments r) (more : List (Moment D)) :
    Happens (moments ++ more) r := by
  rcases h with ⟨id, before, m, after, rfl, hrest⟩
  exact ⟨id, before, m, after ++ more, by rw [List.append_assoc, List.cons_append], hrest⟩

theorem Races.pass (h : Races s moments t rs) (hdisk : u.workspace.disk = t.workspace.disk)
    (hroot : u.workspace.root = t.workspace.root)
    (hidle : (⟨t, a, u⟩ : Moment D).carriedOut? = none)
    (hpending : forall id job plan, u.task? id = some (.editing job (.write plan)) ->
      HoldsText t.workspace.disk plan.path ∧ exists target found,
        found.root = s.workspace.root ∧ Found (moments ++ [⟨t, a, u⟩]) id target found plan) :
    Races s (moments ++ [⟨t, a, u⟩]) u rs where
  chain := hdisk ▸ h.chain
  root := hroot.trans h.root
  plans := by
    rw [List.filterMap_append, h.plans, List.filterMap_cons_none hidle]
    exact (List.append_nil _).symm
  happen r hr := (h.happen r hr).later _
  pending := hdisk ▸ hpending

theorem Races.write {id : Nat} {job : EditJob} {plan : EditPlan} (h : Races s moments t rs)
    (hkeeps : KeepsFiles s.workspace.disk)
    (hbefore : t.task? id = some (.editing job (.write plan)))
    (hstep : t.workspace.editStep (.write plan) = .next u.workspace (.reread plan))
    (hafter : u.task? id = some (.editing job (.reread plan)))
    (htasks : forall j task, j ≠ id -> u.task? j = some task -> t.task? j = some task) :
    exists r, Races s (moments ++ [⟨t, .goOn id, u⟩]) u (rs ++ [r]) := by
  rcases h.pending id job plan hbefore with ⟨hholds, target, found, hroot, hfound⟩
  rcases Workspace.write_eq_ok (Workspace.editStep_write_next hstep).1 with ⟨disk, hdisk, hu⟩
  let r : Rewriting D := ⟨target, plan, found, t.workspace, u.workspace, hfound.1, hstep⟩
  have hkept := (hkeeps.overwritten h.chain.overwritten).keeps (r.overwrites hholds)
  have hcarried : (⟨t, .goOn id, u⟩ : Moment D).carriedOut? = some plan := by
    simp only [Moment.carriedOut?, hbefore, Option.bind_some, Task.carriesOut?, hdisk]
  refine ⟨r, ?_⟩
  constructor
  case chain => exact .write r h.chain hroot hholds
  case root => exact (congrArg (·.root) hu).trans h.root
  case plans =>
    rw [List.map_append, List.filterMap_append, h.plans, List.filterMap_cons_some hcarried]
    rfl
  case happen =>
    intro r' hr'
    rcases List.mem_append.mp hr' with hr' | hr'
    · exact (h.happen r' hr').later _
    · cases List.mem_singleton.mp hr'
      exact ⟨id, moments, _, [], rfl, hfound, rfl, rfl, rfl, hcarried⟩
  case pending =>
    intro j job' plan' htask
    by_cases hj : j = id
    · subst hj
      rw [hafter] at htask
      cases htask
    · rcases h.pending j job' plan' (htasks j _ hj htask) with
        ⟨hholds', target', found', hroot', hfound'⟩
      have hnormal := (Workspace.plans_of_editStep hfound'.1).isNormal
      exact ⟨hkept.holdsText hnormal hholds', target', found', hroot', hfound'.later _⟩

theorem Races.act (h : Races s moments t rs) (hkeeps : KeepsFiles s.workspace.disk)
    (hact : t.act a = some u) : exists rs, Races s (moments ++ [⟨t, a, u⟩]) u rs := by
  have hearlier {id : Nat} {job : EditJob} {plan : EditPlan}
      (htask : t.task? id = some (.editing job (.write plan))) :
      HoldsText t.workspace.disk plan.path ∧ exists target found,
        found.root = s.workspace.root ∧
        Found (moments ++ [⟨t, a, u⟩]) id target found plan := by
    rcases h.pending id job plan htask with ⟨hholds, target, found, hroot, hfound⟩
    exact ⟨hholds, target, found, hroot, hfound.later _⟩
  cases fileStep_of_act hact with
  | passes disk root idle tasks =>
      exact ⟨rs, h.pass disk root idle fun id job plan htask =>
        hearlier (tasks id _ rfl htask)⟩
  | plans id job target plan action before step after same tasks =>
      have hidle : (⟨t, a, u⟩ : Moment D).carriedOut? = none := by
        simp only [Moment.carriedOut?, action, before, Option.bind_some, Task.carriesOut?]
      refine ⟨rs, h.pass (congrArg _ same) (congrArg _ same) hidle ?_⟩
      intro j job' plan' htask
      by_cases hj : j = id
      · subst hj
        rw [after] at htask
        cases htask
        exact ⟨(Workspace.plans_of_editStep step).holdsText, target, t.workspace, h.root, step,
          _, job, List.mem_append_right _ List.mem_cons_self, action, rfl, before⟩
      · exact hearlier (tasks j _ hj htask)
  | writes id job plan action before step after tasks =>
      subst action
      rcases h.write hkeeps before step after tasks with ⟨r, hraces⟩
      exact ⟨rs ++ [r], hraces⟩

/-- Over any course, calls rewrite files and do nothing else to them. -/
theorem exists_races {actions : List Action} (hkeeps : KeepsFiles s.workspace.disk)
    (hidle : forall id task, s.task? id = some task -> task.isWriting = false)
    (h : s.proceed actions = some (moments, u)) : exists rs, Races s moments u rs := by
  have hstart : exists rs, Races s [] s rs := by
    refine ⟨[], .refl, rfl, rfl, List.forall_mem_nil _, fun id job plan htask => ?_⟩
    exact nomatch hidle id _ htask
  have hraces := proceed_keeps (motive := fun moments u => exists rs, Races s moments u rs)
    hstart h fun _ ⟨rs, hraces⟩ hact => hraces.act hkeeps hact
  rwa [List.nil_append] at hraces

/-- Whatever calls are under way, each file holds what was written there last. -/
theorem proceed_replays {actions : List Action} (hkeeps : KeepsFiles s.workspace.disk)
    (hidle : forall id task, s.task? id = some task -> task.isWriting = false)
    (h : s.proceed actions = some (moments, u)) {q : Path} (hq : q.IsNormal) :
    replay (FileSystem.read s.workspace.disk)
        ((moments.filterMap Moment.carriedOut?).map EditPlan.entry) q =
      FileSystem.read u.workspace.disk q := by
  rcases exists_races hkeeps hidle h with ⟨rs, hraces⟩
  rw [← hraces.plans, List.map_map]
  exact hraces.chain.replays hkeeps hq

/-- If every file is as it was found when it is written, the calls together leave what their
edits leave one after the other, in the order in which the files are written. -/
theorem proceed_serially {actions : List Action} (hkeeps : KeepsFiles s.workspace.disk)
    (hidle : forall id task, s.task? id = some task -> task.isWriting = false)
    (h : s.proceed actions = some (moments, u))
    (htimely : forall m, m ∈ moments -> forall plan, m.carriedOut? = some plan ->
      FileSystem.read m.before.workspace.disk plan.path = .ok plan.before) :
    exists rs : List (Rewriting D),
      rs.map (·.plan) = moments.filterMap Moment.carriedOut? ∧
      (forall r, r ∈ rs -> Happens moments r) ∧
      exists w, w.disk = u.workspace.disk ∧
        s.workspace.runEdits (rs.map (·.target)) =
          (w, .ok (rs.map fun r => r.plan.result true)) := by
  rcases exists_races hkeeps hidle h with ⟨rs, hraces⟩
  have htimely' (r : Rewriting D) (hr : r ∈ rs) : r.IsTimely := by
    rcases hraces.happen r hr with ⟨id, before, m, after, rfl, -, -, hmet, -, hcarried⟩
    have hm := htimely m (List.mem_append_right _ List.mem_cons_self) r.plan hcarried
    rwa [hmet] at hm
  rcases hraces.chain.applies htimely' with ⟨w, hdisk, -, happlies⟩
  refine ⟨rs, hraces.plans, hraces.happen, w, hdisk, ?_⟩
  rw [happlies.runEdits hkeeps, List.map_map]
  rfl

end

/-- Two calls find a file before either of them writes it. Both succeed, and what the first has
written is lost. -/
theorem not_all_serial :
    ¬ forall (s : Session Memory) (first second : EditTarget) (actions : List Action)
      (moments : List (Moment Memory)) (u : Session Memory),
      KeepsFiles s.workspace.disk -> s.calls = [] ->
      s.proceed (.begin (.applyEdits first.name first.edits first.context) ::
        .begin (.applyEdits second.name second.edits second.context) :: actions) =
          some (moments, u) ->
      (exists r, u.outcome? 0 = some (.ok (.file r)) ∧ r.changed = true) ->
      (exists r, u.outcome? 1 = some (.ok (.file r)) ∧ r.changed = true) ->
      forall q, FileSystem.read u.workspace.disk q =
          FileSystem.read (s.workspace.runEdits [first, second]).1.disk q ∨
        FileSystem.read u.workspace.disk q =
          FileSystem.read (s.workspace.runEdits [second, first]).1.disk q := by
  intro h
  let f := Path.ofString "/w/f"
  let disk := Memory.empty.set f (some (.file ['x']))
  let inserts (text : Text) : EditTarget := ⟨['f'], [⟨⟨⟨0, 0⟩, ⟨0, 0⟩⟩, text⟩], default⟩
  have hrace : ((writable disk).proceed
      [.begin (.applyEdits ['f'] (inserts ['a']).edits default),
        .begin (.applyEdits ['f'] (inserts ['b']).edits default), .goOn 0, .goOn 1, .goOn 0,
        .goOn 0, .goOn 0, .goOn 1, .goOn 1, .goOn 1]).map
        (fun r => (r.2.outcome? 0, r.2.outcome? 1, FileSystem.read r.2.workspace.disk f)) =
      some (some (.ok (.file ⟨['f'], f, 1, true, none⟩)),
        some (.ok (.file ⟨['f'], f, 1, true, none⟩)), .ok (.of ['b', 'x'])) := by
    cbv
  rcases Option.map_eq_some_iff.mp hrace with ⟨⟨moments, u⟩, hproceed, hseen⟩
  simp only [Prod.mk.injEq] at hseen
  rcases hseen with ⟨hfirst, hsecond, hread⟩
  have hkeeps : KeepsFiles (writable disk).workspace.disk := Memory.keepsFiles fun _ => rfl
  have hserial := h (writable disk) (inserts ['a']) (inserts ['b']) _ moments u hkeeps rfl
    hproceed ⟨_, hfirst, rfl⟩ ⟨_, hsecond, rfl⟩ f
  rw [hread] at hserial
  have hab : FileSystem.read ((writable disk).workspace.runEdits
      [inserts ['a'], inserts ['b']]).1.disk f = .ok (.of ['b', 'a', 'x']) := by
    decide +kernel
  have hba : FileSystem.read ((writable disk).workspace.runEdits
      [inserts ['b'], inserts ['a']]).1.disk f = .ok (.of ['a', 'b', 'x']) := by
    decide +kernel
  rw [hab, hba] at hserial
  rcases hserial with hserial | hserial <;> contradiction

end Session
end LanguageClient

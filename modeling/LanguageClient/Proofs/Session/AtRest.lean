import LanguageClient.Proofs.Session.Requests
import LanguageClient.Proofs.Session.Turns

/-!
# Sessions at rest

While no server runs, a session reports that nothing is open and nothing is pending. What it
does not forget at once is what the last server could do: a server that ends by itself
leaves its capabilities behind, until the next start or stop.
-/

namespace LanguageClient

/-- The server of connection `k` has introduced itself, and a call takes
note of what it can do. -/
def Moment.Introduces {D : Type} (k : Nat) (m : Moment D) : Prop :=
  exists id number deadline, m.action = .goOn id ∧
    m.before.task? id = some (.introducing k number deadline) ∧
    m.after.task? id = some (.announcing k)

def Task.isIntroducing : Task -> Bool
  | .introducing .. => true
  | _ => false

theorem Task.isLifecycle_of_isIntroducing {task : Task} (h : task.isIntroducing = true) :
    task.isLifecycle = true := by
  cases task with
  | introducing k number deadline => rfl
  | _ => contradiction

namespace Session

variable {D : Type}

/-!
## Capabilities
-/

/-- Capabilities are known if and only if the server of the current connection
has introduced itself. -/
structure Informed (s : Session D) (moments : List (Moment D)) : Prop where
  known : s.capabilities ≠ none <->
    exists k, s.current = some k ∧ exists m, m ∈ moments ∧ m.Introduces k
  bounded : forall k m, m ∈ moments -> m.Introduces k -> k < s.connections.length

namespace Informed

variable {s u : Session D} {moments : List (Moment D)} {m : Moment D}

theorem new (settings : Settings) (processId : Nat) (workspace : Workspace D) :
    Informed (Session.new settings processId workspace) [] where
  known := iff_of_false (fun h => h rfl) fun ⟨_, h, _⟩ => nomatch h
  bounded _ _ h := nomatch h

theorem congr (h : Informed s moments) (hcurrent : u.current = s.current)
    (hcapabilities : u.capabilities = s.capabilities)
    (hconnections : u.connections.length = s.connections.length) : Informed u moments where
  known := by
    rw [hcurrent, hcapabilities]
    exact h.known
  bounded := hconnections ▸ h.bounded

theorem skip (h : Informed u moments) (hnone : forall k, ¬ m.Introduces k) :
    Informed u (moments ++ [m]) where
  known := by
    rw [h.known]
    refine exists_congr fun k => and_congr_right fun _ => exists_congr fun m' => ?_
    constructor
    · exact fun ⟨hm', hintroduces⟩ => ⟨List.mem_append_left _ hm', hintroduces⟩
    · rintro ⟨hm', hintroduces⟩
      rcases List.mem_append.mp hm' with hm' | hm'
      · exact ⟨hm', hintroduces⟩
      · rw [List.mem_singleton.mp hm'] at hintroduces
        exact absurd hintroduces (hnone k)
  bounded k m' hm' hintroduces := by
    rcases List.mem_append.mp hm' with hm' | hm'
    · exact h.bounded k m' hm' hintroduces
    · rw [List.mem_singleton.mp hm'] at hintroduces
      exact absurd hintroduces (hnone k)

theorem forget (h : Informed s moments) (hcurrent : u.current = none)
    (hcapabilities : u.capabilities = none)
    (hconnections : u.connections.length = s.connections.length) : Informed u moments where
  known := by
    rw [hcurrent, hcapabilities]
    exact iff_of_false (fun h => h rfl) fun ⟨_, h, _⟩ => nomatch h
  bounded := hconnections ▸ h.bounded

theorem launch (h : Informed s moments) (hcurrent : u.current = some s.connections.length)
    (hcapabilities : u.capabilities = none)
    (hconnections : u.connections.length = s.connections.length + 1) : Informed u moments where
  known := by
    rw [hcurrent, hcapabilities]
    refine iff_of_false (fun h => h rfl) ?_
    rintro ⟨k, hk, m, hm, hintroduces⟩
    rw [← Option.some.inj hk] at hintroduces
    exact Nat.lt_irrefl _ (h.bounded _ m hm hintroduces)
  bounded k m hm hintroduces := hconnections ▸ Nat.lt_succ_of_lt (h.bounded k m hm hintroduces)

theorem learn (h : Informed s moments) {k : Nat} (hcurrent : u.current = some k) {v : Json}
    (hcapabilities : u.capabilities = some v) (hlt : k < u.connections.length)
    (hconnections : u.connections.length = s.connections.length)
    (hintroduces : m.Introduces k) (honly : forall j, m.Introduces j -> j = k) :
    Informed u (moments ++ [m]) where
  known := by
    rw [hcurrent, hcapabilities]
    exact iff_of_true (fun h => nomatch h)
      ⟨k, rfl, m, List.mem_append_right _ List.mem_cons_self, hintroduces⟩
  bounded j m' hm' hj := by
    rcases List.mem_append.mp hm' with hm' | hm'
    · exact hconnections ▸ h.bounded j m' hm' hj
    · rw [List.mem_singleton.mp hm'] at hj
      exact honly j hj ▸ hlt

end Informed

theorem not_introduces_of_action {m : Moment D} (h : forall id, m.action ≠ .goOn id)
    (k : Nat) :
    ¬ m.Introduces k := by
  rintro ⟨id, _, _, hid, _⟩
  exact h id hid

theorem not_introduces_of_task {s u : Session D} {id : Nat} {call : Call}
    (hcall : s.call? id = some call)
    (h : call.task.isIntroducing = false ∨ forall k, u.task? id ≠ some (.announcing k))
    (k : Nat) :
    ¬ Moment.Introduces k ⟨s, .goOn id, u⟩ := by
  rintro ⟨id', number, deadline, hid, hbefore, hafter⟩
  cases hid
  rcases h with htask | htask
  · rw [Option.some.inj ((task?_of_call? hcall).symm.trans hbefore)] at htask
    contradiction
  · exact htask k hafter

theorem Informed.lifecycle {s : Session D} {moments : List (Moment D)} (h : Informed s moments)
    (horderly : Orderly s) {id : Nat} {call : Call} (hcall : s.call? id = some call)
    {effects : List (Effect D)} (hstep : LifecycleStep s id call call.task effects) :
    Informed (s.undergo id effects) (moments ++ [⟨s, .goOn id, s.undergo id effects⟩]) := by
  have houtline := s.undergo_outline id effects
  have hown : s.lifecycle? id = some call.task := by
    rw [lifecycle?, task?_of_call? hcall]
    exact if_pos hstep.isLifecycle
  have hafter : (s.undergo id effects).task? id =
      (Effect.lastTask? effects).or (s.task? id) := by
    rw [undergo_task? (lt_of_call? hcall), if_pos rfl]
  have hskip {u : Session D} (hinformed : Informed u moments)
      (hnone : forall k, ¬ Moment.Introduces k ⟨s, .goOn id, u⟩) :
      Informed u (moments ++ [⟨s, .goOn id, u⟩]) := hinformed.skip hnone
  generalize hu : s.undergo id effects = u at houtline hafter ⊢
  generalize htask : call.task = task at hstep hown
  have hother (hothers : task.isIntroducing = false) (k : Nat) :
      ¬ Moment.Introduces k ⟨s, .goOn id, u⟩ :=
    not_introduces_of_task hcall (Or.inl (htask ▸ hothers)) k
  -- What is read off the outline when nothing is reset, launched or learned.
  have hsame {turns : List Nat} (heq : u.outline = { s.outline with turns }) :
      Informed u moments := by
    injection heq with _ hcurrent hcapabilities hconnections
    exact h.congr hcurrent hcapabilities hconnections
  have hreset {turns : List Nat}
      (heq : u.outline = ⟨turns, none, none, s.connections.length⟩) : Informed u moments := by
    injection heq with _ hcurrent hcapabilities hconnections
    exact h.forget hcurrent hcapabilities hconnections
  -- Without a current connection, nothing is known.
  have hunknown : (if s.current.isSome then none else s.capabilities) = none := by
    cases hcurrent : s.current with
    | some k => rfl
    | none =>
        cases hcapabilities : s.capabilities with
        | none => rfl
        | some v =>
            rcases h.known.mp (by rw [hcapabilities]; exact Option.some_ne_none v) with
              ⟨k, hk, _⟩
            rw [hcurrent] at hk
            contradiction
  cases hstep with
  | alreadyRunning launch turn alive => exact hskip (hsame houtline) (hother rfl)
  | refused launch reason turn dead =>
      rw [List.foldl_append, foldl_redraw_forgetting, hunknown] at houtline
      exact hskip (hreset houtline) (hother rfl)
  | launched launch turn dead =>
      rw [List.foldl_append, foldl_redraw_forgetting, hunknown] at houtline
      injection houtline with _ hcurrent hcapabilities hconnections
      exact hskip (h.launch hcurrent hcapabilities hconnections) (hother rfl)
  | introduced k number deadline v heard =>
      have hcurrent := horderly.current id _ k hown rfl
      have hbefore : s.task? id = some (.introducing k number deadline) := by
        rw [task?_of_call? hcall, htask]
      injection houtline with _ hcurrent' hcapabilities hconnections
      refine h.learn (hcurrent'.trans hcurrent) hcapabilities
        (hconnections ▸ horderly.bounded k hcurrent) hconnections
        ⟨id, number, deadline, rfl, hbefore, hafter⟩ ?_
      rintro j ⟨id', number', deadline', hid, hbefore', _⟩
      cases hid
      cases Option.some.inj (hbefore.symm.trans hbefore')
      rfl
  | notIntroduced k number deadline reason before givesUp =>
      rw [List.foldl_append, givesUp.foldl_redraw] at houtline
      refine hskip (hsame houtline) (not_introduces_of_task hcall (Or.inr fun j => ?_))
      rw [hafter, Effect.lastTask?_append]
      intro hannouncing
      cases hannouncing
  | announced k heard => exact hskip (hsame houtline) (hother rfl)
  | notAnnounced k reason => exact hskip (hsame houtline) (hother rfl)
  | aborted reason heard => exact hskip (hreset houtline) (hother rfl)
  | nothingToStop force turn idle => exact hskip (hsame houtline) (hother rfl)
  | alreadyEnded force turn dead => exact hskip (hreset houtline) (hother rfl)
  | askedToShutDown force k turn alive => exact hskip (hsame houtline) (hother rfl)
  | cutShort force k turn alive => exact hskip (hsame houtline) (hother rfl)
  | sentExit k force number deadline before givesUp =>
      rw [List.foldl_append, givesUp.foldl_redraw] at houtline
      exact hskip (hsame houtline) (hother rfl)
  | exited k force heard => exact hskip (hsame houtline) (hother rfl)
  | stopped heard => exact hskip (hreset houtline) (hother rfl)

theorem Informed.outline {s u : Session D} {moments : List (Moment D)} (h : Informed s moments)
    (heq : u.outline = s.outline) : Informed u moments := by
  injection heq with _ hcurrent hcapabilities hconnections
  exact h.congr hcurrent hcapabilities hconnections

theorem Informed.moment {m : Moment D} {moments : List (Moment D)}
    (h : Informed m.before moments)
    (horderly : Orderly m.before) (hkind : m.Kind) : Informed m.after (moments ++ [m]) := by
  cases hkind with
  | connection k c c' e hemitted hc halive hproceeds hafter haction =>
      refine Informed.skip ?_ (not_introduces_of_action haction)
      rw [hafter]
      exact h.outline (outline_emit k c' e)
  | begins op effects haction hfirst hafter =>
      refine Informed.skip ?_ (not_introduces_of_action (by simp [haction]))
      have hnone : m.before.calls.length ∉ m.before.turns := by
        apply horderly.not_mem_turns
        rw [lifecycle?, task?, call?, List.getElem?_eq_none (Nat.le_refl _)]
        rfl
      have houtline := m.before.addCall.undergo_outline m.before.calls.length effects
      rw [← hafter] at houtline
      cases hfirst with
      | modest hmodest =>
          rw [foldl_redraw_of_modest hmodest hnone] at houtline
          exact h.outline houtline
      | waits task hwaits heq =>
          rw [heq] at houtline
          injection houtline with _ hcurrent hcapabilities hconnections
          exact h.congr hcurrent hcapabilities hconnections
  | goesOn id call effects haction hcall hstep hafter =>
      rcases m with ⟨s, a, u⟩
      cases haction
      change u = s.undergo id effects at hafter
      subst hafter
      cases hstep with
      | lifecycle step => exact h.lifecycle horderly hcall step
      | modest other hmodest =>
          have hnone : s.lifecycle? id = none := by
            rw [lifecycle?, task?_of_call? hcall, Option.filter_some, other]
            rfl
          refine Informed.skip (h.outline ?_) (not_introduces_of_task hcall (Or.inl ?_))
          · rw [undergo_outline]
            exact foldl_redraw_of_modest hmodest (horderly.not_mem_turns hnone)
          · apply Bool.eq_false_iff.mpr
            intro hintroducing
            rw [Task.isLifecycle_of_isIntroducing hintroducing] at other
            contradiction
  | withdraws id haction hafter =>
      refine Informed.skip ?_ (not_introduces_of_action (by simp [haction]))
      rw [hafter]
      exact h.outline rfl
  | world k f hundisturbed hquiet haction hafter =>
      refine Informed.skip ?_ (not_introduces_of_action haction)
      rw [hafter]
      exact h.outline (m.before.modifyConnection_alike k f).outline
  | elapses ms haction hafter =>
      refine Informed.skip ?_ (not_introduces_of_action (by simp [haction]))
      rw [hafter]
      exact h.outline rfl

theorem Course.informed [FileSystem D] {settings : Settings} {processId : Nat}
    {workspace : Workspace D} {moments : List (Moment D)} {s : Session D}
    (course : Course (Session.new settings processId workspace) moments s) :
    Informed s moments := by
  induction course with
  | refl => exact .new settings processId workspace
  | act course a ha ih => exact ih.moment course.orderly (kind_of_act ha)
  | touch course disk ih => exact ih.outline rfl

/-!
## Reports
-/

def Coherent (s : Session D) : Prop :=
  forall id task, s.task? id = some task -> task.isCoherent = true

theorem Coherent.undergo {s : Session D} (h : Coherent s) {id : Nat}
    (hlt : id < s.calls.length) {effects : List (Effect D)}
    (hlast : forall task, Effect.lastTask? effects = some task -> task.isCoherent = true) :
    Coherent (s.undergo id effects) := by
  intro j task htask
  rcases task?_of_undergo hlt htask with hold | ⟨_, hnew⟩
  · exact h j task hold
  · exact hlast task hnew

theorem isCoherent_of_isModest {task : Task} (h : task.isModest = true) :
    task.isCoherent = true := by
  rw [Task.isModest, Bool.and_eq_true] at h
  exact h.2

theorem Coherent.moment {m : Moment D} (h : Coherent m.before) (horderly : Orderly m.before)
    (hkind : m.Kind) : Coherent m.after := by
  have hsame (htasks : forall id, m.after.task? id = m.before.task? id) : Coherent m.after :=
    fun id task htask => h id task (htasks id ▸ htask)
  cases hkind with
  | connection k c c' e hemitted hc halive hproceeds hafter haction =>
      exact hsame (by rw [hafter]; exact task?_emit k c' e)
  | begins op effects haction hfirst hafter =>
      have hadded : Coherent m.before.addCall := by
        intro id task htask
        rw [task?_addCall] at htask
        split at htask
        · cases htask
          rfl
        · exact h id task htask
      rw [hafter]
      refine hadded.undergo m.before.calls_length_lt_addCall fun task htask => ?_
      cases hfirst with
      | modest hmodest => exact isCoherent_of_isModest (isModest_lastTask hmodest htask)
      | waits task' hwaits heq =>
          rw [heq] at htask
          cases htask
          exact isCoherent_of_isLifecycle (waits_isLifecycle hwaits)
  | goesOn id call effects haction hcall hstep hafter =>
      rw [hafter]
      refine h.undergo (lt_of_call? hcall) fun task htask => ?_
      cases hstep with
      | modest other hmodest => exact isCoherent_of_isModest (isModest_lastTask hmodest htask)
      | lifecycle step =>
          have hown : m.before.lifecycle? id = some call.task := by
            rw [lifecycle?, task?_of_call? hcall]
            exact if_pos step.isLifecycle
          rcases step.comes (fun k hk => horderly.current id _ k hown hk) horderly.bounded with
            ⟨task', hlast, hcomes⟩
          exact Option.some.inj (hlast.symm.trans htask) ▸ hcomes.coherent
  | withdraws id haction hafter =>
      exact hsame (by rw [hafter]; exact m.before.task?_cancelled id)
  | world k f hundisturbed hquiet haction hafter =>
      exact hsame (by rw [hafter]; exact fun _ => rfl)
  | elapses ms haction hafter => exact hsame (by rw [hafter]; exact fun _ => rfl)

theorem Course.coherent [FileSystem D] {settings : Settings} {processId : Nat}
    {workspace : Workspace D} {moments : List (Moment D)} {s : Session D}
    (course : Course (Session.new settings processId workspace) moments s) : Coherent s := by
  induction course with
  | refl =>
      intro id task htask
      simp [Session.new, task?, call?] at htask
  | act course a ha ih => exact ih.moment course.orderly (kind_of_act ha)
  | touch course disk ih => exact ih

/-!
## The whole account
-/

theorem outcome?_beginCall_of_finish [FileSystem D] {s : Session D} {op : Operation}
    {outcome : Outcome}
    (h : s.addCall.begin s.calls.length op = s.addCall.finish s.calls.length outcome) :
    (s.beginCall op).outcome? s.calls.length = some outcome := by
  have htask := apply_task? s.calls_length_lt_addCall (.finish outcome) s.calls.length
  rw [if_pos rfl] at htask
  rw [outcome?_eq_some]
  exact (congrArg (Session.task? · s.calls.length) h).trans htask

/-- What a session none of whose servers runs reports, after the given moments. -/
structure AtRest [FileSystem D] (s : Session D) (moments : List (Moment D)) : Prop where
  status : (s.beginCall .status).outcome? s.calls.length =
    some (.ok (.status ⟨false, false, false, s.settings.serverName, 0, 0⟩))
  capabilities : (s.beginCall .capabilities).outcome? s.calls.length =
    some (.ok (.capabilities s.capabilities))
  /-- The capabilities that are left behind are those of a server that had introduced itself
  and whose connection has neither been stopped nor given up. -/
  known : s.capabilities ≠ none <->
    exists k, s.current = some k ∧ exists m, m ∈ moments ∧ m.Introduces k

/-- Over every course of a new session, a status that says that nothing runs says nothing
else. As long as nothing runs, this status is what everybody gets who asks, and the
capabilities of a server are left if and only if the current connection is that of a server
that had introduced itself. -/
theorem course_atRest [FileSystem D] {settings : Settings} {processId : Nat}
    {workspace : Workspace D} {moments : List (Moment D)} {s : Session D}
    (course : Course (Session.new settings processId workspace) moments s) :
    (forall id r, s.outcome? id = some (.ok (.status r)) -> r.running = false ->
      r.initialized = false ∧ r.process = false ∧ r.openDocuments = 0 ∧
      r.pendingRequests = 0) ∧
    (s.alive? = none -> AtRest s moments) := by
  constructor
  · intro id r houtcome hrunning
    have hcoherent := course.coherent id _ (outcome?_eq_some.mp houtcome)
    simpa [Task.isCoherent, hrunning, and_assoc] using hcoherent
  · intro hdead
    constructor
    case status =>
      apply outcome?_beginCall_of_finish
      have hdead' : s.addCall.alive? = none := hdead
      simp only [begin, hdead']
      rfl
    case capabilities => exact outcome?_beginCall_of_finish rfl
    case known => exact course.informed.known

def lostServer : List Action :=
  [.begin (.start .streams), .goOn 0, .serve 0,
    .receive 0 (framed "\x7b\"id\":1,\"result\":\x7b\"capabilities\":7\x7d\x7d"), .takeIn 0,
    .goOn 0, .serve 0, .goOn 0, .hangUp 0, .takeIn 0]

theorem proceed_lostServer :
    exists moments s,
      Course (Session.new default 0 (Workspace.new default Memory.empty)) moments s ∧
      s.alive? = none ∧ s.capabilities.isSome = true := by
  have hcourse : ((Session.new default 0 (Workspace.new default Memory.empty)).proceed
      lostServer).map (fun (_, s) => (s.alive?, s.capabilities.isSome)) =
        some (none, true) := by
    decide +kernel
  rcases Option.map_eq_some_iff.mp hcourse with ⟨⟨moments, s⟩, hproceed, heq⟩
  rcases Prod.mk.inj heq with ⟨hdead, hknown⟩
  have course := Course.refl.proceed hproceed
  rw [List.nil_append] at course
  exact ⟨moments, s, course, hdead, hknown⟩

theorem course_atRest_lostServer :
    exists moments s,
      Course (Session.new default 0 (Workspace.new default Memory.empty)) moments s ∧
      s.alive? = none ∧ s.capabilities.isSome = true ∧ AtRest s moments := by
  rcases proceed_lostServer with ⟨moments, s, course, hdead, hknown⟩
  exact ⟨moments, s, course, hdead, hknown, (course_atRest course).2 hdead⟩

/-- While nothing runs, capabilities may be left. -/
theorem not_forgotten_with_server :
    ¬ forall (moments : List (Moment Memory)) (s : Session Memory),
      Course (Session.new default 0 (Workspace.new default Memory.empty)) moments s ->
        s.alive? = none -> s.capabilities = none := by
  intro h
  rcases proceed_lostServer with ⟨moments, s, course, hdead, hknown⟩
  rw [h moments s course hdead] at hknown
  contradiction

end Session
end LanguageClient

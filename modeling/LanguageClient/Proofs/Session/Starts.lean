import LanguageClient.Proofs.Session.Exclusion
import LanguageClient.Proofs.Session.Waits

/-!
# What comes of a start

A start that finds a connection alive when it has its turn is refused, and leaves everything
as it is. No other start says that a server is already running. After a stop, a start that
has failed, and the end of a connection nothing is alive, so the next start is not refused.
-/

namespace LanguageClient

variable {D : Type}

/-!
## Answers that say that a server is running
-/

def Answer.failure? : Answer -> Option Failure
  | .response (.error e) | .written (.error e) => some e
  | _ => none

namespace Connection

variable {now : Nat} {c c' : Connection} {e : Emitted} {t : Ticket} {a : Answer}

theorem failure?_teardown (c : Connection) (code : Option Int)
    (h : (t, a) ∈ (c.teardown code).2.answers) :
    a.failure? ≠ some .alreadyRunning := by
  rcases List.mem_append.mp h with h | h
  · rcases List.mem_map.mp h with ⟨_, _, heq⟩
    cases heq
    rw [Answer.failure?, endError]
    split <;> simp
  · rcases List.mem_map.mp h with ⟨_, _, heq⟩
    cases heq
    rintro ⟨⟩

theorem failure?_teardownFor (c : Connection) (t' : Ticket) (code : Option Int)
    (h : (t, a) ∈ (c.teardownFor t' code).2.answers) : a.failure? ≠ some .alreadyRunning := by
  rcases List.mem_cons.mp h with heq | h
  · cases heq
    rintro ⟨⟩
  · exact c.failure?_teardown code h

theorem failure?_write (c : Connection) (out : Outgoing) :
    (c.write out).2 ≠ .error .alreadyRunning := by
  unfold write
  split <;> simp

theorem failure?_serve (c : Connection) (command : Command)
    (h : (t, a) ∈ (serve now c command).2.answers) : a.failure? ≠ some .alreadyRunning := by
  have hanswer {t' : Ticket} {b : Answer} (h : (t, a) ∈ (Emitted.answer t' b).answers)
      (hb : b.failure? ≠ some .alreadyRunning) : a.failure? ≠ some .alreadyRunning := by
    cases List.mem_singleton.mp h
    exact hb
  have hnothing (h : (t, a) ∈ Emitted.nothing.answers) : a.failure? ≠ some .alreadyRunning :=
    absurd h List.not_mem_nil
  cases command with
  | request number method params t' =>
      simp only [serve] at h
      split at h
      · exact hanswer h (by simp [Answer.failure?])
      · have hwrite := failure?_write { c with pending := c.pending.insert number t' }
          (.message (.request number method params))
        split at h
        case h_1 => exact hnothing h
        case h_2 b e heq =>
          rw [heq] at hwrite
          exact hanswer h fun he => hwrite (congrArg Except.error (Option.some.inj he))
  | abandon number =>
      simp only [serve] at h
      split at h <;> exact hnothing h
  | notify message t' =>
      have hwrite := failure?_write c (.message message)
      rcases hresult : c.write (.message message) with ⟨b, r⟩
      rw [hresult] at hwrite
      simp only [serve, hresult] at h
      refine hanswer h fun he => ?_
      cases r with
      | ok => contradiction
      | error e => exact hwrite (congrArg Except.error (Option.some.inj he))
  | sync input t' =>
      simp only [serve] at h
      split at h <;> exact hanswer h (by rintro ⟨⟩)
  | close uri t' =>
      simp only [serve] at h
      split at h <;> exact hanswer h (by rintro ⟨⟩)
  | isOpen uri t' => exact hanswer h (by rintro ⟨⟩)
  | diagnostics uri t' => cases uri <;> exact hanswer h (by rintro ⟨⟩)
  | status t' => exact hanswer h (by rintro ⟨⟩)
  | terminate force t' =>
      simp only [serve] at h
      split at h
      · exact failure?_teardownFor _ t' none h
      · exact hnothing h

theorem failure?_stepCommand (hstep : c.stepCommand now = some (c', e))
    (h : (t, a) ∈ e.answers) :
    a.failure? ≠ some .alreadyRunning := by
  rcases stepCommand_serves hstep with ⟨command, rest, _, _, _, hserve⟩
  rw [← show (serve now { c with commands := rest } command).2 =
    e from congrArg Prod.snd hserve] at h
  exact failure?_serve _ command h

theorem failure?_dispatch (folder : String × String) (c : Connection) (message : Json)
    (h : (t, a) ∈ (dispatch folder c message).2.answers) :
    a.failure? ≠ some .alreadyRunning := by
  unfold dispatch at h
  split at h
  · split at h
    · exact absurd h List.not_mem_nil
    · split at h
      · exact absurd h List.not_mem_nil
      · cases List.mem_singleton.mp h
        rename_i outcome _ _ _ _ _ _
        cases outcome <;> rintro ⟨⟩
  · exact absurd h List.not_mem_nil
  · unfold takeNotification at h
    repeat' split at h
    all_goals exact absurd h List.not_mem_nil
  · exact absurd h List.not_mem_nil

theorem Retires.failure? (hretires : Retires now c c' e) (h : (t, a) ∈ e.answers) :
    a.failure? ≠ some .alreadyRunning := by
  cases hretires with
  | reaps | drains | signals | kills => exact absurd h List.not_mem_nil
  | closes b code => exact failure?_teardown b code h
  | parts code _ t' => exact failure?_teardownFor c t' code h

theorem failure?_stepInbound {folder : String × String}
    (hstep : c.stepInbound now folder = some (c', e)) (h : (t, a) ∈ e.answers) :
    a.failure? ≠ some .alreadyRunning := by
  rcases stepInbound_cases hstep with ⟨message, rest, _, _, _, hdispatch⟩ | ⟨_, hretires⟩
  · rw [← show (dispatch folder { c with inbound := rest } message).2 = e from
      congrArg Prod.snd hdispatch] at h
    exact failure?_dispatch folder _ message h
  · exact hretires.failure? h

end Connection

namespace Session

/-- No call has heard that a server is running, and no start fails for this reason once it
has had its turn. -/
structure Frank (s : Session D) : Prop where
  mail : forall id a, s.mail? id = some a -> a.failure? ≠ some .alreadyRunning
  aborting : forall id, s.task? id ≠ some (.aborting .alreadyRunning)

theorem Frank.new (settings : Settings) (processId : Nat) (workspace : Workspace D) :
    Frank (Session.new settings processId workspace) where
  mail _ _ h := nomatch h
  aborting _ h := nomatch h

variable [FileSystem D]

theorem not_aborting_of_introducing {s u : Session D} {id : Nat} {call : Call}
    {k number deadline : Nat} (hcall : s.call? id = some call)
    (hmail : forall a, call.mailbox = some a -> a.failure? ≠ some .alreadyRunning)
    (htask : call.task = .introducing k number deadline)
    (h : s.stepTask id call call.task = some u) :
    u.task? id ≠ some (.aborting .alreadyRunning) := by
  rcases call.task.exists_wait?_of_request? s.settings (by rw [htask]; rfl) with ⟨w, hwait, _⟩
  rcases waiting_stops hwait h with ⟨answer, before, after, hstops, hu⟩
  rw [hu, hstops.task? hcall, htask]
  intro habort
  cases answer with
  | ok v => cases habort
  | error reason =>
      cases habort
      cases hstops.concludes with
      | renounced failure renounced => cases renounced
      | answered answer kept heard => exact hmail _ heard rfl

theorem not_aborting_of_announcing {s u : Session D} {id : Nat} {call : Call} {k : Nat}
    (hcall : s.call? id = some call)
    (hmail : forall a, call.mailbox = some a -> a.failure? ≠ some .alreadyRunning)
    (h : s.stepTask id call (.announcing k) = some u) :
    u.task? id ≠ some (.aborting .alreadyRunning) := by
  have habort {reason : Failure} (hreason : reason ≠ .alreadyRunning)
      (hu : u = s.undergo id [.condemn k, .ask k (.terminate true) (.aborting reason)]) :
      u.task? id ≠ some (.aborting .alreadyRunning) := by
    rw [hu, undergo_task? (lt_of_call? hcall), if_pos rfl]
    intro heq
    cases heq
    exact hreason rfl
  simp only [stepTask] at h
  split at h
  case h_1 =>
    have hu : u = s.undergo id [.welcome k, .finish (.ok .unit)] := (Option.some.inj h).symm
    rw [hu, undergo_task? (lt_of_call? hcall), if_pos rfl]
    rintro ⟨⟩
  case h_2 e heard =>
    exact habort (fun he => hmail _ heard (congrArg some he)) (Option.some.inj h).symm
  case h_3 => exact habort (by rintro ⟨⟩) (Option.some.inj h).symm
  case h_4 => contradiction

theorem not_aborting_of_step {s u : Session D} {id : Nat} {call : Call}
    (hcall : s.call? id = some call)
    (hmail : forall a, call.mailbox = some a -> a.failure? ≠ some .alreadyRunning)
    (h : s.stepTask id call call.task = some u) :
    u.task? id ≠ some (.aborting .alreadyRunning) := by
  cases hlife : call.task.isLifecycle with
  | false =>
      intro habort
      rcases stepTask_modest hlife h with ⟨effects, hmodest, hu⟩
      rcases task?_of_undergo (lt_of_call? hcall) (hu ▸ habort) with hold | ⟨_, hlast⟩
      · rw [Option.some.inj ((task?_of_call? hcall).symm.trans hold)] at hlife
        contradiction
      · exact nomatch isLifecycle_of_isModest (isModest_lastTask hmodest hlast)
  | true =>
      rcases stepTask_lifecycleStep hlife h with ⟨effects, hstep, hu⟩
      have hlast {last : Task} (hlast : Effect.lastTask? effects = some last)
          (hother : last ≠ .aborting .alreadyRunning) :
          u.task? id ≠ some (.aborting .alreadyRunning) := by
        rw [hu, undergo_task?_self (lt_of_call? hcall) hlast]
        exact fun heq => hother (Option.some.inj heq)
      generalize htask : call.task = task at hstep
      cases hstep with
      | introduced k number deadline v heard =>
          exact not_aborting_of_introducing hcall hmail htask h
      | notIntroduced k number deadline reason before givesUp =>
          exact not_aborting_of_introducing hcall hmail htask h
      | announced k heard => exact not_aborting_of_announcing hcall hmail (htask ▸ h)
      | notAnnounced k reason => exact not_aborting_of_announcing hcall hmail (htask ▸ h)
      | refused | launched | sentExit => exact hlast (Effect.lastTask?_append ..) (by nofun)
      | _ => exact hlast rfl (by nofun)

theorem Frank.mail_next {s u : Session D} {a : Action} (h : Frank s) (hact : s.act a = some u)
    {id : Nat} {answer : Answer} (hmail : u.mail? id = some answer) :
    answer.failure? ≠ some .alreadyRunning := by
  rcases mail?_of_act hact hmail with hold | rfl | ⟨t, ht, _⟩
  · exact h.mail id answer hold
  · rintro ⟨⟩
  · rcases step_of_answers ht with ⟨k, step, c, c', e, haction, _, hstep, hanswer⟩
    cases a with
    | serve j =>
        cases haction
        exact Connection.failure?_stepCommand hstep hanswer
    | takeIn j =>
        cases haction
        exact Connection.failure?_stepInbound hstep hanswer
    | noticeExit j =>
        cases haction
        exact (Connection.stepExit_retires hstep).failure? hanswer
    | expire j =>
        cases haction
        exact (Connection.stepDeadline_retires hstep).failure? hanswer
    | _ => contradiction

theorem Frank.moment {m : Moment D} (h : Frank m.before)
    (hact : m.before.act m.action = some m.after) : Frank m.after where
  mail id a ha := h.mail_next hact ha
  aborting id habort := by
    rcases task?_of_kind (kind_of_act hact) id with hsame | haction | ⟨rfl, op, haction⟩
    · exact h.aborting id (hsame.symm.trans habort)
    · rw [haction] at hact
      simp only [act, stepCall] at hact
      split at hact
      case h_2 => contradiction
      case h_1 call hcall =>
        refine not_aborting_of_step hcall (fun a ha => h.mail id a ?_) hact habort
        rw [mail?, hcall]
        exact ha
    · rw [haction] at hact
      rw [← Option.some.inj hact] at habort
      exact m.before.idle_of_begin op habort ⟨rfl, rfl⟩

theorem Course.frank {settings : Settings} {processId : Nat} {workspace : Workspace D}
    {moments : List (Moment D)} {s : Session D}
    (course : Course (Session.new settings processId workspace) moments s) : Frank s := by
  induction course with
  | refl => exact .new settings processId workspace
  | @act moments t u course a ha ih => exact Frank.moment (m := ⟨t, a, u⟩) ih ha
  | touch course disk ih => exact ⟨ih.mail, ih.aborting⟩

end Session

/-!
## Starting only when nothing is alive
-/

def Session.IsIdle (s : Session D) : Prop :=
  forall k, s.isAlive k = false

namespace Moment

def Starts (id : Nat) (launch : Launch) (m : Moment D) : Prop :=
  m.action = .goOn id ∧ m.before.task? id = some (.starting launch)

def Returns (id : Nat) (outcome : Outcome) (m : Moment D) : Prop :=
  m.before.outcome? id = none ∧ m.after.outcome? id = some outcome

/-- A start is refused because a server is running; no connection, with its documents and
its pending requests, and no other call notices it. -/
structure Refuses (id : Nat) (m : Moment D) : Prop where
  returns : m.Returns id (.error .alreadyRunning)
  connections : m.after.connections = m.before.connections
  current : m.after.current = m.before.current
  capabilities : m.after.capabilities = m.before.capabilities
  others : forall j, id ≠ j -> m.after.call? j = m.before.call? j

/-- A start is accepted: the server cannot be launched, or there is a new connection, over
which the client is introduced. -/
inductive Accepts (id : Nat) (m : Moment D) : Prop where
  | notLaunched (reason : LaunchFailure)
      (returns : m.Returns id (.error (.launch m.before.settings.command reason)))
      (idle : m.after.IsIdle) : Accepts id m
  | launched (number deadline : Nat)
      (introduces : m.after.task? id =
        some (.introducing m.before.connections.length number deadline))
      (current : m.after.current = some m.before.connections.length)
      (alive : forall k, m.after.isAlive k = true <-> k = m.before.connections.length) :
      Accepts id m

end Moment

namespace Session

/-- One server runs at a time. -/
structure RunsOne (moments : List (Moment D)) (s : Session D) : Prop where
  single : forall j k, s.isAlive j = true -> s.isAlive k = true -> j = k
  /-- A start that has its turn is refused if a connection is alive,
  and accepted if none is. -/
  start : forall m, m ∈ moments -> forall id launch, m.Starts id launch ->
    (exists k, m.before.isAlive k = true) ∧ m.Refuses id ∨ m.before.IsIdle ∧ m.Accepts id
  /-- A start says that a server is running only if one is when the start has its turn. -/
  reason : forall m, m ∈ moments -> forall id launch, Began moments id (.start launch) ->
    m.Returns id (.error .alreadyRunning) ->
    (exists launch, m.Starts id launch) ∧ exists k, m.before.isAlive k = true
  stop : forall m, m ∈ moments -> forall id force outcome, Began moments id (.stop force) ->
    m.Returns id outcome -> m.after.IsIdle
  failure : forall m, m ∈ moments -> forall id launch e, Began moments id (.start launch) ->
    m.Returns id (.error e) -> e ≠ .alreadyRunning -> m.after.IsIdle
  ending : forall m, m ∈ moments -> forall k, m.before.isAlive k = true ->
    m.after.isAlive k = false -> m.after.IsIdle
  /-- The next start is accepted. -/
  next : forall earlier m between n later id launch,
    moments = earlier ++ m :: (between ++ n :: later) -> m.after.IsIdle ->
    (forall m', m' ∈ between -> forall j launch, ¬ m'.Starts j launch) -> n.Starts id launch ->
    n.Accepts id

theorem foldl_redraw_connections (id : Nat) (o : Outline) {effects : List (Effect D)}
    (h : forall launched, .launch launched ∉ effects) :
    (effects.foldl (Effect.redraw id) o).connections = o.connections := by
  induction effects generalizing o with
  | nil => rfl
  | cons e rest ih =>
      rw [List.foldl_cons, ih _ fun launched hmem => h launched (List.mem_cons_of_mem _ hmem)]
      cases e with
      | launch launched => exact absurd List.mem_cons_self (h launched)
      | _ => rfl

section

variable [FileSystem D] {settings : Settings} {processId : Nat} {workspace : Workspace D}
  {moments : List (Moment D)} {s : Session D} {m : Moment D}

theorem connections_length_of_act (hact : m.before.act m.action = some m.after) :
    m.after.connections.length = m.before.connections.length ∨
      exists id launch, m.Starts id launch := by
  have heffects {s : Session D} {id : Nat} {effects : List (Effect D)}
      (hafter : m.after = s.undergo id effects)
      (hbefore : s.connections = m.before.connections)
      (h : forall launched, .launch launched ∉ effects) :
      m.after.connections.length = m.before.connections.length := by
    have houtline := congrArg Outline.connections (s.undergo_outline id effects)
    rwa [foldl_redraw_connections id _ h, ← hafter, outline, outline, hbefore] at houtline
  have hmodest {effects : List (Effect D)} (h : forall e, e ∈ effects -> e.isModest = true)
      (launched : Bool) : .launch launched ∉ effects :=
      fun hmem => absurd (h _ hmem) Bool.false_ne_true
  have hkind : m.Kind := kind_of_act hact
  cases hkind with
  | connection k c c' e hemitted hc halive hproceeds hafter haction =>
      exact Or.inl (hafter ▸ congrArg Outline.connections (outline_emit k c' e))
  | begins op effects haction hfirst hafter =>
      refine Or.inl (heffects hafter rfl ?_)
      cases hfirst with
      | modest modest => exact hmodest modest
      | waits task hwaits heq => simp [heq]
  | goesOn id call effects haction hcall hstep hafter =>
      cases hstep with
      | modest other modest => exact Or.inl (heffects hafter rfl (hmodest modest))
      | lifecycle step =>
          have hstart (launch : Launch) (htask : call.task = .starting launch) :
              exists id launch, m.Starts id launch :=
            ⟨id, launch, haction, htask ▸ task?_of_call? hcall⟩
          generalize htask : call.task = task at step
          cases step with
          | alreadyRunning launch | refused launch | launched launch =>
              exact Or.inr (hstart launch htask)
          | notIntroduced k number deadline reason before givesUp
          | sentExit k force number deadline before givesUp =>
              refine Or.inl (heffects hafter rfl fun launched hmem => ?_)
              rcases List.mem_append.mp hmem with hmem | hmem
              · exact givesUp.not_launch launched hmem
              · simp at hmem
          | _ => exact Or.inl (heffects hafter rfl (by simp))
  | withdraws id haction hafter => exact Or.inl (by rw [hafter]; rfl)
  | world k f hundisturbed hquiet haction hafter =>
      exact Or.inl (hafter ▸
        congrArg Outline.connections (m.before.modifyConnection_alike k f).outline)
  | elapses ms haction hafter => exact Or.inl (by rw [hafter])

/-- While no start has its turn, nothing comes alive. -/
theorem IsIdle.course {t u : Session D} (h : t.IsIdle) (course : Course t moments u)
    (hstarts : forall m, m ∈ moments -> forall id launch, ¬ m.Starts id launch) :
    u.IsIdle := by
  induction course with
  | refl => exact h
  | touch course disk ih => exact ih hstarts
  | @act moments u v course a ha ih =>
      intro k
      have hidle := ih fun m hm => hstarts m (List.mem_append_left _ hm)
      have hlast := hstarts ⟨u, a, v⟩ (List.mem_append_right _ (List.mem_singleton_self _))
      have hlength := (connections_length_of_act (m := ⟨u, a, v⟩) ha).resolve_right
        fun ⟨id, launch, hm⟩ => hlast id launch hm
      refine Bool.eq_false_iff.mpr fun halive => ?_
      exact Bool.noConfusion ((hidle k).symm.trans
        (isAlive_of_same_length (m := ⟨u, a, v⟩) (kind_of_act ha).passes hlength halive))

theorem Course.comes_of_starts
    (course : Course (Session.new settings processId workspace) moments m.before)
    (hact : m.before.act m.action = some m.after) {id : Nat} {launch : Launch}
    (h : m.Starts id launch) :
    (exists k, m.before.isAlive k = true) ∧ m.Refuses id ∨ m.before.IsIdle ∧ m.Accepts id := by
  rcases h with ⟨haction, htask⟩
  have hpasses : forall k, m.Passes k := (kind_of_act hact).passes
  have hexclusive : Exclusive m.before := course.exclusive
  rw [haction] at hact
  rcases stepCall_effects hact with ⟨call, effects, hcall, hstep, hafter⟩
  have hlt := lt_of_call? hcall
  have hsame : call.task = .starting launch :=
    Option.some.inj ((task?_of_call? hcall).symm.trans htask)
  have hbefore : m.before.outcome? id = none := by
    cases hnone : m.before.outcome? id with
    | none => rfl
    | some outcome => cases htask.symm.trans (outcome?_eq_some.mp hnone)
  have hlast {last : Task} (hlast : Effect.lastTask? effects = some last) :
      m.after.task? id = some last := by
    rw [hafter, undergo_task?_self hlt hlast]
  have houtline := m.before.undergo_outline id effects
  rw [← hafter] at houtline
  cases hstep with
  | modest other modest =>
      rw [hsame] at other
      contradiction
  | lifecycle step =>
      rw [hsame] at step
      cases step with
      | alreadyRunning launch turn alive =>
          rcases Option.isSome_iff_exists.mp alive with ⟨k, hk⟩
          injection houtline with _ hcurrent hcapabilities _
          refine Or.inl ⟨⟨k, (alive?_eq_some.mp hk).2⟩, ?_⟩
          exact {
            returns := ⟨hbefore, outcome?_eq_some.mpr (hlast rfl)⟩
            connections := by rw [hafter]; rfl
            current := hcurrent
            capabilities := hcapabilities
            others := fun j hj => by rw [hafter, undergo_call?_other _ hj] }
      | refused launch reason turn dead =>
          have hidle : m.before.IsIdle := hexclusive.idle dead
          rw [List.foldl_append, foldl_redraw_forgetting] at houtline
          injection houtline with _ _ _ hlength
          refine Or.inr ⟨hidle, .notLaunched reason ⟨hbefore, outcome?_eq_some.mpr
            (hlast (Effect.lastTask?_append ..))⟩ fun k => Bool.eq_false_iff.mpr fun hk => ?_⟩
          exact Bool.noConfusion
            ((hidle k).symm.trans (isAlive_of_same_length hpasses hlength hk))
      | launched launch turn dead =>
          have hidle : m.before.IsIdle := hexclusive.idle dead
          rw [List.foldl_append, foldl_redraw_forgetting] at houtline
          injection houtline with _ hcurrent _ hlength
          refine Or.inr ⟨hidle, .launched _ _ (hlast (Effect.lastTask?_append ..)) hcurrent
            fun k => ⟨isAlive_of_launch hpasses hidle hlength, ?_⟩⟩
          rintro rfl
          cases hpasses m.before.connections.length with
          | absent before after quiet =>
              have hle := List.getElem?_eq_none_iff.mp after
              rw [hlength] at hle
              exact absurd hle (Nat.not_succ_le_self _)
          | appears c' before after alive mark quiet =>
              exact (isAlive_of_connection? after).trans alive
          | used c c' before after used mark quiet =>
              exact absurd (List.getElem?_eq_some_iff.mp before).1 (Nat.lt_irrefl _)
          | proceeds c c' e emitted before after step alive proceeds spared =>
              exact absurd (List.getElem?_eq_some_iff.mp before).1 (Nat.lt_irrefl _)

theorem Course.step_of_returns
    (course : Course (Session.new settings processId workspace) moments m.before)
    (hact : m.before.act m.action = some m.after) {id : Nat} {outcome : Outcome}
    {op : Operation} (hbegan : Began (moments ++ [m]) id op) (hrole : op.role ≠ .other)
    (hreturns : m.Returns id outcome) :
    exists call effects, m.action = .goOn id ∧ m.before.call? id = some call ∧
      op.Hosts settings call.task ∧ LifecycleStep m.before id call call.task effects ∧
      m.after = m.before.undergo id effects ∧ Effect.lastTask? effects =
      some (.done outcome) := by
  rcases hreturns with ⟨hbefore, hafter⟩
  have htask := outcome?_eq_some.mp hafter
  have hgoing : m.before.task? id ≠ some (.done outcome) := fun hdone => by
    rw [outcome?_eq_some.mpr hdone] at hbefore
    contradiction
  rcases task?_of_kind (kind_of_act hact) id with hsame | haction | ⟨rfl, op', haction⟩
  · exact absurd (hsame.symm.trans htask) hgoing
  · rw [haction] at hact
    rcases stepCall_effects hact with ⟨call, effects, hcall, hstep, hundergo⟩
    rcases course.cast id call.task (task?_of_call? hcall) with ⟨op', hop', hhosts⟩
    cases Option.some.inj ((Began.concat hop' m).symm.trans hbegan)
    have hlast : Effect.lastTask? effects = some (.done outcome) := by
      rcases task?_of_undergo (lt_of_call? hcall) (hundergo ▸ htask) with hold | ⟨_, hlast⟩
      · exact absurd hold hgoing
      · exact hlast
    refine ⟨call, effects, haction, hcall, hhosts, ?_, hundergo, hlast⟩
    cases hstep with
    | lifecycle step => exact step
    | modest other modest =>
        rcases Task.role?_of_user other with hdone | huser
        · rcases Task.eq_done_of_role? hdone with ⟨outcome', hdone⟩
          rw [outcome?_eq_some.mpr (hdone ▸ task?_of_call? hcall)] at hbefore
          contradiction
        · exact absurd (hhosts.role_eq huser) hrole
  · -- A start or a stop that has just begun waits for its turn.
    rw [haction] at hact
    rw [Began, begun_concat, begun_begin haction, ← course.length_begun,
      List.getElem?_concat_length] at hbegan
    cases hbegan
    have hwaits (waiting : Task) (hbegin : m.before.beginCall op =
        m.before.addCall.undergo m.before.calls.length [.lineUp, .rest waiting]) :
        waiting = .done outcome := by
      rw [← Option.some.inj hact, hbegin, undergo_task? m.before.calls_length_lt_addCall,
        if_pos rfl] at htask
      exact Option.some.inj htask
    cases op with
    | start launch => cases hwaits (.starting launch) rfl
    | stop force => cases hwaits (.stopping force) rfl
    | _ => exact absurd rfl hrole

theorem Course.idle_of_returns
    (course : Course (Session.new settings processId workspace) moments m.before)
    (hact : m.before.act m.action = some m.after) {id : Nat} {outcome : Outcome}
    {op : Operation} (hbegan : Began (moments ++ [m]) id op) (hreturns : m.Returns id outcome)
    (hparts : op.role = .stop ∨
      op.role = .start ∧ exists e, outcome = .error e ∧ e ≠ .alreadyRunning) :
    m.after.IsIdle := by
  have hexclusive : Exclusive m.before := course.exclusive
  have hrole : op.role ≠ .other := by
    rcases hparts with h | ⟨h, _⟩ <;> rw [h] <;> rintro ⟨⟩
  rcases course.step_of_returns hact hbegan hrole hreturns with
    ⟨call, effects, _, hcall, hhosts, hstep, hafter, hlast⟩
  have hpasses : forall k, m.Passes k := (kind_of_act hact).passes
  have houtline := m.before.undergo_outline id effects
  rw [← hafter] at houtline
  have hidle (hbefore : m.before.IsIdle)
      (hlength : m.after.connections.length = m.before.connections.length) : m.after.IsIdle :=
    fun k => Bool.eq_false_iff.mpr fun hk =>
      Bool.noConfusion ((hbefore k).symm.trans (isAlive_of_same_length hpasses hlength hk))
  generalize htask : call.task = task at hstep hhosts
  have hparted (hparting : task.isParting = true) (hheard : call.mailbox.isSome = true) :
      m.before.IsIdle := hexclusive.parted hcall (htask ▸ hparting) hheard
  cases hstep with
  | alreadyRunning launch turn alive =>
      cases hlast
      rcases hparts with hstop | ⟨_, e, he, hother⟩
      · cases (hhosts.role_eq rfl).symm.trans hstop
      · cases he
        contradiction
  | refused launch reason turn dead =>
      rw [List.foldl_append, foldl_redraw_forgetting] at houtline
      injection houtline with _ _ _ hlength
      exact hidle (hexclusive.idle dead) hlength
  | announced k heard =>
      cases hlast
      rcases hparts with hstop | ⟨_, e, he, _⟩
      · cases (hhosts.role_eq rfl).symm.trans hstop
      · contradiction
  | aborted reason heard =>
      injection houtline with _ _ _ hlength
      exact hidle (hparted rfl heard) hlength
  | nothingToStop force turn idle =>
      injection houtline with _ _ _ hlength
      refine hidle (hexclusive.idle ?_) hlength
      rw [alive?, idle]
      rfl
  | alreadyEnded force turn dead =>
      injection houtline with _ _ _ hlength
      exact hidle (hexclusive.idle dead) hlength
  | stopped heard =>
      injection houtline with _ _ _ hlength
      exact hidle (hparted rfl heard) hlength
  | launched launch | notIntroduced k number deadline reason before
  | sentExit k force number deadline before =>
      rw [Effect.lastTask?_append] at hlast
      cases hlast
  | _ => cases hlast

theorem Course.starts_of_alreadyRunning
    (course : Course (Session.new settings processId workspace) moments m.before)
    (hact : m.before.act m.action = some m.after) {id : Nat} {launch : Launch}
    (hbegan : Began (moments ++ [m]) id (.start launch))
    (hreturns : m.Returns id (.error .alreadyRunning)) :
    (exists launch, m.Starts id launch) ∧ exists k, m.before.isAlive k = true := by
  rcases course.step_of_returns hact hbegan nofun hreturns with
    ⟨call, effects, haction, hcall, hhosts, hstep, hafter, hlast⟩
  generalize htask : call.task = task at hstep hhosts
  have hbefore : m.before.task? id = some task := htask ▸ task?_of_call? hcall
  cases hstep with
  | alreadyRunning launch turn alive =>
      rcases Option.isSome_iff_exists.mp alive with ⟨k, hk⟩
      exact ⟨⟨launch, haction, hbefore⟩, k, (alive?_eq_some.mp hk).2⟩
  | aborted reason heard =>
      cases hlast
      exact absurd hbefore (course.frank.aborting id)
  | refused launch reason | launched launch | notIntroduced k number deadline reason before
  | sentExit k force number deadline before =>
      rw [Effect.lastTask?_append] at hlast
      exact nomatch hlast
  | _ => exact nomatch hlast

theorem Course.idle_of_ending
    (course : Course (Session.new settings processId workspace) moments m.before)
    (hact : m.before.act m.action = some m.after) {k : Nat}
    (hbefore : m.before.isAlive k = true)
    (hafter : m.after.isAlive k = false) : m.after.IsIdle := by
  have hexclusive : Exclusive m.before := course.exclusive
  rcases connections_length_of_act hact with hlength | ⟨id, launch, hstarts⟩
  · intro j
    cases hj : m.after.isAlive j with
    | false => rfl
    | true =>
        have hlive := isAlive_of_same_length (kind_of_act hact).passes hlength hj
        cases hexclusive.single hlive hbefore
        exact hj.symm.trans hafter
  · rcases course.comes_of_starts hact hstarts with ⟨_, hrefuses⟩ | ⟨hidle, _⟩
    · rw [isAlive, connection?, hrefuses.connections, ← connection?, ← isAlive] at hafter
      cases hbefore.symm.trans hafter
    · cases hbefore.symm.trans (hidle k)

theorem Course.began_of_returns {earlier later : List (Moment D)}
    (course : Course (Session.new settings processId workspace) (earlier ++ [m]) m.after)
    {id : Nat} {outcome : Outcome} {op : Operation} (h : m.Returns id outcome)
    (hbegan : Began (earlier ++ m :: later) id op) : Began (earlier ++ [m]) id op :=
  course.began_of_task? (outcome?_eq_some.mp h.2) (List.append_cons earlier m later ▸ hbegan)

end

/-- Over every course of a new session one server runs at a time, and a start is refused
only because of it. -/
theorem course_runsOne [FileSystem D] {settings : Settings} {processId : Nat}
    {workspace : Workspace D} {moments : List (Moment D)} {s : Session D}
    (course : Course (Session.new settings processId workspace) moments s) :
    RunsOne moments s := by
  have hmoment {m : Moment D} (hm : m ∈ moments) :
      exists earlier later, moments = earlier ++ m :: later ∧
        Course (Session.new settings processId workspace) earlier m.before ∧
          m.before.act m.action = some m.after := by
    rcases List.append_of_mem hm with ⟨earlier, later, rfl⟩
    rcases course.split with ⟨hbefore, hact, _⟩
    exact ⟨earlier, later, rfl, hbefore, hact⟩
  have hreturns {m : Moment D} (hm : m ∈ moments) {id : Nat} {outcome : Outcome}
      {op : Operation} (hbegan : Began moments id op) (h : m.Returns id outcome) :
      exists earlier, Course (Session.new settings processId workspace) earlier m.before ∧
        m.before.act m.action = some m.after ∧ Began (earlier ++ [m]) id op := by
    rcases hmoment hm with ⟨earlier, later, rfl, hbefore, hact⟩
    exact ⟨earlier, hbefore, hact, (hbefore.act m.action hact).began_of_returns h hbegan⟩
  constructor
  case single => exact fun j k => course.exclusive.single
  case start =>
    intro m hm id launch hstarts
    rcases hmoment hm with ⟨earlier, later, _, hbefore, hact⟩
    exact hbefore.comes_of_starts hact hstarts
  case reason =>
    intro m hm id launch hbegan h
    rcases hreturns hm hbegan h with ⟨earlier, hbefore, hact, hbegan⟩
    exact hbefore.starts_of_alreadyRunning hact hbegan h
  case stop =>
    intro m hm id force outcome hbegan h
    rcases hreturns hm hbegan h with ⟨earlier, hbefore, hact, hbegan⟩
    exact hbefore.idle_of_returns hact hbegan h (Or.inl rfl)
  case failure =>
    intro m hm id launch e hbegan h hother
    rcases hreturns hm hbegan h with ⟨earlier, hbefore, hact, hbegan⟩
    exact hbefore.idle_of_returns hact hbegan h (Or.inr ⟨rfl, e, rfl, hother⟩)
  case ending =>
    intro m hm k halive hended
    rcases hmoment hm with ⟨earlier, later, _, hbefore, hact⟩
    exact hbefore.idle_of_ending hact halive hended
  case next =>
    rintro earlier m between n later id launch rfl hidle hquiet hstarts
    rcases course.split with ⟨hbefore, hact, hlater⟩
    rcases hlater.split with ⟨hbetween, hnext, _⟩
    have hcourse := (hbefore.act m.action hact).append hbetween
    rcases hcourse.comes_of_starts hnext hstarts with ⟨⟨k, hk⟩, _⟩ | ⟨_, haccepts⟩
    · exact nomatch hk.symm.trans (hidle.course hbetween hquiet k)
    · exact haccepts

/-- A second start finds the server running; a third one comes after the server has hung up. -/
def restart : List Action :=
  [.begin (.start .streams), .begin (.start .streams), .goOn 0, .serve 0,
    .receive 0 (framed "\x7b\"id\":1,\"result\":null\x7d"), .takeIn 0, .goOn 0, .serve 0,
    .goOn 0, .goOn 1, .hangUp 0, .takeIn 0, .begin (.start .streams), .goOn 2]

theorem course_runsOne_restart :
    exists moments s,
      Course (Session.new (default : Settings) 0 (Workspace.new default Memory.empty))
      moments s ∧
      (s.outcome? 1).bind failure? = some .alreadyRunning ∧ s.isAlive 0 = false ∧
      s.isAlive 1 = true ∧ RunsOne moments s := by
  have hcourse : ((Session.new (default : Settings) 0
      (Workspace.new default Memory.empty)).proceed restart).map (fun (moments, s) =>
        ((s.outcome? 1).bind failure?, s.isAlive 0, s.isAlive 1)) =
      some (some .alreadyRunning, false, true) := by
    decide +kernel
  rcases Option.map_eq_some_iff.mp hcourse with ⟨⟨moments, s⟩, hproceed, heq⟩
  simp only [Prod.mk.injEq] at heq
  rcases heq with ⟨hfailure, hended, halive⟩
  have course := Course.refl.proceed hproceed
  rw [List.nil_append] at course
  exact ⟨moments, s, course, hfailure, hended, halive, course_runsOne course⟩

end Session
end LanguageClient

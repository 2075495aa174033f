import LanguageClient.Proofs.Session.Sendings

/-!
# What ends a wait

A call that waits for an answer stops waiting because its user withdraws the request,
because a response has come in, because the connection has come to its end, or
because the time is over. A call that is prompt follows whichever of these comes
first, and it does so at that time.
-/

namespace LanguageClient

variable {D : Type}

/-- What ends a wait. -/
inductive Cause where
  | withdrawn
  | answered (r : Response)
  | ended
  | expired

def Cause.Brings (w : Wait) (answer : Except Failure Json) : Cause -> Prop
  | .withdrawn => answer = .error (.requestCancelled w.method)
  | .answered r => Answer.ofResponse r = .response answer
  | .ended => exists failure, failure.isEnding = true ∧ answer = .error failure
  | .expired => answer = .error (.requestTimeout w.method w.timeout)

/-- Time `t` is the first at which these moments give call `id` this cause to stop waiting.
When its time is over is fixed from the start. -/
inductive Wait.EndedBy (w : Wait) (id : Nat) (task : Task) (moments : List (Moment D))
    (t : Nat) :
    Cause -> Prop where
  | withdrawn (revocable : task.isRevocable = true)
      (first : (withdrawals id moments).head? = some t) :
      EndedBy w id task moments t .withdrawn
  | answered (r : Response) (first : (responses w.connection w.number moments).head? =
      some (t, r)) :
      EndedBy w id task moments t (.answered r)
  | ended (first : (endings w.connection moments).head? = some t) :
      EndedBy w id task moments t .ended
  | expired (due : w.deadline = t) : EndedBy w id task moments t .expired

namespace Wait.EndedBy

variable {w : Wait} {id : Nat} {task : Task} {first second moments : List (Moment D)}
    {t t' : Nat}
  {cause : Cause} {m : Moment D}

theorem unique (h : w.EndedBy id task moments t cause)
    (h' : w.EndedBy id task moments t' cause) :
    t = t' := by
  cases h with
  | withdrawn revocable hfirst =>
      cases h' with
      | withdrawn revocable' hfirst' => exact Option.some.inj (hfirst.symm.trans hfirst')
  | answered r hfirst =>
      cases h' with
      | answered _ hfirst' =>
          exact congrArg Prod.fst (Option.some.inj (hfirst.symm.trans hfirst'))
  | ended hfirst =>
      cases h' with
      | ended hfirst' => exact Option.some.inj (hfirst.symm.trans hfirst')
  | expired due =>
      cases h' with
      | expired due' => exact due.symm.trans due'

theorem append (h : w.EndedBy id task first t cause) (second : List (Moment D)) :
    w.EndedBy id task (first ++ second) t cause := by
  cases h with
  | withdrawn revocable hfirst =>
      refine .withdrawn revocable ?_
      rw [withdrawals, times_append, List.head?_append, ← withdrawals, hfirst, Option.some_or]
  | answered r hfirst =>
      refine .answered r ?_
      rw [responses_append, List.head?_append, hfirst, Option.some_or]
  | ended hfirst =>
      refine .ended ?_
      rw [endings, times_append, List.head?_append, ← endings, hfirst, Option.some_or]
  | expired due => exact .expired due

theorem exists_of_times {happens : Moment D -> Bool}
    (h : (times happens (first ++ second)).head? = some t) :
    (times happens first).head? = some t ∨ exists m, m ∈ second ∧ m.before.now = t := by
  rw [times_append, List.head?_append, Option.or_eq_some_iff] at h
  refine h.imp_right fun h => ?_
  rcases mem_times.mp (List.mem_of_mem_head? h.2) with ⟨m, hm, _, hnow⟩
  exact ⟨m, hm, hnow⟩

theorem exists_of_append (h : w.EndedBy id task (first ++ second) t cause) :
    w.EndedBy id task first t cause ∨ exists m, m ∈ second ∧ m.before.now = t := by
  cases h with
  | withdrawn revocable hfirst =>
      exact (exists_of_times hfirst).imp_left (.withdrawn revocable)
  | answered r hfirst =>
      rw [responses_append, List.head?_append, Option.or_eq_some_iff] at hfirst
      refine hfirst.imp (.answered r) fun h => ?_
      have hmem := List.mem_of_mem_head? h.2
      split at hmem
      case isTrue =>
        rcases List.mem_filterMap.mp hmem with ⟨m, hm, hresponse⟩
        rcases Option.map_eq_some_iff.mp hresponse with ⟨_, _, heq⟩
        exact ⟨m, hm, congrArg Prod.fst heq⟩
      case isFalse => exact mem_responses hmem
  | ended hfirst => exact (exists_of_times hfirst).imp_left .ended
  | expired due => exact Or.inl (.expired due)

theorem exists_of_concat (h : w.EndedBy id task (moments ++ [m]) t cause) :
    w.EndedBy id task moments t cause ∨ m.before.now = t := by
  refine h.exists_of_append.imp_right ?_
  rintro ⟨m', hm', hnow⟩
  cases List.mem_singleton.mp hm'
  exact hnow

theorem of_pause [FileSystem D] (h : w.EndedBy id task (moments ++ [m]) t cause)
    (hact : m.before.act m.action = some m.after) (hpause : m.pause ≠ 0) :
    w.EndedBy id task moments t cause := by
  have helapses : exists ms, m.action = .elapse ms := by
    rw [Moment.pause] at hpause
    split at hpause
    case h_1 ms haction => exact ⟨ms, haction⟩
    case h_2 => contradiction
  rcases helapses with ⟨ms, haction⟩
  have hnone {happens : Moment D -> Bool} (hm : happens m = false) :
      times happens (moments ++ [m]) = times happens moments := by
    have hnil : times happens [m] = [] := times_eq_nil.mpr (by simp [hm])
    rw [times_append, hnil, List.append_nil]
  cases h with
  | withdrawn revocable hfirst =>
      rw [withdrawals, hnone (by rw [Moment.withdraws, haction])] at hfirst
      exact .withdrawn revocable hfirst
  | answered r hfirst =>
      have hunheard : m.response? w.connection w.number = none := by
        rw [Moment.response?, Moment.hears?, Moment.dispatched?, haction]
        rfl
      have hresponses : responses w.connection w.number [m] = [] := by
        rw [responses]
        split <;> rfl
      rw [responses_append, hresponses, List.filterMap_cons_none hunheard, List.filterMap_nil,
        ite_self, List.append_nil] at hfirst
      exact .answered r hfirst
  | ended hfirst =>
      rw [haction] at hact
      have hsame : m.after.isAlive w.connection = m.before.isAlive w.connection :=
        (Option.some.inj hact) ▸ rfl
      rw [endings, hnone (by rw [Moment.ends, hsame, Bool.and_not_self])] at hfirst
      exact .ended hfirst
  | expired due => exact .expired due

end Wait.EndedBy

namespace Session

/-!
## What a pending request implies
-/

theorem Pending.held_ticket {s : Session D} {k number : Nat} {t : Ticket}
    (h : s.Pending k number t) :
    0 < s.holdings t := by
  rcases h with ht | ht
  · rw [Session.queued] at ht
    cases hc : s.connection? k with
    | none =>
        rw [hc] at ht
        contradiction
    | some c =>
        rw [hc] at ht
        rcases List.mem_filterMap.mp ht with ⟨command, hcommand, hrequest⟩
        cases command with
        | request n method params t' =>
            cases hrequest
            exact holdings_pos_of_waiting (waiting_of_connection? hc ▸ hcommand) rfl
        | _ => contradiction
  · rw [Session.held] at ht
    rcases Option.bind_eq_some_iff.mp ht with ⟨c, hc, hfind⟩
    have htickets : t ∈ c.tickets := List.mem_append_right _ (List.mem_append_left _
      (List.mem_map.mpr ⟨_, Table.mem_of_find? hfind, rfl⟩))
    exact List.count_pos_iff.mpr (List.mem_flatMap.mpr ⟨c, List.mem_of_getElem? hc, htickets⟩)

section

variable [FileSystem D] {settings : Settings} {processId : Nat} {workspace : Workspace D}
  {moments : List (Moment D)} {s : Session D} {k number : Nat} {t : Ticket}

theorem Course.not_written_of_queued
    (course : Course (Session.new settings processId workspace) moments s)
    (h : (number, t) ∈ s.queued k) : isWritten k number moments = false := by
  refine Bool.eq_false_iff.mpr fun hwritten => ?_
  rcases course.registered_of_isWritten hwritten with ⟨t', ht'⟩
  exact course.sound.numbered.queued_fresh k number t h (List.mem_filterMap.mpr ⟨_, ht', rfl⟩)

theorem Course.responses_of_pending
    (course : Course (Session.new settings processId workspace) moments s)
    (h : s.Pending k number t) : responses k number moments = [] := by
  rcases h with ht | ht
  · exact responses_eq_nil (course.not_written_of_queued ht)
  · exact (course.unanswered ht).2

theorem Bygone.not_asks {m : Moment D} {earlier later : List (Moment D)}
    (h : Bygone k number m.before)
    (course : Course (Session.new settings processId workspace) (earlier ++ m :: later) s) :
    (m.letters k).any (Letter.asks number) = false := by
  refine Bool.eq_false_iff.mpr fun hasks => ?_
  rcases course.registered_of_asks hasks with ⟨t, ht⟩
  rcases Moment.served_of_registered ht with ⟨c, method, params, hc, hserved, _⟩
  have hwaits := Moment.waiting_of_served? hserved
  rw [waiting_of_connection? hc] at hwaits
  refine h.queued t ?_
  rw [Session.queued, hc]
  exact Connection.mem_requests hwaits

end

end Session

/-!
## What a waiting call hears
-/

/-- What call `id` has heard of its request: nothing yet, as the request is pending, or the
answer that goes with one of these causes. -/
inductive Wait.Hears (w : Wait) (id : Nat) (task : Task) (moments : List (Moment D))
    (s : Session D) (t : Ticket) : Option Answer -> Prop where
  | nothing (pending : s.Pending w.connection w.number t) : Hears w id task moments s t none
  | answer (spent : t ∈ answered moments) (first : Nat) (cause : Cause)
      (answer : Except Failure Json)
      (ended : w.EndedBy id task moments first cause) (past : first ≤ s.now)
      (brings : cause.Brings w answer) : Hears w id task moments s t (some (.response answer))

structure Wait.Waits (w : Wait) (id : Nat) (task : Task) (since : Nat)
    (moments : List (Moment D)) (s : Session D) (call : Call) : Prop where
  here : s.call? id = some call
  turned : call.task = task
  wait : task.wait? s.settings = some w
  hears : w.Hears id task moments s ⟨id, call.serial⟩ call.mailbox
  kept : forall g, g ∈ moments -> ¬ g.Renounces w.connection w.number
  since_le : since ≤ s.now
  prompt : forall t cause, w.EndedBy id task moments t cause -> s.now ≤ max t since
  after : forall t cause, w.EndedBy id task moments t cause -> cause = .withdrawn ∨ since ≤ t

structure Wait.Stops (w : Wait) (id : Nat) (task : Task) (since : Nat)
    (moments : List (Moment D)) (g : Moment D) (answer : Except Failure Json) : Prop where
  action : g.action = .goOn id
  before : g.before.task? id = some task
  after : g.after.task? id = some (task.concluded answer)
  because : exists t cause, w.EndedBy id task moments t cause ∧ cause.Brings w answer ∧
    g.before.now = max t since ∧
    (cause = .withdrawn ∨ forall t', ¬ w.EndedBy id task moments t' .withdrawn)
  prompt : forall t cause, w.EndedBy id task moments t cause -> g.before.now ≤ max t since
  early : forall t cause, w.EndedBy id task moments t cause -> cause = .withdrawn ∨ since ≤ t

/-- What has become of the wait that followed the first of these moments. -/
inductive Wait.Status (w : Wait) (id : Nat) (task : Task) (since : Nat)
    (first later : List (Moment D)) (s : Session D) : Prop where
  /-- The request will not be written any more. -/
  | lost (bygone : Session.Bygone w.connection w.number s)
      (unwritten : isWritten w.connection w.number (first ++ later) = false)
  | waits (call : Call) (waits : w.Waits id task since (first ++ later) s call)
  | stopped (mid : List (Moment D)) (g : Moment D) (rest : List (Moment D))
      (answer : Except Failure Json) (split : later = mid ++ g :: rest)
      (stops : w.Stops id task since (first ++ mid) g answer)

namespace Wait

variable [FileSystem D] {settings : Settings} {processId : Nat} {workspace : Workspace D}
  {moments : List (Moment D)} {m : Moment D} {id since : Nat} {w : Wait} {task : Task}
  {call : Call}

theorem not_ended_of_pending {s : Session D} {t : Ticket}
    (course : Session.Course (Session.new settings processId workspace) moments s)
    (h : s.Pending w.connection w.number t) {first : Nat} {cause : Cause}
    (hended : w.EndedBy id task moments first cause) :
    cause = .withdrawn ∨ cause = .expired := by
  cases hended with
  | withdrawn => exact Or.inl rfl
  | answered r hfirst =>
      rw [course.responses_of_pending h] at hfirst
      contradiction
  | ended hfirst =>
      rw [course.endings_eq_nil h] at hfirst
      contradiction
  | expired => exact Or.inr rfl

/-!
## Steps
-/

section

variable (course : Session.Course (Session.new settings processId workspace) moments m.before)
  (hact : m.before.act m.action = some m.after)

include course hact

/-- What a call that takes no step hears. A request that gets lost is never written. -/
theorem Waits.hears_next (h : w.Waits id task since moments m.before call)
    (hother : m.action ≠ .goOn id) :
    Session.Bygone w.connection w.number m.after ∧
        isWritten w.connection w.number (moments ++ [m]) = false ∨
      exists call', m.after.call? id = some call' ∧ call'.task = task ∧
        w.Hears id task (moments ++ [m]) m.after ⟨id, call'.serial⟩ call'.mailbox := by
  have honce := course.answered_once hact ⟨id, call.serial⟩
  have hdeals : m.Deals := Session.deals_of_act hact
  have hlater : m.before.now ≤ m.after.now := by
    rw [Session.now_of_act hact]
    exact Nat.le_add_right _ _
  rcases Session.heard_of_deals hdeals h.here hother (by omega) with
    ⟨call', hcall', htask', hserial, hheard, hunheard⟩
  have hgoes (hears : w.Hears id task (moments ++ [m]) m.after
      ⟨id, call.serial⟩ call'.mailbox) :
      exists call', m.after.call? id = some call' ∧ call'.task = task ∧
        w.Hears id task (moments ++ [m]) m.after ⟨id, call'.serial⟩ call'.mailbox :=
    ⟨call', hcall', htask'.trans h.turned, hserial ▸ hears⟩
  have hspent {a : Answer} (ha : (⟨id, call.serial⟩, a) ∈ m.answers) :
      ⟨id, call.serial⟩ ∈ answered (moments ++ [m]) := by
    rw [answered_concat]
    exact List.mem_append_right _ (List.mem_map.mpr ⟨_, ha, rfl⟩)
  generalize hmail : call.mailbox = mailbox at hunheard
  cases hmail ▸ h.hears with
  | nothing pending =>
      cases pending.fate course.sound hdeals with
      | pending still =>
          have hheld := still.held_ticket
          have hnone : ⟨id, call.serial⟩ ∉ m.answers.map Prod.fst :=
            List.count_eq_zero.mp (by omega)
          exact Or.inr (hgoes (by rw [hunheard hnone]; exact .nothing still))
      | lost queued bygone unwritten =>
          refine Or.inl ⟨bygone, ?_⟩
          rw [isWritten_append, course.not_written_of_queued queued, Bool.false_or]
          refine Bool.eq_false_iff.mpr fun hwritten => ?_
          rw [isWritten_cons, isWritten, letters, List.flatMap_nil, List.any_nil,
            Bool.or_false] at hwritten
          have hnext : Session.Course _ (moments ++ m :: []) m.after :=
            course.act m.action hact
          rcases hnext.registered_of_asks hwritten with ⟨t, ht⟩
          exact unwritten t ht
      | answered r held heard answers =>
          rcases course.unanswered held with ⟨hwritten, hnone⟩
          have hfirst : (responses w.connection w.number (moments ++ [m])).head? =
              some (m.before.now, r) := by
            rw [responses_append, hnone, if_pos hwritten, List.filterMap_cons,
              Moment.response?, heard]
            rfl
          refine Or.inr (hgoes ?_)
          rw [hheard _ answers]
          exact .answer (hspent answers) _ _ _ (.answered r hfirst) hlater rfl
      | ended failure ends ending answers =>
          have hfirst : (endings w.connection (moments ++ [m])).head? = some m.before.now := by
            rw [endings, times_append, ← endings, course.endings_eq_nil pending, times,
              List.filter_cons_of_pos ends]
            rfl
          refine Or.inr (hgoes ?_)
          rw [hheard _ answers]
          exact .answer (hspent answers) _ _ _ (.ended hfirst) hlater ⟨failure, ending, rfl⟩
      | abandoned served =>
          rcases (course.waiting_due (Moment.waiting_of_served? served)).abandoned _ rfl with
            ⟨g, hg, hrenounces⟩
          exact absurd hrenounces (h.kept g hg)
  | answer spent first cause answer ended past brings =>
      have hcount := List.count_pos_iff.mpr spent
      have hnone : ⟨id, call.serial⟩ ∉ m.answers.map Prod.fst :=
        List.count_eq_zero.mp (by omega)
      refine Or.inr (hgoes ?_)
      rw [hunheard hnone]
      refine .answer ?_ first cause answer (ended.append _) (Nat.le_trans past hlater) brings
      rw [answered_concat]
      exact List.mem_append_left _ spent

theorem Waits.now_next (h : w.Waits id task since moments m.before call)
    (hprompt : m.isPrompt id = true) {t : Nat} {cause : Cause}
    (hended : w.EndedBy id task (moments ++ [m]) t cause) :
    m.after.now ≤ max t since ∧ (cause = .withdrawn ∨ since ≤ t) := by
  have hnow := Session.now_of_act hact
  by_cases hpause : m.pause = 0
  · have hnow : m.after.now = m.before.now := by rw [hnow, hpause, Nat.add_zero]
    rcases hended.exists_of_concat with hold | hnew
    · exact ⟨hnow ▸ h.prompt t cause hold, h.after t cause hold⟩
    · have hsince := h.since_le
      rw [hnew] at hsince hnow
      exact ⟨hnow ▸ Nat.le_max_left _ _, Or.inr hsince⟩
  · have hold := hended.of_pause hact hpause
    refine ⟨?_, h.after t cause hold⟩
    rcases Moment.waits_of_isPrompt hprompt hpause h.here (h.turned ▸ h.wait) with
      ⟨hkept, hunheard, hdue⟩
    have hears := h.hears
    rw [hunheard] at hears
    cases hears with
    | nothing pending =>
        rcases not_ended_of_pending course pending hold with rfl | rfl
        · cases hold with
          | withdrawn revocable hfirst =>
              rw [(course.withdrawals_eq_nil h.here).mpr
                (hkept (h.turned ▸ revocable))] at hfirst
              contradiction
        · cases hold with
          | expired due =>
              rw [hnow, ← due]
              exact Nat.le_trans hdue (Nat.le_max_left _ _)

theorem Waits.stops (h : w.Waits id task since moments m.before call)
    (haction : m.action = .goOn id) :
    exists answer, w.Stops id task since moments m answer := by
  have hwait : call.task.wait? m.before.settings = some w := h.turned ▸ h.wait
  have hstep : m.before.stepTask id call call.task = some m.after := by
    rw [haction, Session.act, Session.stepCall, h.here] at hact
    exact hact
  rcases Session.waiting_stops hwait hstep with ⟨answer, before, after, hstops, hafter⟩
  have hturned : m.after.task? id = some (task.concluded answer) := by
    rw [hafter, hstops.task? h.here, h.turned]
  have hnow {t : Nat} {cause : Cause} (hended : w.EndedBy id task moments t cause)
      (hle : t ≤ m.before.now) : m.before.now = max t since :=
    Nat.le_antisymm (h.prompt t cause hended) (Nat.max_le.mpr ⟨hle, h.since_le⟩)
  have hunwithdrawn (hkept : call.task.isRevocable = true -> call.cancelled = false)
      (t : Nat) :
      ¬ w.EndedBy id task moments t .withdrawn := by
    intro hended
    cases hended with
    | withdrawn revocable hfirst =>
        rw [(course.withdrawals_eq_nil h.here).mpr (hkept (h.turned ▸ revocable))] at hfirst
        contradiction
  have hanswered {a : Answer} (hmail : call.mailbox = some a)
      (hkept : call.task.isRevocable = true -> call.cancelled = false) :
      exists answer, a = .response answer ∧ exists t cause, w.EndedBy id task moments t cause ∧
        cause.Brings w answer ∧ m.before.now = max t since ∧
        (cause = .withdrawn ∨ forall t', ¬ w.EndedBy id task moments t' .withdrawn) := by
    have hears := h.hears
    rw [hmail] at hears
    cases hears with
    | answer spent first cause answer ended past brings =>
        exact ⟨answer, rfl, first, cause, ended, brings, hnow ended past,
          Or.inr (hunwithdrawn hkept)⟩
  refine ⟨answer, haction, h.turned ▸ Session.task?_of_call? h.here, hturned, ?_, h.prompt,
    h.after⟩
  cases hstops.concludes with
  | renounced failure renounced =>
      cases renounced with
      | withdrawn revocable cancelled =>
          have hwithdrawn : withdrawals id moments ≠ [] := fun hnil => by
            rw [(course.withdrawals_eq_nil h.here).mp hnil] at cancelled
            contradiction
          rcases List.exists_cons_of_ne_nil hwithdrawn with ⟨t, rest, hfirst⟩
          have hended : w.EndedBy id task moments t .withdrawn :=
            .withdrawn (h.turned ▸ revocable) (by rw [hfirst]; rfl)
          have hpast := (course.now_le_of_mem_times (hfirst ▸ List.mem_cons_self)).2
          exact ⟨t, _, hended, rfl, hnow hended hpast, Or.inl rfl⟩
      | expired kept unheard due =>
          have hended : w.EndedBy id task moments w.deadline .expired := .expired rfl
          exact ⟨_, _, hended, rfl, hnow hended due, Or.inr (hunwithdrawn kept)⟩
  | answered answer kept heard =>
      rcases hanswered heard kept with ⟨_, heq, hbecause⟩
      cases heq
      exact hbecause
  | refused a kept heard other =>
      rcases hanswered heard kept with ⟨answer, heq, _⟩
      exact absurd heq (other answer)

omit hact in
theorem Waits.not_renounces (h : w.Waits id task since moments m.before call)
    (hother : m.action ≠ .goOn id) : ¬ m.Renounces w.connection w.number := by
  intro hrenounces
  rcases course.sent_of_renounces hrenounces with ⟨id', haction, hsent⟩
  have hown := course.sent (Session.task?_of_call? h.here)
    (h.turned ▸ Task.request?_of_wait? h.wait)
  rcases course.sound.numbered.sent_unique hsent hown with ⟨rfl, _⟩
  exact hother haction

/-- How things stand from one moment to the next. -/
theorem Status.next {first later : List (Moment D)} (hmoments : moments = first ++ later)
    (h : w.Status id task since first later m.before) (hprompt : m.isPrompt id = true) :
    w.Status id task since first (later ++ [m]) m.after := by
  subst hmoments
  cases h with
  | lost bygone unwritten =>
      refine .lost (bygone.moment course.sound (Session.deals_of_act hact)) ?_
      have hnext : Session.Course _ (first ++ later ++ m :: []) m.after :=
        course.act m.action hact
      have hnot := bygone.not_asks hnext
      rw [← List.append_assoc, isWritten_append, unwritten, Bool.false_or,
        isWritten_cons, hnot]
      rfl
  | waits call hwaits =>
      by_cases haction : m.action = .goOn id
      · rcases hwaits.stops course hact haction with ⟨answer, hstops⟩
        exact .stopped later m [] answer rfl hstops
      · rcases hwaits.hears_next course hact haction with ⟨bygone, unwritten⟩
          | ⟨call', hcall', htask, hears⟩
        · exact .lost bygone (by rwa [← List.append_assoc])
        · refine .waits call' ?_
          rw [← List.append_assoc]
          exact {
            here := hcall'
            turned := htask
            wait := Session.settings_of_act hact ▸ hwaits.wait
            hears
            kept := fun g hg => by
              rcases List.mem_append.mp hg with hg | hg
              · exact hwaits.kept g hg
              · rw [List.mem_singleton.mp hg]
                exact hwaits.not_renounces course haction
            since_le := by
              rw [Session.now_of_act hact]
              exact Nat.le_add_right_of_le hwaits.since_le
            prompt := fun t cause hended => (hwaits.now_next course hact hprompt hended).1
            after := fun t cause hended => (hwaits.now_next course hact hprompt hended).2 }
  | stopped mid g rest answer split stops =>
      refine .stopped mid g (rest ++ [m]) answer ?_ stops
      rw [split, List.append_assoc, List.cons_append]

end

/-!
## Courses
-/

section

variable {s : Session D} {earlier later : List (Moment D)}

theorem status_of_sends
    (course : Session.Course (Session.new settings processId workspace) earlier m.before)
    (hact : m.before.act m.action = some m.after) (h : m.Sends id task w) :
    w.Status id task m.before.now (earlier ++ [m]) [] m.after := by
  rcases h.posted hact with ⟨hnumber, hnext, hheld, call, hcall, htask, hqueued⟩
  have hafter := course.act m.action hact
  have hunwritten : isWritten w.connection w.number (earlier ++ [m]) = false := by
    rw [isWritten_append, isWritten_cons, h.letters_eq_nil hact, hnumber,
      course.not_written_next]
    rfl
  rcases hqueued with ⟨hmail, hqueued⟩ | hqueued
  · refine .waits call ?_
    rw [List.append_nil]
    have hpending : m.after.Pending w.connection w.number ⟨id, call.serial⟩ := Or.inl hqueued
    have hnow := h.now_eq hact
    exact {
      here := hcall
      turned := htask
      wait := h.wait
      hears := hmail ▸ .nothing hpending
      kept := fun g hg => by
        rw [hnumber]
        rcases List.mem_append.mp hg with hg | hg
        · exact course.not_renounces_next _ g hg
        · rw [List.mem_singleton.mp hg]
          intro hrenounces
          rcases course.sent_of_renounces hrenounces with ⟨id', _, hsent⟩
          exact course.not_sent_next id' _ hsent
      since_le := Nat.le_of_eq hnow.symm
      prompt := fun t cause _ => hnow ▸ Nat.le_max_right _ _
      after := fun t cause hended => by
        refine (not_ended_of_pending hafter hpending hended).imp_right ?_
        rintro rfl
        cases hended with
        | expired due =>
            rw [← due, h.deadline hact]
            exact Nat.le_add_right _ _ }
  · refine .lost ⟨?_, fun t ht => ?_, ?_⟩ (by rwa [List.append_nil])
    · rw [hnumber, hnext]
      exact Nat.lt_succ_self _
    · rw [hqueued] at ht
      exact Nat.ne_of_lt (course.sound.numbered.drawn_of_queued ht) hnumber
    · rw [hheld]
      refine Option.eq_none_iff_forall_ne_some.mpr fun t ht => ?_
      have hregistered := ((course.sound.faithful _ _ t).mp ht).registered_mem
      have hsent := course.sound.numbered.taken_sent _ _ _ t hregistered rfl
      exact course.not_sent_next t.call w.connection (hnumber ▸ hsent)

theorem Status.run (h : w.Status id task since earlier [] m.after)
    (course : Session.Course (Session.new settings processId workspace) earlier m.after)
    (hlater : Session.Course m.after later s) (hprompt : forall g, g ∈ later ->
      g.isPrompt id = true) :
    w.Status id task since earlier later s := by
  induction hlater with
  | refl => exact h
  | touch rest disk ih =>
      cases ih hprompt with
      | lost bygone unwritten =>
          exact .lost ⟨bygone.drawn, bygone.queued, bygone.held⟩ unwritten
      | waits call waits =>
          refine .waits call { waits with hears := ?_ }
          have hears := waits.hears
          generalize call.mailbox = mailbox at hears ⊢
          cases hears with
          | nothing pending => exact .nothing pending
          | answer spent first cause answer ended past brings =>
              exact .answer spent first cause answer ended past brings
      | stopped mid g rest answer split stops => exact .stopped mid g rest answer split stops
  | @act moments t u rest a ha ih =>
      have hbefore := ih fun g hg => hprompt g (List.mem_append_left _ hg)
      exact hbefore.next (m := ⟨t, a, u⟩) (course.append rest) ha rfl
        (hprompt _ (List.mem_append_right _ (List.mem_singleton_self _)))

theorem Waits.not_past (h : w.Waits id task since moments s call)
    (course : Session.Course (Session.new settings processId workspace) moments s) {t : Nat}
    {cause : Cause} (hended : w.EndedBy id task moments t cause) :
    ¬ (max t since < s.now ∨ max t since = s.now ∧ s.stepCall id = none) := by
  rintro (hlt | ⟨hnow, hrests⟩)
  · exact Nat.not_lt_of_le (h.prompt t cause hended) hlt
  · rw [Session.stepCall, h.here] at hrests
    refine s.waiting_goesOn id (h.turned ▸ h.wait) ?_ hrests
    rw [h.turned]
    have hears := h.hears
    generalize call.mailbox = mailbox at hears
    cases hears with
    | answer => exact Or.inr (Or.inl (Option.some_ne_none _))
    | nothing pending =>
        rcases not_ended_of_pending course pending hended with rfl | rfl
        · cases hended with
          | withdrawn revocable hfirst =>
              refine Or.inl ⟨revocable, Bool.not_eq_false _ |>.mp fun hkept => ?_⟩
              rw [(course.withdrawals_eq_nil h.here).mpr hkept] at hfirst
              contradiction
        · cases hended with
          | expired due => exact Or.inr (Or.inr (hnow ▸ due ▸ Nat.le_max_left _ _))

omit [FileSystem D] in
/-- Of the causes that come up in time the call follows the first. -/
theorem Stops.follows {rest : List (Moment D)} {answer : Except Failure Json}
    (h : w.Stops id task since moments m answer)
    (hrest : forall g, g ∈ m :: rest -> m.before.now ≤ g.before.now) {t : Nat} {cause : Cause}
    (hended : w.EndedBy id task (moments ++ m :: rest) t cause)
    (hfirst : forall t' cause', w.EndedBy id task (moments ++ m :: rest) t' cause' ->
      cause' ≠ cause -> t < t') :
    cause.Brings w answer ∧ m.before.now = max t since := by
  rcases h.because with ⟨t', cause', hended', hbrings, hnow, hunwithdrawn⟩
  by_cases hcause : cause' = cause
  · subst hcause
    rw [hended.unique (hended'.append _)]
    exact ⟨hbrings, hnow⟩
  · exfalso
    have hlt : t < t' := hfirst t' cause' (hended'.append _) hcause
    have hreached : t' ≤ m.before.now := hnow ▸ Nat.le_max_left _ _
    rcases hended.exists_of_append with hold | ⟨g, hg, rfl⟩
    · -- Had the call missed this cause, it would have come up before the call waited.
      have hle := h.prompt t cause hold
      rcases h.early t cause hold with rfl | hsince
      · exact hunwithdrawn.elim hcause fun hnone => hnone t hold
      · omega
    · exact Nat.lt_irrefl _ (Nat.lt_of_lt_of_le hlt (Nat.le_trans hreached (hrest g hg)))

end

end Wait

/-- Call `id` has stopped waiting at this time, or when it began to wait if that was later,
and come to what this cause brings. -/
def Wait.Follows (w : Wait) (id : Nat) (task : Task) (since : Nat) (later : List (Moment D))
    (s : Session D) (t : Nat) (cause : Cause) : Prop :=
  exists g answer, g ∈ later ∧ g.action = .goOn id ∧ g.before.now = max t since ∧
    g.before.task? id = some task ∧ g.after.task? id = some (task.concluded answer) ∧
    cause.Brings w answer ∧
    (task.isRevocable = true -> s.outcome? id = some (answer.map .json))

/-- Request `number` on connection `k` has been sent by a call that says how long it waits.
Of the causes to stop waiting a prompt call follows the first, as soon as its time is past.
-/
def Session.EndsInTime [FileSystem D] (settings : Settings) (k number : Nat)
    (moments : List (Moment D)) (s : Session D) : Prop :=
  exists earlier m later id task w op, moments = earlier ++ m :: later ∧ m.Sends id task w ∧
    w.connection = k ∧ w.number = number ∧ Began moments id op ∧
    w.timeout = op.patience settings ∧ w.deadline = m.before.now + w.timeout ∧
    ((forall g, g ∈ later -> g.isPrompt id = true) -> forall t cause,
      w.EndedBy id task moments t cause ->
      (forall t' cause', w.EndedBy id task moments t' cause' -> cause' ≠ cause -> t < t') ->
      max t m.before.now < s.now ∨ max t m.before.now = s.now ∧ s.stepCall id = none ->
      w.Follows id task m.before.now later s t cause)

namespace Session

variable [FileSystem D] {settings : Settings} {processId : Nat} {workspace : Workspace D}
  {moments : List (Moment D)} {s : Session D}

theorem Course.follows_first {earlier later : List (Moment D)} {m : Moment D} {id : Nat}
    {task : Task} {w : Wait}
    (course : Course (Session.new settings processId workspace) (earlier ++ m :: later) s)
    (hsends : m.Sends id task w)
    (hwritten : isWritten w.connection w.number (earlier ++ m :: later) = true)
    (hprompt : forall g, g ∈ later -> g.isPrompt id = true) {t : Nat} {cause : Cause}
    (hended : w.EndedBy id task (earlier ++ m :: later) t cause)
    (hfirst : forall t' cause', w.EndedBy id task (earlier ++ m :: later) t' cause' ->
      cause' ≠ cause -> t < t')
    (hpast : max t m.before.now < s.now ∨ max t m.before.now = s.now ∧ s.stepCall id = none) :
    w.Follows id task m.before.now later s t cause := by
  rcases course.split with ⟨hbefore, hact, hlater⟩
  have hsent := hbefore.act m.action hact
  have hstatus := (Wait.status_of_sends hbefore hact hsends).run hsent hlater hprompt
  rw [List.append_cons] at course hwritten hended hfirst
  cases hstatus with
  | lost bygone unwritten =>
      rw [hwritten] at unwritten
      contradiction
  | waits call waits => exact absurd hpast (waits.not_past course hended)
  | stopped mid g rest answer split stops =>
      subst split
      rw [← List.append_assoc] at course hended hfirst
      rcases course.split with ⟨_, hgoes, hrest⟩
      have hlate (g' : Moment D) (hg' : g' ∈ g :: rest) : g.before.now ≤ g'.before.now := by
        rcases List.mem_cons.mp hg' with rfl | hg'
        · exact Nat.le_refl _
        · refine Nat.le_trans ?_ (hrest.now_le.2 g' hg').1
          rw [now_of_act hgoes]
          exact Nat.le_add_right _ _
      rcases stops.follows hlate hended hfirst with ⟨hbrings, hnow⟩
      refine ⟨g, answer, by simp, stops.action, hnow, stops.before, stops.after, hbrings,
        fun hrevocable => ?_⟩
      refine hrest.reaches.outcome? (outcome?_eq_some.mpr ?_)
      rw [stops.after]
      cases task with
      | requesting => rfl
      | _ => contradiction

/-- A call that waits for a request that has been written stops in time. -/
theorem Course.endsInTime (course :
      Course (Session.new settings processId workspace) moments s)
    {k number : Nat} (hwritten : isWritten k number moments = true) :
    EndsInTime settings k number moments s := by
  rcases course.registered_of_isWritten hwritten with ⟨t, ht⟩
  have hsent := course.sound.numbered.taken_sent _ k number t ht rfl
  rcases exists_sends_of_recorded hsent with
    ⟨earlier, m, later, task, w, rfl, hsends, rfl, rfl⟩
  rcases course.split with ⟨hbefore, hact, _⟩
  have hafter := hbefore.act m.action hact
  rcases hafter.patience hsends.turned hsends.wait with ⟨op, hbegan, htimeout⟩
  refine ⟨earlier, m, later, _, task, w, op, rfl, hsends, rfl, rfl, ?_, htimeout,
    hsends.deadline hact, fun hprompt t cause hended hfirst hpast => ?_⟩
  · rw [List.append_cons]
    exact hbegan.append later
  · exact course.follows_first hsends hwritten hprompt hended hfirst hpast

omit [FileSystem D] in
theorem timeout_within_limits (config : Config) (currentDir : Path) :
    1000 ≤ (config.resolve currentDir).defaultTimeoutMs ∧
      (config.resolve currentDir).defaultTimeoutMs ≤ 5 * 60 * 1000 := by
  have hlimit : (config.resolve currentDir).defaultTimeoutMs =
      max 1000 (min config.defaultTimeoutMs (5 * 60 * 1000)) :=
    Limit.clamp_eq (by decide) config.defaultTimeoutMs
  rw [hlimit]
  omega

/-- Over every course of a new session, a call that waits for a request that has been
written stops in time, and servers hear duly of requests that are given up. -/
theorem course_requestsInTime {config : Config} {currentDir : Path}
    (course : Course (Session.new (config.resolve currentDir) processId workspace) moments s) :
    (1000 ≤ (config.resolve currentDir).defaultTimeoutMs ∧
      (config.resolve currentDir).defaultTimeoutMs ≤ 5 * 60 * 1000) ∧
    forall k number,
      (isWritten k number moments = true ->
        EndsInTime (config.resolve currentDir) k number moments s) ∧
      WithdrawsDuly k number moments :=
  ⟨timeout_within_limits config currentDir, fun k number =>
    ⟨course.endsInTime, course.withdrawsDuly k number⟩⟩

/-- A server does not answer within the hundred milliseconds that a call waits at least. -/
def lapse : List Action :=
  [.begin (.start .streams), .goOn 0, .serve 0,
    .receive 0 (framed "\x7b\"id\":1,\"result\":null\x7d"), .takeIn 0, .goOn 0, .serve 0,
    .goOn 0, .begin (.request "m" .null (some 50)), .serve 0, .elapse 100, .goOn 1, .serve 0,
    .elapse 1]

theorem course_requestsInTime_lapse :
    exists moments s,
      Course (Session.new ((default : Config).resolve default) 0
        (Workspace.new default Memory.empty)) moments s ∧
      isWritten 0 2 moments = true ∧ moments.all (Moment.isPrompt 1) = true ∧
      (s.outcome? 1).bind failure? = some (.requestTimeout "m" 100) ∧
      (letters 0 moments).count (.withdrawal 2) = 1 ∧
      EndsInTime ((default : Config).resolve default) 0 2 moments s ∧
      WithdrawsDuly 0 2 moments := by
  have hcourse : ((Session.new ((default : Config).resolve default) 0
      (Workspace.new default Memory.empty)).proceed lapse).map (fun (moments, s) =>
        (isWritten 0 2 moments, moments.all (Moment.isPrompt 1), (s.outcome? 1).bind failure?,
          (letters 0 moments).count (.withdrawal 2))) =
      some (true, true, some (.requestTimeout "m" 100), 1) := by
    decide +kernel
  rcases Option.map_eq_some_iff.mp hcourse with ⟨⟨moments, s⟩, hproceed, heq⟩
  simp only [Prod.mk.injEq] at heq
  rcases heq with ⟨hwritten, hprompt, hfailure, hnotices⟩
  have course := Course.refl.proceed hproceed
  rw [List.nil_append] at course
  have htimely := (course_requestsInTime course).2 0 2
  exact ⟨moments, s, course, hwritten, hprompt, hfailure, hnotices, htimely.1 hwritten,
    htimely.2⟩

end Session
end LanguageClient

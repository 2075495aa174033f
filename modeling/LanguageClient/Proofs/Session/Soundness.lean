import LanguageClient.Proofs.Session.Invariant

/-!
# Every step keeps the invariants

A connection that takes a step, a call that turns to a new task, a server that sends or goes
away: none of them breaks an invariant, and so they hold after every run.
-/

namespace LanguageClient
namespace Session

variable {D : Type}

/-!
## The invariants together
-/

structure Sound (s : Session D) (log : List Happening) : Prop where
  numbered : Numbered s log
  faithful : Faithful s log
  honest : Honest s log

namespace Moved

variable {k : Nat} {c c' : Connection} {answers : List (Ticket × Answer)} {s u : Session D}

theorem queued_before (h : Moved k c c' answers s u) : s.queued k = c.requests := by
  rw [Session.queued, h.before]
  rfl

theorem held_before (h : Moved k c c' answers s u) (number : Nat) :
    s.held k number = c.pending.get? number := by
  rw [Session.held, h.before]
  rfl

theorem queued_same (h : Moved k c c' answers s u) (hqueue : c'.requests = c.requests)
    (j : Nat) :
    u.queued j = s.queued j := by
  rw [h.queued]
  by_cases hj : k = j
  · rw [if_pos hj, hqueue, ← hj, h.queued_before]
  · rw [if_neg hj]

theorem held_same (h : Moved k c c' answers s u)
    (htable : forall m, c'.pending.get? m = c.pending.get? m) (j m : Nat) :
    u.held j m = s.held j m := by
  rw [h.held]
  by_cases hj : k = j
  · rw [if_pos hj, htable, ← hj, h.held_before]
  · rw [if_neg hj]

theorem held_erase (h : Moved k c c' answers s u) {number : Nat}
    (htable : forall m, c'.pending.get? m = if number = m then none else c.pending.get? m)
    (j m : Nat) :
    u.held j m = if (k == j && number == m) = true then none else s.held j m := by
  rw [h.held]
  by_cases hj : k = j
  · subst hj
    rw [if_pos rfl, htable, h.held_before]
    by_cases hm : number = m
    · simp [hm]
    · simp [hm]
  · simp [hj]

end Moved

namespace Sound

variable {s u : Session D} {log : List Happening}

theorem new (settings : Settings) (processId : Nat) (workspace : Workspace D) :
    Sound (Session.new settings processId workspace) [] :=
  ⟨Numbered.new settings processId workspace, Faithful.new settings processId workspace,
    Honest.new settings processId workspace⟩

theorem congr (h : Sound s log) (htask : forall id, u.task? id = s.task? id)
    (hmail : forall id, u.mail? id = s.mail? id) (hnumber : u.nextNumber = s.nextNumber)
    (hqueued : forall k, u.queued k = s.queued k)
    (hheld : forall k number, u.held k number = s.held k number) : Sound u log where
  numbered := h.numbered.shrink hnumber fun k => hqueued k ▸ List.Sublist.refl _
  faithful := h.faithful.congr hheld
  honest := h.honest.deliver htask fun id _ ha => Or.inl (hmail id ▸ ha)

theorem same (h : Sound s log) (hsame : SameRequests s u) : Sound u log :=
  h.congr hsame.task? hsame.mail? hsame.nextNumber hsame.queued hsame.held

theorem turn (h : Sound s log) {id : Nat} {task : Task} (hturned : Turned id task s u)
    {began : List Happening} (hbegan : began = [] ∨ exists op, began = [.began id op])
    (hcontent : forall r, task.carried? = some r -> Settled log id r)
    (hlate : forall k number, .sent id k number ∈ log -> task.isLate = true ∧
      task.request? = none)
    (hquestion : forall op, .began id op ∈ log ++ began -> op.isQuestion = true ->
      task.isQuestion = true) :
    Sound u (log ++ (began ++ u.sending id)) := by
  have hnoted : Numbered s (log ++ began) ∧ Faithful s (log ++ began) := by
    rcases hbegan with rfl | ⟨op, rfl⟩
    · rw [List.append_nil]
      exact ⟨h.numbered, h.faithful⟩
    · exact ⟨h.numbered.note rfl rfl, h.faithful.note rfl fun _ _ => rfl⟩
  constructor
  case numbered =>
    rw [hturned.sending, ← List.append_assoc]
    cases hturned.sends with
    | nothing request nextNumber queued =>
        rw [request]
        simp only [Option.toList_none, List.map_nil, List.append_nil]
        exact hnoted.1.shrink nextNumber fun k => queued k ▸ List.Sublist.refl _
    | request k received request nextNumber queued own =>
        rw [request]
        exact hnoted.1.send nextNumber queued own
  case faithful =>
    rw [hturned.sending, ← List.append_assoc]
    have hall := hnoted.2.congr hturned.held
    cases task.request? with
    | none =>
        simp only [Option.toList_none, List.map_nil, List.append_nil]
        exact hall
    | some r => exact hall.note rfl fun _ _ => rfl
  case honest =>
    refine h.honest.turn hturned ?_ hcontent hlate hquestion
    rcases hbegan with rfl | ⟨op, rfl⟩
    · intro e he
      exact absurd he List.not_mem_nil
    · intro e he
      exact ⟨op, List.mem_singleton.mp he⟩

/-!
## A connection takes a step
-/

section

variable {k number : Nat} {c c' : Connection} {t : Ticket} {answers : List (Ticket × Answer)}

theorem honest_of_plain {log : List Happening} (h : Honest s log)
    (hmoved : Moved k c c' answers s u)
    (hplain : forall a, a ∈ answers -> carried? a.2.outcome = none) : Honest u log := by
  apply h.deliver hmoved.task?
  intro id a ha
  rcases hmoved.mail? id a ha with ha | ⟨t, ht, _⟩
  · exact Or.inl ha
  · apply Or.inr
    intro r hr
    rw [hplain _ ht] at hr
    contradiction

theorem not_held_of_queued (h : Sound s log) (hmoved : Moved k c c' answers s u)
    (hqueue : c.requests = (number, t) :: c'.requests) :
    number ∉ log.filterMap Happening.takenNumber? ∧ c.pending.get? number = none := by
  have hfresh : number ∉ log.filterMap Happening.takenNumber? := by
    apply h.numbered.queued_fresh k number t
    rw [hmoved.queued_before, hqueue]
    exact List.mem_cons_self
  refine ⟨hfresh, ?_⟩
  rw [← hmoved.held_before]
  cases hheld : s.held k number with
  | none => rfl
  | some t' => exact absurd (h.faithful.taken hheld) hfresh

theorem numbered_of_queue (h : Sound s log) (hmoved : Moved k c c' answers s u)
    (hqueue : c'.requests = c.requests) : Numbered u log :=
  h.numbered.shrink hmoved.nextNumber fun j =>
    hmoved.queued_same hqueue j ▸ List.Sublist.refl _

theorem moved_register (h : Sound s log) (hmoved : Moved k c c' [] s u)
    (hqueue : c.requests = (number, t) :: c'.requests)
    (htable : forall m, c'.pending.get? m = if number = m then some t else c.pending.get? m) :
    Sound u (log ++ [.registered k number t]) := by
  constructor
  case numbered =>
    exact h.numbered.take rfl (hmoved.queued_before.trans hqueue) hmoved.nextNumber
      hmoved.queued
  case faithful =>
    apply h.faithful.register (h.not_held_of_queued hmoved hqueue).left
    intro j m
    rw [hmoved.held]
    by_cases hj : k = j
    · subst hj
      rw [if_pos rfl, htable, hmoved.held_before]
      simp
    · rw [if_neg hj, if_neg (fun hthis => hj hthis.1)]
  case honest =>
    exact honest_of_plain (h.honest.note rfl) hmoved fun a ha => absurd ha List.not_mem_nil

theorem moved_fail (h : Sound s log) {a : Answer} (hmoved : Moved k c c' [(t, a)] s u)
    (hqueue : c.requests = (number, t) :: c'.requests)
    (htable : forall m, c'.pending.get? m = if number = m then none else c.pending.get? m)
    (hplain : carried? a.outcome = none) : Sound u (log ++ [.unwritten k number t]) := by
  constructor
  case numbered =>
    exact h.numbered.take rfl (hmoved.queued_before.trans hqueue) hmoved.nextNumber
      hmoved.queued
  case faithful =>
    -- The table did not hold the number before either.
    have hsame : forall m, c'.pending.get? m = c.pending.get? m := by
      intro m
      rw [htable]
      by_cases hm : number = m
      · rw [if_pos hm, ← hm, (h.not_held_of_queued hmoved hqueue).right]
      · rw [if_neg hm]
    exact (h.faithful.congr (hmoved.held_same hsame)).note rfl fun _ _ => rfl
  case honest =>
    apply honest_of_plain (h.honest.note rfl) hmoved
    intro b hb
    rw [List.mem_singleton.mp hb]
    exact hplain

theorem moved_answer (h : Sound s log) {r : Response} (hmoved : Moved k c c' answers s u)
    (hqueue : c'.requests = c.requests)
    (htable : forall m, c'.pending.get? m = if number = m then none else c.pending.get? m)
    (hown : forall t a, (t, a) ∈ answers -> c.pending.get? number = some t ∧
      a = .ofResponse r) :
    Sound u (log ++ [.answered k number r]) := by
  constructor
  case numbered => exact (h.numbered_of_queue hmoved hqueue).note rfl rfl
  case faithful => exact h.faithful.close rfl (hmoved.held_erase htable)
  case honest =>
    have hnoted : Honest s (log ++ [.answered k number r]) := h.honest.note rfl
    apply hnoted.deliver hmoved.task?
    intro id a ha
    rcases hmoved.mail? id a ha with ha | ⟨t, ht, rfl⟩
    · exact Or.inl ha
    · -- The answer goes to the call under whose ticket the table held the number.
      rcases hown t a ht with ⟨hheld, rfl⟩
      rw [← hmoved.held_before, h.faithful k number t] at hheld
      apply Or.inr
      intro r' hr'
      rw [Answer.carried?_ofResponse] at hr'
      cases hr'
      exact ⟨log.length, number, Outstanding.settles hheld r⟩

theorem moved_finish (h : Sound s log) (hmoved : Moved k c c' answers s u)
    (hqueue : c'.requests = []) (htable : forall m, c'.pending.get? m = none)
    (hplain : forall a, a ∈ answers -> carried? a.2.outcome = none) :
    Sound u (log ++ [.ended k]) := by
  constructor
  case numbered =>
    have hshorter : forall j, (u.queued j).Sublist (s.queued j) := by
      intro j
      by_cases hj : k = j
      · rw [hmoved.queued, if_pos hj, hqueue]
        exact List.nil_sublist _
      · have hsame : u.queued j = s.queued j := (hmoved.queued j).trans (if_neg hj)
        exact hsame ▸ List.Sublist.refl _
    exact (h.numbered.shrink hmoved.nextNumber hshorter).note rfl rfl
  case faithful =>
    apply h.faithful.close rfl
    intro j m
    rw [hmoved.held, htable]
    by_cases hj : k = j
    · simp [Happening.closes, hj]
    · simp [Happening.closes, hj]
  case honest => exact honest_of_plain (h.honest.note rfl) hmoved hplain

theorem moved (h : Sound s log) {happenings : List Happening}
    (hmoved : Moved k c c' answers s u)
    (hmoves : Connection.Moves k c c' happenings answers) : Sound u (log ++ happenings) := by
  cases hmoves with
  | still queue table plain =>
      rw [List.append_nil]
      constructor
      case numbered => exact h.numbered_of_queue hmoved queue
      case faithful => exact h.faithful.congr (hmoved.held_same table)
      case honest => exact honest_of_plain h.honest hmoved plain
  | register queue table => exact h.moved_register hmoved queue table
  | fail queue table plain => exact h.moved_fail hmoved queue table plain
  | refuse queue taken =>
      rename_i number t
      rw [Table.contains, (h.not_held_of_queued hmoved queue).right] at taken
      contradiction
  | abandon queue table =>
      constructor
      case numbered => exact (h.numbered_of_queue hmoved queue).note rfl rfl
      case faithful => exact h.faithful.close rfl (hmoved.held_erase table)
      case honest =>
        exact honest_of_plain (h.honest.note rfl) hmoved fun a ha => absurd ha List.not_mem_nil
  | answer queue table own heard => exact h.moved_answer hmoved queue table own
  | finish queue table plain gone => exact h.moved_finish hmoved queue table plain

end

end Sound

/-!
## Actions
-/

theorem task?_length (s : Session D) : s.task? s.calls.length = none := by
  rw [task?, call?, List.getElem?_eq_none (Nat.le_refl _)]
  rfl

theorem beginCall_turned (s : Session D) (op : Operation) :
    exists task, op.Opens task ∧ Turned s.calls.length task s (s.beginCall op) := by
  have hcall : { s with calls := s.calls ++ [Call.fresh] }.call? s.calls.length =
      some .fresh := by
    simp [call?]
  have hold {j : Nat} (hj : s.calls.length ≠ j) :
      { s with calls := s.calls ++ [Call.fresh] }.call? j = s.call? j := by
    rcases Nat.lt_or_gt_of_ne hj with hlt | hlt
    · simp only [call?]
      rw [List.getElem?_eq_none (by simp; omega), List.getElem?_eq_none (by omega)]
    · exact List.getElem?_append_left hlt
  rcases (begin_reacts _ op op.admits).turned hcall with ⟨task, hopens, hturned⟩
  refine ⟨task, hopens, ?_⟩
  constructor
  case task? =>
    intro j
    refine (hturned.task? j).trans ?_
    by_cases hj : s.calls.length = j
    · rw [if_pos hj, if_pos hj]
    · rw [if_neg hj, if_neg hj, task?, hold hj, task?]
  case mail? =>
    intro j a ha
    rcases hturned.mail? j a ha with ha | ha
    · by_cases hj : s.calls.length = j
      · subst hj
        rw [mail?, hcall] at ha
        contradiction
      · rw [mail?, hold hj] at ha
        exact Or.inl ha
    · exact Or.inr ha
  case held => exact hturned.held
  case sends =>
    cases hturned.sends with
    | nothing request nextNumber queued => exact Sends.nothing request nextNumber queued
    | request k received request nextNumber queued own =>
        exact Sends.request k received request nextNumber queued own

namespace Sound

variable {s u : Session D} {log : List Happening}

theorem beginCall (h : Sound s log) (op : Operation) :
    Sound (s.beginCall op)
      (log ++ ([.began s.calls.length op] ++ (s.beginCall op).sending s.calls.length)) := by
  rcases s.beginCall_turned op with ⟨task, hopens, hturned⟩
  refine h.turn hturned (Or.inr ⟨op, rfl⟩) (fun r hr => ?_) (fun k number hsent => ?_)
    (fun op' hbegan hquestion => ?_)
  · rw [hopens.content] at hr
    contradiction
  · rcases h.honest.late _ k number hsent with ⟨task', htask', _⟩
    rw [s.task?_length] at htask'
    contradiction
  · rcases List.mem_append.mp hbegan with hbegan | hbegan
    · rcases h.honest.question _ op' hbegan with ⟨task', htask', _⟩
      rw [s.task?_length] at htask'
      contradiction
    · have heq := List.mem_singleton.mp hbegan
      injection heq with _ hop
      exact hopens.question (hop ▸ hquestion)

theorem stepCall [FileSystem D] (h : Sound s log) {id : Nat} (hstep : s.stepCall id = some u) :
    Sound u (log ++ ([] ++ u.sending id)) := by
  unfold Session.stepCall at hstep
  split at hstep
  case h_2 => contradiction
  case h_1 call hcall =>
    have htask : s.task? id = some call.task := by rw [task?, hcall]; rfl
    rcases (stepTask_reacts hstep).turned hcall with ⟨task, hleads, hturned⟩
    refine h.turn hturned (Or.inl rfl) (fun r hr => ?_) (fun k number hsent => ?_)
      (fun op hbegan hop => ?_)
    · rcases hleads.content r hr with hr | ⟨a, hmail, ha⟩
      · exact h.honest.content id call.task r htask hr
      · refine h.honest.mail id a r ?_ ha
        rw [mail?, hcall]
        exact hmail
    · rcases h.honest.late id k number hsent with ⟨task', htask', hlate⟩
      rw [htask] at htask'
      cases htask'
      exact hleads.late hlate
    · rw [List.append_nil] at hbegan
      rcases h.honest.question id op hbegan with ⟨task', htask', hquestion⟩
      rw [htask] at htask'
      cases htask'
      exact hleads.question (hquestion hop)

theorem stepConnection (h : Sound s log) {k : Nat}
    {step : Connection -> Option (Connection × Emitted)}
    {what : Connection -> Connection -> List Happening}
    (hmoves : forall c c' e, step c = some (c', e) ->
      Connection.Moves k c c' (what c c') e.answers)
    (hstep : s.stepConnection k step = some u) :
    Sound u (log ++ s.betweenStates u k what) := by
  rcases stepConnection_moved hstep with ⟨c, c', e, hc, hmoved⟩
  have hwhat : s.betweenStates u k what = what c c' := by
    rw [betweenStates, hmoved.before, hmoved.after]
  rw [hwhat]
  exact h.moved hmoved (hmoves c c' e hc)

theorem modifyConnection (h : Sound s log) (k : Nat) {f : Connection -> Connection}
    (hqueue : forall c, (f c).requests = c.requests)
    (htable : forall c, (f c).pending = c.pending) :
    Sound (s.modifyConnection k f) (log ++ []) := by
  rw [List.append_nil]
  exact h.same (s.sameRequests_modifyConnection k hqueue htable)

theorem cancel (h : Sound s log) (id : Nat) :
    Sound (s.modifyCall id fun call => { call with cancelled := true }) (log ++ []) := by
  rw [List.append_nil]
  refine h.congr (fun j => ?_) (fun j => ?_) rfl (fun _ => rfl) (fun _ _ => rfl)
  · rw [task?, call?_modifyCall, task?]
    by_cases hj : id = j
    · rw [if_pos hj, Option.map_map]
      rfl
    · rw [if_neg hj]
  · rw [mail?, call?_modifyCall, mail?]
    by_cases hj : id = j
    · rw [if_pos hj]
      cases s.call? j <;> rfl
    · rw [if_neg hj]

end Sound

end Session

namespace Connection

theorem receive_requests (c : Connection) (bytes : Bytes) :
    (c.receive bytes).requests = c.requests ∧ (c.receive bytes).pending = c.pending := by
  unfold receive
  repeat' split
  all_goals exact ⟨rfl, rfl⟩

theorem hangUp_requests (c : Connection) :
    c.hangUp.requests = c.requests ∧ c.hangUp.pending = c.pending := by
  unfold hangUp
  split <;> exact ⟨rfl, rfl⟩

theorem exit_requests (c : Connection) (code : Option Int) :
    (c.exit code).requests = c.requests ∧ (c.exit code).pending = c.pending := by
  unfold exit
  split <;> exact ⟨rfl, rfl⟩

end Connection

namespace Session

variable {D : Type} [FileSystem D]

/-- One action keeps the invariants. -/
theorem Sound.act {s u : Session D} {log : List Happening} (h : Sound s log) (a : Action)
    (hact : s.act a = some u) : Sound u (log ++ s.happenings a u) := by
  cases a with
  | begin op =>
      cases hact
      exact h.beginCall op
  | goOn id => exact h.stepCall hact
  | cancel id =>
      cases hact
      exact h.cancel id
  | serve k =>
      exact h.stepConnection (fun _ _ _ hstep => Connection.stepCommand_moves k hstep) hact
  | takeIn k =>
      exact h.stepConnection (fun _ _ _ hstep => Connection.stepInbound_moves k hstep) hact
  | noticeExit k =>
      exact h.stepConnection (fun _ _ _ hstep => Connection.stepExit_moves k hstep) hact
  | expire k =>
      exact h.stepConnection (fun _ _ _ hstep => Connection.stepDeadline_moves k hstep) hact
  | receive k bytes =>
      cases hact
      exact h.modifyConnection k (fun c => (c.receive_requests bytes).1)
        fun c => (c.receive_requests bytes).2
  | hangUp k =>
      cases hact
      exact h.modifyConnection k (fun c => c.hangUp_requests.1) fun c => c.hangUp_requests.2
  | breakPipe k =>
      cases hact
      exact h.modifyConnection k (fun _ => rfl) fun _ => rfl
  | exit k code =>
      cases hact
      exact h.modifyConnection k (fun c => (c.exit_requests code).1)
        fun c => (c.exit_requests code).2
  | elapse ms =>
      cases hact
      refine Eq.mpr (congrArg _ (List.append_nil log)) (h.same ?_)
      exact SameRequests.of_connections rfl rfl rfl

/-- The invariants hold after every run of a new session. -/
theorem Run.sound {settings : Settings} {processId : Nat} {workspace : Workspace D}
    {log : List Happening} {s : Session D}
    (run : Run (Session.new settings processId workspace) log s) : Sound s log := by
  induction run with
  | refl => exact Sound.new settings processId workspace
  | act _ a h ih => exact ih.act a h
  | touch _ disk ih => exact ih.same (SameRequests.of_connections rfl rfl rfl)

end Session
end LanguageClient

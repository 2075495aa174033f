import LanguageClient.Proofs.Session.Endings
import LanguageClient.Proofs.Session.Recorded

/-!
# Requests over a moment

For requests a moment is one of three things: a connection takes a step, a call turns to
another task, or nothing happens that matters to queues and tables. A request that a
connection is through with does not come back, whichever it is.
-/

namespace LanguageClient

variable {D : Type}

def Moment.withdraws (id : Nat) (m : Moment D) : Bool :=
  match m.action with
  | .cancel j => j == id && (m.before.call? id).isSome
  | _ => false

namespace Moment

/-- What a moment is for requests. -/
inductive Deals (m : Moment D) : Prop where
  | advances (k : Nat) (c c' : Connection) (e : Emitted) (emitted : m.emitted? = some (k, e))
      (moved : Session.Moved k c c' e.answers m.before m.after)
      (moves : Connection.Moves k c c' m.happenings e.answers)
      (proceeds : Connection.Proceeds m.before.now c c' e)
      (after : m.after = (m.before.setConnection k c').emit e)
      (kept : forall id, m.withdraws id = false)
  | turns (id : Nat) (task : Task) (quiet : m.emitted? = none)
      (action : m.action = .goOn id ∨ m.before.calls.length = id)
      (turned : Session.Turned id task m.before m.after)
      (others : forall j, id ≠ j -> m.after.call? j = m.before.call? j)
      (kept : forall id, m.withdraws id = false)
  | rests (quiet : m.emitted? = none) (nextNumber : m.after.nextNumber = m.before.nextNumber)
      (queued : forall k, m.after.queued k = m.before.queued k)
      (held : forall k number, m.after.held k number = m.before.held k number)
      (calls : forall id call, m.before.call? id = some call ->
        m.after.call? id = some { call with cancelled := call.cancelled || m.withdraws id })

end Moment

namespace Session

/-!
## Calls that take no step
-/

theorem apply_call?_other (s : Session D) {id j : Nat} (hj : id ≠ j) (e : Effect D) :
    (e.apply id s).call? j = s.call? j := by
  cases e with
  | rest task => exact (s.call?_modifyCall id j _).trans (if_neg hj)
  | finish outcome =>
      exact (call?_modifyCall { s with turns := s.turns.erase id } id j _).trans (if_neg hj)
  | ask k question task =>
      cases hcall : s.call? id with
      | none => rw [Effect.apply, ask, hcall]
      | some call =>
          rw [Effect.apply, ask_eq hcall, call?_enqueue]
          exact (s.call?_modifyCall id j _).trans (if_neg hj)
  | abandon k number => exact s.call?_enqueue k _ j
  | _ => rfl

theorem undergo_call?_other (s : Session D) {id j : Nat} (hj : id ≠ j)
    (effects : List (Effect D)) :
    (s.undergo id effects).call? j = s.call? j := by
  induction effects generalizing s with
  | nil => rfl
  | cons e rest ih => rw [undergo_cons, ih, s.apply_call?_other hj]

theorem addCall_call?_other (s : Session D) {j : Nat} (hj : s.calls.length ≠ j) :
    s.addCall.call? j = s.call? j := by
  rw [call?, addCall, call?]
  rcases Nat.lt_or_gt_of_ne hj with hlt | hlt
  · rw [List.getElem?_eq_none (by simp; omega), List.getElem?_eq_none (by omega)]
  · exact List.getElem?_append_left hlt

/-!
## Every moment deals with requests in one of these ways
-/

theorem deals_of_stepConnection {s u : Session D} {a : Action} {k : Nat}
    {step : Connection -> Option (Connection × Emitted)}
    {what : Connection -> Connection -> List Happening}
    (haction : s.connectionStep? a = some (k, step))
    (hrecord : (⟨s, a, u⟩ : Moment D).happenings = s.betweenStates u k what)
    (hmoves : forall c c' e, step c = some (c', e) ->
      Connection.Moves k c c' (what c c') e.answers)
    (hproceeds : forall {c c' e}, step c = some (c', e) -> Connection.Proceeds s.now c c' e)
    (h : s.stepConnection k step = some u) : Moment.Deals ⟨s, a, u⟩ := by
  unfold stepConnection at h
  split at h
  case h_1 => contradiction
  case h_2 c hc =>
    rcases Option.map_eq_some_iff.mp h with ⟨⟨c', e⟩, hstep, hu⟩
    have hu : (s.setConnection k c').emit e = u := hu
    have hmoved : Moved k c c' e.answers s u := hu ▸ s.moved_emit hc e
    refine .advances k c c' e ?_ hmoved ?_ (hproceeds hstep) hu.symm fun id => ?_
    · simp [Moment.emitted?, haction, hc, hstep]
    · have hbetween : s.betweenStates u k what = what c c' := by
        rw [betweenStates, hc, hmoved.after]
      rw [hrecord, hbetween]
      exact hmoves c c' e hstep
    · cases a <;> first | rfl | contradiction

theorem deals_of_modifyConnection {s : Session D} {a : Action} (k : Nat)
    {f : Connection -> Connection} (haction : s.connectionStep? a = none)
    (hkept : forall id, (⟨s, a, s.modifyConnection k f⟩ : Moment D).withdraws id = false)
    (hqueue : forall c, (f c).requests = c.requests)
    (htable : forall c, (f c).pending = c.pending) :
    Moment.Deals ⟨s, a, s.modifyConnection k f⟩ := by
  have hsame := s.sameRequests_modifyConnection k hqueue htable
  refine .rests (Moment.emitted?_of_action haction) hsame.nextNumber hsame.queued hsame.held
    fun id call hcall => ?_
  rw [hkept, Bool.or_false]
  exact hcall

theorem deals_of_act [FileSystem D] {s u : Session D} {a : Action} (h : s.act a = some u) :
    Moment.Deals ⟨s, a, u⟩ := by
  cases a with
  | begin op =>
      cases h
      rcases s.beginCall_turned op with ⟨task, _, hturned⟩
      rcases s.beginCall_effects op with ⟨effects, _, hafter⟩
      refine .turns s.calls.length task rfl (Or.inr rfl) hturned (fun j hj => ?_) fun _ => rfl
      exact (congrArg (·.call? j) hafter).trans
        ((s.addCall.undergo_call?_other hj effects).trans (s.addCall_call?_other hj))
  | goOn id =>
      rcases stepCall_effects h with ⟨call, effects, hcall, _, hafter⟩
      have hstep : s.stepTask id call call.task = some u := by
        rw [act, stepCall, hcall] at h
        exact h
      rcases (stepTask_reacts hstep).turned hcall with ⟨task, _, hturned⟩
      refine .turns id task rfl (Or.inl rfl) hturned (fun j hj => ?_) fun _ => rfl
      exact (congrArg (·.call? j) hafter).trans (s.undergo_call?_other hj effects)
  | cancel id =>
      cases h
      refine .rests rfl rfl (fun _ => rfl) (fun _ _ => rfl) fun j call hcall => ?_
      refine (s.call?_modifyCall id j _).trans ?_
      have hcall : s.call? j = some call := hcall
      simp only [Moment.withdraws, hcall, Option.isSome_some, Bool.and_true]
      by_cases hj : id = j
      · simp [hj]
      · simp [hj, beq_false_of_ne hj]
  | serve k =>
      exact deals_of_stepConnection rfl rfl (fun _ _ _ => Connection.stepCommand_moves k)
        Connection.stepCommand_proceeds h
  | takeIn k =>
      exact deals_of_stepConnection rfl rfl (fun _ _ _ => Connection.stepInbound_moves k)
        Connection.stepInbound_proceeds h
  | noticeExit k =>
      exact deals_of_stepConnection rfl rfl (fun _ _ _ => Connection.stepExit_moves k)
        Connection.stepExit_proceeds h
  | expire k =>
      exact deals_of_stepConnection rfl rfl (fun _ _ _ => Connection.stepDeadline_moves k)
        Connection.stepDeadline_proceeds h
  | receive k bytes =>
      cases h
      exact deals_of_modifyConnection k rfl (fun _ => rfl)
        (fun c => (c.receive_requests bytes).1) fun c => (c.receive_requests bytes).2
  | hangUp k =>
      cases h
      exact deals_of_modifyConnection k rfl (fun _ => rfl) (fun c => c.hangUp_requests.1)
        fun c => c.hangUp_requests.2
  | breakPipe k =>
      cases h
      exact deals_of_modifyConnection k rfl (fun _ => rfl) (fun _ => rfl) fun _ => rfl
  | exit k code =>
      cases h
      exact deals_of_modifyConnection k rfl (fun _ => rfl) (fun c => (c.exit_requests code).1)
        fun c => (c.exit_requests code).2
  | elapse ms =>
      cases h
      refine .rests rfl rfl (fun _ => rfl) (fun _ _ => rfl) fun id call hcall => ?_
      rw [show (⟨s, .elapse ms, { s with now := s.now + ms }⟩ : Moment D).withdraws id = false
        from rfl, Bool.or_false]
      exact hcall

theorem heard_of_deals {m : Moment D} {id : Nat} {call : Call} (hdeals : m.Deals)
    (hcall : m.before.call? id = some call) (hother : m.action ≠ .goOn id)
    (honce : (m.answers.map Prod.fst).count ⟨id, call.serial⟩ ≤ 1) :
    exists call', m.after.call? id = some call' ∧ call'.task = call.task ∧
      call'.serial = call.serial ∧
      (forall a, (⟨id, call.serial⟩, a) ∈ m.answers -> call'.mailbox = some a) ∧
      (⟨id, call.serial⟩ ∉ m.answers.map Prod.fst -> call'.mailbox = call.mailbox) := by
  have hquiet (hemitted : m.emitted? = none) : m.answers = [] := by
    rw [Moment.answers, hemitted]
  cases hdeals with
  | advances k c c' e emitted moved moves proceeds after kept =>
      have hanswers : m.answers = e.answers := by rw [Moment.answers, emitted]
      rw [hanswers] at honce ⊢
      by_cases hheard : ⟨id, call.serial⟩ ∈ e.answers.map Prod.fst
      · rcases List.mem_map.mp hheard with ⟨⟨t, a⟩, ha, heq⟩
        have heq : t = ⟨id, call.serial⟩ := heq
        subst heq
        have hafter : m.after.call? id = some { call with mailbox := some a } := by
          rw [after]
          exact call?_emit (t := ⟨id, call.serial⟩) c' hcall rfl ha honce
        refine ⟨_, hafter, rfl, rfl, fun b hb => ?_, fun hnone => absurd hheard hnone⟩
        have hsame :=
          (call?_emit (s := m.before) (k := k) (t := ⟨id, call.serial⟩) c' hcall rfl hb honce)
        rw [← after, hafter] at hsame
        exact congrArg Call.mailbox (Option.some.inj hsame)
      · refine ⟨call, ?_, rfl, rfl, fun a ha => ?_, fun _ => rfl⟩
        · rw [after]
          exact call?_deliverAll_other (s := m.before.setConnection k c')
            (t := ⟨id, call.serial⟩) hcall rfl hheard
        · exact absurd (List.mem_map.mpr ⟨_, ha, rfl⟩) hheard
  | turns j task quiet action turned others kept =>
      have hj : j ≠ id := by
        rintro rfl
        rcases action with haction | hlength
        · exact hother haction
        · exact Nat.ne_of_gt (lt_of_call? hcall) hlength
      refine ⟨call, (others id hj).trans hcall, rfl, rfl, fun a ha => ?_, fun _ => rfl⟩
      rw [hquiet quiet] at ha
      contradiction
  | rests quiet nextNumber queued held calls =>
      refine ⟨_, calls id call hcall, rfl, rfl, fun a ha => ?_, fun _ => rfl⟩
      rw [hquiet quiet] at ha
      contradiction

theorem step_of_emitted? {m : Moment D} {k : Nat} {e : Emitted}
    (h : m.emitted? = some (k, e)) :
    exists step c c', m.before.connectionStep? m.action = some (k, step) ∧
      m.before.connection? k = some c ∧ step c = some (c', e) := by
  unfold Moment.emitted? at h
  split at h
  case h_1 => contradiction
  case h_2 j step hstep =>
    rcases Option.map_eq_some_iff.mp h with ⟨⟨c', e'⟩, hresult, heq⟩
    cases heq
    rcases Option.bind_eq_some_iff.mp hresult with ⟨c, hc, hr⟩
    exact ⟨step, c, c', hstep, hc, hr⟩

theorem step_of_answers {m : Moment D} {t : Ticket} {a : Answer} (h : (t, a) ∈ m.answers) :
    exists k step c c' e, m.before.connectionStep? m.action = some (k, step) ∧
      m.before.connection? k = some c ∧ step c = some (c', e) ∧ (t, a) ∈ e.answers := by
  unfold Moment.answers at h
  split at h
  case h_1 k e hemitted =>
    rcases step_of_emitted? hemitted with ⟨step, c, c', hstep, hc, hr⟩
    exact ⟨k, step, c, c', e, hstep, hc, hr, h⟩
  case h_2 => contradiction

/-- The mail of a call is what has been answered to it, or it tells the call that its
question has been dropped. -/
theorem mail?_of_act [FileSystem D] {s u : Session D} {a : Action} (h : s.act a = some u)
    {id : Nat} {answer : Answer} (hmail : u.mail? id = some answer) :
    s.mail? id = some answer ∨ answer = .dropped ∨
      exists t, (t, answer) ∈ (⟨s, a, u⟩ : Moment D).answers ∧ t.call = id := by
  have hstep {k : Nat} {step : Connection -> Option (Connection × Emitted)}
      (haction : s.connectionStep? a = some (k, step)) (h : s.stepConnection k step = some u) :
      s.mail? id = some answer ∨ answer = .dropped ∨
        exists t, (t, answer) ∈ (⟨s, a, u⟩ : Moment D).answers ∧ t.call = id := by
    rcases stepConnection_moved h with ⟨c, c', e, hc, hmoved⟩
    refine (hmoved.mail? id answer hmail).imp_right fun hanswered => Or.inr ?_
    simpa [Moment.answers, Moment.emitted?, haction, hmoved.before, hc] using hanswered
  have hturned {j : Nat} {task : Task} (hturned : Turned j task s u) :=
    (hturned.mail? id answer hmail).imp_right
      (Or.inl (b := exists t, (t, answer) ∈ (⟨s, a, u⟩ : Moment D).answers ∧ t.call = id))
  cases a with
  | begin op =>
      cases h
      rcases s.beginCall_turned op with ⟨task, _, hturns⟩
      exact hturned hturns
  | goOn j =>
      simp only [act, stepCall] at h
      split at h
      case h_2 => contradiction
      case h_1 call hcall =>
        rcases (stepTask_reacts h).turned hcall with ⟨task, _, hturns⟩
        exact hturned hturns
  | serve k => exact hstep rfl h
  | takeIn k => exact hstep rfl h
  | noticeExit k => exact hstep rfl h
  | expire k => exact hstep rfl h
  | cancel j =>
      cases h
      refine Or.inl ?_
      rw [mail?, call?_modifyCall] at hmail
      rw [mail?, ← hmail]
      cases s.call? id with
      | none => split <;> rfl
      | some call => split <;> rfl
  | _ =>
      cases h
      exact Or.inl hmail

/-!
## Requests that a connection is through with
-/

/-- The number has been drawn, and on connection `k` it stands neither in the
queue nor in the table. -/
structure Bygone (k number : Nat) (s : Session D) : Prop where
  drawn : number < s.nextNumber
  queued : forall t, (number, t) ∉ s.queued k
  held : s.held k number = none

namespace Bygone

variable {k number : Nat} {m : Moment D}

theorem turned {s u : Session D} (h : Bygone k number s) {id : Nat} {task : Task}
    (hturned : Turned id task s u) : Bygone k number u where
  drawn := by
    cases hturned.sends with
    | nothing request nextNumber queued => exact nextNumber ▸ h.drawn
    | request j received request nextNumber queued own =>
        rw [nextNumber]
        exact Nat.lt_succ_of_lt h.drawn
  queued t ht := by
    cases hturned.sends with
    | nothing request nextNumber queued => exact h.queued t (queued k ▸ ht)
    | request j received request nextNumber queued own =>
        rcases Numbered.mem_queued_of_send queued own ht with ht | ⟨_, hnew, _⟩
        · exact h.queued t ht
        · exact absurd h.drawn (hnew ▸ Nat.lt_irrefl _)
  held := (hturned.held k number).trans h.held

theorem moved {s u : Session D} {log happenings : List Happening} {j : Nat} {c c' : Connection}
    {answers : List (Ticket × Answer)} (h : Bygone k number s) (hsound : Sound s log)
    (hmoved : Moved j c c' answers s u) (hmoves : Connection.Moves j c c' happenings answers) :
    Bygone k number u := by
  by_cases hj : j = k
  case neg =>
    refine ⟨hmoved.nextNumber ▸ h.drawn, fun t ht => h.queued t ?_, ?_⟩
    · rwa [hmoved.queued, if_neg hj] at ht
    · rw [hmoved.held, if_neg hj, h.held]
  subst hj
  have hqueue : forall t, (number, t) ∉ c.requests := hmoved.queued_before ▸ h.queued
  have htable : c.pending.get? number = none := (hmoved.held_before number).symm.trans h.held
  suffices (forall t, (number, t) ∉ c'.requests) ∧ c'.pending.get? number = none by
    refine ⟨hmoved.nextNumber ▸ h.drawn, fun t ht => this.1 t ?_, ?_⟩
    · rwa [hmoved.queued, if_pos rfl] at ht
    · rw [hmoved.held, if_pos rfl, this.2]
  cases hmoves with
  | still queue table plain => exact ⟨queue ▸ hqueue, (table number).trans htable⟩
  | @register n t queue table =>
      have hn : n ≠ number := fun hn => hqueue t (by rw [queue, hn]; exact List.mem_cons_self)
      refine ⟨fun t' ht' => hqueue t' (by rw [queue]; exact List.mem_cons_of_mem _ ht'), ?_⟩
      rw [table, if_neg hn, htable]
  | @fail n t a queue table plain =>
      refine ⟨fun t' ht' => hqueue t' (by rw [queue]; exact List.mem_cons_of_mem _ ht'), ?_⟩
      rw [table, htable, ite_self]
  | refuse queue taken =>
      rw [Table.contains, (hsound.not_held_of_queued hmoved queue).2] at taken
      contradiction
  | abandon queue table => exact ⟨queue ▸ hqueue, by rw [table, htable, ite_self]⟩
  | answer queue table own heard => exact ⟨queue ▸ hqueue, by rw [table, htable, ite_self]⟩
  | finish queue table plain gone =>
      exact ⟨fun t => by rw [queue]; exact List.not_mem_nil, table number⟩

theorem moment {log : List Happening} (h : Bygone k number m.before)
    (hsound : Sound m.before log) (hdeals : m.Deals) : Bygone k number m.after := by
  cases hdeals with
  | advances j c c' e emitted moved moves proceeds after kept =>
      exact h.moved hsound moved moves
  | turns id task quiet action turned others kept => exact h.turned turned
  | rests quiet nextNumber queued held calls =>
      refine ⟨nextNumber ▸ h.drawn, fun t ht => h.queued t (queued k ▸ ht), ?_⟩
      rw [held, h.held]

end Bygone
end Session
end LanguageClient

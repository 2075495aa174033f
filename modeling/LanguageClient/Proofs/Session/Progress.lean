import LanguageClient.Proofs.Session.EditCalls
import LanguageClient.Proofs.Session.Prompts

/-!
# Connections get on

Left to itself, a connection serves the commands in its queue one after the other; one
that serves nothing any more comes to its end as time passes and its process exits. So
whatever a call listens for can come without the server, and without any other call,
having to do anything.
-/

namespace LanguageClient

/-!
## Connections by themselves
-/

/-- How many steps away an orderly connection is from having nothing in its queue, at most. -/
def Connection.toGo (now : Nat) (c : Connection) : Nat :=
  match c.phase with
  | .serving => c.commands.length + 2
  | .reaping deadline | .draining deadline _ => if deadline ≤ now then 1 else 2
  | .terminating .. =>
    match c.process with
    | some (.exited _) => 1
    | _ => 2
  | .ended => 0

def Session.Action.retires (k : Nat) : Session.Action -> Bool
  | .noticeExit j | .expire j | .exit j _ => j == k
  | .elapse _ => true
  | _ => false

/-- Connection `k` gets on by itself: it serves a command, or, if it serves no longer, gets
closer to its end. -/
inductive Moment.Tends {D : Type} (k : Nat) (m : Moment D) : Prop where
  | serves (action : m.action = .serve k)
  | retires (c : Connection) (before : m.before.connection? k = some c)
      (phase : c.phase ≠ .serving) (action : m.action.retires k = true)

theorem Moment.Tends.ofCall {D : Type} {k : Nat} {m : Moment D} (h : Moment.Tends k m) :
    m.ofCall = false := by
  rcases m with ⟨s, a, u⟩
  cases h with
  | serves action =>
      cases action
      rfl
  | retires _ _ _ action =>
      cases a <;> first
        | rfl
        | contradiction

theorem Connection.toGo_serve {now : Nat} {c : Connection} {command : Command}
    {rest : List Command} (hphase : c.phase = .serving)
    (hcommands : c.commands = command :: rest) :
    (serve now { c with commands := rest } command).1.toGo now < c.toGo now := by
  have hbefore : c.toGo now = rest.length + 3 := by
    rw [toGo, hphase, hcommands]
    rfl
  rw [hbefore]
  by_cases hend : exists force t, command = .terminate force t
  · rcases hend with ⟨force, t, rfl⟩
    simp only [serve]
    split
    · exact Nat.succ_pos _
    · simp only [toGo]
      split <;> omega
  · have hstays := serve_stays now { c with commands := rest } fun force t heq =>
      hend ⟨force, t, heq⟩
    rw [toGo, hstays.phase, hstays.commands, hphase]
    exact Nat.lt_succ_self _

namespace Session

variable {D : Type} [FileSystem D] {s : Session D} {k : Nat} {c : Connection}

def GetsOn (s : Session D) (k : Nat) (c : Connection) : Prop :=
  exists a u c', s.act a = some u ∧ Moment.Tends k (⟨s, a, u⟩ : Moment D) ∧
    u.connection? k = some c' ∧ c'.toGo u.now < c.toGo s.now

theorem getsOn_of_step (hc : s.connection? k = some c) {a : Action}
    {step : Connection -> Option (Connection × Emitted)}
    (haction : s.act a = s.stepConnection k step)
    (htends : forall u, Moment.Tends k (⟨s, a, u⟩ : Moment D)) {c' : Connection} {e : Emitted}
    (hstep : step c = some (c', e)) (hless : c'.toGo s.now < c.toGo s.now) : s.GetsOn k c := by
  have hact : s.act a = some ((s.setConnection k c').emit e) := by
    simp only [haction, stepConnection, hc, hstep, Option.map_some]
  refine ⟨a, _, c', hact, htends _, ?_, ?_⟩
  · rw [connection?_emit hc, if_pos rfl]
  · rcases (s.setConnection k c').emit_eq e with ⟨calls, -, heq⟩
    rw [heq]
    exact hless

theorem getsOn_of_serving (hc : s.connection? k = some c) (hphase : c.phase = .serving)
    (hqueue : c.commands ≠ []) : s.GetsOn k c := by
  rcases List.exists_cons_of_ne_nil hqueue with ⟨command, rest, hcommands⟩
  have hstep : c.stepCommand s.now =
      some (Connection.serve s.now { c with commands := rest } command) := by
    simp only [Connection.stepCommand, hphase, hcommands]
  exact getsOn_of_step hc rfl (fun _ => .serves rfl) hstep
    (Connection.toGo_serve hphase hcommands)

theorem getsOn_of_deadline (hc : s.connection? k = some c) (hphase : c.phase ≠ .serving)
    {deadline : Nat} (htoGo : forall now, c.toGo now = if deadline ≤ now then 1 else 2)
    (hstep : deadline ≤ s.now -> exists c' e, c.stepDeadline s.now = some (c', e) ∧
      c'.toGo s.now = 0) : s.GetsOn k c := by
  by_cases hdue : deadline ≤ s.now
  · rcases hstep hdue with ⟨c', e, hstep, hzero⟩
    refine getsOn_of_step hc (a := .expire k) rfl
      (fun _ => .retires c hc hphase (beq_self_eq_true k)) hstep ?_
    rw [hzero, htoGo, if_pos hdue]
    exact Nat.one_pos
  · have hthen : deadline ≤ s.now + (deadline - s.now) := by omega
    refine ⟨.elapse (deadline - s.now), _, c, rfl, .retires c hc hphase rfl, hc, ?_⟩
    change c.toGo (s.now + (deadline - s.now)) < c.toGo s.now
    rw [htoGo, htoGo, if_neg hdue, if_pos hthen]
    exact Nat.lt_succ_self 1

theorem getsOn_of_terminating (hc : s.connection? k = some c) {force : Bool} {t : Ticket}
    {grace : Grace} {deadline : Nat} (hphase : c.phase = .terminating force t grace deadline)
    (hprocess : c.process ≠ none) : s.GetsOn k c := by
  have hserving : c.phase ≠ .serving := by simp [hphase]
  rcases Option.ne_none_iff_exists'.mp hprocess with ⟨_ | code, hheld⟩
  · refine ⟨.exit k none, _, c.exit none, rfl, .retires c hc hserving (beq_self_eq_true k),
      ?_, ?_⟩
    · rw [connection?_modifyConnection, if_pos rfl, hc, Option.map_some]
    · have hexited : c.exit none = { c with process := some (.exited none) } := by
        rw [Connection.exit, hheld]
      simp only [hexited, Connection.toGo, hphase, hheld]
      exact Nat.lt_succ_self 1
  · have hstep : c.stepExit s.now = some (c.teardownFor t code) := by
      simp only [Connection.stepExit, hheld, hphase]
    refine getsOn_of_step hc (a := .noticeExit k) rfl
      (fun _ => .retires c hc hserving (beq_self_eq_true k)) hstep ?_
    change 0 < c.toGo s.now
    rw [Connection.toGo, hphase]
    simp only [hheld]
    exact Nat.one_pos

theorem getsOn_of_orderly (hc : s.connection? k = some c) (horderly : c.IsOrderly)
    (hqueue : c.commands ≠ []) : s.GetsOn k c := by
  cases hphase : c.phase with
  | serving => exact getsOn_of_serving hc hphase hqueue
  | reaping deadline =>
      refine getsOn_of_deadline hc (by simp [hphase]) (fun now => ?_)
        fun hdue : deadline ≤ s.now =>
          ⟨((c.signal .kill).teardown none).1, ((c.signal .kill).teardown none).2, ?_, rfl⟩
      · rw [Connection.toGo, hphase]
      · rw [Connection.stepDeadline, hphase]
        exact if_pos hdue
  | draining deadline code =>
      refine getsOn_of_deadline hc (by simp [hphase]) (fun now => ?_)
        fun hdue : deadline ≤ s.now => ⟨(c.teardown code).1, (c.teardown code).2, ?_, rfl⟩
      · rw [Connection.toGo, hphase]
      · rw [Connection.stepDeadline, hphase]
        exact if_pos hdue
  | terminating force t grace deadline =>
      exact getsOn_of_terminating hc hphase (horderly.process t (by rw [hphase]; rfl))
  | ended => exact absurd (horderly.queue (by rw [Connection.isAlive, hphase]; rfl)) hqueue

/-!
## Until an answer comes
-/

/-- The courses in which nothing happens but steps of call `id` and of connections that get
on by themselves. -/
inductive Unaided (id : Nat) (s : Session D) : List (Moment D) -> Session D -> Prop where
  | refl : Unaided id s [] s
  | act {moments : List (Moment D)} {t u : Session D} (unaided : Unaided id s moments t)
      (a : Action) (h : t.act a = some u)
      (own : a = .goOn id ∨ exists k, Moment.Tends k (⟨t, a, u⟩ : Moment D)) :
      Unaided id s (moments ++ [⟨t, a, u⟩]) u

namespace Unaided

variable {id : Nat} {t u : Session D} {moments more : List (Moment D)}

theorem step {a : Action} (h : s.act a = some u)
    (own : a = .goOn id ∨ exists k, Moment.Tends k (⟨s, a, u⟩ : Moment D)) :
    Unaided id s [⟨s, a, u⟩] u :=
  Unaided.refl.act a h own

theorem append (h : Unaided id s moments t) (h' : Unaided id t more u) :
    Unaided id s (moments ++ more) u := by
  induction h' with
  | refl => rwa [List.append_nil]
  | act _ a hact own ih => exact List.append_assoc .. ▸ ih.act a hact own

theorem course (h : Unaided id s moments u) : Course s moments u := by
  induction h with
  | refl => exact .refl
  | act _ a hact _ ih => exact ih.act a hact

theorem responsive (h : Unaided id s moments u) (hs : s.Responsive) : u.Responsive := by
  induction h with
  | refl => exact hs
  | act _ a hact _ ih => exact ih.act hact

end Unaided

def HasMail (s : Session D) (id : Nat) (task : Task) : Prop :=
  exists call, s.call? id = some call ∧ call.task = task ∧ call.mailbox ≠ none

theorem Responsive.exists_hasMail_of_asked (h : s.Responsive) {id : Nat} {call : Call}
    (hcall : s.call? id = some call) (hc : s.connection? k = some c)
    (hasked : s.Asked k ⟨id, call.serial⟩) :
    exists moments u, Unaided id s moments u ∧ u.HasMail id call.task := by
  -- By induction on how far the queue is from being empty.
  induction hleft : c.toGo s.now using Nat.strongRecOn generalizing s c call with
  | ind left ih =>
      have hqueue : c.commands ≠ [] := by
        rcases hasked with ⟨b, command, hb, hmem, _⟩
        cases hc.symm.trans hb
        exact List.ne_nil_of_mem hmem
      rcases getsOn_of_orderly hc (h.orderly k c hc) hqueue with
        ⟨a, u, c', hact, htends, hc', hless⟩
      have hfirst : Unaided id s [⟨s, a, u⟩] u := .step hact (Or.inr ⟨k, htends⟩)
      have hother : a ≠ .goOn id := fun heq => by
        subst heq
        exact absurd htends.ofCall nofun
      have htask := task?_of_act hact (task?_of_call? hcall) hother
      rcases Option.map_eq_some_iff.mp htask with ⟨call', hcall', htask'⟩
      rcases exists_call?_of_act hact htends.ofCall hcall' with ⟨b, hb, -, hserial, hunheard⟩
      cases hcall.symm.trans hb
      cases hmail : call'.mailbox with
      | some answer => exact ⟨_, u, hfirst, call', hcall', htask', hmail ▸ nofun⟩
      | none =>
          rcases hasked.act hact with hstays | ⟨answer, hanswer⟩
          · rcases ih _ (hleft ▸ hless) (h.act hact) hcall' hc' (hserial ▸ hstays) rfl with
              ⟨more, v, hmore, hmailed⟩
            exact ⟨_, v, hfirst.append hmore, htask' ▸ hmailed⟩
          · exact absurd hanswer ((hunheard hmail).2 answer)

/-- Whoever listens can be told. -/
theorem Responsive.exists_hasMail (h : s.Responsive) {id : Nat} {call : Call}
    (hcall : s.call? id = some call) (hlistens : call.task.listens = true) :
    exists moments u, Unaided id s moments u ∧ u.HasMail id call.task := by
  cases hmail : call.mailbox with
  | some answer => exact ⟨[], s, .refl, call, hcall, rfl, hmail ▸ nofun⟩
  | none =>
      rcases h.heard id call hcall hlistens hmail with ⟨k, hasked⟩
      have hasked' := hasked
      rcases hasked' with ⟨c, -, hc, -⟩
      exact h.exists_hasMail_of_asked hcall hc hasked

end Session
end LanguageClient

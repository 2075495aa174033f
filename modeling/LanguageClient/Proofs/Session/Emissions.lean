import LanguageClient.Proofs.Session.Dealings
import LanguageClient.Proofs.Session.OpenDocuments

/-!
# What moments give off

Answers and events come from a connection that serves a command, takes in a message, or gets
closer to its end. Most answers are given to served commands only, each to the one who has
asked, and there is news of diagnostics only when a publication is taken in.
-/

namespace LanguageClient

variable {D : Type}

def Answer.isServed : Answer -> Bool
  | .response _ | .terminated | .dropped => false
  | _ => true

def Command.expects : Command -> Answer -> Bool
  | .notify .., .written _ | .sync .., .synced _ | .close .., .closed _ | .isOpen .., .isOpen _
  | .diagnostics .., .diagnostics _ | .status _, .counts .. => true
  | _, _ => false

/-- Nothing is answered that a command would have to be served for, and there is
no news of diagnostics. -/
structure Emitted.IsBare (e : Emitted) : Prop where
  answers : forall t a, (t, a) ∈ e.answers -> a.isServed = false
  events : forall uri version count, .diagnostics uri version count ∉ e.events

namespace Emitted

theorem isBare_nothing : nothing.IsBare where
  answers _ _ h := absurd h List.not_mem_nil
  events _ _ _ := List.not_mem_nil

theorem isBare_answer (t : Ticket) {a : Answer} (ha : a.isServed = false) :
    (answer t a).IsBare where
  answers _ _ h := by
    cases List.mem_singleton.mp h
    exact ha
  events _ _ _ := List.not_mem_nil

end Emitted

namespace Connection

variable {now : Nat} {c c' : Connection} {e : Emitted}

theorem isBare_teardown (c : Connection) (code : Option Int) : (c.teardown code).2.IsBare where
  answers t a h := by
    rcases List.mem_append.mp h with h | h
    · rcases List.mem_map.mp h with ⟨_, _, heq⟩
      cases heq
      rfl
    · rcases List.mem_map.mp h with ⟨_, _, heq⟩
      cases heq
      rfl
  events uri version count h := by
    rw [teardown, List.mem_singleton, endEvent] at h
    split at h <;> contradiction

theorem isBare_teardownFor (c : Connection) (t : Ticket) (code : Option Int) :
    (c.teardownFor t code).2.IsBare where
  answers t' a h := by
    rcases List.mem_cons.mp h with heq | h
    · cases heq
      rfl
    · exact (c.isBare_teardown code).answers t' a h
  events := (c.isBare_teardown code).events

theorem Retires.isBare (h : Retires now c c' e) : e.IsBare := by
  cases h with
  | reaps | drains | signals | kills => exact Emitted.isBare_nothing
  | closes b code => exact isBare_teardown b code
  | parts code _ t => exact isBare_teardownFor c t code

theorem isServed_dispatch {folder : String × String} {message : Json} {t : Ticket} {a : Answer}
    (h : (t, a) ∈ (dispatch folder c message).2.answers) : a.isServed = false := by
  unfold dispatch at h
  split at h
  · split at h
    · exact absurd h List.not_mem_nil
    · split at h
      · exact absurd h List.not_mem_nil
      · cases List.mem_singleton.mp h
        rfl
  · exact absurd h List.not_mem_nil
  · unfold takeNotification at h
    repeat' split at h
    all_goals exact absurd h List.not_mem_nil
  · exact absurd h List.not_mem_nil

/-- A served command gets the answer that it expects, and else little happens. -/
theorem serve_emits (now : Nat) (c : Connection) (command : Command) :
    (serve now c command).2.IsBare ∨ exists t a, (serve now c command).2 = .answer t a ∧
      command.ticket? = some t ∧ command.expects a = true := by
  cases command with
  | request number method params t =>
      refine Or.inl ?_
      simp only [serve]
      split
      · exact Emitted.isBare_answer t rfl
      · split
        · exact Emitted.isBare_nothing
        · exact Emitted.isBare_answer t rfl
  | abandon number =>
      refine Or.inl ?_
      simp only [serve]
      split <;> exact Emitted.isBare_nothing
  | notify message t => exact Or.inr ⟨t, _, rfl, rfl, rfl⟩
  | sync input t =>
      simp only [serve]
      split <;> exact Or.inr ⟨t, _, rfl, rfl, rfl⟩
  | close uri t =>
      simp only [serve]
      split <;> exact Or.inr ⟨t, _, rfl, rfl, rfl⟩
  | isOpen uri t => exact Or.inr ⟨t, _, rfl, rfl, rfl⟩
  | diagnostics uri t => cases uri <;> exact Or.inr ⟨t, _, rfl, rfl, rfl⟩
  | status t => exact Or.inr ⟨t, _, rfl, rfl, rfl⟩
  | terminate force t =>
      refine Or.inl ?_
      simp only [serve]
      split
      · exact c.isBare_teardownFor t none
      · exact Emitted.isBare_nothing

end Connection

namespace Moment

/-- Where that comes from what connection `k` gives off at a moment. -/
inductive Source (m : Moment D) (k : Nat) (e : Emitted) : Prop where
  | bare (bare : e.IsBare)
  | serves (c : Connection) (rest : List Command) (command : Command)
      (before : m.before.connection? k = some c) (served : m.served? k = some command)
      (phase : c.phase = .serving)
      (emits : e = (Connection.serve m.before.now { c with commands := rest } command).2)
  | takesIn (c : Connection) (rest : List Inbound) (message : Json)
      (dispatched : m.dispatched? k = some message)
      (emits : e = (Connection.dispatch m.before.folder { c with inbound := rest } message).2)

theorem source_of_emitted? {m : Moment D} {k : Nat} {e : Emitted}
    (h : m.emitted? = some (k, e)) :
    m.Source k e := by
  rcases m with ⟨s, a, u⟩
  rcases Session.step_of_emitted? h with ⟨step, c, c', haction, hc, hstep⟩
  change s.connection? k = some c at hc
  cases a with
  | serve j =>
      cases haction
      rcases Connection.stepCommand_serves hstep with ⟨command, rest, hnext, hphase, _, hserve⟩
      exact .serves c rest command hc (by simp [served?, hc, hnext]) hphase
        (congrArg Prod.snd hserve).symm
  | takeIn j =>
      cases haction
      rcases Connection.stepInbound_cases hstep with
        ⟨message, rest, hfirst, _, _, hdispatch⟩ | ⟨_, hretires⟩
      · exact .takesIn c rest message (by simp [dispatched?, hc, hfirst])
          (congrArg Prod.snd hdispatch).symm
      · exact .bare hretires.isBare
  | noticeExit j =>
      cases haction
      exact .bare (Connection.stepExit_retires hstep).isBare
  | expire j =>
      cases haction
      exact .bare (Connection.stepDeadline_retires hstep).isBare
  | _ => contradiction

/-- An answer that a command has to be served for is given to the command that is served. -/
theorem served_of_answer {m : Moment D} {t : Ticket} {a : Answer} (h : (t, a) ∈ m.answers)
    (ha : a.isServed = true) :
    exists k c rest command, m.before.connection? k = some c ∧ c.isAlive = true ∧
      m.served? k = some command ∧ command.ticket? = some t ∧ command.expects a = true ∧
      (Connection.serve m.before.now { c with commands := rest } command).2 = .answer t a := by
  have hbare {e : Emitted} (hbare : e.IsBare) (h : (t, a) ∈ e.answers) : False :=
    Bool.false_ne_true ((hbare.answers t a h).symm.trans ha)
  cases hemitted : m.emitted? with
  | none =>
      rw [answers, hemitted] at h
      contradiction
  | some p =>
      rcases p with ⟨k, e⟩
      rw [answers, hemitted] at h
      cases source_of_emitted? hemitted with
      | bare bare => exact (hbare bare h).elim
      | serves c rest command before served phase emits =>
          subst emits
          rcases Connection.serve_emits m.before.now { c with commands := rest } command with
            bare | ⟨t', a', heq, hticket, hexpects⟩
          · exact (hbare bare h).elim
          · rw [heq] at h
            cases List.mem_singleton.mp h
            exact ⟨k, c, rest, command, before, Connection.isAlive_of_serving phase, served,
              hticket, hexpects, heq⟩
      | takesIn c rest message dispatched emits =>
          subst emits
          exact absurd ((Connection.isServed_dispatch h).symm.trans ha) Bool.false_ne_true

theorem publication_of_event {m : Moment D} {uri : String} {version : Option Int} {count : Nat}
    (h : .diagnostics uri version count ∈ m.events) :
    exists k params, m.publication? k = some params ∧ params.Names uri := by
  cases hemitted : m.emitted? with
  | none =>
      rw [events, hemitted] at h
      contradiction
  | some p =>
      rcases p with ⟨k, e⟩
      rw [events, hemitted] at h
      cases source_of_emitted? hemitted with
      | bare bare => exact absurd h (bare.events uri version count)
      | serves c rest command before served phase emits =>
          subst emits
          rcases Connection.serve_emits m.before.now { c with commands := rest } command with
            bare | ⟨t, a, heq, _⟩
          · exact absurd h (bare.events uri version count)
          · rw [heq] at h
            exact absurd h List.not_mem_nil
      | takesIn c rest message dispatched emits =>
          subst emits
          rcases (RecordHistory.broadcasts_dispatch m.before.folder { c with inbound := rest }
            message).kept uri version count h with ⟨params, hclass, hnames, _⟩
          exact ⟨k, params, (publication?_of_dispatched dispatched).trans
            (RecordHistory.publication?_eq_some_iff.mpr hclass), hnames⟩

end Moment
end LanguageClient

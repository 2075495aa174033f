import LanguageClient.Proofs.Session.Influence

/-!
# Tickets are answered at most once

A call numbers its questions, so every ticket is issued once. From then on it is
in one place: with a connection that has not answered yet, or among the tickets
that have been answered.
-/

namespace LanguageClient
namespace Session

variable {D : Type}

def holdings (s : Session D) (t : Ticket) : Nat :=
  (s.connections.flatMap Connection.tickets).count t

/-- A ticket is issued when its call has asked that many questions. -/
def Issued (s : Session D) (t : Ticket) : Prop :=
  exists call, s.call? t.call = some call ∧ t.serial ≤ call.serial

/-- Every ticket that is held or spent is so once, and has been issued. -/
structure Ticketed (s : Session D) (spent : List Ticket) : Prop where
  once : forall t, s.holdings t + spent.count t ≤ 1
  issued : forall t, 0 < s.holdings t + spent.count t -> s.Issued t

def KeepsSerials (s u : Session D) : Prop :=
  forall id call, s.call? id = some call ->
    exists call', u.call? id = some call' ∧ call.serial ≤ call'.serial

/-!
## Calls keep their serials
-/

namespace KeepsSerials

variable {s t u : Session D}

theorem of_calls (h : u.calls = s.calls) : KeepsSerials s u := by
  intro id call hcall
  exact ⟨call, (congrArg (·[id]?) h).trans hcall, Nat.le_refl _⟩

theorem trans (h : KeepsSerials s t) (h' : KeepsSerials t u) : KeepsSerials s u := by
  intro id call hcall
  rcases h id call hcall with ⟨call', hcall', hle⟩
  rcases h' id call' hcall' with ⟨call'', hcall'', hle'⟩
  exact ⟨call'', hcall'', Nat.le_trans hle hle'⟩

theorem issued (h : KeepsSerials s u) {ticket : Ticket} (hissued : s.Issued ticket) :
    u.Issued ticket := by
  rcases hissued with ⟨call, hcall, hle⟩
  rcases h _ call hcall with ⟨call', hcall', hle'⟩
  exact ⟨call', hcall', Nat.le_trans hle hle'⟩

end KeepsSerials

theorem modifyCall_keepsSerials (s : Session D) (id : Nat) {f : Call -> Call}
    (hf : forall call, s.call? id = some call -> call.serial ≤ (f call).serial) :
    KeepsSerials s (s.modifyCall id f) := by
  intro j call hcall
  rw [call?_modifyCall, hcall]
  by_cases hj : id = j
  · exact ⟨f call, if_pos hj, hf call (hj ▸ hcall)⟩
  · exact ⟨call, if_neg hj, Nat.le_refl _⟩

theorem deliverAll_keepsSerials (s : Session D) (answers : List (Ticket × Answer)) :
    KeepsSerials s (s.deliverAll answers) := by
  induction answers generalizing s with
  | nil => exact .of_calls rfl
  | cons answer rest ih =>
      refine KeepsSerials.trans ?_ (ih (s.deliver answer.1 answer.2))
      refine s.modifyCall_keepsSerials _ fun call _ => ?_
      split <;> exact Nat.le_refl _

theorem emit_keepsSerials (s : Session D) (e : Emitted) : KeepsSerials s (s.emit e) :=
  (s.deliverAll_keepsSerials e.answers).trans (.of_calls rfl)

theorem enqueue_keepsSerials (s : Session D) (k : Nat) (command : Command) :
    KeepsSerials s (s.enqueue k command) := by
  rw [enqueue]
  split <;> exact .of_calls rfl

theorem apply_keepsSerials (s : Session D) (id : Nat) (e : Effect D) :
    KeepsSerials s (e.apply id s) := by
  cases e with
  | rest task => exact s.modifyCall_keepsSerials id fun _ _ => Nat.le_refl _
  | finish outcome =>
      exact modifyCall_keepsSerials (s := { s with turns := s.turns.erase id }) id
        fun _ _ => Nat.le_refl _
  | ask k question task =>
      cases hcall : s.call? id with
      | none =>
          rw [Effect.apply, ask, hcall]
          exact .of_calls rfl
      | some call =>
          rw [Effect.apply, ask_eq hcall]
          refine KeepsSerials.trans (s.modifyCall_keepsSerials id fun call' hcall' => ?_)
            (enqueue_keepsSerials _ k _)
          cases Option.some.inj (hcall.symm.trans hcall')
          exact Nat.le_succ _
  | abandon k number => exact s.enqueue_keepsSerials k _
  | _ => exact .of_calls rfl

theorem addCall_keepsSerials (s : Session D) : KeepsSerials s s.addCall := by
  intro id call hcall
  refine ⟨call, ?_, Nat.le_refl _⟩
  rw [addCall, call?, List.getElem?_append_left (lt_of_call? hcall)]
  exact hcall

/-!
## Where the tickets are
-/

theorem count_flatMap_set {l : List Connection} {k : Nat} {a : Connection} (h : l[k]? = some a)
    (b : Connection) (t : Ticket) :
    ((l.set k b).flatMap Connection.tickets).count t + a.tickets.count t =
      (l.flatMap Connection.tickets).count t + b.tickets.count t := by
  induction l generalizing k with
  | nil => contradiction
  | cons c rest ih =>
      cases k with
      | zero =>
          cases Option.some.inj h
          simp only [List.set_cons_zero, List.flatMap_cons, List.count_append]
          omega
      | succ k =>
          have hrest := ih (k := k) h
          simp only [List.set_cons_succ, List.flatMap_cons, List.count_append]
          omega

theorem holdings_congr {s u : Session D} (h : u.connections = s.connections) (t : Ticket) :
    u.holdings t = s.holdings t := by
  rw [holdings, h, ← holdings]

theorem holdings_setConnection {s : Session D} {k : Nat} {c : Connection}
    (hc : s.connection? k = some c) (c' : Connection) (t : Ticket) :
    (s.setConnection k c').holdings t + c.tickets.count t =
    s.holdings t + c'.tickets.count t :=
  count_flatMap_set hc c' t

theorem modifyConnection_absent {s : Session D} {k : Nat} (hc : s.connection? k = none)
    (f : Connection -> Connection) : s.modifyConnection k f = s := by
  rw [modifyConnection, List.modify_eq_self (List.getElem?_eq_none_iff.mp hc)]

theorem holdings_modifyConnection (s : Session D) (k : Nat) {f : Connection -> Connection}
    (hf : forall c, (f c).tickets = c.tickets) (t : Ticket) :
    (s.modifyConnection k f).holdings t = s.holdings t := by
  cases hc : s.connection? k with
  | none => rw [modifyConnection_absent hc]
  | some c =>
      have hset := holdings_setConnection hc (f c) t
      rw [hf] at hset
      rw [← setConnection_eq_modifyConnection hc]
      exact Nat.add_right_cancel hset

theorem count_tickets_concat (c : Connection) (command : Command) (t : Ticket) :
    ({ c with commands := c.commands ++ [command] } : Connection).tickets.count t =
      c.tickets.count t + command.ticket?.toList.count t := by
  have hsingle : [command].filterMap Command.ticket? = command.ticket?.toList := by
    cases hticket : command.ticket? with
    | none => simp [hticket]
    | some u => simp [hticket]
  simp only [Connection.tickets, List.filterMap_append, List.count_append, hsingle]
  omega

theorem holdings_enqueue_le (s : Session D) (k : Nat) (command : Command) (t : Ticket) :
    (s.enqueue k command).holdings t ≤ s.holdings t + command.ticket?.toList.count t := by
  rw [enqueue]
  split
  case isFalse => exact Nat.le_add_right _ _
  case isTrue =>
    cases hc : s.connection? k with
    | none =>
        rw [modifyConnection_absent hc]
        exact Nat.le_add_right _ _
    | some c =>
        have hset := holdings_setConnection hc
          { c with commands := c.commands ++ [command] } t
        rw [count_tickets_concat] at hset
        rw [← setConnection_eq_modifyConnection hc fun c =>
          { c with commands := c.commands ++ [command] }]
        omega

theorem holdings_launch (s : Session D) (launched : Bool) (t : Ticket) :
    (s.launch launched).holdings t = s.holdings t := by
  have hnew : (Connection.new launched).tickets.count t = 0 := rfl
  rw [holdings, launch, List.flatMap_append, List.count_append, List.flatMap_singleton, hnew,
    Nat.add_zero, ← holdings]

/-!
## Steps
-/

namespace Ticketed

variable {s u : Session D} {spent : List Ticket}

theorem new (settings : Settings) (processId : Nat) (workspace : Workspace D) :
    Ticketed (Session.new settings processId workspace) [] where
  once _ := Nat.zero_le 1
  issued _ h := absurd h (Nat.lt_irrefl 0)

theorem shrink (h : Ticketed s spent) (hserials : KeepsSerials s u) {more : List Ticket}
    (hheld : forall t, u.holdings t + more.count t ≤ s.holdings t) :
    Ticketed u (spent ++ more) := by
  constructor
  case once =>
    intro t
    have honce := h.once t
    have hheld := hheld t
    rw [List.count_append]
    omega
  case issued =>
    intro t ht
    have hheld := hheld t
    rw [List.count_append] at ht
    exact hserials.issued (h.issued t (by omega))

theorem keep (h : Ticketed s spent) (hserials : KeepsSerials s u)
    (hheld : forall t, u.holdings t ≤ s.holdings t) : Ticketed u spent := by
  have hshrink : Ticketed u (spent ++ []) := h.shrink hserials hheld
  rwa [List.append_nil] at hshrink

theorem ask (h : Ticketed s spent) (id k : Nat) (question : Question) (task : Task) :
    Ticketed (s.ask id k question.command task) spent := by
  cases hcall : s.call? id with
  | none =>
      rw [Session.ask, hcall]
      exact h
  | some call =>
      have hheld (t : Ticket) : (s.ask id k question.command task).holdings t ≤
          s.holdings t + [(⟨id, call.serial + 1⟩ : Ticket)].count t := by
        have henqueue := holdings_enqueue_le (s.modifyCall id fun old =>
          { old with
              task
              serial := call.serial + 1
              mailbox := if s.isAlive k then none else some .dropped }) k
          (question.command ⟨id, call.serial + 1⟩) t
        rw [ask_eq hcall]
        rw [question.own] at henqueue
        exact henqueue
      have hserials := s.apply_keepsSerials id (.ask k question task)
      have hnew : (s.ask id k question.command task).Issued ⟨id, call.serial + 1⟩ := by
        refine ⟨{ call with
            task
            serial := call.serial + 1
            mailbox := if s.isAlive k then none else some .dropped }, ?_, Nat.le_refl _⟩
        rw [ask_eq hcall, call?_enqueue, call?_modifyCall, if_pos rfl, hcall]
        rfl
      have hunheard : ¬ s.Issued ⟨id, call.serial + 1⟩ := by
        rintro ⟨call', hcall', hle⟩
        cases Option.some.inj (hcall.symm.trans hcall')
        exact absurd hle (Nat.not_succ_le_self _)
      constructor
      case once =>
        intro t
        have hheld := hheld t
        by_cases ht : t = ⟨id, call.serial + 1⟩
        · have hzero : ¬ 0 < s.holdings t + spent.count t :=
            fun hpos => hunheard (ht ▸ h.issued t hpos)
          rw [ht, List.count_singleton_self] at hheld
          rw [ht] at hzero ⊢
          omega
        · have honce := h.once t
          rw [List.count_singleton, if_neg (by simpa using Ne.symm ht)] at hheld
          omega
      case issued =>
        intro t hpos
        have hheld := hheld t
        by_cases ht : t = ⟨id, call.serial + 1⟩
        · exact ht ▸ hnew
        · rw [List.count_singleton, if_neg (by simpa using Ne.symm ht)] at hheld
          exact hserials.issued (h.issued t (by omega))

theorem apply (h : Ticketed s spent) (id : Nat) (e : Effect D) :
    Ticketed (e.apply id s) spent := by
  have hserials := s.apply_keepsSerials id e
  cases e with
  | ask k question task => exact h.ask id k question task
  | abandon k number =>
      exact h.keep hserials fun t => s.holdings_enqueue_le k (.abandon number) t
  | condemn k =>
      refine h.keep hserials fun t => Nat.le_of_eq ?_
      exact s.holdings_modifyConnection k (f := fun c => { c with stopping := true })
        (fun _ => rfl) t
  | welcome k =>
      refine h.keep hserials fun t => Nat.le_of_eq ?_
      exact s.holdings_modifyConnection k (f := fun c => { c with initialized := true })
        (fun _ => rfl) t
  | launch launched =>
      exact h.keep hserials fun t => Nat.le_of_eq (s.holdings_launch launched t)
  | _ => exact h.keep hserials fun t => Nat.le_of_eq (holdings_congr rfl t)

theorem undergo (h : Ticketed s spent) (id : Nat) (effects : List (Effect D)) :
    Ticketed (s.undergo id effects) spent := by
  induction effects generalizing s with
  | nil => exact h
  | cons e rest ih => exact ih (h.apply id e)

theorem moment {m : Moment D} (h : Ticketed m.before spent) (hkind : m.Kind) :
    Ticketed m.after (spent ++ m.answers.map Prod.fst) := by
  have hnothing (hquiet : m.emitted? = none) (hafter : Ticketed m.after spent) :
      Ticketed m.after (spent ++ m.answers.map Prod.fst) := by
    have hanswers : m.answers = [] := by rw [Moment.answers, hquiet]
    rwa [hanswers, List.map_nil, List.append_nil]
  cases hkind with
  | connection k c c' e hemitted hc halive hproceeds hafter haction =>
      have hanswers : m.answers = e.answers := by rw [Moment.answers, hemitted]
      rw [hanswers, hafter]
      refine h.shrink ?_ fun t => ?_
      · exact KeepsSerials.trans (.of_calls rfl)
          (emit_keepsSerials (m.before.setConnection k c') e)
      · have hset := holdings_setConnection hc c' t
        have hemit : ((m.before.setConnection k c').emit e).holdings t =
            (m.before.setConnection k c').holdings t :=
          holdings_congr (connections_emit _ e) t
        rw [hemit]
        have hcount := hproceeds.count_tickets t
        omega
  | begins op effects haction hfirst hafter =>
      refine hnothing (Moment.emitted?_of_action (by rw [haction]; rfl)) ?_
      rw [hafter]
      exact (h.keep m.before.addCall_keepsSerials
        fun t => Nat.le_of_eq (holdings_congr rfl t)).undergo _ effects
  | goesOn id call effects haction hcall hstep hafter =>
      refine hnothing (Moment.emitted?_of_action (by rw [haction]; rfl)) ?_
      rw [hafter]
      exact h.undergo id effects
  | withdraws id haction hafter =>
      refine hnothing (Moment.emitted?_of_action (by rw [haction]; rfl)) ?_
      rw [hafter]
      exact h.keep (m.before.modifyCall_keepsSerials id fun _ _ => Nat.le_refl _)
        fun t => Nat.le_of_eq (holdings_congr rfl t)
  | world k f hundisturbed hquiet haction hafter =>
      refine hnothing hquiet ?_
      rw [hafter]
      refine h.keep (.of_calls rfl) fun t =>
        Nat.le_of_eq (m.before.holdings_modifyConnection k ?_ t)
      intro c
      rcases hundisturbed c with ⟨hphase, hcommands, hpending, _⟩
      rw [Connection.tickets, hphase, hcommands, hpending, ← Connection.tickets]
  | elapses ms haction hafter =>
      refine hnothing (Moment.emitted?_of_action (by rw [haction]; rfl)) ?_
      rw [hafter]
      exact h.keep (.of_calls rfl) fun t => Nat.le_of_eq (holdings_congr rfl t)

end Ticketed

theorem Course.ticketed [FileSystem D] {settings : Settings} {processId : Nat}
    {workspace : Workspace D} {moments : List (Moment D)} {s : Session D}
    (course : Course (Session.new settings processId workspace) moments s) :
    Ticketed s (answered moments) := by
  induction course with
  | refl => exact .new settings processId workspace
  | act course a ha ih =>
      rw [answered_concat]
      exact ih.moment (kind_of_act ha)
  | touch course disk ih =>
      exact ih.keep (.of_calls rfl) fun t => Nat.le_of_eq (holdings_congr rfl t)

/-- A ticket that is answered at a moment has not been answered before,
and nobody holds it then. -/
theorem Course.answered_once [FileSystem D] {settings : Settings} {processId : Nat}
    {workspace : Workspace D} {moments : List (Moment D)} {m : Moment D}
    (course : Course (Session.new settings processId workspace) moments m.before)
    (hact : m.before.act m.action = some m.after) (t : Ticket) :
    m.after.holdings t + ((answered moments).count t + (m.answers.map Prod.fst).count t) ≤
      1 := by
  have honce := (course.act m.action hact).ticketed.once t
  rwa [answered_concat, List.count_append] at honce

end Session
end LanguageClient

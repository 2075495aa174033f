import LanguageClient.Proofs.Session.Dealings
import LanguageClient.Proofs.Session.Errands
import LanguageClient.Proofs.Session.Roles

/-!
# One server at a time

Of all connections of a session at most one is alive, the current one. A start that finds it
alive is refused. A call that asks a connection for its end waits until the connection has
ended, so nothing is left alive when a stop returns or a start fails.
-/

namespace LanguageClient

variable {D : Type}

namespace Task

def engages? : Task -> Option Nat
  | .introducing k _ _ | .announcing k | .shuttingDown k _ _ _ | .exiting k _ => some k
  | _ => none

def isParting : Task -> Bool
  | .aborting _ | .terminating => true
  | _ => false

theorem isLifecycle_of_engages? {task : Task} {k : Nat} (h : task.engages? = some k) :
    task.isLifecycle = true ∧ task.waits = false := by
  cases task <;> first | exact ⟨rfl, rfl⟩ | contradiction

theorem isLifecycle_of_isParting {task : Task} (h : task.isParting = true) :
    task.isLifecycle = true ∧ task.waits = false := by
  cases task <;> first | exact ⟨rfl, rfl⟩ | contradiction

end Task

/-!
## Connections that are asked to end
-/

namespace Connection

/-- A connection has been asked for its end under this ticket. -/
def IsParting (t : Ticket) (c : Connection) : Prop :=
  c.phase.ticket? = some t ∨ exists force, .terminate force t ∈ c.commands

variable {now : Nat} {c c' : Connection} {e : Emitted} {t : Ticket}

theorem IsParting.mem_tickets (h : c.IsParting t) : t ∈ c.tickets := by
  rcases h with hphase | ⟨force, hcommand⟩
  · exact List.mem_append_left _ (hphase ▸ List.mem_singleton_self _)
  · refine List.mem_append_right _ (List.mem_append_right _ ?_)
    exact List.mem_filterMap.mpr ⟨_, hcommand, rfl⟩

theorem IsParting.keep (h : c.IsParting t) (hphase : c'.phase = c.phase)
    (hcommands : forall command, command ∈ c.commands -> command ∈ c'.commands) :
    c'.IsParting t := by
  rw [IsParting, hphase]
  exact h.imp_right fun ⟨force, hcommand⟩ => ⟨force, hcommands _ hcommand⟩

theorem IsParting.leave (h : c.IsParting t) (hphase : c.phase.ticket? = none)
    (hcommands : c'.commands = c.commands) : c'.IsParting t :=
  Or.inr (hcommands ▸ h.resolve_left fun ht => nomatch hphase.symm.trans ht)

theorem stepCommand_isParting (hstep : c.stepCommand now = some (c', e)) (h : c.IsParting t)
    (halive : c'.isAlive = true) : c'.IsParting t := by
  rcases stepCommand_serves hstep with ⟨command, rest, _, hphase, hcommands, hserve⟩
  have hserve : (serve now { c with commands := rest } command).1 = c' :=
    congrArg Prod.fst hserve
  rcases h with ht | ⟨force, hcommand⟩
  · rw [hphase] at ht
    contradiction
  rw [hcommands] at hcommand
  have hstays (hother : forall force t, command ≠ .terminate force t) : c'.IsParting t := by
    have hstays := serve_stays now { c with commands := rest } hother
    rw [hserve] at hstays
    refine Or.inr ⟨force, ?_⟩
    rw [hstays.commands]
    exact (List.mem_cons.mp hcommand).resolve_left fun heq => hother force t heq.symm
  cases command with
  | terminate force' t' =>
      rw [← hserve] at halive ⊢
      simp only [serve] at halive ⊢
      split at halive
      · contradiction
      · rename_i hprocess
        simp only [hprocess]
        rcases List.mem_cons.mp hcommand with heq | hrest
        · cases heq
          exact Or.inl rfl
        · exact Or.inr ⟨force, hrest⟩
  | _ => exact hstays (by simp)

theorem Retires.isParting (hretires : Retires now c c' e) (h : c.IsParting t)
    (halive : c'.isAlive = true) : c'.IsParting t := by
  cases hretires with
  | reaps _ _ phase | drains _ phase => exact h.leave (by rw [phase]; rfl) rfl
  | signals _ _ _ phase | kills _ _ _ phase =>
      rw [IsParting, phase] at h
      exact h
  | closes | parts => contradiction

theorem stepInbound_isParting {folder : String × String}
    (hstep : c.stepInbound now folder = some (c', e)) (h : c.IsParting t)
    (halive : c'.isAlive = true) : c'.IsParting t := by
  rcases stepInbound_cases hstep with ⟨message, rest, _, _, _, hdispatch⟩ | ⟨_, hretires⟩
  · have hstays := dispatch_stays folder { c with inbound := rest } message
    rw [hdispatch] at hstays
    exact h.keep hstays.phase fun _ hcommand => hstays.commands ▸ hcommand
  · exact hretires.isParting h halive

end Connection

namespace Session

theorem isParting_of_act [FileSystem D] {s u : Session D} {a : Action} (h : s.act a = some u)
    {k : Nat} {c c' : Connection} {t : Ticket} (hc : s.connection? k = some c)
    (hc' : u.connection? k = some c') (hparting : c.IsParting t) (halive : c'.isAlive = true) :
    c'.IsParting t := by
  have hsame (hsame : u.connection? k = s.connection? k) : c'.IsParting t := by
    cases Option.some.inj (hc'.symm.trans (hsame.trans hc))
    exact hparting
  have hstep {j : Nat} {step : Connection -> Option (Connection × Emitted)}
      (h : s.stepConnection j step = some u)
      (hparts : forall {c c' e}, step c = some (c', e) -> Connection.IsParting t c ->
        c'.isAlive = true -> c'.IsParting t) : c'.IsParting t := by
    unfold stepConnection at h
    split at h
    case h_1 => contradiction
    case h_2 b hb =>
      rcases Option.map_eq_some_iff.mp h with ⟨⟨b', e⟩, hb', hu⟩
      have hconnection := connection?_emit hb b' e k
      rw [show (s.setConnection j b').emit e = u from hu] at hconnection
      by_cases hj : j = k
      · subst hj
        rw [if_pos rfl] at hconnection
        cases Option.some.inj (hc'.symm.trans hconnection)
        cases Option.some.inj (hc.symm.trans hb)
        exact hparts hb' hparting halive
      · exact hsame (hconnection.trans (if_neg hj))
  have hworld {j : Nat} {f : Connection -> Connection} (hu : u = s.modifyConnection j f)
      (hf : forall c, Connection.Undisturbed c (f c)) : c'.IsParting t := by
    have hconnection := s.connection?_modifyConnection j k f
    rw [← hu, hc'] at hconnection
    split at hconnection
    · rw [hc] at hconnection
      cases Option.some.inj hconnection
      exact hparting.keep (hf c).phase fun _ hcommand => (hf c).commands ▸ hcommand
    · exact hsame (hc'.trans hconnection)
  have hgets (s' : Session D) {id : Nat} {effects : List (Effect D)}
      (hid : id < s'.calls.length)
      (hconnections : s'.connections = s.connections) (hu : u = s'.undergo id effects) :
      c'.IsParting t := by
    have hb : s'.connection? k = some c := by rw [connection?, hconnections, ← connection?, hc]
    rcases undergo_gets hid effects hb with ⟨b', added, hb', hgets, _⟩
    rw [← hu] at hb'
    cases Option.some.inj (hc'.symm.trans hb')
    exact hparting.keep hgets.phase fun _ hcommand =>
      hgets.commands ▸ List.mem_append_left _ hcommand
  cases a with
  | begin op =>
      cases h
      rcases s.beginCall_effects op with ⟨effects, _, hafter⟩
      exact hgets s.addCall s.calls_length_lt_addCall rfl hafter
  | goOn id =>
      rcases stepCall_effects h with ⟨call, effects, hcall, _, hafter⟩
      exact hgets s (lt_of_call? hcall) rfl hafter
  | serve j => exact hstep h Connection.stepCommand_isParting
  | takeIn j => exact hstep h Connection.stepInbound_isParting
  | noticeExit j =>
      exact hstep h fun hstep => (Connection.stepExit_retires hstep).isParting
  | expire j =>
      exact hstep h fun hstep => (Connection.stepDeadline_retires hstep).isParting
  | receive j bytes =>
      cases h
      exact hworld rfl fun c => c.receive_undisturbed bytes
  | hangUp j =>
      cases h
      exact hworld rfl Connection.hangUp_undisturbed
  | breakPipe j =>
      cases h
      exact hworld rfl Connection.breakPipe_undisturbed
  | exit j code =>
      cases h
      exact hworld rfl fun c => c.exit_undisturbed code
  | _ =>
      cases h
      exact hsame rfl

theorem isParting_of_ask {s u : Session D} {id k : Nat} {force : Bool} {task : Task}
    (hid : id < s.calls.length) (hu : u = s.ask id k (Question.terminate force).command task)
    {call : Call} (hcall : u.call? id = some call) (halive : u.isAlive k = true) :
    call.mailbox = none ∧ exists c, u.connection? k = some c ∧
      c.IsParting ⟨id, call.serial⟩ := by
  rcases call?_eq_some_of_lt hid with ⟨before, hbefore⟩
  cases hc : s.connection? k with
  | none =>
      rw [hu, isAlive_of_absent (by rw [connection?_ask hbefore, hc]; rfl)] at halive
      contradiction
  | some c =>
      have hconnection := connection?_ask hbefore k (Question.terminate force).command task k
      rw [hc, Option.map_some, ← hu] at hconnection
      have hlive : c.isAlive = true := by
        rw [isAlive_of_connection? hconnection] at halive
        split at halive <;> exact halive
      have hask : u.call? id = some { before with
          task
          serial := before.serial + 1
          mailbox := if s.isAlive k then none else some .dropped } := by
        rw [hu, ask_eq hbefore, call?_enqueue, call?_modifyCall, if_pos rfl, hbefore]
        rfl
      cases Option.some.inj (hcall.symm.trans hask)
      refine ⟨by rw [isAlive_of_connection? hc, hlive]; rfl, _, hconnection,
        Or.inr ⟨force, ?_⟩⟩
      rw [if_pos ⟨hlive, rfl⟩]
      exact List.mem_append_right _ (List.mem_singleton_self _)

/-!
## One connection at a time
-/

/-- Only the current connection can be alive. A call that starts or stops its server has to
do with the current connection, and one that waits for the end of a connection waits as long
as it is alive. -/
structure Exclusive (s : Session D) : Prop where
  alive : forall k, s.isAlive k = true -> s.current = some k
  engaged : forall id task k, s.task? id = some task -> task.engages? = some k ->
    s.current = some k
  parting : forall id call k, s.call? id = some call -> call.task.isParting = true ->
    s.isAlive k = true -> call.mailbox = none ∧
      exists c, s.connection? k = some c ∧ c.IsParting ⟨id, call.serial⟩

namespace Exclusive

variable {s : Session D} {m : Moment D}

theorem new (settings : Settings) (processId : Nat) (workspace : Workspace D) :
    Exclusive (Session.new settings processId workspace) where
  alive _ h := nomatch h
  engaged _ _ _ h := nomatch h
  parting _ _ _ h := nomatch h

theorem single (h : Exclusive s) {j k : Nat} (hj : s.isAlive j = true)
    (hk : s.isAlive k = true) :
    j = k :=
  Option.some.inj ((h.alive j hj).symm.trans (h.alive k hk))

theorem idle (h : Exclusive s) (hdead : s.alive? = none) (k : Nat) : s.isAlive k = false := by
  cases hk : s.isAlive k with
  | false => rfl
  | true => exact nomatch hdead.symm.trans (alive?_eq_some.mpr ⟨h.alive k hk, hk⟩)

theorem parted (h : Exclusive s) {id : Nat} {call : Call} (hcall : s.call? id = some call)
    (hparting : call.task.isParting = true) (hheard : call.mailbox.isSome = true) (k : Nat) :
    s.isAlive k = false := by
  cases hk : s.isAlive k with
  | false => rfl
  | true =>
      rw [(h.parting id call k hcall hparting hk).1] at hheard
      contradiction

end Exclusive

/-- What is alive after a moment has been so before, unless it is a new connection. -/
theorem isAlive_before {m : Moment D} (hpasses : forall k, m.Passes k) {k : Nat}
    (halive : m.after.isAlive k = true) :
    m.before.isAlive k = true ∨ m.before.connection? k = none := by
  cases hpasses k with
  | absent before after quiet => exact Or.inr before
  | appears c' before after alive mark quiet => exact Or.inr before
  | used c c' before after used mark quiet =>
      rw [isAlive_of_connection? after, used.isAlive] at halive
      exact Or.inl (isAlive_of_connection? before ▸ halive)
  | proceeds c c' e emitted before after step alive proceeds spared =>
      exact Or.inl (isAlive_of_connection? before ▸ alive)

theorem isAlive_of_same_length {m : Moment D} (hpasses : forall k, m.Passes k)
    (hlength : m.after.connections.length = m.before.connections.length) {k : Nat}
    (halive : m.after.isAlive k = true) : m.before.isAlive k = true := by
  refine (isAlive_before hpasses halive).resolve_right fun hnone => ?_
  have hle : m.before.connections.length ≤ k := List.getElem?_eq_none_iff.mp hnone
  rw [isAlive_of_absent (List.getElem?_eq_none_iff.mpr (hlength ▸ hle))] at halive
  contradiction

section

variable [FileSystem D] {settings : Settings} {processId : Nat} {workspace : Workspace D}
  {moments : List (Moment D)} {s : Session D} {m : Moment D}

theorem Exclusive.keep (h : Exclusive m.before)
    (course : Course (Session.new settings processId workspace) moments m.before)
    (hact : m.before.act m.action = some m.after)
    (hcurrent : m.after.current = m.before.current)
    (hlength : m.after.connections.length = m.before.connections.length)
    (hengaged : forall id task k, m.after.task? id = some task -> task.engages? = some k ->
      m.before.task? id = some task ∨ m.before.current = some k)
    (hparting : forall id call k, m.after.call? id = some call -> call.task.isParting = true ->
      m.after.isAlive k = true ->
      m.action ≠ .goOn id ∧ m.before.task? id = some call.task ∨
        call.mailbox = none ∧
          exists c, m.after.connection? k = some c ∧ c.IsParting ⟨id, call.serial⟩) :
    Exclusive m.after := by
  have hpasses : forall k, m.Passes k := (kind_of_act hact).passes
  constructor
  case alive =>
    intro k hk
    rw [hcurrent]
    exact h.alive k (isAlive_of_same_length hpasses hlength hk)
  case engaged =>
    intro id task k htask hengages
    rw [hcurrent]
    rcases hengaged id task k htask hengages with hold | hnow
    · exact h.engaged id task k hold hengages
    · exact hnow
  case parting =>
    intro id call k hcall hparts hk
    rcases hparting id call k hcall hparts hk with ⟨haction, htask⟩ | hnew
    case inr => exact hnew
    rcases Option.map_eq_some_iff.mp htask with ⟨before, hbefore, hsame⟩
    have hlive := isAlive_of_same_length hpasses hlength hk
    rcases h.parting id before k hbefore (hsame ▸ hparts) hlive with ⟨hmail, c, hc, hticket⟩
    have honce := course.answered_once hact ⟨id, before.serial⟩
    have hdeals : m.Deals := deals_of_act hact
    rcases heard_of_deals hdeals hbefore haction (by omega) with
      ⟨call', hcall', _, hserial, _, hunheard⟩
    cases Option.some.inj (hcall.symm.trans hcall')
    have hafter : exists c', m.after.connection? k = some c' := by
      cases hc' : m.after.connection? k with
      | none =>
          rw [isAlive_of_absent hc'] at hk
          contradiction
      | some c' => exact ⟨c', rfl⟩
    rcases hafter with ⟨c', hc'⟩
    have hstill := isParting_of_act hact hc hc' hticket (isAlive_of_connection? hc' ▸ hk)
    -- The ticket is still held, so it has not been answered.
    have hheld : 0 < m.after.holdings ⟨id, before.serial⟩ :=
      List.count_pos_iff.mpr
        (List.mem_flatMap.mpr ⟨c', List.mem_of_getElem? hc', hstill.mem_tickets⟩)
    have hnone : ⟨id, before.serial⟩ ∉ m.answers.map Prod.fst :=
      List.count_eq_zero.mp (by omega)
    exact ⟨(hunheard hnone).trans hmail, c', hc', hserial ▸ hstill⟩

/-- At this moment call `id` has turned to `last`; no other call has to do with a connection
in order to start or stop its server. -/
def Acts (m : Moment D) (id : Nat) (last : Task) : Prop :=
  forall j task, m.after.task? j = some task -> task.isLifecycle = true ∧ task.waits = false ->
    id = j ∧ task = last

omit [FileSystem D] in
theorem LifecycleStep.acts {id : Nat} {call : Call} {effects : List (Effect D)}
    (hstep : LifecycleStep m.before id call call.task effects) (horderly : Orderly m.before)
    (hcall : m.before.call? id = some call) (hafter : m.after = m.before.undergo id effects)
    {last : Task} (hlast : Effect.lastTask? effects = some last) : Acts m id last := by
  intro j task htask hlife
  have hown : m.before.lifecycle? id = some call.task := by
    rw [lifecycle?, task?_of_call? hcall]
    exact if_pos hstep.isLifecycle
  have hhead : m.before.turns.head? = some id := by
    cases hwaits : call.task.waits with
    | true => exact hstep.turn hwaits
    | false => exact horderly.first id _ hown hwaits
  rw [hafter, undergo_task? (lt_of_call? hcall), hlast, Option.some_or] at htask
  by_cases hj : id = j
  · rw [if_pos hj] at htask
    exact ⟨hj, (Option.some.inj htask).symm⟩
  · rw [if_neg hj] at htask
    have hfirst :=
      horderly.first j task (by rw [lifecycle?, htask]; exact if_pos hlife.1) hlife.2
    exact absurd (Option.some.inj (hhead.symm.trans hfirst)) hj

theorem Exclusive.stays (h : Exclusive m.before)
    (course : Course (Session.new settings processId workspace) moments m.before)
    (hact : m.before.act m.action = some m.after) {id : Nat} {last : Task}
    (hacts : Acts m id last) (hcurrent : m.after.current = m.before.current)
    (hlength : m.after.connections.length = m.before.connections.length)
    (hengages : forall k, last.engages? = some k -> m.before.current = some k)
    (hparts : last.isParting = true -> exists (t : Session D) (k : Nat) (force : Bool),
      id < t.calls.length ∧ m.before.current = some k ∧
        m.after = t.ask id k (Question.terminate force).command last) : Exclusive m.after := by
  have hpasses : forall k, m.Passes k := (kind_of_act hact).passes
  refine h.keep course hact hcurrent hlength (fun j task k htask hk => ?_)
    fun j after k hcall hparting hk => ?_
  · rcases hacts j task htask (Task.isLifecycle_of_engages? hk) with ⟨_, rfl⟩
    exact Or.inr (hengages k hk)
  · rcases hacts j _ (task?_of_call? hcall) (Task.isLifecycle_of_isParting hparting) with
      ⟨rfl, hsame⟩
    rcases hparts (hsame ▸ hparting) with ⟨t, j, force, ht, hj, hask⟩
    have hlive := isAlive_of_same_length hpasses hlength hk
    cases Option.some.inj (hj.symm.trans (h.alive k hlive))
    exact Or.inr (isParting_of_ask ht hask hcall hk)

omit [FileSystem D] in
theorem Exclusive.of_idle (hpasses : forall k, m.Passes k) {id : Nat} {last : Task}
    (hacts : Acts m id last) (hidle : forall k, m.before.isAlive k = false)
    (hlength : m.after.connections.length = m.before.connections.length)
    (hdone : last.isLifecycle = false) : Exclusive m.after := by
  have hdead (k : Nat) (hk : m.after.isAlive k = true) : False :=
    Bool.noConfusion ((hidle k).symm.trans (isAlive_of_same_length hpasses hlength hk))
  refine ⟨fun k hk => (hdead k hk).elim, fun j task k htask hk => ?_,
    fun j after k _ _ hk => (hdead k hk).elim⟩
  have hlife := Task.isLifecycle_of_engages? hk
  rcases hacts j task htask hlife with ⟨_, rfl⟩
  exact nomatch hdone.symm.trans hlife.1

omit [FileSystem D] in
theorem isAlive_of_launch (hpasses : forall k, m.Passes k)
    (hidle : forall k, m.before.isAlive k = false)
    (hlength : m.after.connections.length = m.before.connections.length + 1) {k : Nat}
    (halive : m.after.isAlive k = true) : k = m.before.connections.length := by
  have hnone := (isAlive_before hpasses halive).resolve_left (Bool.eq_false_iff.mp (hidle k))
  have hle : m.before.connections.length ≤ k := List.getElem?_eq_none_iff.mp hnone
  have hlt : k < m.after.connections.length := by
    refine Nat.lt_of_not_le fun hle' => ?_
    rw [isAlive_of_absent (List.getElem?_eq_none_iff.mpr hle')] at halive
    contradiction
  rw [hlength] at hlt
  exact Nat.le_antisymm (Nat.le_of_lt_succ hlt) hle

omit [FileSystem D] in
theorem Exclusive.of_launch (hpasses : forall k, m.Passes k) {id number deadline : Nat}
    (hacts : Acts m id (.introducing m.before.connections.length number deadline))
    (hidle : forall k, m.before.isAlive k = false)
    (hcurrent : m.after.current = some m.before.connections.length)
    (hlength : m.after.connections.length = m.before.connections.length + 1) :
    Exclusive m.after := by
  refine ⟨fun k hk => ?_, fun j task k htask hk => ?_, fun j after k hcall hparting _ => ?_⟩
  · rw [hcurrent, isAlive_of_launch hpasses hidle hlength hk]
  · rcases hacts j task htask (Task.isLifecycle_of_engages? hk) with ⟨_, rfl⟩
    cases hk
    exact hcurrent
  · rcases hacts j _ (task?_of_call? hcall) (Task.isLifecycle_of_isParting hparting) with
      ⟨_, hsame⟩
    rw [hsame] at hparting
    contradiction

theorem Exclusive.lifecycle (h : Exclusive m.before)
    (course : Course (Session.new settings processId workspace) moments m.before)
    (hact : m.before.act m.action = some m.after) {id : Nat} {call : Call}
    {effects : List (Effect D)} (hcall : m.before.call? id = some call)
    (hstep : LifecycleStep m.before id call call.task effects)
    (hafter : m.after = m.before.undergo id effects) : Exclusive m.after := by
  have hpasses : forall k, m.Passes k := (kind_of_act hact).passes
  have hacts {last : Task} (hlast : Effect.lastTask? effects = some last) : Acts m id last :=
    hstep.acts course.orderly hcall hafter hlast
  have houtline := m.before.undergo_outline id effects
  rw [← hafter] at houtline
  -- The last effect is to ask for the end of a connection.
  have hask (first : List (Effect D)) {k : Nat} {force : Bool} {last : Task}
      (heffects : effects = first ++ [.ask k (.terminate force) last])
      (hk : m.before.current = some k) (_ : last.isParting = true) :
      exists (t : Session D) (k : Nat) (force : Bool), id < t.calls.length ∧
        m.before.current = some k ∧
          m.after = t.ask id k (Question.terminate force).command last := by
    refine ⟨m.before.undergo id first, k, force, ?_, hk, ?_⟩
    · rw [undergo_calls_length]
      exact lt_of_call? hcall
    · rw [hafter, heffects, undergo, List.foldl_append]
      rfl
  generalize htask : call.task = task at hstep
  have hcurrent {k : Nat} (hk : task.engages? = some k) : m.before.current = some k :=
    h.engaged id task k (htask ▸ task?_of_call? hcall) hk
  have hparted (hparting : task.isParting = true) (hheard : call.mailbox.isSome = true)
      (k : Nat) :
      m.before.isAlive k = false := h.parted hcall (htask ▸ hparting) hheard k
  cases hstep with
  | alreadyRunning launch turn alive =>
      injection houtline with _ hsame _ hlength
      exact h.stays course hact (hacts rfl) hsame hlength nofun nofun
  | refused launch reason turn dead =>
      rw [List.foldl_append, foldl_redraw_forgetting] at houtline
      injection houtline with _ _ _ hlength
      exact .of_idle hpasses (hacts (Effect.lastTask?_append ..)) (h.idle dead) hlength rfl
  | launched launch turn dead =>
      rw [List.foldl_append, foldl_redraw_forgetting] at houtline
      injection houtline with _ hnew _ hlength
      exact .of_launch hpasses (hacts (Effect.lastTask?_append ..)) (h.idle dead) hnew hlength
  | introduced k number deadline v heard =>
      injection houtline with _ hsame _ hlength
      refine h.stays course hact (hacts rfl) hsame hlength (fun j hj => ?_) nofun
      cases hj
      exact hcurrent rfl
  | notIntroduced k number deadline reason before givesUp =>
      rw [List.foldl_append, givesUp.foldl_redraw] at houtline
      injection houtline with _ hsame _ hlength
      exact h.stays course hact (hacts (Effect.lastTask?_append ..)) hsame hlength nofun
        (hask _ (List.append_cons before (.condemn k) _) (hcurrent rfl))
  | announced k heard =>
      injection houtline with _ hsame _ hlength
      exact h.stays course hact (hacts rfl) hsame hlength nofun nofun
  | notAnnounced k reason =>
      injection houtline with _ hsame _ hlength
      exact h.stays course hact (hacts rfl) hsame hlength nofun
        (hask [.condemn k] rfl (hcurrent rfl))
  | aborted reason heard =>
      injection houtline with _ _ _ hlength
      exact .of_idle hpasses (hacts rfl) (hparted rfl heard) hlength rfl
  | nothingToStop force turn idle =>
      injection houtline with _ hsame _ hlength
      exact h.stays course hact (hacts rfl) hsame hlength nofun nofun
  | alreadyEnded force turn dead =>
      injection houtline with _ _ _ hlength
      exact .of_idle hpasses (hacts rfl) (h.idle dead) hlength rfl
  | askedToShutDown force k turn alive =>
      injection houtline with _ hsame _ hlength
      refine h.stays course hact (hacts rfl) hsame hlength (fun j hj => ?_) nofun
      cases hj
      exact (alive?_eq_some.mp alive).1
  | cutShort force k turn alive =>
      injection houtline with _ hsame _ hlength
      exact h.stays course hact (hacts rfl) hsame hlength nofun
        (hask [.condemn k] rfl (alive?_eq_some.mp alive).1)
  | sentExit k force number deadline before givesUp =>
      rw [List.foldl_append, givesUp.foldl_redraw] at houtline
      injection houtline with _ hsame _ hlength
      refine h.stays course hact (hacts (Effect.lastTask?_append ..)) hsame hlength
        (fun j hj => ?_) nofun
      cases hj
      exact hcurrent rfl
  | exited k force heard =>
      injection houtline with _ hsame _ hlength
      exact h.stays course hact (hacts rfl) hsame hlength nofun
        (hask [] rfl (hcurrent rfl))
  | stopped heard =>
      injection houtline with _ _ _ hlength
      exact .of_idle hpasses (hacts rfl) (hparted rfl heard) hlength rfl

omit [FileSystem D] in
theorem idle_of_begin (s : Session D) (op : Operation) {task : Task}
    (htask : (s.beginCall op).task? s.calls.length = some task) :
    ¬ (task.isLifecycle = true ∧ task.waits = false) := by
  rintro ⟨hlife, hacts⟩
  rcases s.beginCall_effects op with ⟨effects, hfirst, hafter⟩
  rw [hafter] at htask
  rcases task?_of_undergo s.calls_length_lt_addCall htask with hfresh | ⟨_, hlast⟩
  · rw [task?_addCall, if_pos rfl] at hfresh
    cases hfresh
    contradiction
  · cases hfirst with
    | modest hmodest =>
        exact nomatch (isLifecycle_of_isModest
          (isModest_lastTask hmodest hlast)).symm.trans hlife
    | waits task hwaits heq =>
        rw [heq] at hlast
        cases hlast
        exact nomatch hwaits.symm.trans hacts

theorem Exclusive.moment (h : Exclusive m.before)
    (course : Course (Session.new settings processId workspace) moments m.before)
    (hact : m.before.act m.action = some m.after) : Exclusive m.after := by
  have hquiet (hcurrent : m.after.current = m.before.current)
      (hlength : m.after.connections.length = m.before.connections.length)
      (hkept : forall id task, m.after.task? id = some task ->
        task.isLifecycle = true ∧ task.waits = false ->
        m.action ≠ .goOn id ∧ m.before.task? id = some task) : Exclusive m.after := by
    refine h.keep course hact hcurrent hlength (fun id task k htask hk => Or.inl ?_)
      fun id call k hcall hparting _ => Or.inl ?_
    · exact (hkept id task htask (Task.isLifecycle_of_engages? hk)).2
    · exact hkept id call.task (task?_of_call? hcall) (Task.isLifecycle_of_isParting hparting)
  have hsame (houtline : m.after.outline = m.before.outline)
      (hkept : forall id task, m.after.task? id = some task ->
        task.isLifecycle = true ∧ task.waits = false ->
        m.action ≠ .goOn id ∧ m.before.task? id = some task) : Exclusive m.after := by
    injection houtline with _ hcurrent _ hlength
    exact hquiet hcurrent hlength hkept
  have hkind : m.Kind := kind_of_act hact
  cases hkind with
  | connection k c c' e hemitted hc halive hproceeds hafter haction =>
      refine hsame (hafter ▸ outline_emit k c' e) fun id task htask _ => ⟨haction id, ?_⟩
      rwa [hafter, task?_emit] at htask
  | begins op effects haction hfirst hafter =>
      have houtline := m.before.addCall.undergo_outline m.before.calls.length effects
      rw [← hafter] at houtline
      have hkept (id : Nat) (task : Task) (htask : m.after.task? id = some task)
          (hlife : task.isLifecycle = true ∧ task.waits = false) :
          m.action ≠ .goOn id ∧ m.before.task? id = some task := by
        rw [haction] at hact
        rcases task?_of_kind (m := ⟨m.before, .begin op, m.after⟩) (kind_of_act hact) id with
          hsame | hgoes | ⟨rfl, _⟩
        · exact ⟨by simp [haction], hsame.symm.trans htask⟩
        · cases hgoes
        · rw [← Option.some.inj hact] at htask
          exact absurd hlife (m.before.idle_of_begin op htask)
      cases hfirst with
      | modest hmodest =>
          have hnone : m.before.calls.length ∉ m.before.turns := by
            apply course.orderly.not_mem_turns
            rw [lifecycle?, task?, call?, List.getElem?_eq_none (Nat.le_refl _)]
            rfl
          rw [foldl_redraw_of_modest hmodest hnone] at houtline
          exact hsame houtline hkept
      | waits task hwaits heq =>
          rw [heq] at houtline
          injection houtline with _ hcurrent _ hlength
          exact hquiet hcurrent hlength hkept
  | goesOn id call effects haction hcall hstep hafter =>
      cases hstep with
      | lifecycle step => exact h.lifecycle course hact hcall step hafter
      | modest other hmodest =>
          have hnone : m.before.lifecycle? id = none := by
            rw [lifecycle?, task?_of_call? hcall, Option.filter_some, other]
            rfl
          refine hsame ?_ fun j task htask hlife => ?_
          · rw [hafter, undergo_outline]
            exact foldl_redraw_of_modest hmodest (course.orderly.not_mem_turns hnone)
          · rw [hafter] at htask
            rcases task?_of_undergo (lt_of_call? hcall) htask with hold | ⟨_, hnew⟩
            · refine ⟨?_, hold⟩
              rw [haction]
              rintro ⟨⟩
              rw [Option.some.inj (hold.symm.trans (task?_of_call? hcall))] at hlife
              cases other.symm.trans hlife.1
            · cases (isLifecycle_of_isModest (isModest_lastTask hmodest hnew)).symm.trans
                hlife.1
  | withdraws id haction hafter =>
      refine hsame (by rw [hafter]; rfl) fun j task htask _ => ⟨by simp [haction], ?_⟩
      rwa [hafter, task?_cancelled] at htask
  | world k f hundisturbed hquiet haction hafter =>
      refine hsame ?_ fun j task htask _ => ⟨haction j, ?_⟩
      · rw [hafter]
        exact (m.before.modifyConnection_alike k f).outline
      · rwa [hafter] at htask
  | elapses ms haction hafter =>
      refine hsame (by rw [hafter]; rfl) fun j task htask _ => ⟨by simp [haction], ?_⟩
      rwa [hafter] at htask

theorem Course.exclusive (course :
      Course (Session.new settings processId workspace) moments s) :
    Exclusive s := by
  induction course with
  | refl => exact .new settings processId workspace
  | @act moments t u course a ha ih => exact Exclusive.moment (m := ⟨t, a, u⟩) ih course ha
  | touch course disk ih => exact ⟨ih.alive, ih.engaged, ih.parting⟩

end

end Session
end LanguageClient

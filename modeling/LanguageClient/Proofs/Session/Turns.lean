import LanguageClient.Proofs.Session.Marks

/-!
# Turns

Calls that start or stop a server take turns: they queue up, only the first one acts, and
it leaves the queue when it is done. So the connection that a call is starting is the
current one all along.
-/

namespace LanguageClient

/-- What calls know about a session apart from other calls and the insides of connections. -/
structure Outline where
  turns : List Nat
  current : Option Nat
  capabilities : Option Json
  /-- How many connections there have been. -/
  connections : Nat

def Effect.redraw {D : Type} (id : Nat) (o : Outline) : Effect D -> Outline
  | .lineUp => { o with turns := o.turns ++ [id] }
  | .finish _ => { o with turns := o.turns.erase id }
  | .reset => { o with current := none, capabilities := none }
  | .learn capabilities => { o with capabilities := some capabilities }
  | .launch _ => { o with current := some o.connections, connections := o.connections + 1 }
  | _ => o

namespace Session

variable {D : Type}

def outline (s : Session D) : Outline :=
  ⟨s.turns, s.current, s.capabilities, s.connections.length⟩

def lifecycle? (s : Session D) (id : Nat) : Option Task :=
  (s.task? id).filter Task.isLifecycle

/-!
## Outlines
-/

theorem Alike.outline {s u : Session D} (h : Alike s u) : u.outline = s.outline := by
  rw [Session.outline, h.turns, h.current, h.capabilities, h.connections, ← Session.outline]

theorem apply_outline (s : Session D) (id : Nat) (e : Effect D) :
    (e.apply id s).outline = e.redraw id s.outline := by
  cases e with
  | ask k question task => exact (s.ask_alike id k question.command task).outline
  | abandon k number => exact (s.enqueue_alike k (.abandon number)).outline
  | condemn k => exact (s.modifyConnection_alike k _).outline
  | welcome k => exact (s.modifyConnection_alike k _).outline
  | launch launched =>
      simp [Effect.apply, Session.launch, Effect.redraw, outline]
  | _ => rfl

theorem undergo_outline (s : Session D) (id : Nat) (effects : List (Effect D)) :
    (s.undergo id effects).outline = effects.foldl (Effect.redraw id) s.outline := by
  induction effects generalizing s with
  | nil => rfl
  | cons e rest ih => rw [undergo_cons, ih, apply_outline, List.foldl_cons]

theorem foldl_redraw_of_modest {id : Nat} {o : Outline} {effects : List (Effect D)}
    (h : forall e, e ∈ effects -> e.isModest = true) (hid : id ∉ o.turns) :
    effects.foldl (Effect.redraw id) o = o := by
  induction effects with
  | nil => rfl
  | cons e rest ih =>
      have hhead : e.redraw id o = o := by
        have he := h e List.mem_cons_self
        cases e with
        | finish outcome => rw [Effect.redraw, List.erase_of_not_mem hid]
        | rest task => rfl
        | ask k question task => rfl
        | draw => rfl
        | abandon k number => rfl
        | store workspace => rfl
        | _ => contradiction
      rw [List.foldl_cons, hhead]
      exact ih fun e' he' => h e' (List.mem_cons_of_mem _ he')

theorem isModest_lastTask {effects : List (Effect D)}
    (h : forall e, e ∈ effects -> e.isModest = true) {task : Task}
    (htask : Effect.lastTask? effects = some task) : task.isModest = true := by
  rcases Effect.exists_of_lastTask? htask with ⟨e, he, heq⟩
  have hmodest := h e he
  cases e with
  | rest task' | ask k question task' | finish outcome =>
      cases heq
      exact hmodest
  | _ => contradiction

theorem isLifecycle_of_isModest {task : Task} (h : task.isModest = true) :
    task.isLifecycle = false := by
  rw [Task.isModest, Bool.and_eq_true, Bool.not_eq_true'] at h
  exact h.1

theorem isCoherent_of_isLifecycle {task : Task} (h : task.isLifecycle = true) :
    task.isCoherent = true := by
  cases task <;> first | rfl | contradiction

/-!
## Order
-/

/-- The calls in the queue of turns are those that start or stop a server. Whoever
does not wait any more is the first one, and the server that it starts is that of
the current connection. -/
structure Orderly (s : Session D) : Prop where
  nodup : s.turns.Nodup
  turn : forall id, id ∈ s.turns <-> (s.lifecycle? id).isSome = true
  first : forall id task, s.lifecycle? id = some task -> task.waits = false ->
    s.turns.head? = some id
  current : forall id task k, s.lifecycle? id = some task -> task.introduces? = some k ->
    s.current = some k
  bounded : forall k, s.current = some k -> k < s.connections.length

/-- What a step of a call that starts or stops a server comes to: either it keeps
its turn or it is done. -/
structure Comes (id : Nat) (o o' : Outline) (task : Task) : Prop where
  turn : task.isLifecycle = true ∧ task.waits = false ∧ o'.turns = o.turns ∨
    task.isLifecycle = false ∧ o'.turns = o.turns.erase id
  current : forall k, task.introduces? = some k -> o'.current = some k
  bounded : forall k, o'.current = some k -> k < o'.connections
  coherent : task.isCoherent = true

theorem waits_isLifecycle {task : Task} (h : task.waits = true) : task.isLifecycle = true := by
  cases task <;> first | rfl | contradiction

theorem introduces?_of_waits {task : Task} (h : task.waits = true) :
    task.introduces? = none := by
  cases task <;> first | rfl | contradiction

theorem foldl_redraw_forgetting (s : Session D) (id : Nat) :
    s.forgetting.foldl (Effect.redraw id) s.outline =
      { s.outline with
        current := none
        capabilities := if s.current.isSome then none else s.capabilities } := by
  unfold forgetting
  cases hcurrent : s.current with
  | none => simp [outline, hcurrent]
  | some k => simp [Effect.redraw, outline]

theorem GivesUp.foldl_redraw {k number : Nat} {effects : List (Effect D)}
    (h : GivesUp k number effects) (id : Nat) (o : Outline) :
    effects.foldl (Effect.redraw id) o = o := by
  rcases h with rfl | rfl <;> rfl

theorem LifecycleStep.comes {s : Session D} {id : Nat} {call : Call} {task : Task}
    {effects : List (Effect D)} (h : LifecycleStep s id call task effects)
    (hcurrent : forall k, task.introduces? = some k -> s.current = some k)
    (hbounded : forall k, s.current = some k -> k < s.connections.length) :
    exists task', Effect.lastTask? effects = some task' ∧
      Comes id s.outline (effects.foldl (Effect.redraw id) s.outline) task' := by
  -- Either nothing is reset, or there is no current connection any more.
  have hdone (outcome : Outcome) (hcoherent : (Task.done outcome).isCoherent = true)
      (turns : List Nat) (capabilities : Option Json) (connections : Nat)
      (current : Option Nat) (hturns : turns = s.turns.erase id)
      (hcurrent : current = none ∨ current = s.current ∧ connections = s.connections.length) :
      Comes id s.outline ⟨turns, current, capabilities, connections⟩ (.done outcome) := by
    refine ⟨Or.inr ⟨rfl, hturns⟩, nofun, fun k hk => ?_, hcoherent⟩
    rcases hcurrent with rfl | ⟨rfl, rfl⟩
    · contradiction
    · exact hbounded k hk
  have hkeep (task' : Task) (hlife : task'.isLifecycle = true) (hwaits : task'.waits = false)
      (hintroduces : forall k, task'.introduces? = some k -> s.current = some k)
      (capabilities : Option Json) :
      Comes id s.outline ⟨s.turns, s.current, capabilities, s.connections.length⟩ task' :=
    ⟨Or.inl ⟨hlife, hwaits, rfl⟩, hintroduces, hbounded, isCoherent_of_isLifecycle hlife⟩
  cases h with
  | alreadyRunning launch turn alive =>
      exact ⟨_, rfl, hdone _ rfl _ _ _ _ rfl (Or.inr ⟨rfl, rfl⟩)⟩
  | refused launch reason turn dead =>
      rw [Effect.lastTask?_append, List.foldl_append, foldl_redraw_forgetting]
      exact ⟨_, rfl, hdone _ rfl _ _ _ _ rfl (Or.inl rfl)⟩
  | launched launch turn dead =>
      rw [Effect.lastTask?_append, List.foldl_append, foldl_redraw_forgetting]
      exact ⟨_, rfl, Or.inl ⟨rfl, rfl, rfl⟩, fun k hk => hk, fun k hk => by
        cases hk
        exact Nat.lt_succ_self _, rfl⟩
  | introduced k number deadline v heard =>
      exact ⟨_, rfl, hkeep (.announcing k) rfl rfl hcurrent _⟩
  | notIntroduced k number deadline reason before givesUp =>
      rw [Effect.lastTask?_append, List.foldl_append, givesUp.foldl_redraw]
      exact ⟨_, rfl, hkeep _ rfl rfl (by nofun) _⟩
  | announced k heard => exact ⟨_, rfl, hdone _ rfl _ _ _ _ rfl (Or.inr ⟨rfl, rfl⟩)⟩
  | notAnnounced k reason => exact ⟨_, rfl, hkeep _ rfl rfl (by nofun) _⟩
  | aborted reason heard => exact ⟨_, rfl, hdone _ rfl _ _ _ _ rfl (Or.inl rfl)⟩
  | nothingToStop force turn idle =>
      exact ⟨_, rfl, hdone _ rfl _ _ _ _ rfl (Or.inr ⟨rfl, rfl⟩)⟩
  | alreadyEnded force turn dead => exact ⟨_, rfl, hdone _ rfl _ _ _ _ rfl (Or.inl rfl)⟩
  | askedToShutDown force k turn alive => exact ⟨_, rfl, hkeep _ rfl rfl (by nofun) _⟩
  | cutShort force k turn alive => exact ⟨_, rfl, hkeep _ rfl rfl (by nofun) _⟩
  | sentExit k force number deadline before givesUp =>
      rw [Effect.lastTask?_append, List.foldl_append, givesUp.foldl_redraw]
      exact ⟨_, rfl, hkeep _ rfl rfl (by nofun) _⟩
  | exited k force heard => exact ⟨_, rfl, hkeep _ rfl rfl (by nofun) _⟩
  | stopped heard => exact ⟨_, rfl, hdone _ rfl _ _ _ _ rfl (Or.inl rfl)⟩

/-- Whoever steps without having waited for its turn just now has had it before. -/
theorem LifecycleStep.turn {s : Session D} {id : Nat} {call : Call} {task : Task}
    {effects : List (Effect D)} (h : LifecycleStep s id call task effects)
    (hwaits : task.waits = true) : s.turns.head? = some id := by
  cases h <;> first | assumption | contradiction

namespace Orderly

variable {s u : Session D}

theorem new (settings : Settings) (processId : Nat) (workspace : Workspace D) :
    Orderly (Session.new settings processId workspace) where
  nodup := List.nodup_nil
  turn id := by simp [Session.new, lifecycle?, task?, call?]
  first id task h := by simp [Session.new, lifecycle?, task?, call?] at h
  current id task k h := by simp [Session.new, lifecycle?, task?, call?] at h
  bounded k h := nomatch h

theorem congr (h : Orderly s) (houtline : u.outline = s.outline)
    (htasks : forall id, u.lifecycle? id = s.lifecycle? id) : Orderly u := by
  injection houtline with hturns hcurrent hcapabilities hconnections
  constructor
  case nodup => exact hturns ▸ h.nodup
  case turn =>
    intro id
    rw [hturns, htasks, h.turn]
  case first =>
    intro id task htask hwaits
    rw [hturns]
    exact h.first id task (htasks id ▸ htask) hwaits
  case current =>
    intro id task k htask hintroduces
    rw [hcurrent]
    exact h.current id task k (htasks id ▸ htask) hintroduces
  case bounded =>
    intro k hk
    rw [hconnections]
    exact h.bounded k (hcurrent ▸ hk)

theorem congr_task? (h : Orderly s) (houtline : u.outline = s.outline)
    (htasks : forall id, u.task? id = s.task? id) : Orderly u :=
  h.congr houtline fun id => by rw [lifecycle?, htasks, ← lifecycle?]

theorem not_mem_turns (h : Orderly s) {id : Nat} (hid : s.lifecycle? id = none) :
    id ∉ s.turns := by
  intro hmem
  have hsome := (h.turn id).mp hmem
  rw [hid] at hsome
  contradiction

theorem modest (h : Orderly s) {id : Nat} (hlt : id < s.calls.length)
    (hid : s.lifecycle? id = none) {effects : List (Effect D)}
    (hmodest : forall e, e ∈ effects -> e.isModest = true) :
    Orderly (s.undergo id effects) := by
  refine h.congr ?_ fun j => ?_
  · rw [undergo_outline]
    exact foldl_redraw_of_modest hmodest (h.not_mem_turns hid)
  · rw [lifecycle?, undergo_task? hlt]
    by_cases hj : id = j
    · subst hj
      rw [if_pos rfl, hid]
      cases htask : Effect.lastTask? effects with
      | none => exact hid
      | some task =>
          rw [Option.some_or, Option.filter_some,
            isLifecycle_of_isModest (isModest_lastTask hmodest htask)]
          rfl
    · rw [if_neg hj, ← lifecycle?]

theorem lineUp (h : Orderly s) {id : Nat} (hlt : id < s.calls.length)
    (hid : s.lifecycle? id = none) {task : Task} (hwaits : task.waits = true) :
    Orderly (s.undergo id [.lineUp, .rest task]) := by
  have hlife := waits_isLifecycle hwaits
  have htask (j : Nat) : (s.undergo id [.lineUp, .rest task]).lifecycle? j =
      if id = j then some task else s.lifecycle? j := by
    rw [lifecycle?, undergo_task? hlt]
    by_cases hj : id = j
    · rw [if_pos hj, if_pos hj]
      exact if_pos hlife
    · rw [if_neg hj, if_neg hj, ← lifecycle?]
  have hnone := h.not_mem_turns hid
  constructor
  case nodup =>
    have hsingle : [id].Nodup := List.nodup_cons.mpr ⟨List.not_mem_nil, List.nodup_nil⟩
    refine List.nodup_append.mpr ⟨h.nodup, hsingle, fun j hj i hi heq => ?_⟩
    rw [List.mem_singleton.mp hi] at heq
    exact hnone (heq ▸ hj)
  case turn =>
    intro j
    have hturns : j ∈ (s.undergo id [.lineUp, .rest task]).turns <-> j ∈ s.turns ∨ j = id := by
      refine List.mem_append.trans (or_congr Iff.rfl List.mem_singleton)
    rw [hturns, htask, h.turn]
    by_cases hj : id = j
    · simp [hj]
    · simp [hj, Ne.symm hj]
  case first =>
    intro j task' htask' hacts
    rw [htask] at htask'
    split at htask'
    · cases htask'
      rw [hwaits] at hacts
      contradiction
    · have hhead := h.first j task' htask' hacts
      change (s.turns ++ [id]).head? = some j
      rw [List.head?_append, hhead]
      rfl
  case current =>
    intro j task' k htask' hintroduces
    rw [htask] at htask'
    split at htask'
    · cases htask'
      rw [introduces?_of_waits hwaits] at hintroduces
      contradiction
    · exact h.current j task' k htask' hintroduces
  case bounded => exact h.bounded

theorem lifecycle (h : Orderly s) {id : Nat} {call : Call} (hcall : s.call? id = some call)
    {effects : List (Effect D)} (hstep : LifecycleStep s id call call.task effects)
    (hlife : call.task.isLifecycle = true) : Orderly (s.undergo id effects) := by
  have hlt := lt_of_call? hcall
  have hown : s.lifecycle? id = some call.task := by
    rw [lifecycle?, task?_of_call? hcall]
    exact if_pos hlife
  have hhead : s.turns.head? = some id := by
    cases hwaits : call.task.waits with
    | true => exact hstep.turn hwaits
    | false => exact h.first id _ hown hwaits
  -- Everybody else still waits for a turn.
  have hothers {j : Nat} (hj : id ≠ j) {task : Task} (htask : s.lifecycle? j = some task) :
      task.waits = true := by
    cases hwaits : task.waits with
    | true => rfl
    | false =>
        exact absurd (Option.some.inj (hhead.symm.trans (h.first j task htask hwaits))) hj
  rcases hstep.comes (fun k hk => h.current id _ k hown hk) h.bounded with
    ⟨task, hlast, hcomes⟩
  rw [← undergo_outline] at hcomes
  have htask (j : Nat) : (s.undergo id effects).lifecycle? j =
      if id = j then (some task).filter Task.isLifecycle else s.lifecycle? j := by
    rw [lifecycle?, undergo_task? hlt]
    by_cases hj : id = j
    · rw [if_pos hj, if_pos hj, hlast, Option.some_or]
    · rw [if_neg hj, if_neg hj, ← lifecycle?]
  have hturns : (s.undergo id effects).turns =
      if task.isLifecycle = true then s.turns else s.turns.erase id := by
    rcases hcomes.turn with ⟨hkept, _, heq⟩ | ⟨hdone, heq⟩
    · rw [if_pos hkept]
      exact heq
    · rw [if_neg (by rw [hdone]; exact Bool.false_ne_true)]
      exact heq
  constructor
  case nodup =>
    rw [hturns]
    split
    · exact h.nodup
    · exact h.nodup.erase id
  case turn =>
    intro j
    rw [hturns, htask]
    by_cases hj : id = j
    · subst hj
      rw [if_pos rfl, Option.filter_some]
      split
      case isTrue => exact iff_of_true (List.mem_of_mem_head? (hhead ▸ rfl)) rfl
      case isFalse => exact iff_of_false h.nodup.not_mem_erase Bool.false_ne_true
    · rw [if_neg hj, ← h.turn]
      split
      · exact Iff.rfl
      · exact List.mem_erase_of_ne (Ne.symm hj)
  case first =>
    intro j task' htask' hacts
    rw [htask] at htask'
    split at htask'
    case isTrue hj =>
      rw [Option.filter_some] at htask'
      split at htask'
      case isTrue hkept =>
        rw [hturns, if_pos hkept, hhead, hj]
      case isFalse => contradiction
    case isFalse hj =>
      rw [hothers hj htask'] at hacts
      contradiction
  case current =>
    intro j task' k htask' hintroduces
    rw [htask] at htask'
    split at htask'
    case isTrue hj =>
      rw [Option.filter_some] at htask'
      split at htask'
      case isTrue hkept =>
        cases htask'
        exact hcomes.current k hintroduces
      case isFalse => contradiction
    case isFalse hj =>
      rw [introduces?_of_waits (hothers hj htask')] at hintroduces
      contradiction
  case bounded => exact hcomes.bounded

end Orderly

/-!
## Courses
-/

theorem outline_emit {s : Session D} (k : Nat) (c' : Connection) (e : Emitted) :
    ((s.setConnection k c').emit e).outline = s.outline := by
  rcases (s.setConnection k c').emit_eq e with ⟨calls, -, heq⟩
  rw [heq]
  simp only [outline, setConnection, List.length_set]

theorem task?_emit {s : Session D} (k : Nat) (c' : Connection) (e : Emitted) (id : Nat) :
    ((s.setConnection k c').emit e).task? id = s.task? id :=
  task?_deliverAll (s.setConnection k c') e.answers id

theorem task?_addCall (s : Session D) (id : Nat) :
    s.addCall.task? id = if s.calls.length = id then some (.done (.ok .unit))
      else s.task? id := by
  rw [task?, call?, addCall]
  rcases Nat.lt_trichotomy id s.calls.length with hid | hid | hid
  · rw [List.getElem?_append_left hid, if_neg (Nat.ne_of_gt hid)]
    rfl
  · rw [hid, List.getElem?_concat_length, if_pos rfl]
    rfl
  · rw [if_neg (Nat.ne_of_lt hid), List.getElem?_append_right (Nat.le_of_lt hid), task?, call?,
      List.getElem?_eq_none (Nat.le_of_lt hid), List.getElem?_eq_none (by simp; omega)]

theorem lifecycle?_addCall (s : Session D) (id : Nat) :
    s.addCall.lifecycle? id = s.lifecycle? id := by
  rw [lifecycle?, lifecycle?, task?_addCall]
  split
  case isTrue hid =>
    have hnone : s.task? id = none := by
      rw [task?, call?, List.getElem?_eq_none (Nat.le_of_eq hid)]
      rfl
    rw [hnone]
    rfl
  case isFalse => rfl

theorem task?_cancelled (s : Session D) (id j : Nat) :
    (s.modifyCall id fun call => { call with cancelled := true }).task? j = s.task? j := by
  rw [task?, call?_modifyCall]
  split
  · rw [Option.map_map]
    rfl
  · rfl

theorem LifecycleStep.isLifecycle {s : Session D} {id : Nat} {call : Call} {task : Task}
    {effects : List (Effect D)} (h : LifecycleStep s id call task effects) :
    task.isLifecycle = true := by
  cases h <;> rfl

theorem Orderly.moment {m : Moment D} (h : Orderly m.before) (hkind : m.Kind) :
    Orderly m.after := by
  cases hkind with
  | connection k c c' e hemitted hc halive hproceeds hafter haction =>
      rw [hafter]
      exact h.congr_task? (outline_emit k c' e) (task?_emit k c' e)
  | begins op effects haction hfirst hafter =>
      have hadded : Orderly m.before.addCall := h.congr rfl m.before.lifecycle?_addCall
      have hlt := m.before.calls_length_lt_addCall
      have hfresh : m.before.addCall.lifecycle? m.before.calls.length = none := by
        rw [lifecycle?, task?_addCall, if_pos rfl]
        rfl
      rw [hafter]
      cases hfirst with
      | modest hmodest => exact hadded.modest hlt hfresh hmodest
      | waits task hwaits heq =>
          rw [heq]
          exact hadded.lineUp hlt hfresh hwaits
  | goesOn id call effects haction hcall hstep hafter =>
      rw [hafter]
      cases hstep with
      | modest other hmodest =>
          refine h.modest (lt_of_call? hcall) ?_ hmodest
          rw [lifecycle?, task?_of_call? hcall, Option.filter_some, other]
          rfl
      | lifecycle step => exact h.lifecycle hcall step step.isLifecycle
  | withdraws id haction hafter =>
      rw [hafter]
      exact h.congr_task? rfl (m.before.task?_cancelled id)
  | world k f hundisturbed hquiet haction hafter =>
      rw [hafter]
      exact h.congr_task? (m.before.modifyConnection_alike k f).outline fun _ => rfl
  | elapses ms haction hafter =>
      rw [hafter]
      exact h.congr_task? rfl fun _ => rfl

theorem Course.orderly [FileSystem D] {settings : Settings} {processId : Nat}
    {workspace : Workspace D} {moments : List (Moment D)} {s : Session D}
    (course : Course (Session.new settings processId workspace) moments s) : Orderly s := by
  induction course with
  | refl => exact .new settings processId workspace
  | act course a ha ih => exact ih.moment (kind_of_act ha)
  | touch course disk ih => exact ih.congr_task? rfl fun _ => rfl

end Session
end LanguageClient

import LanguageClient.Proofs.Session.Calls
import LanguageClient.Proofs.Session.Course

/-!
# What calls can do to a session

Effects of calls leave a connection where it is: they queue commands, as long as it is
alive, and set its marks. Whether a connection is to end is marked by the calls that stop it
or give up starting it, and only by them.
-/

namespace LanguageClient

namespace Effect

variable {D : Type}

def task? : Effect D -> Option Task
  | .rest task | .ask _ _ task => some task
  | .finish outcome => some (.done outcome)
  | _ => none

def lastTask? : List (Effect D) -> Option Task
  | [] => none
  | e :: others => (lastTask? others).or e.task?

theorem lastTask?_append (first second : List (Effect D)) :
    lastTask? (first ++ second) = (lastTask? second).or (lastTask? first) := by
  induction first with
  | nil => exact Option.or_none.symm
  | cons e others ih => rw [List.cons_append, lastTask?, ih, lastTask?, Option.or_assoc]

theorem exists_of_lastTask? {effects : List (Effect D)} {task : Task}
    (h : lastTask? effects = some task) : exists e, e ∈ effects ∧ e.task? = some task := by
  induction effects with
  | nil => contradiction
  | cons e rest ih =>
      rw [lastTask?] at h
      cases hrest : lastTask? rest with
      | none =>
          rw [hrest, Option.none_or] at h
          exact ⟨e, List.mem_cons_self, h⟩
      | some later =>
          rw [hrest, Option.some_or] at h
          rcases ih (hrest.trans h) with ⟨e', he', htask⟩
          exact ⟨e', List.mem_cons_of_mem e he', htask⟩

def condemns (k : Nat) : Effect D -> Bool
  | .condemn j => j = k
  | _ => false

end Effect

/-- What calls may do to a connection. -/
structure Connection.Used (c c' : Connection) : Prop where
  phase : c'.phase = c.phase
  pending : c'.pending = c.pending
  store : c'.store = c.store
  written : c'.written = c.written
  process : c'.process = none -> c.process = none
  kept : c.commands ⊆ c'.commands
  refuses : c.isAlive = false -> c'.commands = c.commands

namespace Connection.Used

theorem refl (c : Connection) : Used c c :=
  ⟨rfl, rfl, rfl, rfl, id, List.Subset.refl _, fun _ => rfl⟩

theorem isAlive {c c' : Connection} (h : Used c c') : c'.isAlive = c.isAlive := by
  rw [Connection.isAlive, h.phase, ← Connection.isAlive]

theorem trans {c c' c'' : Connection} (h : Used c c') (h' : Used c' c'') : Used c c'' where
  phase := h'.phase.trans h.phase
  pending := h'.pending.trans h.pending
  store := h'.store.trans h.store
  written := h'.written.trans h.written
  process := h.process ∘ h'.process
  kept := List.Subset.trans h.kept h'.kept
  refuses hdead := (h'.refuses (h.isAlive.trans hdead)).trans (h.refuses hdead)

end Connection.Used

namespace Session

variable {D : Type}

/-!
## Asking
-/

structure Alike (s u : Session D) : Prop where
  settings : u.settings = s.settings
  bus : u.bus = s.bus
  turns : u.turns = s.turns
  current : u.current = s.current
  capabilities : u.capabilities = s.capabilities
  connections : u.connections.length = s.connections.length
  calls : u.calls.length = s.calls.length

theorem modifyConnection_alike (s : Session D) (k : Nat) (f : Connection -> Connection) :
    Alike s (s.modifyConnection k f) :=
  ⟨rfl, rfl, rfl, rfl, rfl, List.length_modify .., rfl⟩

theorem enqueue_alike (s : Session D) (k : Nat) (command : Command) :
    Alike s (s.enqueue k command) := by
  rw [enqueue]
  split
  · exact s.modifyConnection_alike k _
  · exact ⟨rfl, rfl, rfl, rfl, rfl, rfl, rfl⟩

theorem ask_alike (s : Session D) (id k : Nat) (question : Ticket -> Command) (task : Task) :
    Alike s (s.ask id k question task) := by
  cases hcall : s.call? id with
  | none =>
      rw [ask, hcall]
      exact ⟨rfl, rfl, rfl, rfl, rfl, rfl, rfl⟩
  | some call =>
      rw [ask_eq hcall]
      rcases enqueue_alike (s.modifyCall id _) k (question ⟨id, call.serial + 1⟩) with
        ⟨settings, bus, turns, current, capabilities, connections, calls⟩
      exact ⟨settings, bus, turns, current, capabilities, connections,
        calls.trans (List.length_modify ..)⟩

theorem isAlive_of_connection? {s : Session D} {k : Nat} {c : Connection}
    (h : s.connection? k = some c) : s.isAlive k = c.isAlive := by
  rw [isAlive, h]

theorem isAlive_of_absent {s : Session D} {k : Nat} (h : s.connection? k = none) :
    s.isAlive k = false := by
  rw [isAlive, h]

theorem connection?_enqueue (s : Session D) (j : Nat) (command : Command) (k : Nat) :
    (s.enqueue j command).connection? k = (s.connection? k).map fun c =>
      if c.isAlive = true ∧ j = k then { c with commands := c.commands ++ [command] }
        else c := by
  cases hc : s.connection? k with
  | none =>
      rw [enqueue]
      split
      · rw [connection?_modifyConnection, hc]
        simp
      · exact hc
  | some c =>
      by_cases hj : j = k
      · subst hj
        rw [enqueue, isAlive_of_connection? hc]
        by_cases halive : c.isAlive = true
        · rw [if_pos halive, connection?_modifyConnection, if_pos rfl, hc]
          simp [halive]
        · rw [if_neg halive, hc]
          simp [halive]
      · rw [enqueue]
        split
        · rw [connection?_modifyConnection, if_neg hj, hc]
          simp [hj]
        · rw [hc]
          simp [hj]

theorem connection?_ask {s : Session D} {id : Nat} {call : Call}
    (hcall : s.call? id = some call)
    (j : Nat) (question : Ticket -> Command) (task : Task) (k : Nat) :
    (s.ask id j question task).connection? k = (s.connection? k).map fun c =>
      if c.isAlive = true ∧ j = k then
        { c with commands := c.commands ++ [question ⟨id, call.serial + 1⟩] } else c := by
  rw [ask_eq hcall, connection?_enqueue]
  rfl

/-!
## Single effects
-/

section

variable (s : Session D) (id : Nat) (e : Effect D)

theorem apply_settings : (e.apply id s).settings = s.settings := by
  cases e with
  | ask k question task => exact (s.ask_alike id k _ task).settings
  | abandon k number => exact (s.enqueue_alike k _).settings
  | _ => rfl

theorem apply_bus : (e.apply id s).bus = s.bus := by
  cases e with
  | ask k question task => exact (s.ask_alike id k _ task).bus
  | abandon k number => exact (s.enqueue_alike k _).bus
  | _ => rfl

theorem apply_calls_length : (e.apply id s).calls.length = s.calls.length := by
  cases e with
  | ask k question task => exact (s.ask_alike id k _ task).calls
  | abandon k number => exact (s.enqueue_alike k _).calls
  | rest task => exact List.length_modify ..
  | finish outcome => exact List.length_modify ..
  | _ => rfl

end

theorem call?_eq_some_of_lt {s : Session D} {id : Nat} (h : id < s.calls.length) :
    exists call, s.call? id = some call :=
  ⟨s.calls[id], List.getElem?_eq_getElem h⟩

theorem lt_of_call? {s : Session D} {id : Nat} {call : Call} (h : s.call? id = some call) :
    id < s.calls.length :=
  (List.getElem?_eq_some_iff.mp h).1

theorem calls_length_lt_addCall (s : Session D) : s.calls.length < s.addCall.calls.length := by
  simp [addCall]

theorem call?_addCall (s : Session D) : s.addCall.call? s.calls.length = some .fresh :=
  List.getElem?_concat_length

theorem task?_setTask {s : Session D} {id : Nat} (h : id < s.calls.length) (task : Task)
    (j : Nat) :
    (s.setTask id task).task? j = if id = j then some task else s.task? j := by
  rcases call?_eq_some_of_lt h with ⟨call, hcall⟩
  rw [task?, setTask, call?_modifyCall]
  by_cases hj : id = j
  · subst hj
    rw [if_pos rfl, if_pos rfl, hcall]
    rfl
  · rw [if_neg hj, if_neg hj, task?]

theorem apply_task? {s : Session D} {id : Nat} (h : id < s.calls.length) (e : Effect D)
    (j : Nat) :
    (e.apply id s).task? j = if id = j then e.task?.or (s.task? j) else s.task? j := by
  have hsame : (if id = j then Option.or none (s.task? j) else s.task? j) = s.task? j := by
    split <;> rfl
  cases e with
  | rest task => exact s.task?_setTask h task j
  | finish outcome => exact task?_setTask (s := { s with turns := s.turns.erase id }) h _ j
  | ask k question task =>
      rcases call?_eq_some_of_lt h with ⟨call, hcall⟩
      exact task?_ask hcall k _ task j
  | abandon k number =>
      refine Eq.trans ?_ hsame.symm
      rw [Effect.apply, task?, call?_enqueue, task?]
  | _ => exact hsame.symm

theorem apply_connection? {s : Session D} {id : Nat} (h : id < s.calls.length) (e : Effect D)
    {k : Nat} {c : Connection} (hc : s.connection? k = some c) :
    exists c', (e.apply id s).connection? k = some c' ∧ Connection.Used c c' ∧
      c'.stopping = (c.stopping || e.condemns k) := by
  have hqueued (P : Prop) [Decidable P] (hP : P -> c.isAlive = true) (command : Command) :
      Connection.Used c (if P then { c with commands := c.commands ++ [command] } else c) ∧
        (if P then { c with commands := c.commands ++ [command] } else c).stopping =
          (c.stopping || false) := by
    rw [Bool.or_false]
    split
    case isTrue hp =>
      refine ⟨⟨rfl, rfl, rfl, rfl, fun h => h, List.subset_append_left _ _, fun hdead =>
        ?_⟩, rfl⟩
      rw [hP hp] at hdead
      contradiction
    case isFalse => exact ⟨.refl c, rfl⟩
  have hmarked (j : Nat) (f : Connection -> Connection) (hf : Connection.Used c (f c))
      (marked : Bool) (hstopping : (f c).stopping = (c.stopping || marked)) :
      exists c', (s.modifyConnection j f).connection? k = some c' ∧ Connection.Used c c' ∧
        c'.stopping = (c.stopping || decide (j = k) && marked) := by
    rw [connection?_modifyConnection, hc]
    by_cases hj : j = k
    · exact ⟨f c, if_pos hj, hf, by rw [hstopping, hj]; simp⟩
    · exact ⟨c, if_neg hj, .refl c, by simp [hj]⟩
  have hsame : exists c', s.connection? k = some c' ∧ Connection.Used c c' ∧
      c'.stopping = (c.stopping || false) :=
    ⟨c, hc, .refl c, (Bool.or_false _).symm⟩
  cases e with
  | ask j question task =>
      rcases call?_eq_some_of_lt h with ⟨call, hcall⟩
      rw [Effect.apply, connection?_ask hcall, hc]
      exact ⟨_, rfl, hqueued _ And.left _⟩
  | abandon j number =>
      rw [Effect.apply, connection?_enqueue, hc]
      exact ⟨_, rfl, hqueued _ And.left _⟩
  | condemn j =>
      rcases hmarked j (fun c => { c with stopping := true })
        ⟨rfl, rfl, rfl, rfl, fun h => h, List.Subset.refl _, fun _ => rfl⟩ true
        (Bool.or_true _).symm with ⟨c', hc', hused, hstopping⟩
      exact ⟨c', hc', hused, by rw [hstopping, Bool.and_true]; rfl⟩
  | welcome j =>
      rcases hmarked j (fun c => { c with initialized := true })
        ⟨rfl, rfl, rfl, rfl, fun h => h, List.Subset.refl _, fun _ => rfl⟩ false
        (Bool.or_false _).symm with ⟨c', hc', hused, hstopping⟩
      exact ⟨c', hc', hused, by rw [hstopping, Bool.and_false]; rfl⟩
  | launch launched =>
      refine ⟨c, ?_, .refl c, (Bool.or_false _).symm⟩
      have hlt : k < s.connections.length := (List.getElem?_eq_some_iff.mp hc).1
      rw [Effect.apply, Session.launch, connection?, List.getElem?_append_left hlt]
      exact hc
  | _ => exact hsame

theorem apply_connection?_absent {s : Session D} {id : Nat} (h : id < s.calls.length)
    (e : Effect D) {k : Nat} (hc : s.connection? k = none) :
    (e.apply id s).connection? k = none ∨
      exists launched, e = .launch launched ∧
        (e.apply id s).connection? k = some (Connection.new launched) := by
  cases e with
  | ask j question task =>
      rcases call?_eq_some_of_lt h with ⟨call, hcall⟩
      rw [Effect.apply, connection?_ask hcall, hc]
      exact Or.inl rfl
  | abandon j number =>
      rw [Effect.apply, connection?_enqueue, hc]
      exact Or.inl rfl
  | condemn j =>
      rw [Effect.apply, connection?_modifyConnection, hc]
      exact Or.inl (by split <;> rfl)
  | welcome j =>
      rw [Effect.apply, connection?_modifyConnection, hc]
      exact Or.inl (by split <;> rfl)
  | launch launched =>
      have hle : s.connections.length ≤ k := List.getElem?_eq_none_iff.mp hc
      rw [Effect.apply, Session.launch, connection?, List.getElem?_append_right hle]
      cases hk : k - s.connections.length with
      | zero => exact Or.inr ⟨launched, rfl, rfl⟩
      | succ j => exact Or.inl rfl
  | _ => exact Or.inl hc

/-!
## All effects of a step
-/

theorem undergo_bus (s : Session D) (id : Nat) (effects : List (Effect D)) :
    (s.undergo id effects).bus = s.bus := by
  induction effects generalizing s with
  | nil => rfl
  | cons e rest ih => exact (ih _).trans (s.apply_bus id e)

theorem undergo_task? {s : Session D} {id : Nat} (h : id < s.calls.length)
    (effects : List (Effect D)) (j : Nat) :
    (s.undergo id effects).task? j =
      if id = j then (Effect.lastTask? effects).or (s.task? j) else s.task? j := by
  induction effects generalizing s with
  | nil =>
      rw [undergo_nil]
      split <;> rfl
  | cons e rest ih =>
      have hrest := ih (s := e.apply id s) (by rwa [apply_calls_length])
      rw [undergo_cons, hrest, apply_task? h]
      by_cases hj : id = j
      · rw [if_pos hj, if_pos hj, if_pos hj, Effect.lastTask?, Option.or_assoc]
      · rw [if_neg hj, if_neg hj, if_neg hj]

theorem task?_of_undergo {s : Session D} {id : Nat} (h : id < s.calls.length)
    {effects : List (Effect D)} {j : Nat} {task : Task}
    (htask : (s.undergo id effects).task? j = some task) :
    s.task? j = some task ∨ id = j ∧ Effect.lastTask? effects = some task := by
  rw [undergo_task? h] at htask
  split at htask
  case isFalse => exact Or.inl htask
  case isTrue hj =>
    cases hlast : Effect.lastTask? effects with
    | none =>
        rw [hlast, Option.none_or] at htask
        exact Or.inl htask
    | some last =>
        rw [hlast, Option.some_or] at htask
        exact Or.inr ⟨hj, htask⟩

theorem undergo_task?_self {s : Session D} {id : Nat} (h : id < s.calls.length)
    {effects : List (Effect D)} {task : Task} (hlast : Effect.lastTask? effects = some task) :
    (s.undergo id effects).task? id = some task := by
  rw [undergo_task? h, if_pos rfl, hlast, Option.some_or]

theorem undergo_connection? {s : Session D} {id : Nat} (h : id < s.calls.length)
    (effects : List (Effect D)) {k : Nat} {c : Connection} (hc : s.connection? k = some c) :
    exists c', (s.undergo id effects).connection? k = some c' ∧ Connection.Used c c' ∧
      c'.stopping = (c.stopping || effects.any (Effect.condemns k)) := by
  induction effects generalizing s c with
  | nil => exact ⟨c, hc, .refl c, (Bool.or_false _).symm⟩
  | cons e rest ih =>
      rcases apply_connection? h e hc with ⟨c', hc', hused, hstopping⟩
      rcases ih (s := e.apply id s) (by rwa [apply_calls_length]) hc' with
        ⟨c'', hc'', hused', hstopping'⟩
      refine ⟨c'', hc'', hused.trans hused', ?_⟩
      rw [hstopping', hstopping, List.any_cons, Bool.or_assoc]

theorem undergo_connection?_absent {s : Session D} {id : Nat} (h : id < s.calls.length)
    (effects : List (Effect D)) {k : Nat} (hc : s.connection? k = none) :
    (s.undergo id effects).connection? k = none ∨
      exists c', (s.undergo id effects).connection? k = some c' ∧ c'.isAlive = true ∧
        (c'.stopping = true -> effects.any (Effect.condemns k) = true) ∧
        exists launched, .launch launched ∈ effects ∧
          Connection.Used (Connection.new launched) c' := by
  induction effects generalizing s with
  | nil => exact Or.inl hc
  | cons e rest ih =>
      have hlt : id < (e.apply id s).calls.length := by rwa [apply_calls_length]
      rcases apply_connection?_absent h e hc with hnone | ⟨launched, rfl, hnew⟩
      · rcases ih hlt hnone with hnone' | ⟨c', hc', halive, hstopping, launched, hlaunch,
          hused⟩
        · exact Or.inl hnone'
        · refine Or.inr ⟨c', hc', halive, fun hmarked => ?_, launched,
            List.mem_cons_of_mem _ hlaunch, hused⟩
          rw [List.any_cons, hstopping hmarked, Bool.or_true]
      · rcases undergo_connection? hlt rest hnew with ⟨c', hc', hused, hstopping⟩
        refine Or.inr ⟨c', hc', hused.isAlive.trans rfl, fun hmarked => ?_, launched,
          List.mem_cons_self, hused⟩
        rw [hmarked] at hstopping
        exact hstopping.symm

end Session
end LanguageClient

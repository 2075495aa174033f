import LanguageClient.Proofs.Session.Connections

/-!
# Requests in a session

Of a whole session, requests concern only four things: the calls, the next number, the
requests in the queue of each connection, and its table of unanswered requests. This module
says how the operations of a session change them.
-/

namespace LanguageClient
namespace Session

variable {D : Type}

def queued (s : Session D) (k : Nat) : List (Nat × Ticket) :=
  ((s.connection? k).map Connection.requests).getD []

def held (s : Session D) (k number : Nat) : Option Ticket :=
  (s.connection? k).bind fun c => c.pending.get? number

theorem queued_congr {s t : Session D} (h : t.connections = s.connections) (k : Nat) :
    t.queued k = s.queued k := by
  rw [queued, connection?, h, ← connection?, ← queued]

theorem held_congr {s t : Session D} (h : t.connections = s.connections) (k number : Nat) :
    t.held k number = s.held k number := by
  rw [held, connection?, h, ← connection?, ← held]

/-- Two states that differ in nothing that concerns requests. -/
structure SameRequests (s t : Session D) : Prop where
  calls : t.calls = s.calls
  nextNumber : t.nextNumber = s.nextNumber
  queued : forall k, t.queued k = s.queued k
  held : forall k number, t.held k number = s.held k number

namespace SameRequests

theorem refl (s : Session D) : SameRequests s s :=
  ⟨rfl, rfl, fun _ => rfl, fun _ _ => rfl⟩

theorem trans {s t u : Session D} (h : SameRequests s t) (h' : SameRequests t u) :
    SameRequests s u where
  calls := h'.calls.trans h.calls
  nextNumber := h'.nextNumber.trans h.nextNumber
  queued k := (h'.queued k).trans (h.queued k)
  held k number := (h'.held k number).trans (h.held k number)

theorem call? {s t : Session D} (h : SameRequests s t) (id : Nat) :
    t.call? id = s.call? id := by
  rw [Session.call?, h.calls, Session.call?]

theorem of_connections {s t : Session D} (calls : t.calls = s.calls)
    (nextNumber : t.nextNumber = s.nextNumber) (connections : t.connections = s.connections) :
    SameRequests s t where
  calls := calls
  nextNumber := nextNumber
  queued := queued_congr connections
  held := held_congr connections

end SameRequests

/-!
## Changing connections
-/

theorem connection?_modifyConnection (s : Session D) (k j : Nat)
    (f : Connection -> Connection) :
    (s.modifyConnection k f).connection? j =
      if k = j then (s.connection? j).map f else s.connection? j := by
  simp only [modifyConnection, connection?, List.getElem?_modify]
  by_cases hj : k = j
  · simp only [hj, if_true]
    rfl
  · simp [hj]

theorem connection?_setConnection (s : Session D) (k j : Nat) {c c' : Connection}
    (h : s.connection? k = some c) :
    (s.setConnection k c').connection? j = if k = j then some c' else s.connection? j := by
  have hlt := (List.getElem?_eq_some_iff.mp h).1
  by_cases hj : k = j
  · subst hj
    simp [setConnection, connection?, hlt]
  · simp [setConnection, connection?, List.getElem?_set_ne hj, hj]

theorem queued_setConnection (s : Session D) (k j : Nat) {c c' : Connection}
    (h : s.connection? k = some c) :
    (s.setConnection k c').queued j = if k = j then c'.requests else s.queued j := by
  rw [queued, s.connection?_setConnection k j h]
  by_cases hj : k = j
  · rw [if_pos hj, if_pos hj]
    rfl
  · rw [if_neg hj, if_neg hj, queued]

theorem held_setConnection (s : Session D) (k j number : Nat) {c c' : Connection}
    (h : s.connection? k = some c) :
    (s.setConnection k c').held j number =
      if k = j then c'.pending.get? number else s.held j number := by
  rw [held, s.connection?_setConnection k j h]
  by_cases hj : k = j
  · rw [if_pos hj, if_pos hj]
    rfl
  · rw [if_neg hj, if_neg hj, held]

theorem sameRequests_modifyConnection (s : Session D) (k : Nat) {f : Connection -> Connection}
    (hqueue : forall c, (f c).requests = c.requests)
    (htable : forall c, (f c).pending = c.pending) :
    SameRequests s (s.modifyConnection k f) where
  calls := rfl
  nextNumber := rfl
  queued j := by
    rw [queued, connection?_modifyConnection, queued]
    by_cases hj : k = j
    · rw [if_pos hj]
      cases s.connection? j with
      | none => rfl
      | some c => exact hqueue c
    · rw [if_neg hj]
  held j number := by
    rw [held, connection?_modifyConnection, held]
    by_cases hj : k = j
    · rw [if_pos hj]
      cases s.connection? j with
      | none => rfl
      | some c => exact congrArg (·.get? number) (htable c)
    · rw [if_neg hj]

theorem sameRequests_setConnection (s : Session D) (k : Nat) {c : Connection} (c' : Connection)
    (h : s.connection? k = some c) (hqueue : c'.requests = c.requests)
    (htable : c'.pending = c.pending) : SameRequests s (s.setConnection k c') where
  calls := rfl
  nextNumber := rfl
  queued j := by
    rw [s.queued_setConnection k j h]
    by_cases hj : k = j
    · rw [if_pos hj, ← hj, queued, h, hqueue]
      rfl
    · rw [if_neg hj]
  held j number := by
    rw [s.held_setConnection k j number h]
    by_cases hj : k = j
    · rw [if_pos hj, ← hj, held, h, htable]
      rfl
    · rw [if_neg hj]

theorem sameRequests_launch (s : Session D) (launched : Bool) :
    SameRequests s (s.launch launched) where
  calls := rfl
  nextNumber := rfl
  queued k := by
    simp only [queued, connection?, launch]
    rcases Nat.lt_trichotomy k s.connections.length with hk | hk | hk
    · rw [List.getElem?_append_left hk]
    · subst hk
      simp [Connection.new, Connection.requests]
    · rw [List.getElem?_eq_none (by simp; omega), List.getElem?_eq_none (by omega)]
  held k number := by
    simp only [held, connection?, launch]
    rcases Nat.lt_trichotomy k s.connections.length with hk | hk | hk
    · rw [List.getElem?_append_left hk]
    · subst hk
      simp [Connection.new]
    · rw [List.getElem?_eq_none (by simp; omega), List.getElem?_eq_none (by omega)]

theorem sameRequests_enqueue (s : Session D) (k : Nat) {command : Command}
    (h : command.request? = none) : SameRequests s (s.enqueue k command) := by
  rw [enqueue]
  split
  · refine s.sameRequests_modifyConnection k (fun c => ?_) (fun c => rfl)
    simp [Connection.requests, h]
  · exact SameRequests.refl s

theorem queued_enqueue (s : Session D) (k j : Nat) (command : Command) :
    (s.enqueue k command).queued j =
      s.queued j ++ if s.isAlive k = true ∧ k = j then command.request?.toList else [] := by
  rw [enqueue]
  by_cases halive : s.isAlive k = true
  · rw [if_pos halive, queued, connection?_modifyConnection]
    by_cases hj : k = j
    · subst hj
      rw [if_pos rfl, if_pos ⟨halive, rfl⟩, queued]
      cases hc : s.connection? k with
      | none => simp [isAlive, hc] at halive
      | some c =>
          cases hr : command.request? with
          | none => simp [Connection.requests, hr]
          | some r => simp [Connection.requests, hr]
    · rw [if_neg hj, if_neg (fun h => hj h.2), List.append_nil, queued]
  · rw [if_neg halive, if_neg (fun h => halive h.1), List.append_nil]

theorem held_enqueue (s : Session D) (k j number : Nat) (command : Command) :
    (s.enqueue k command).held j number = s.held j number := by
  rw [enqueue]
  split
  · rw [held, connection?_modifyConnection, held]
    by_cases hj : k = j
    · rw [if_pos hj]
      cases s.connection? j <;> rfl
    · rw [if_neg hj]
  · rfl

theorem nextNumber_enqueue (s : Session D) (k : Nat) (command : Command) :
    (s.enqueue k command).nextNumber = s.nextNumber := by
  rw [enqueue]
  split <;> rfl

/-!
## Changing calls
-/

def task? (s : Session D) (id : Nat) : Option Task :=
  (s.call? id).map Call.task

def mail? (s : Session D) (id : Nat) : Option Answer :=
  (s.call? id).bind Call.mailbox

namespace SameRequests

theorem task? {s t : Session D} (h : SameRequests s t) (id : Nat) :
    t.task? id = s.task? id := by
  rw [Session.task?, h.call?, Session.task?]

theorem mail? {s t : Session D} (h : SameRequests s t) (id : Nat) :
    t.mail? id = s.mail? id := by
  rw [Session.mail?, h.call?, Session.mail?]

end SameRequests

theorem call?_modifyCall (s : Session D) (id j : Nat) (f : Call -> Call) :
    (s.modifyCall id f).call? j = if id = j then (s.call? j).map f else s.call? j := by
  simp only [modifyCall, call?, List.getElem?_modify]
  by_cases hj : id = j
  · simp only [hj, if_true]
    rfl
  · simp [hj]

theorem call?_enqueue (s : Session D) (k : Nat) (command : Command) (j : Nat) :
    (s.enqueue k command).call? j = s.call? j := by
  rw [enqueue]
  split <;> rfl

/-!
## Answers
-/

theorem task?_deliver (s : Session D) (t : Ticket) (a : Answer) (id : Nat) :
    (s.deliver t a).task? id = s.task? id := by
  rw [task?, deliver, call?_modifyCall, task?]
  by_cases hid : t.call = id
  · rw [if_pos hid, Option.map_map]
    congr 1
    funext call
    simp only [Function.comp_apply]
    split <;> rfl
  · rw [if_neg hid]

theorem mail?_deliver {s : Session D} {t : Ticket} {a b : Answer} {id : Nat}
    (h : (s.deliver t a).mail? id = some b) : s.mail? id = some b ∨ t.call = id ∧ b = a := by
  rw [mail?, deliver, call?_modifyCall] at h
  by_cases hid : t.call = id
  · rw [if_pos hid] at h
    cases hcall : s.call? id with
    | none => simp [hcall] at h
    | some call =>
        rw [hcall] at h
        by_cases hserial : call.serial = t.serial
        · simp [hserial] at h
          exact Or.inr ⟨hid, h.symm⟩
        · simp [hserial] at h
          exact Or.inl (by simp [mail?, hcall, h])
  · rw [if_neg hid] at h
    exact Or.inl h

def deliverAll (s : Session D) (answers : List (Ticket × Answer)) : Session D :=
  answers.foldl (fun s (t, a) => s.deliver t a) s

theorem task?_deliverAll (s : Session D) (answers : List (Ticket × Answer)) (id : Nat) :
    (s.deliverAll answers).task? id = s.task? id := by
  induction answers generalizing s with
  | nil => rfl
  | cons answer rest ih => exact (ih _).trans (s.task?_deliver answer.1 answer.2 id)

theorem mail?_deliverAll {s : Session D} {answers : List (Ticket × Answer)} {b : Answer}
    {id : Nat} (h : (s.deliverAll answers).mail? id = some b) :
    s.mail? id = some b ∨ exists t, (t, b) ∈ answers ∧ t.call = id := by
  induction answers generalizing s with
  | nil => exact Or.inl h
  | cons answer rest ih =>
      rcases answer with ⟨t, a⟩
      rcases ih h with hmail | ⟨t', ht', hid⟩
      · rcases mail?_deliver hmail with hmail | ⟨hid, rfl⟩
        · exact Or.inl hmail
        · exact Or.inr ⟨t, List.mem_cons_self, hid⟩
      · exact Or.inr ⟨t', List.mem_cons_of_mem _ ht', hid⟩

theorem deliverAll_eq (s : Session D) (answers : List (Ticket × Answer)) :
    exists calls, calls.length = s.calls.length ∧ s.deliverAll answers = { s with calls } := by
  induction answers generalizing s with
  | nil => exact ⟨s.calls, rfl, rfl⟩
  | cons answer rest ih =>
      rcases ih (s.deliver answer.1 answer.2) with ⟨calls, hlength, heq⟩
      exact ⟨calls, hlength.trans (List.length_modify ..), heq⟩

theorem emit_eq (s : Session D) (e : Emitted) :
    exists calls, calls.length = s.calls.length ∧
      s.emit e = { s with calls, bus := e.events.foldl EventBus.publish s.bus } := by
  rcases s.deliverAll_eq e.answers with ⟨calls, hlength, heq⟩
  refine ⟨calls, hlength, ?_⟩
  change { s.deliverAll e.answers with
    bus := e.events.foldl EventBus.publish (s.deliverAll e.answers).bus } = _
  rw [heq]

theorem connections_emit (s : Session D) (e : Emitted) :
    (s.emit e).connections = s.connections := by
  rcases s.emit_eq e with ⟨calls, -, heq⟩
  rw [heq]

theorem sameRequests_emit (s : Session D) (e : Emitted) :
    SameRequests (s.deliverAll e.answers) (s.emit e) :=
  SameRequests.of_connections rfl rfl rfl

/-!
## Steps of a connection
-/

/-- Connection `k` has gone from `c` to `c'` and has given answers. Nothing else that
concerns requests has changed. -/
structure Moved (k : Nat) (c c' : Connection) (answers : List (Ticket × Answer))
    (s u : Session D) : Prop where
  before : s.connection? k = some c
  after : u.connection? k = some c'
  queued : forall j, u.queued j = if k = j then c'.requests else s.queued j
  held : forall j number,
    u.held j number = if k = j then c'.pending.get? number else s.held j number
  nextNumber : u.nextNumber = s.nextNumber
  task? : forall id, u.task? id = s.task? id
  mail? : forall id b, u.mail? id = some b ->
    s.mail? id = some b ∨ exists t, (t, b) ∈ answers ∧ t.call = id

theorem moved_emit (s : Session D) {k : Nat} {c c' : Connection} (h : s.connection? k = some c)
    (e : Emitted) : Moved k c c' e.answers s ((s.setConnection k c').emit e) := by
  have hsame := (s.setConnection k c').sameRequests_emit e
  have hconnections := (s.setConnection k c').connections_emit e
  constructor
  case before => exact h
  case after =>
    have hafter : (s.setConnection k c').connection? k = some c' := by
      rw [s.connection?_setConnection k k h, if_pos rfl]
    exact (congrArg (·[k]?) hconnections).trans hafter
  case queued =>
    intro j
    rw [queued_congr hconnections]
    exact s.queued_setConnection k j h
  case held =>
    intro j number
    rw [held_congr hconnections]
    exact s.held_setConnection k j number h
  case nextNumber =>
    rcases (s.setConnection k c').emit_eq e with ⟨calls, -, heq⟩
    rw [heq]
    rfl
  case task? =>
    intro id
    rw [hsame.task?, task?_deliverAll]
    rfl
  case mail? =>
    intro id b hb
    rw [hsame.mail?] at hb
    exact mail?_deliverAll (s := s.setConnection k c') hb

theorem stepConnection_moved {s u : Session D} {k : Nat}
    {step : Connection -> Option (Connection × Emitted)}
    (h : s.stepConnection k step = some u) :
    exists c c' e, step c = some (c', e) ∧ Moved k c c' e.answers s u := by
  unfold stepConnection at h
  split at h
  case h_1 => contradiction
  case h_2 c hc =>
    rcases Option.map_eq_some_iff.mp h with ⟨⟨c', e⟩, hstep, rfl⟩
    exact ⟨c, c', e, hstep, s.moved_emit hc e⟩

end Session
end LanguageClient

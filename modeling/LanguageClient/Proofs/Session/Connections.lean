import LanguageClient.Proofs.Session.ConnectionSteps

/-!
# What a connection does to requests

A step of a connection takes up a request, gives one up, answers one, loses all of them, or
leaves them alone. Whichever it is, the only answers that carry the content of a response
are those to the request that the response meets.
-/

namespace LanguageClient

/-!
## Outcomes and answers that carry a response
-/

def carried? : Outcome -> Option Response
  | .ok (.json v) => some (.ok v)
  | .error (.serverError code message data) => some (.error ⟨code, message, data⟩)
  | _ => none

namespace Answer

def outcome : Answer -> Outcome
  | .response r => r.map .json
  | .written r => r.map fun _ => .unit
  | .synced r => r.map .synced
  | .closed r => r.map .bool
  | .isOpen _ | .diagnostics _ | .counts .. | .terminated | .dropped => .ok .unit

def ofResponse (r : Response) : Answer :=
  .response (r.mapError fun e => .serverError e.code e.message e.data)

theorem carried?_ofResponse (r : Response) : carried? (ofResponse r).outcome = some r := by
  cases r with
  | ok v => rfl
  | error e => rfl

end Answer

/-!
## Requests in a queue
-/

def Command.request? : Command -> Option (Nat × Ticket)
  | .request number _ _ t => some (number, t)
  | _ => none

namespace Connection

def requests (c : Connection) : List (Nat × Ticket) :=
  c.commands.filterMap Command.request?

theorem mem_requests {c : Connection} {number : Nat} {method : String} {params : Json}
    {t : Ticket}
    (h : .request number method params t ∈ c.commands) : (number, t) ∈ c.requests :=
  List.mem_filterMap.mpr ⟨_, h, rfl⟩

/-- What a step from `c` to `c'` does to requests, with what is recorded
and the answers it gives. -/
inductive Moves (k : Nat) (c c' : Connection) :
    List Happening -> List (Ticket × Answer) -> Prop where
  | still {answers : List (Ticket × Answer)} (queue : c'.requests = c.requests)
      (table : forall m, c'.pending.get? m = c.pending.get? m)
      (plain : forall a, a ∈ answers -> carried? a.2.outcome = none) : Moves k c c' [] answers
  | register {number : Nat} {t : Ticket} (queue : c.requests = (number, t) :: c'.requests)
      (table : forall m, c'.pending.get? m = if number = m then some t else c.pending.get? m) :
      Moves k c c' [.registered k number t] []
  | fail {number : Nat} {t : Ticket} {a : Answer}
      (queue : c.requests = (number, t) :: c'.requests)
      (table : forall m, c'.pending.get? m = if number = m then none else c.pending.get? m)
      (plain : carried? a.outcome = none) : Moves k c c' [.unwritten k number t] [(t, a)]
  /-- The number of the request is in use. -/
  | refuse {number : Nat} {t : Ticket} {happenings : List Happening}
      {answers : List (Ticket × Answer)} (queue : c.requests = (number, t) :: c'.requests)
      (taken : c.pending.contains number = true) : Moves k c c' happenings answers
  | abandon {number : Nat} (queue : c'.requests = c.requests)
      (table : forall m, c'.pending.get? m = if number = m then none else c.pending.get? m) :
      Moves k c c' [.abandoned k number] []
  | answer {number : Nat} {r : Response} {answers : List (Ticket × Answer)}
      (queue : c'.requests = c.requests)
      (table : forall m, c'.pending.get? m = if number = m then none else c.pending.get? m)
      (own : forall t a, (t, a) ∈ answers ->
        c.pending.get? number = some t ∧ a = .ofResponse r)
      (heard : forall t, c.pending.get? number = some t -> (t, .ofResponse r) ∈ answers) :
      Moves k c c' [.answered k number r] answers
  | finish {answers : List (Ticket × Answer)} (queue : c'.requests = [])
      (table : forall m, c'.pending.get? m = none)
      (plain : forall a, a ∈ answers -> carried? a.2.outcome = none)
      (gone : c'.isAlive = false) :
      Moves k c c' [.ended k] answers

/-!
## Writing
-/

theorem write_requests (c : Connection) (out : Outgoing) :
    (c.write out).1.requests = c.requests := by
  unfold write
  split <;> rfl

theorem write_pending (c : Connection) (out : Outgoing) :
    (c.write out).1.pending = c.pending := by
  unfold write
  split <;> rfl

theorem write_isAlive (c : Connection) (out : Outgoing) :
    (c.write out).1.isAlive = c.isAlive := by
  unfold write
  split <;> rfl

theorem write_outcome (c : Connection) (out : Outgoing) :
    (c.write out).2 = .ok () ∨ (c.write out).2 = .error (.transport .brokenPipe) := by
  unfold write
  split
  · exact Or.inl rfl
  · exact Or.inr rfl

/-!
## Ending
-/

theorem carried?_endError (c : Connection) (code : Option Int) :
    carried? (Answer.response (.error (c.endError code))).outcome = none := by
  unfold endError
  split <;> rfl

theorem teardown_answers_plain (c : Connection) (code : Option Int) (a : Ticket × Answer)
    (h : a ∈ (c.teardown code).2.answers) : carried? a.2.outcome = none := by
  rcases List.mem_append.mp h with h | h
  · rcases List.mem_map.mp h with ⟨entry, _, rfl⟩
    exact c.carried?_endError code
  · rcases List.mem_map.mp h with ⟨t, _, rfl⟩
    rfl

theorem teardown_moves (k : Nat) {b c : Connection} (halive : b.isAlive = true)
    (code : Option Int) :
    Moves k b (c.teardown code).1 (ending k b (c.teardown code).1)
      (c.teardown code).2.answers := by
  have hending : ending k b (c.teardown code).1 = [.ended k] := by
    simp only [ending, halive]
    rfl
  rw [hending]
  exact Moves.finish rfl (fun _ => rfl) (c.teardown_answers_plain code) rfl

theorem teardownFor_moves (k : Nat) {b c : Connection} (halive : b.isAlive = true) (t : Ticket)
    (code : Option Int) :
    Moves k b (c.teardownFor t code).1 (ending k b (c.teardownFor t code).1)
      (c.teardownFor t code).2.answers := by
  have hending : ending k b (c.teardownFor t code).1 = [.ended k] := by
    simp only [ending, halive]
    rfl
  rw [hending]
  refine Moves.finish rfl (fun _ => rfl) (fun a ha => ?_) rfl
  rcases List.mem_cons.mp ha with rfl | ha
  · rfl
  · exact c.teardown_answers_plain code a ha

/-!
## Serving a command
-/

theorem ending_of_alive {k : Nat} {b c : Connection} (h : c.isAlive = true) :
    ending k b c = [] := by
  simp [ending, h]

theorem still_of_alive {k : Nat} {b c : Connection} {answers : List (Ticket × Answer)}
    (halive : c.isAlive = true) (hqueue : c.requests = b.requests)
    (htable : c.pending = b.pending)
    (hplain : forall a, a ∈ answers -> carried? a.2.outcome = none) :
    Moves k b c (ending k b c) answers := by
  rw [ending_of_alive halive]
  exact Moves.still hqueue (fun m => by rw [htable]) hplain

theorem answer_plain {t : Ticket} {a : Answer} (h : carried? a.outcome = none)
    (b : Ticket × Answer) (hb : b ∈ (Emitted.answer t a).answers) :
    carried? b.2.outcome = none := by
  rw [List.mem_singleton.mp hb]
  exact h

theorem carried?_written (c : Connection) (out : Outgoing) :
    carried? (Answer.written (c.write out).2).outcome = none := by
  rcases c.write_outcome out with h | h <;> rw [h] <;> rfl

theorem carried?_synced (c : Connection) (out : Outgoing) (synced : SyncedDocument) :
    carried? (Answer.synced ((c.write out).2.map fun () => synced)).outcome = none := by
  rcases c.write_outcome out with h | h <;> rw [h] <;> rfl

theorem carried?_closed (c : Connection) (out : Outgoing) :
    carried? (Answer.closed ((c.write out).2.map fun () => true)).outcome = none := by
  rcases c.write_outcome out with h | h <;> rw [h] <;> rfl

section

-- `b` is `c` without the command that is served.
variable {b c : Connection}

theorem serve_request_moves (k now : Nat) {number : Nat} {method : String} {params : Json}
    {t : Ticket} (hqueue : c.requests = (number, t) :: b.requests)
    (htable : b.pending = c.pending) :
    Moves k c (serve now b (.request number method params t)).1
      [if b.writable then .registered k number t else .unwritten k number t]
      (serve now b (.request number method params t)).2.answers := by
  by_cases htaken : b.pending.contains number = true
  · rw [serve, if_pos htaken]
    exact Moves.refuse hqueue (htable ▸ htaken)
  · rw [serve, if_neg htaken]
    by_cases hwritable : b.writable = true
    · simp only [write, hwritable]
      refine Moves.register hqueue (fun m => ?_)
      rw [← htable]
      exact Table.get?_insert b.pending number m t
    · simp only [write, hwritable]
      refine Moves.fail hqueue (fun m => ?_) rfl
      rw [← htable]
      by_cases hm : number = m
      · simp [hm]
      · simp [hm]

theorem serve_request_isAlive (now number : Nat) (method : String) (params : Json)
    (t : Ticket) :
    (serve now b (.request number method params t)).1.isAlive = b.isAlive := by
  by_cases htaken : b.pending.contains number = true
  · rw [serve, if_pos htaken]
  · rw [serve, if_neg htaken]
    by_cases hwritable : b.writable = true
    · simp only [write, hwritable]
      rfl
    · simp only [write, hwritable]
      rfl

theorem serve_abandon_moves (k now : Nat) {number : Nat} (hqueue : b.requests = c.requests)
    (htable : b.pending = c.pending) :
    Moves k c (serve now b (.abandon number)).1 [.abandoned k number]
      (serve now b (.abandon number)).2.answers := by
  by_cases hheld : b.pending.contains number = true
  · rw [serve, if_pos hheld]
    refine Moves.abandon ?_ (fun m => ?_)
    · exact (write_requests _ _).trans hqueue
    · rw [write_pending, ← htable]
      exact Table.get?_erase b.pending number m
  · rw [serve, if_neg hheld]
    apply Moves.abandon hqueue
    intro m
    rw [← htable]
    by_cases hm : number = m
    · subst hm
      simpa [Table.contains] using hheld
    · simp [hm]

theorem serve_abandon_isAlive (now number : Nat) :
    (serve now b (.abandon number)).1.isAlive = b.isAlive := by
  by_cases hheld : b.pending.contains number = true
  · rw [serve, if_pos hheld]
    exact write_isAlive _ _
  · rw [serve, if_neg hheld]

theorem serve_sync_moves (k now : Nat) {input : SyncInput} {t : Ticket}
    (halive : b.isAlive = true)
    (hqueue : b.requests = c.requests) (htable : b.pending = c.pending) :
    Moves k c (serve now b (.sync input t)).1 (ending k c (serve now b (.sync input t)).1)
      (serve now b (.sync input t)).2.answers := by
  rcases hsync : b.store.sync input with ⟨store, synced, notification⟩
  cases notification with
  | none =>
      simp only [serve, hsync]
      exact still_of_alive halive hqueue htable (answer_plain rfl)
  | some message =>
      simp only [serve, hsync]
      refine still_of_alive ?_ ?_ ?_ (answer_plain (carried?_synced _ _ _))
      · exact (write_isAlive _ _).trans halive
      · exact (write_requests _ _).trans hqueue
      · exact (write_pending _ _).trans htable

theorem serve_close_moves (k now : Nat) {uri : String} {t : Ticket} (halive : b.isAlive = true)
    (hqueue : b.requests = c.requests) (htable : b.pending = c.pending) :
    Moves k c (serve now b (.close uri t)).1 (ending k c (serve now b (.close uri t)).1)
      (serve now b (.close uri t)).2.answers := by
  rcases hclose : b.store.close uri with ⟨store, notification⟩
  cases notification with
  | none =>
      simp only [serve, hclose]
      exact still_of_alive halive hqueue htable (answer_plain rfl)
  | some message =>
      simp only [serve, hclose]
      refine still_of_alive ?_ ?_ ?_ (answer_plain (carried?_closed _ _))
      · exact (write_isAlive _ _).trans halive
      · exact (write_requests _ _).trans hqueue
      · exact (write_pending _ _).trans htable

theorem serve_moves (k now : Nat) (command : Command) (hserving : c.phase = .serving)
    (halive : b.isAlive = true) (hqueue : c.requests = command.request?.toList ++ b.requests)
    (htable : b.pending = c.pending) :
    Moves k c (serve now b command).1
      (command.meaning k b.writable ++ ending k c (serve now b command).1)
      (serve now b command).2.answers := by
  cases command with
  | request number method params t =>
      rw [ending_of_alive ((serve_request_isAlive ..).trans halive), List.append_nil]
      exact serve_request_moves k now hqueue htable
  | abandon number =>
      rw [ending_of_alive ((serve_abandon_isAlive ..).trans halive), List.append_nil]
      exact serve_abandon_moves k now hqueue.symm htable
  | notify message t =>
      refine still_of_alive ?_ ?_ ?_ (answer_plain (carried?_written _ _))
      · exact (write_isAlive _ _).trans halive
      · exact (write_requests _ _).trans hqueue.symm
      · exact (write_pending _ _).trans htable
  | sync input t => exact serve_sync_moves k now halive hqueue.symm htable
  | close uri t => exact serve_close_moves k now halive hqueue.symm htable
  | isOpen uri t => exact still_of_alive halive hqueue.symm htable (answer_plain rfl)
  | diagnostics uri t =>
      cases uri with
      | none => exact still_of_alive halive hqueue.symm htable (answer_plain rfl)
      | some uri => exact still_of_alive halive hqueue.symm htable (answer_plain rfl)
  | status t => exact still_of_alive halive hqueue.symm htable (answer_plain rfl)
  | terminate force t =>
      cases hprocess : b.process with
      | none =>
          simp only [serve, hprocess]
          exact teardownFor_moves k (isAlive_of_serving hserving) t none
      | some process =>
          simp only [serve, hprocess]
          exact still_of_alive rfl hqueue.symm htable (fun a ha => nomatch ha)

end

theorem stepCommand_moves (k : Nat) {now : Nat} {c c' : Connection} {e : Emitted}
    (h : c.stepCommand now = some (c', e)) :
    Moves k c c' (c.served k ++ ending k c c') e.answers := by
  rcases stepCommand_serves h with ⟨command, rest, hnext, hserving, hcommands, hserve⟩
  have hqueue : c.requests = command.request?.toList ++ rest.filterMap Command.request? := by
    rw [requests, hcommands, List.filterMap_cons]
    cases command.request? <;> rfl
  have hmoves := serve_moves (b := { c with commands := rest }) k now command hserving
    (isAlive_of_serving hserving) hqueue rfl
  rw [served_of_next? hnext]
  rwa [hserve] at hmoves

/-!
## Taking in a message
-/

theorem takeNotification_still (c : Connection) (method : String) (params : Json) :
    (c.takeNotification method params).1.requests = c.requests ∧
      (c.takeNotification method params).1.pending = c.pending ∧
      (c.takeNotification method params).1.phase = c.phase ∧
      (c.takeNotification method params).2.answers = [] := by
  unfold takeNotification
  repeat' split
  all_goals exact ⟨rfl, rfl, rfl, rfl⟩

theorem dispatch_isAlive (folder : String × String) (c : Connection) (message : Json) :
    (dispatch folder c message).1.isAlive = c.isAlive := by
  unfold dispatch
  split
  · repeat' split
    all_goals rfl
  · exact write_isAlive _ _
  · exact congrArg (· != Phase.ended) (takeNotification_still c _ _).2.2.1
  · rfl

theorem dispatch_response_moves (k : Nat) {folder : String × String} {b c : Connection}
    {message id : Json} {response : Response} (hqueue : b.requests = c.requests)
    (htable : b.pending = c.pending)
    (hmessage : Incoming.classify message = .response id response) :
    Moves k c (dispatch folder b message).1 (heard k message)
      (dispatch folder b message).2.answers := by
  cases hnumber : Incoming.number? id with
  | none =>
      simp only [heard, dispatch, hmessage, hnumber]
      exact Moves.still hqueue (fun m => by rw [htable]) (fun a ha => nomatch ha)
  | some number =>
      have herase (m : Nat) :
          (b.pending.erase number).get? m = if number = m then none else c.pending.get? m := by
        rw [← htable]
        exact Table.get?_erase b.pending number m
      cases hheld : b.pending.get? number with
      | none =>
          simp only [heard, dispatch, hmessage, hnumber, hheld]
          refine Moves.answer hqueue (fun m => ?_) (fun t a ha => absurd ha List.not_mem_nil)
            fun t ht => ?_
          · rw [← herase m, Table.get?_erase]
            by_cases hm : number = m
            · subst hm
              simpa using hheld
            · simp [hm]
          · rw [← htable, hheld] at ht
            contradiction
      | some t =>
          simp only [heard, dispatch, hmessage, hnumber, hheld]
          refine Moves.answer hqueue herase (fun t' a ha => ?_) fun t' ht => ?_
          · rcases Prod.mk.inj (List.mem_singleton.mp ha) with ⟨rfl, rfl⟩
            exact ⟨htable ▸ hheld, rfl⟩
          · rw [← htable, hheld] at ht
            cases ht
            exact List.mem_singleton_self _

theorem dispatch_moves (k : Nat) (folder : String × String) {b c : Connection} (message : Json)
    (halive : b.isAlive = true) (hqueue : b.requests = c.requests)
    (htable : b.pending = c.pending) :
    Moves k c (dispatch folder b message).1
      (heard k message ++ ending k c (dispatch folder b message).1)
      (dispatch folder b message).2.answers := by
  rw [ending_of_alive ((dispatch_isAlive ..).trans halive), List.append_nil]
  cases hmessage : Incoming.classify message with
  | response id response => exact dispatch_response_moves k hqueue htable hmessage
  | request id method params =>
      simp only [heard, dispatch, hmessage]
      refine Moves.still ?_ (fun m => ?_) (fun a ha => nomatch ha)
      · exact (write_requests _ _).trans hqueue
      · rw [write_pending, htable]
  | notification method params =>
      simp only [heard, dispatch, hmessage]
      rcases b.takeNotification_still method params with ⟨hrequests, hpending, _, hanswers⟩
      refine Moves.still ?_ (fun m => ?_) (fun a ha => ?_)
      · exact hrequests.trans hqueue
      · rw [hpending, htable]
      · rw [hanswers] at ha
        exact nomatch ha
  | invalid =>
      simp only [heard, dispatch, hmessage]
      exact Moves.still hqueue (fun m => by rw [htable]) (fun a ha => nomatch ha)

/-!
## Coming to an end
-/

theorem Retires.moves {now : Nat} {c c' : Connection} {e : Emitted} (h : Retires now c c' e)
    (k : Nat) : Moves k c c' (ending k c c') e.answers := by
  cases h with
  | reaps | drains | signals | kills =>
      exact still_of_alive rfl rfl rfl fun a ha => nomatch ha
  | closes b code reason => exact teardown_moves k reason.isAlive code
  | parts code _ t _ _ phase => exact teardownFor_moves k (isAlive_of_phase phase nofun) t code

theorem stepInbound_moves (k : Nat) {now : Nat} {folder : String × String} {c c' : Connection}
    {e : Emitted} (h : c.stepInbound now folder = some (c', e)) :
    Moves k c c' (c.takenIn k ++ ending k c c') e.answers := by
  rcases stepInbound_cases h with
    ⟨message, rest, hfirst, _, hphase, hdispatch⟩ | ⟨hfirst, hretires⟩
  · have halive : c.isAlive = true := by
      rcases hphase with hserving | ⟨deadline, code, hdraining⟩
      · exact isAlive_of_serving hserving
      · exact isAlive_of_phase hdraining nofun
    have hmoves := dispatch_moves (b := { c with inbound := rest }) (c := c) k folder message
      halive rfl rfl
    rw [takenIn_of_first? hfirst]
    rwa [hdispatch] at hmoves
  · rw [takenIn_of_idle hfirst, List.nil_append]
    exact hretires.moves k

theorem stepExit_moves (k : Nat) {now : Nat} {c c' : Connection} {e : Emitted}
    (h : c.stepExit now = some (c', e)) : Moves k c c' (ending k c c') e.answers :=
  (stepExit_retires h).moves k

theorem stepDeadline_moves (k : Nat) {now : Nat} {c c' : Connection} {e : Emitted}
    (h : c.stepDeadline now = some (c', e)) : Moves k c c' (ending k c c') e.answers :=
  (stepDeadline_retires h).moves k

end Connection
end LanguageClient

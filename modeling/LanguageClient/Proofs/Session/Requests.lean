import LanguageClient.Proofs.Session.Soundness
import LanguageClient.Workspace.Memory

/-!
# Requests settle once

Over any run of a session, with any interleaving of calls, connections, servers and time,
each request is settled at most once and by its own answer.
-/

namespace LanguageClient
namespace Session

variable {D : Type}

/-!
## Settling once
-/

section

variable {s : Session D} {log : List Happening}

theorem Numbered.settles_sent (h : Numbered s log) {position id number : Nat} {r : Response}
    (hsettles : Settles log position id number r) : exists k, .sent id k number ∈ log := by
  rcases hsettles with ⟨k, serial, hout, _⟩
  exact ⟨k, h.taken_sent _ k number ⟨id, serial⟩
    (List.mem_of_mem_take hout.registered_mem) rfl⟩

theorem Numbered.settles_unique (h : Numbered s log) {position id id' number number' : Nat}
    {r r' : Response} (hsettles : Settles log position id number r)
    (hsettles' : Settles log position id' number' r') :
    id = id' ∧ number = number' ∧ r = r' := by
  rcases hsettles with ⟨k, serial, hout, hat⟩
  rcases hsettles' with ⟨k', serial', hout', hat'⟩
  rw [hat] at hat'
  injection hat' with heq
  injection heq with hk hnumber hr
  subst hk hnumber hr
  have ht := (h.registered_unique (List.mem_of_mem_take hout.registered_mem)
    (List.mem_of_mem_take hout'.registered_mem)).2
  injection ht with hid _
  exact ⟨hid, rfl, rfl⟩

theorem Numbered.not_outstanding (h : Numbered s log) {k number position later : Nat}
    {t t' : Ticket} {r : Response} (hbefore : Outstanding (log.take position) k number t)
    (hat : log[position]? = some (.answered k number r)) (hlt : position < later) :
    ¬ Outstanding (log.take later) k number t' := by
  rintro ⟨early, late, hlog, hopen⟩
  have hthere : (log.take later)[position]? = some (.answered k number r) := by
    rw [List.getElem?_take_of_lt hlt]
    exact hat
  -- The answer stands before the second registration, and so does the first one.
  have hposition : position < early.length := by
    apply Nat.lt_of_not_le
    intro hle
    rw [hlog, List.getElem?_append_right hle] at hthere
    rcases List.mem_cons.mp (List.mem_of_getElem? hthere) with heq | hmem
    · contradiction
    · have := hopen _ hmem
      simp [Happening.closes] at this
  have hearly : .registered k number t ∈ early := by
    have htake : log.take position = early.take position := by
      have hshort := congrArg (List.take position) hlog
      rwa [List.take_take, Nat.min_eq_left (Nat.le_of_lt hlt),
        List.take_append_of_le_length (Nat.le_of_lt hposition)] at hshort
    exact List.mem_of_mem_take (htake ▸ hbefore.registered_mem)
  have hnodup : ((log.take later).filterMap Happening.takenNumber?).Nodup :=
    ((List.take_sublist later log).filterMap _).nodup h.taken_nodup
  rw [hlog, List.filterMap_append, List.nodup_append] at hnodup
  exact hnodup.2.2 number (List.mem_filterMap.mpr ⟨_, hearly, rfl⟩) number
    (List.mem_filterMap.mpr ⟨_, List.mem_cons_self, rfl⟩) rfl

/-- A call is settled by one response only. -/
theorem Sound.settles_once (h : Sound s log) {position position' id number number' : Nat}
    {r r' : Response} (hsettles : Settles log position id number r)
    (hsettles' : Settles log position' id number' r') : position = position' := by
  have hrequest : exists k serial serial', number' = number ∧
      (Outstanding (log.take position) k number ⟨id, serial⟩ ∧
        log[position]? = some (.answered k number r)) ∧
      Outstanding (log.take position') k number ⟨id, serial'⟩ ∧
        log[position']? = some (.answered k number r') := by
    rcases hsettles with ⟨k, serial, hout, hat⟩
    rcases hsettles' with ⟨k', serial', hout', hat'⟩
    have hsent :=
      h.numbered.taken_sent _ k number _ (List.mem_of_mem_take hout.registered_mem) rfl
    have hsent' := h.numbered.taken_sent _ k' number' _
      (List.mem_of_mem_take hout'.registered_mem) rfl
    -- A call sends one request.
    have heq := eq_of_nodup_filterMap h.honest.senders_nodup hsent hsent' (x := id) rfl rfl
    injection heq with _ hk hnumber
    subst hk hnumber
    exact ⟨k, serial, serial', rfl, ⟨hout, hat⟩, hout', hat'⟩
  rcases hrequest with ⟨k, serial, serial', _, ⟨hout, hat⟩, hout', hat'⟩
  rcases Nat.lt_trichotomy position position' with hlt | heq | hlt
  · exact absurd hout' (h.numbered.not_outstanding hout hat hlt)
  · exact heq
  · exact absurd hout (h.numbered.not_outstanding hout' hat' hlt)

end

/-!
## Calls that have ended
-/

theorem outcome?_eq_some {s : Session D} {id : Nat} {outcome : Outcome} :
    s.outcome? id = some outcome <-> s.task? id = some (.done outcome) := by
  rw [outcome?, task?]
  cases s.call? id with
  | none => simp
  | some call =>
      simp only [Option.bind_some, Option.map_some, Option.some.injEq, Call.outcome?]
      cases call.task <;> simp

theorem Turned.done {id j : Nat} {task : Task} {s u : Session D} (h : Turned id task s u)
    {outcome : Outcome} (hdone : s.task? j = some (.done outcome))
    (hid : s.task? id ≠ some (.done outcome)) : u.task? j = some (.done outcome) := by
  rw [h.task?]
  by_cases hj : id = j
  · subst hj
    exact absurd hdone hid
  · rw [if_neg hj]
    exact hdone

theorem done_of_stepConnection {s u : Session D} {k j : Nat} {outcome : Outcome}
    {step : Connection -> Option (Connection × Emitted)}
    (hstep : s.stepConnection k step = some u)
    (hdone : s.task? j = some (.done outcome)) : u.task? j = some (.done outcome) := by
  rcases stepConnection_moved hstep with ⟨c, c', e, _, hmoved⟩
  rw [hmoved.task?]
  exact hdone

variable [FileSystem D]

theorem done_of_stepCall {s u : Session D} {id j : Nat} {outcome : Outcome}
    (hstep : s.stepCall id = some u) (hdone : s.task? j = some (.done outcome)) :
    u.task? j = some (.done outcome) := by
  unfold stepCall at hstep
  split at hstep
  case h_2 => contradiction
  case h_1 call hcall =>
    rcases (stepTask_reacts hstep).turned hcall with ⟨task, _, hturned⟩
    apply hturned.done hdone
    intro hid
    rw [task?, hcall] at hid
    rw [Option.some.inj hid, stepTask_done] at hstep
    contradiction

theorem Step.done {s u : Session D} (h : Step s u) {j : Nat} {outcome : Outcome}
    (hdone : s.task? j = some (.done outcome)) : u.task? j = some (.done outcome) := by
  cases h with
  | touch disk => exact hdone
  | act a hact =>
      cases a with
      | begin op =>
          cases hact
          rcases s.beginCall_turned op with ⟨task, _, hturned⟩
          refine hturned.done hdone ?_
          rw [s.task?_length]
          exact nofun
      | goOn id => exact done_of_stepCall hact hdone
      | cancel id =>
          cases hact
          rw [task?, call?_modifyCall]
          by_cases hj : id = j
          · rw [if_pos hj, Option.map_map]
            exact hdone
          · rw [if_neg hj]
            exact hdone
      | serve k => exact done_of_stepConnection hact hdone
      | takeIn k => exact done_of_stepConnection hact hdone
      | noticeExit k => exact done_of_stepConnection hact hdone
      | expire k => exact done_of_stepConnection hact hdone
      | _ =>
          cases hact
          exact hdone

theorem Reaches.outcome? {s u : Session D} (h : Reaches s u) {id : Nat} {outcome : Outcome}
    (hdone : s.outcome? id = some outcome) : u.outcome? id = some outcome := by
  rw [outcome?_eq_some] at hdone ⊢
  induction h with
  | refl => exact hdone
  | step _ next ih => exact next.done ih

/-!
## The whole account
-/

/-- What becomes of requests in state `s` after a run with record `log`. -/
structure RequestsSettle (s : Session D) (log : List Happening) : Prop where
  /-- No two requests draw the same number, whichever connections they go to. -/
  numbers : (log.filterMap Happening.drawn?).Nodup
  /-- No call sends two requests. -/
  senders : (log.filterMap Happening.sender?).Nodup
  /-- A connection takes only requests that were sent to it, each under
  a ticket of the sender. -/
  taken : forall k number t, .registered k number t ∈ log ∨ .unwritten k number t ∈ log ->
    .sent t.call k number ∈ log
  /-- The number of a request that waits in a queue is not in use. -/
  free : forall k c number method params t, s.connection? k = some c ->
    .request number method params t ∈ c.commands -> c.pending.contains number = false
  /-- A call that has ended keeps its outcome. -/
  final : forall id outcome u, s.outcome? id = some outcome -> Reaches s u ->
    u.outcome? id = some outcome
  /-- A question that succeeds does so with the content of the response that settles it. -/
  success : forall id op v, .began id op ∈ log -> op.isQuestion = true ->
    s.outcome? id = some (.ok v) ->
    exists result position number, v = .json result ∧
      Settles log position id number (.ok result)
  /-- An error of the server that ends a call is the content of the
  response that settles it. -/
  refusal : forall id code message data,
    s.outcome? id = some (.error (.serverError code message data)) ->
    exists position number, Settles log position id number (.error ⟨code, message, data⟩)
  /-- A response on its way to a call is the one that settles its request. -/
  answer : forall id call r, s.call? id = some call -> call.mailbox = some (.ofResponse r) ->
    exists position number, Settles log position id number r
  /-- What settles a request of a call settles the one that the call has sent. -/
  own : forall position id number r, Settles log position id number r ->
    exists k, .sent id k number ∈ log
  /-- A response settles the request of one call, and of no other. -/
  single : forall position id id' number number' r r', Settles log position id number r ->
    Settles log position id' number' r' -> id = id' ∧ number = number' ∧ r = r'
  /-- A call is settled by one response, and by no other. -/
  once : forall position position' id number number' r r', Settles log position id number r ->
    Settles log position' id number' r' -> position = position'
  /-- The table of a connection holds exactly its outstanding requests. -/
  table : forall k c number t, s.connection? k = some c ->
    (c.pending.get? number = some t <-> Outstanding log k number t)

omit [FileSystem D] in
theorem Sound.free {s : Session D} {log : List Happening} (h : Sound s log) {k : Nat}
    {c : Connection} {number : Nat} {method : String} {params : Json} {t : Ticket}
    (hc : s.connection? k = some c) (hcommand : .request number method params t ∈ c.commands) :
    c.pending.contains number = false := by
  have hqueued : (number, t) ∈ s.queued k := by
    rw [queued, hc]
    exact Connection.mem_requests hcommand
  have hheld : s.held k number = c.pending.get? number := by
    rw [held, hc]
    rfl
  rw [Table.contains, ← hheld]
  cases hnumber : s.held k number with
  | none => rfl
  | some t' =>
      exact absurd (h.faithful.taken hnumber) (h.numbered.queued_fresh k number t hqueued)

omit [FileSystem D] in
/-- What a call that has ended passes on has settled its request. -/
theorem Sound.settled_of_outcome {s : Session D} {log : List Happening} (h : Sound s log)
    {id : Nat} {outcome : Outcome} (houtcome : s.outcome? id = some outcome) {r : Response}
    (hr : carried? outcome = some r) : Settled log id r :=
  h.honest.content id (.done outcome) r (outcome?_eq_some.mp houtcome) hr

omit [FileSystem D] in
theorem Sound.success {s : Session D} {log : List Happening} (h : Sound s log) {id : Nat}
    {op : Operation} {v : Value} (hbegan : .began id op ∈ log) (hop : op.isQuestion = true)
    (houtcome : s.outcome? id = some (.ok v)) :
    exists result, v = .json result ∧ Settled log id (.ok result) := by
  rcases h.honest.question id op hbegan with ⟨task, htask, hquestion⟩
  rw [outcome?_eq_some.mp houtcome] at htask
  cases htask
  cases v with
  | json result => exact ⟨result, rfl, h.settled_of_outcome houtcome rfl⟩
  | _ => exact nomatch hquestion hop

/-- After every run of a new session, whatever calls, connections, servers and time have
done in whatever order: numbers are used once, every call that ends has one outcome and
passes on only the response that settles its own request, that response settles no other,
and the tables hold exactly the outstanding requests. -/
theorem run_requestsSettle {settings : Settings} {processId : Nat} {workspace : Workspace D}
    {log : List Happening} {s : Session D}
    (run : Run (Session.new settings processId workspace) log s) : RequestsSettle s log := by
  have h := run.sound
  constructor
  case numbers => exact h.numbered.drawn_nodup
  case senders => exact h.honest.senders_nodup
  case taken =>
    intro k number t ht
    rcases ht with ht | ht
    · exact h.numbered.taken_sent _ k number t ht rfl
    · exact h.numbered.taken_sent _ k number t ht rfl
  case free =>
    intro k c number method params t hc hcommand
    exact h.free hc hcommand
  case final =>
    intro id outcome u houtcome hreaches
    exact hreaches.outcome? houtcome
  case success =>
    intro id op v hbegan hop houtcome
    rcases h.success hbegan hop houtcome with ⟨result, hv, position, number, hsettles⟩
    exact ⟨result, position, number, hv, hsettles⟩
  case refusal =>
    intro id code message data houtcome
    exact h.settled_of_outcome houtcome rfl
  case answer =>
    intro id call r hcall hmailbox
    refine h.honest.mail id (.ofResponse r) r ?_ (Answer.carried?_ofResponse r)
    rw [mail?, hcall]
    exact hmailbox
  case own =>
    intro position id number r hsettles
    exact h.numbered.settles_sent hsettles
  case single =>
    intro position id id' number number' r r' hsettles hsettles'
    exact h.numbered.settles_unique hsettles hsettles'
  case once =>
    intro position position' id number number' r r' hsettles hsettles'
    exact h.settles_once hsettles hsettles'
  case table =>
    intro k c number t hc
    rw [← h.faithful k number t, held, hc]
    rfl

def framed (body : String) : Bytes :=
  Utf8.encode ("Content-Length: " ++ toString body.length ++ "\r\n\r\n" ++ body).toList

/-- A server is started and answers under the text of the number; then
it refuses a question. -/
def refusedQuestion : List Action :=
  [.begin (.start .streams), .goOn 0, .serve 0,
    .receive 0 (framed "\x7b\"id\":\"1\",\"result\":null\x7d"), .takeIn 0, .goOn 0, .serve 0,
    .goOn 0,
    .begin (.request "m" .null none), .serve 0,
    .receive 0 (framed "\x7b\"id\":2,\"error\":\x7b\"code\":-1,\"message\":\"no\"\x7d\x7d"),
    .takeIn 0, .goOn 1]

def failure? : Outcome -> Option Failure
  | .error e => some e
  | .ok _ => none

theorem run_requestsSettle_refusedQuestion :
    exists log s, Run (Session.new default 0 (Workspace.new default Memory.empty)) log s ∧
      log.filterMap Happening.drawn? = [1, 2] ∧
      s.outcome? 1 = some (.error (.serverError (-1) "no" none)) ∧
      RequestsSettle s log := by
  have hrun : ((Session.new default 0 (Workspace.new default Memory.empty)).perform
      refusedQuestion).map (fun (log, s) =>
        (log.filterMap Happening.drawn?, (s.outcome? 1).bind failure?)) =
      some ([1, 2], some (.serverError (-1) "no" none)) := by
    decide +kernel
  rcases Option.map_eq_some_iff.mp hrun with ⟨⟨log, s⟩, hperform, heq⟩
  rcases Prod.mk.inj heq with ⟨hnumbers, hfailure⟩
  rcases Option.bind_eq_some_iff.mp hfailure with ⟨outcome, houtcome, herror⟩
  cases outcome with
  | ok v => contradiction
  | error e =>
      rw [Option.some.inj herror] at houtcome
      have run := Run.refl.perform hperform
      rw [List.nil_append] at run
      exact ⟨log, s, run, hnumbers, houtcome, run_requestsSettle run⟩

end Session
end LanguageClient

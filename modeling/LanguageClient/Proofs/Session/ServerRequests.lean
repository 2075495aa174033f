import LanguageClient.Proofs.Message.Members
import LanguageClient.Proofs.Session.Letters
import LanguageClient.Proofs.Session.Requests
import Mathlib.Data.List.Forall2

/-!
# Requests of the server are answered once

A connection answers every request that it takes in with one reply, at once and in order,
and nothing else makes it reply. A reply carries the id of its request and either a result
or an error, and an error only where the items of a configuration are asked for in a shape
that has no items.
-/

namespace LanguageClient

namespace ServerRequest

/-!
## Single requests
-/

def isRequest (message : Json) : Bool :=
  (message.present? "id").isSome && ((message.get? "method").bind Json.str?).isSome

def items? (request : Json) : Option Json :=
  (request.get? "params").bind (Json.get? "items")

def AsksAmiss (request : Json) : Prop :=
  request.get? "method" = some (.str "workspace/configuration") ∧
    exists v, items? request = some v ∧ v ≠ .null ∧ forall items, v ≠ .arr items

structure Answers (request reply : Json) : Prop where
  id : reply.get? "id" = request.get? "id"
  /-- It carries exactly one of a result and an error. -/
  single : (reply.get? "result").isSome = !(reply.get? "error").isSome
  error : (reply.get? "error").isSome = true <-> AsksAmiss request
  code : forall e, reply.get? "error" = some e -> e.get? "code" = some (.int (-32603))
  configuration : forall items,
    request.get? "method" = some (.str "workspace/configuration") ->
    items? request = some (.arr items) ->
    reply.get? "result" = some (.arr (List.replicate items.length (.obj [])))

theorem classify_of_isRequest {message : Json} (h : isRequest message = true) :
    exists id method, Incoming.classify message =
        .request id method ((message.get? "params").getD .null) ∧
      message.get? "id" = some id ∧ message.get? "method" = some (.str method) := by
  rw [isRequest, Bool.and_eq_true, Option.isSome_iff_exists, Option.isSome_iff_exists] at h
  rcases h with ⟨⟨id, hid⟩, ⟨method, hmethod⟩⟩
  rcases Option.bind_eq_some_iff.mp hmethod with ⟨v, hv, htext⟩
  refine ⟨id, method, ?_, (Json.present?_eq_some hid).1, Json.str?_eq_some htext ▸ hv⟩
  cases message with
  | obj members => simp only [Incoming.classify, hid, hmethod]
  | _ => contradiction

theorem isRequest_of_classify {message id params : Json} {method : String}
    (h : Incoming.classify message = .request id method params) :
    isRequest message = true := by
  unfold Incoming.classify at h
  split at h
  case h_2 => contradiction
  case h_1 members =>
    dsimp only at h
    split at h
    case h_1 id' method' hid hmethod => rw [isRequest, hid, hmethod]; rfl
    case h_2 => split at h <;> contradiction
    case h_3 => contradiction
    case h_4 => contradiction

theorem answers_result {request id : Json} {v : Json} (hid : request.get? "id" = some id)
    (hwell : ¬ AsksAmiss request)
    (hitems : forall items, request.get? "method" = some (.str "workspace/configuration") ->
      items? request = some (.arr items) -> v = .arr (List.replicate items.length (.obj []))) :
    Answers request (reply id (.ok v)) where
  id := by rw [reply, Message.get?_reply, hid]; rfl
  single := by rw [reply, Message.get?_reply, Message.get?_reply]; rfl
  error := by
    rw [reply, Message.get?_reply]
    exact iff_of_false Bool.false_ne_true hwell
  code e he := by
    rw [reply, Message.get?_reply] at he
    contradiction
  configuration items hmethod hasked := by
    rw [reply, Message.get?_reply, hitems items hmethod hasked]
    rfl

theorem answers_error {request id : Json} {e : ResponseError}
    (hid : request.get? "id" = some id)
    (hamiss : AsksAmiss request) (hcode : e.code = -32603) :
    Answers request (reply id (.error e)) where
  id := by rw [reply, Message.get?_replyError, hid]; rfl
  single := by rw [reply, Message.get?_replyError, Message.get?_replyError]; rfl
  error := by
    rw [reply, Message.get?_replyError]
    exact iff_of_true rfl hamiss
  code e' he' := by
    rw [reply, Message.get?_replyError] at he'
    cases he'
    rw [e.get?_toJson.left, hcode]
  configuration items _ hasked := by
    rcases hamiss with ⟨_, v, hv, _, hlist⟩
    rw [hv] at hasked
    exact absurd (Option.some.inj hasked) (hlist items)

theorem items?_eq (request : Json) :
    ((request.get? "params").getD .null).get? "items" = items? request := by
  unfold items?
  cases request.get? "params" <;> rfl

theorem answers_configuration {request id : Json} (hid : request.get? "id" = some id)
    (hmethod : request.get? "method" = some (.str "workspace/configuration")) :
    Answers request (reply id (configuration ((request.get? "params").getD .null))) := by
  unfold configuration
  split
  case h_1 habsent =>
    refine answers_result hid ?_ fun items _ hitems => ?_
    · rintro ⟨_, v, hv, hnull, _⟩
      rw [← items?_eq] at hv
      rw [Json.present?_of_get? hv hnull] at habsent
      contradiction
    · rw [← items?_eq] at hitems
      rw [Json.present?_of_get? hitems nofun] at habsent
      contradiction
  case h_2 items hpresent =>
    have hitems : items? request = some (.arr items) :=
      (items?_eq request).symm.trans (Json.present?_eq_some hpresent).1
    refine answers_result hid ?_ fun items' _ hitems' => ?_
    · rintro ⟨_, v, hv, _, hlist⟩
      exact hlist items (Option.some.inj (hv.symm.trans hitems))
    · cases Option.some.inj (hitems.symm.trans hitems')
      exact congrArg Json.arr List.map_const'
  case h_3 v hlist hpresent =>
    rcases Json.present?_eq_some hpresent with ⟨hget, hnull⟩
    refine answers_error hid ⟨hmethod, v, ?_, hnull, fun items heq => ?_⟩ rfl
    · exact (items?_eq request).symm.trans hget
    · exact hlist items (heq ▸ rfl)

theorem answers_answer {request id : Json} {method : String}
    (hid : request.get? "id" = some id)
    (hmethod : request.get? "method" = some (.str method)) (rootUri name : String) :
    Answers request
      (reply id (answer method ((request.get? "params").getD .null) rootUri name)) := by
  have hother (hne : method ≠ "workspace/configuration") (v : Json) :
      Answers request (reply id (.ok v)) := by
    have hne' : request.get? "method" ≠ some (.str "workspace/configuration") := fun heq => by
      rw [hmethod] at heq
      injection heq with heq
      injection heq with heq
      exact hne heq
    exact answers_result hid (fun hamiss => hne' hamiss.1) fun _ hconfiguration =>
      absurd hconfiguration hne'
  unfold answer
  split
  case isTrue hconfiguration => exact answers_configuration hid (hconfiguration ▸ hmethod)
  case isFalse hne =>
    split
    · exact hother hne _
    · exact hother hne _

theorem replyTo?_eq (folder : String × String) (message : Json) :
    isRequest message = true ∧
        (exists reply, Connection.replyTo? folder message = some reply ∧
          Answers message reply) ∨
      isRequest message = false ∧ Connection.replyTo? folder message = none := by
  cases hrequest : isRequest message with
  | true =>
      rcases classify_of_isRequest hrequest with ⟨id, method, hclassify, hid, hmethod⟩
      refine Or.inl ⟨rfl, _, ?_, answers_answer hid hmethod folder.1 folder.2⟩
      rw [Connection.replyTo?, hclassify]
  | false =>
      refine Or.inr ⟨rfl, ?_⟩
      unfold Connection.replyTo?
      split
      case h_1 id method params hclassify =>
        rw [isRequest_of_classify hclassify] at hrequest
        contradiction
      case h_2 => rfl

end ServerRequest

/-!
## Courses
-/

section

variable {D : Type}

def requestsTo (k : Nat) (moments : List (Moment D)) : List Json :=
  (moments.filterMap (Moment.dispatched? k)).filter ServerRequest.isRequest

def Moment.TakesRequest (k : Nat) (m : Moment D) : Prop :=
  exists request, m.dispatched? k = some request ∧ ServerRequest.isRequest request = true

/-- No reply of connection `k` fails to be written. -/
def RepliesGetThrough (k : Nat) (moments : List (Moment D)) : Prop :=
  forall m c, m ∈ moments -> m.TakesRequest k -> m.before.connection? k = some c ->
    c.writable = true

theorem requestsTo_concat (k : Nat) (moments : List (Moment D)) (m : Moment D) :
    requestsTo k (moments ++ [m]) =
      requestsTo k moments ++ (m.dispatched? k).toList.filter ServerRequest.isRequest := by
  rw [requestsTo, List.filterMap_append, List.filter_append, requestsTo]
  cases h : m.dispatched? k <;> simp [h]

theorem RepliesGetThrough.of_concat {k : Nat} {moments : List (Moment D)} {m : Moment D}
    (h : RepliesGetThrough k (moments ++ [m])) : RepliesGetThrough k moments :=
  fun m' c hm' => h m' c (List.mem_append_left _ hm')

/-- At each moment the replies that go out answer the requests that come in. -/
theorem Moment.Fares.answers {k : Nat} {m : Moment D} (h : m.Fares k)
    (hthrough : forall c, m.TakesRequest k -> m.before.connection? k = some c ->
      c.writable = true) :
    List.Forall₂ ServerRequest.Answers
      ((m.dispatched? k).toList.filter ServerRequest.isRequest)
      ((m.letters k).filterMap fun l => l.content.reply?) := by
  cases h with
  | still served dispatched written =>
      rw [dispatched, Moment.letters_of_still written]
      exact .nil
  | serves c c' e command rest before served dispatched phase queue step after =>
      have hnone : (m.letters k).filterMap (fun l => l.content.reply?) = [] := by
        rw [Moment.letters_of_serves before served step after]
        split
        · rw [List.filterMap_map, List.filterMap_eq_nil_iff]
          exact fun _ _ => rfl
        · rfl
      rw [dispatched, hnone]
      exact .nil
  | takesIn c c' e message rest before served dispatched phase step after =>
      rw [dispatched, Moment.letters_of_takesIn before served step after]
      rcases ServerRequest.replyTo?_eq m.before.folder message with
        ⟨hrequest, reply, hreply, hanswers⟩ | ⟨hrequest, hreply⟩
      · rw [hreply, if_pos (hthrough c ⟨message, dispatched, hrequest⟩ before)]
        simpa [hrequest, Outgoing.reply?] using hanswers
      · rw [hreply]
        simp [hrequest]

theorem Connection.dispatch_request (folder : String × String) (c : Connection)
    {message : Json} (h : ServerRequest.isRequest message = true) :
    (dispatch folder c message).1.pending = c.pending ∧
      (dispatch folder c message).1.store = c.store := by
  rcases ServerRequest.classify_of_isRequest h with ⟨id, method, hclassify, _⟩
  simp only [dispatch, hclassify, write]
  split <;> exact ⟨rfl, rfl⟩

theorem Moment.Fares.untouched {k : Nat} {m : Moment D} (h : m.Fares k)
    (hrequest : m.TakesRequest k) :
    exists c c', m.before.connection? k = some c ∧ m.after.connection? k = some c' ∧
      c'.pending = c.pending ∧ c'.store = c.store := by
  rcases hrequest with ⟨request, hdispatched, hrequest⟩
  cases h with
  | still served dispatched written =>
      rw [dispatched] at hdispatched
      contradiction
  | serves c c' e command rest before served dispatched phase queue step after =>
      rw [dispatched] at hdispatched
      contradiction
  | takesIn c c' e message rest before served dispatched phase step after =>
      cases Option.some.inj (dispatched.symm.trans hdispatched)
      have hsame :=
        Connection.dispatch_request m.before.folder { c with inbound := rest } hrequest
      rw [step] at hsame
      refine ⟨c, c', before, ?_, hsame⟩
      rw [after, Session.connection?_emit before, if_pos rfl]

/-- What becomes of the requests that the server of connection `k` makes. -/
structure AnswersServer (k : Nat) (moments : List (Moment D)) (s : Session D) : Prop where
  /-- The replies that have been written answer the requests that have come in,
  one to one and in order. -/
  replies : List.Forall₂ ServerRequest.Answers (requestsTo k moments)
    ((s.writtenOn k).filterMap Outgoing.reply?)
  /-- A request changes neither the table of unanswered requests, whatever its id, nor the
  documents with their diagnostics. -/
  untouched : forall m, m ∈ moments -> m.TakesRequest k ->
    exists c c', m.before.connection? k = some c ∧ m.after.connection? k = some c' ∧
      c'.pending = c.pending ∧ c'.store = c.store

end

namespace Session

variable {D : Type} [FileSystem D]

theorem Course.answers {s u : Session D} {moments : List (Moment D)}
    (course : Course s moments u) {k : Nat} (hthrough : RepliesGetThrough k moments) :
    List.Forall₂ ServerRequest.Answers (requestsTo k moments)
      ((letters k moments).filterMap fun l => l.content.reply?) := by
  induction course with
  | refl => exact .nil
  | act course a ha ih =>
      rw [requestsTo_concat, letters_concat, List.filterMap_append]
      refine List.rel_append (ih hthrough.of_concat) ((fares_of_act ha k).answers fun c => ?_)
      exact hthrough _ c (List.mem_append_right _ List.mem_cons_self)
  | touch course disk ih => exact ih hthrough

/-- Over every course of a new session, whatever messages come in and in whatever order, each
connection whose replies get through answers every request of its server with one reply. -/
theorem course_answersServer {settings : Settings} {processId : Nat} {workspace : Workspace D}
    {moments : List (Moment D)} {s : Session D}
    (course : Course (Session.new settings processId workspace) moments s) {k : Nat}
    (hthrough : RepliesGetThrough k moments) : AnswersServer k moments s where
  replies := by
    have hwritten := course.writtenOn k
    rw [hwritten, List.filterMap_append, List.filterMap_map]
    exact course.answers hthrough
  untouched m hm hrequest := (course.fares hm k).untouched hrequest

/-- While a server is being started it asks for a configuration under the number of the
client's own request, then for one in the wrong shape under a text, then for something
unknown under a list. -/
def questions : List Action :=
  [.begin (.start .streams), .goOn 0, .serve 0,
    .receive 0 (framed ("\x7b\"id\":1,\"method\":\"workspace/configuration\"," ++
      "\"params\":\x7b\"items\":[1,2]\x7d\x7d")),
    .receive 0 (framed ("\x7b\"id\":\"a\",\"method\":\"workspace/configuration\"," ++
      "\"params\":\x7b\"items\":3\x7d\x7d")),
    .receive 0 (framed "\x7b\"id\":[],\"method\":\"x\"\x7d"),
    .receive 0 (framed "\x7b\"id\":1,\"result\":null\x7d"),
    .takeIn 0, .takeIn 0, .takeIn 0, .takeIn 0]

theorem course_answersServer_questions :
    exists moments s,
      Course (Session.new default 0 (Workspace.new default Memory.empty)) moments s ∧
      RepliesGetThrough 0 moments ∧ (requestsTo 0 moments).length = 3 ∧
      AnswersServer 0 moments s := by
  have hcourse : ((Session.new default 0 (Workspace.new default Memory.empty)).proceed
      questions).map (fun (moments, _) => ((requestsTo 0 moments).length,
        moments.all fun m => ((m.before.connection? 0).map Connection.writable).getD true)) =
      some (3, true) := by
    decide +kernel
  rcases Option.map_eq_some_iff.mp hcourse with ⟨⟨moments, s⟩, hproceed, heq⟩
  rcases Prod.mk.inj heq with ⟨hlength, hwritable⟩
  have course := Course.refl.proceed hproceed
  rw [List.nil_append] at course
  have hthrough : RepliesGetThrough 0 moments := fun m c hm _ hc => by
    have hall := List.all_eq_true.mp hwritable m hm
    rwa [hc] at hall
  exact ⟨moments, s, course, hthrough, hlength, course_answersServer course hthrough⟩

end Session
end LanguageClient

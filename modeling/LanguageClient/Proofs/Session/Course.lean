import LanguageClient.Proofs.Session.CallSteps
import LanguageClient.Proofs.Session.Queues
import LanguageClient.Proofs.Session.Teardown

/-!
# Courses

A course is a run of a session told in full: every action with the state before it and the
state after it. From a course one reads which answers were given to a ticket and what a
connection published. Each moment is of one of six kinds, and what a session keeps over a
course is shown for each kind.
-/

namespace LanguageClient

/-- An action of a session, with the states around it. -/
structure Moment (D : Type) where
  before : Session D
  action : Session.Action
  after : Session D

namespace Session

variable {D : Type}

def connectionStep? (s : Session D) :
    Action -> Option (Nat × (Connection -> Option (Connection × Emitted)))
  | .serve k => some (k, (·.stepCommand s.now))
  | .takeIn k => some (k, (·.stepInbound s.now s.folder))
  | .noticeExit k => some (k, (·.stepExit s.now))
  | .expire k => some (k, (·.stepDeadline s.now))
  | _ => none

/-- The courses from a session, each with its moments. -/
inductive Course [FileSystem D] (s : Session D) : List (Moment D) -> Session D -> Prop where
  | refl : Course s [] s
  | act {moments : List (Moment D)} {t u : Session D} (course : Course s moments t)
      (a : Action) (h : t.act a = some u) : Course s (moments ++ [⟨t, a, u⟩]) u
  | touch {moments : List (Moment D)} {t : Session D} (course : Course s moments t)
      (disk : D) :
      Course s moments { t with workspace := { t.workspace with disk } }

theorem Course.reaches [FileSystem D] {s u : Session D} {moments : List (Moment D)}
    (course : Course s moments u) : Reaches s u := by
  induction course with
  | refl => exact .refl
  | act _ a ha ih => exact .step ih (.act a ha)
  | touch _ disk ih => exact .step ih (.touch _ disk)

def proceed [FileSystem D] (s : Session D) :
    List Action -> Option (List (Moment D) × Session D)
  | [] => some ([], s)
  | a :: rest =>
    match s.act a with
    | none => none
    | some t => (t.proceed rest).map fun (moments, u) => (⟨s, a, t⟩ :: moments, u)

theorem proceed_keeps [FileSystem D] {motive : List (Moment D) -> Session D -> Prop}
    {actions : List Action} {t u : Session D} {moments more : List (Moment D)}
    (start : motive moments t) (h : t.proceed actions = some (more, u))
    (step : forall {moments t a u}, a ∈ actions -> motive moments t -> t.act a = some u ->
      motive (moments ++ [⟨t, a, u⟩]) u) : motive (moments ++ more) u := by
  induction actions generalizing t moments more with
  | nil =>
      cases h
      rw [List.append_nil]
      exact start
  | cons a rest ih =>
      simp only [Session.proceed] at h
      split at h
      case h_1 => contradiction
      case h_2 t' ht' =>
        rcases Option.map_eq_some_iff.mp h with ⟨⟨moments', u'⟩, hrest, heq⟩
        rcases Prod.mk.inj heq with ⟨hmore, hu⟩
        subst hmore hu
        have hmotive := ih (step List.mem_cons_self start ht') hrest fun ha =>
          step (List.mem_cons_of_mem _ ha)
        rwa [List.append_assoc] at hmotive

theorem Course.proceed [FileSystem D] {s t u : Session D} {moments more : List (Moment D)}
    {actions : List Action} (course : Course s moments t)
    (h : t.proceed actions = some (more, u)) :
    Course s (moments ++ more) u :=
  proceed_keeps course h fun _ course ha => course.act _ ha

def play [FileSystem D] (s : Session D) :
    List (D ⊕ Action) -> Option (List (Moment D) × Session D)
  | [] => some ([], s)
  | .inl disk :: rest => { s with workspace := { s.workspace with disk } }.play rest
  | .inr a :: rest =>
    match s.act a with
    | none => none
    | some t => (t.play rest).map fun (moments, u) => (⟨s, a, t⟩ :: moments, u)

theorem Course.play [FileSystem D] {s t u : Session D} {moments more : List (Moment D)}
    {steps : List (D ⊕ Action)} (course : Course s moments t)
    (h : t.play steps = some (more, u)) :
    Course s (moments ++ more) u := by
  induction steps generalizing t moments more with
  | nil =>
      cases h
      rw [List.append_nil]
      exact course
  | cons step rest ih =>
      cases step with
      | inl disk => exact ih (course.touch disk) h
      | inr a =>
          simp only [Session.play] at h
          split at h
          case h_1 => contradiction
          case h_2 t' ht' =>
            rcases Option.map_eq_some_iff.mp h with ⟨⟨moments', u'⟩, hrest, heq⟩
            rcases Prod.mk.inj heq with ⟨hmore, hu⟩
            subst hmore hu
            have hcourse := ih (course.act a ht') hrest
            rwa [List.append_assoc] at hcourse

theorem exists_course_of_play [FileSystem D] {s : Session D} {steps : List (D ⊕ Action)}
    {View : Type} {look : List (Moment D) × Session D -> View} {seen : View}
    (h : (s.play steps).map look = some seen) :
    exists moments u, Course s moments u ∧ look (moments, u) = seen := by
  rcases Option.map_eq_some_iff.mp h with ⟨⟨moments, u⟩, hplay, hlook⟩
  exact ⟨moments, u, Course.refl.play hplay, hlook⟩

end Session

/-!
## What is read off a course
-/

namespace Moment

variable {D : Type}

def emitted? (m : Moment D) : Option (Nat × Emitted) :=
  match m.before.connectionStep? m.action with
  | none => none
  | some (k, step) => ((m.before.connection? k).bind step).map fun (_, e) => (k, e)

def answers (m : Moment D) : List (Ticket × Answer) :=
  match m.emitted? with
  | some (_, e) => e.answers
  | none => []

def events (m : Moment D) : List Event :=
  match m.emitted? with
  | some (_, e) => e.events
  | none => []

def eventsOf (k : Nat) (m : Moment D) : List Event :=
  match m.emitted? with
  | some (j, e) => if j = k then e.events else []
  | none => []

end Moment

section

variable {D : Type}

def published (k : Nat) (moments : List (Moment D)) : List Event :=
  moments.flatMap (Moment.eventsOf k)

def answersTo (t : Ticket) (moments : List (Moment D)) : List Answer :=
  moments.flatMap fun m => m.answers.filterMap fun a => if a.1 = t then some a.2 else none

def answered (moments : List (Moment D)) : List Ticket :=
  moments.flatMap fun m => m.answers.map Prod.fst

theorem length_filterMap_ticket (t : Ticket) (answers : List (Ticket × Answer)) :
    (answers.filterMap fun a => if a.1 = t then some a.2 else none).length =
      (answers.map Prod.fst).count t := by
  induction answers with
  | nil => rfl
  | cons a rest ih =>
      by_cases ha : a.1 = t
      · simp [ha, ih]
      · simp [ha, ih]

theorem length_answersTo (t : Ticket) (moments : List (Moment D)) :
    (answersTo t moments).length = (answered moments).count t := by
  induction moments with
  | nil => rfl
  | cons m rest ih =>
      rw [answersTo, answered, List.flatMap_cons, List.flatMap_cons, List.length_append,
        List.count_append, length_filterMap_ticket, ← answersTo, ← answered, ih]

theorem answersTo_eq_singleton {t : Ticket} {a : Answer} {m : Moment D}
    {moments : List (Moment D)}
    (hm : m ∈ moments) (ha : (t, a) ∈ m.answers) (honce : (answered moments).count t ≤ 1) :
    answersTo t moments = [a] := by
  have hmem : a ∈ answersTo t moments := by
    refine List.mem_flatMap.mpr ⟨m, hm, List.mem_filterMap.mpr ⟨(t, a), ha, ?_⟩⟩
    exact if_pos rfl
  have hlength := length_answersTo t moments
  rcases hlist : answersTo t moments with _ | ⟨b, rest⟩
  · rw [hlist] at hmem
    contradiction
  · rw [hlist, List.length_cons] at hlength
    have hrest : rest = [] := List.eq_nil_of_length_eq_zero (by omega)
    rw [hlist, hrest] at hmem
    rw [hrest, List.mem_singleton.mp hmem]

theorem published_append (k : Nat) (first second : List (Moment D)) :
    published k (first ++ second) = published k first ++ published k second :=
  List.flatMap_append

theorem answered_append (first second : List (Moment D)) :
    answered (first ++ second) = answered first ++ answered second :=
  List.flatMap_append

theorem published_concat (k : Nat) (moments : List (Moment D)) (m : Moment D) :
    published k (moments ++ [m]) = published k moments ++ m.eventsOf k := by
  rw [published_append, published, published, List.flatMap_singleton]

theorem answered_concat (moments : List (Moment D)) (m : Moment D) :
    answered (moments ++ [m]) = answered moments ++ m.answers.map Prod.fst := by
  rw [answered_append, answered, answered, List.flatMap_singleton]

end

/-!
## Kinds of moments
-/

/-- What the world does to a connection: it changes neither how far the connection has come
nor what waits there. -/
structure Connection.Undisturbed (c c' : Connection) : Prop where
  phase : c'.phase = c.phase
  commands : c'.commands = c.commands
  pending : c'.pending = c.pending
  store : c'.store = c.store
  written : c'.written = c.written
  stopping : c'.stopping = c.stopping
  process : c'.process = none -> c.process = none

namespace Connection

theorem receive_undisturbed (c : Connection) (bytes : Bytes) :
    Undisturbed c (c.receive bytes) := by
  unfold receive
  split
  · split
    · exact ⟨rfl, rfl, rfl, rfl, rfl, rfl, id⟩
    · exact ⟨rfl, rfl, rfl, rfl, rfl, rfl, id⟩
  · exact ⟨rfl, rfl, rfl, rfl, rfl, rfl, id⟩

theorem hangUp_undisturbed (c : Connection) : Undisturbed c c.hangUp := by
  unfold hangUp
  split
  · exact ⟨rfl, rfl, rfl, rfl, rfl, rfl, id⟩
  · exact ⟨rfl, rfl, rfl, rfl, rfl, rfl, id⟩

theorem breakPipe_undisturbed (c : Connection) : Undisturbed c c.breakPipe :=
  ⟨rfl, rfl, rfl, rfl, rfl, rfl, id⟩

theorem exit_undisturbed (c : Connection) (code : Option Int) :
    Undisturbed c (c.exit code) := by
  unfold exit
  split
  · exact ⟨rfl, rfl, rfl, rfl, rfl, rfl, nofun⟩
  · exact ⟨rfl, rfl, rfl, rfl, rfl, rfl, id⟩

end Connection

namespace Moment

variable {D : Type}

/-- What can happen at a moment. -/
inductive Kind (m : Moment D) : Prop where
  | connection (k : Nat) (c c' : Connection) (e : Emitted) (emitted : m.emitted? = some (k, e))
      (before : m.before.connection? k = some c) (alive : c.isAlive = true)
      (proceeds : Connection.Proceeds m.before.now c c' e)
      (after : m.after = (m.before.setConnection k c').emit e)
      (action : forall id, m.action ≠ .goOn id)
      (source : exists step, m.before.connectionStep? m.action = some (k, step) ∧
        step c = some (c', e))
  | begins (op : Operation) (effects : List (Effect D)) (action : m.action = .begin op)
      (first : Session.FirstStep effects)
      (after : m.after = m.before.addCall.undergo m.before.calls.length effects)
  | goesOn (id : Nat) (call : Call) (effects : List (Effect D)) (action : m.action = .goOn id)
      (before : m.before.call? id = some call)
      (step : Session.CallStep m.before id call effects)
      (after : m.after = m.before.undergo id effects)
  | withdraws (id : Nat) (action : m.action = .cancel id)
      (after : m.after = m.before.modifyCall id fun call => { call with cancelled := true })
  | world (k : Nat) (f : Connection -> Connection)
      (undisturbed : forall c, Connection.Undisturbed c (f c))
      (emitted : m.emitted? = none) (action : forall id, m.action ≠ .goOn id)
      (after : m.after = m.before.modifyConnection k f)
  | elapses (ms : Nat) (action : m.action = .elapse ms)
      (after : m.after = { m.before with now := m.before.now + ms })

theorem emitted?_of_action {m : Moment D} (h : m.before.connectionStep? m.action = none) :
    m.emitted? = none := by
  rw [emitted?, h]

end Moment

namespace Session

variable {D : Type}

theorem kind_of_stepConnection {s u : Session D} {a : Action} {k : Nat}
    {step : Connection -> Option (Connection × Emitted)}
    (haction : s.connectionStep? a = some (k, step))
    (hproceeds : forall {c c' e}, step c = some (c', e) -> Connection.Proceeds s.now c c' e)
    (hended : forall {c : Connection}, c.phase = .ended -> step c = none)
    (h : s.stepConnection k step = some u) : Moment.Kind ⟨s, a, u⟩ := by
  unfold stepConnection at h
  split at h
  case h_1 => contradiction
  case h_2 c hc =>
    rcases Option.map_eq_some_iff.mp h with ⟨⟨c', e⟩, hstep, hu⟩
    refine .connection k c c' e ?_ hc ?_ (hproceeds hstep) hu.symm (fun id hid => ?_)
      ⟨step, haction, hstep⟩
    · simp [Moment.emitted?, haction, hc, hstep]
    · cases halive : c.isAlive with
      | true => rfl
      | false =>
          rw [hended (Connection.phase_of_not_isAlive halive)] at hstep
          contradiction
    · subst hid
      contradiction

/-- Every moment of a course is of one of the kinds. -/
theorem kind_of_act [FileSystem D] {s u : Session D} {a : Action} (h : s.act a = some u) :
    Moment.Kind ⟨s, a, u⟩ := by
  cases a with
  | begin op =>
      cases h
      rcases s.beginCall_effects op with ⟨effects, hfirst, hafter⟩
      exact .begins op effects rfl hfirst hafter
  | goOn id =>
      rcases stepCall_effects h with ⟨call, effects, hcall, hstep, hafter⟩
      exact .goesOn id call effects rfl hcall hstep hafter
  | cancel id =>
      cases h
      exact .withdraws id rfl rfl
  | serve k =>
      exact kind_of_stepConnection rfl Connection.stepCommand_proceeds
        (fun hended => Connection.stepCommand_of_ended hended _) h
  | takeIn k =>
      exact kind_of_stepConnection rfl Connection.stepInbound_proceeds
        (fun hended => Connection.stepInbound_of_ended hended _ _) h
  | noticeExit k =>
      exact kind_of_stepConnection rfl Connection.stepExit_proceeds
        (fun hended => Connection.stepExit_of_ended hended _) h
  | expire k =>
      exact kind_of_stepConnection rfl Connection.stepDeadline_proceeds
        (fun hended => Connection.stepDeadline_of_ended hended _) h
  | receive k bytes =>
      cases h
      exact .world k _ (fun c => c.receive_undisturbed bytes) rfl nofun rfl
  | hangUp k =>
      cases h
      exact .world k _ Connection.hangUp_undisturbed rfl nofun rfl
  | breakPipe k =>
      cases h
      exact .world k _ Connection.breakPipe_undisturbed rfl nofun rfl
  | exit k code =>
      cases h
      exact .world k _ (fun c => c.exit_undisturbed code) rfl nofun rfl
  | elapse ms =>
      cases h
      exact .elapses ms rfl rfl

end Session
end LanguageClient

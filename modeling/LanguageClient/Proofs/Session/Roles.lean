import LanguageClient.Proofs.Session.EditCalls
import LanguageClient.Proofs.Session.Licences
import LanguageClient.Proofs.Session.Recorded

/-!
# Calls keep to their operations

A call is begun with an operation, and wherever it stands later belongs to that operation: a
start never turns into a stop, and a request waits as long as its operation says.
-/

namespace LanguageClient

inductive Role where
  | start
  | stop
  | other
  deriving DecidableEq

def Operation.role : Operation -> Role
  | .start _ => .start
  | .stop _ => .stop
  | _ => .other

def Task.role? : Task -> Option Role
  | .starting _ | .introducing .. | .announcing _ | .aborting _ => some .start
  | .stopping _ | .shuttingDown .. | .exiting .. | .terminating => some .stop
  | .done _ => none
  | _ => some .other

/-- The operations that have been begun, in order: call `id` is the one at this place. -/
def begun {D : Type} (moments : List (Moment D)) : List Operation :=
  moments.filterMap fun m =>
    match m.action with
    | .begin op => some op
    | _ => none

structure Operation.Hosts (settings : Settings) (op : Operation) (task : Task) : Prop where
  role : task.role? = none ∨ task.role? = some op.role
  limit : forall k number method timeout deadline,
    task = .requesting k number method timeout deadline ->
    timeout = Session.effectiveTimeout settings op
  direct : forall method params timeout, op = .request method params timeout ->
    task.role? = none ∨ exists k number limit deadline,
      task = .requesting k number method limit deadline

namespace Task

theorem eq_done_of_role? {task : Task} (h : task.role? = none) :
    exists outcome, task = .done outcome := by
  cases task with
  | done outcome => exact ⟨outcome, rfl⟩
  | _ => contradiction

theorem role?_of_user {task : Task} (h : task.isLifecycle = false) :
    task.role? = none ∨ task.role? = some .other := by
  cases task <;> first | exact Or.inl rfl | exact Or.inr rfl | contradiction

theorem requesting_or_not (task : Task) :
    (exists k number method timeout deadline,
      task = .requesting k number method timeout deadline) ∨
    forall k number method timeout deadline,
      task ≠ .requesting k number method timeout deadline := by
  cases task with
  | requesting k number method timeout deadline =>
      exact Or.inl ⟨k, number, method, timeout, deadline, rfl⟩
  | _ => exact Or.inr nofun

end Task

namespace Operation.Hosts

variable {settings : Settings} {op : Operation} {task : Task}

theorem done (settings : Settings) (op : Operation) (outcome : Outcome) :
    op.Hosts settings (.done outcome) where
  role := Or.inl rfl
  limit := nofun
  direct _ _ _ _ := Or.inl rfl

theorem of_role (hrole : task.role? = some op.role)
    (hdirect : forall method params timeout, op ≠ .request method params timeout)
    (hlimit : forall k number method timeout deadline,
      task = .requesting k number method timeout deadline ->
      timeout = settings.defaultTimeoutMs) :
    op.Hosts settings task where
  role := Or.inr hrole
  limit k number method timeout deadline htask := by
    rw [hlimit k number method timeout deadline htask]
    cases op with
    | request method' params' timeout' => exact absurd rfl (hdirect method' params' timeout')
    | _ => rfl
  direct method params timeout hop := absurd hop (hdirect method params timeout)

theorem starting (settings : Settings) (launch : Launch) :
    (Operation.start launch).Hosts settings (.starting launch) :=
  .of_role rfl nofun nofun

theorem stopping (settings : Settings) (force : Bool) :
    (Operation.stop force).Hosts settings (.stopping force) :=
  .of_role rfl nofun nofun

theorem request (settings : Settings) (method : String) (params : Json) (limit : Option Nat)
    (k number deadline : Nat) :
    (Operation.request method params limit).Hosts settings (.requesting k number method
      (Session.effectiveTimeout settings (.request method params limit)) deadline) where
  role := Or.inr rfl
  limit _ _ _ _ _ heq := by
    injection heq with _ _ _ htimeout
    exact htimeout.symm
  direct _ _ _ _ := Or.inr ⟨_, _, _, _, by
    injection ‹_› with hmethod
    rw [hmethod]⟩

theorem not_request (h : op.Hosts settings task) (hlive : task.role? ≠ none)
    (htask : forall k number method timeout deadline,
      task ≠ .requesting k number method timeout deadline) (method : String) (params : Json)
    (timeout : Option Nat) : op ≠ .request method params timeout := by
  intro hop
  rcases h.direct method params timeout hop with hnone | ⟨k, number, limit, deadline, heq⟩
  · exact hlive hnone
  · exact htask k number method limit deadline heq

theorem role_eq (h : op.Hosts settings task) {role : Role} (hrole : task.role? = some role) :
    op.role = role := by
  rcases h.role with hnone | hsome
  · exact nomatch hnone.symm.trans hrole
  · exact Option.some.inj (hsome.symm.trans hrole)

end Operation.Hosts

namespace Session

variable {D : Type}

/-!
## Single steps
-/

theorem lastTask?_of_abides {l : Licence} {effects : List (Effect D)}
    (h : forall e, e ∈ effects -> e.Abides l) {task : Task}
    (htask : Effect.lastTask? effects = some task) :
    (exists outcome, task = .done outcome) ∨ l.Admits task ∨
      exists k method timeout, l.reaches k ∧ l.waits method timeout ∧
        task = .requesting k l.number method timeout (l.now + timeout) := by
  rcases Effect.exists_of_lastTask? htask with ⟨e, he, heq⟩
  cases h e he with
  | rest task' admits | ask k question task' admits =>
      cases heq
      exact Or.inr (Or.inl admits)
  | finish outcome =>
      cases heq
      exact Or.inl ⟨outcome, rfl⟩
  | inquire k method params timeout reaches waits =>
      cases heq
      exact Or.inr (Or.inr ⟨k, method, timeout, reaches, waits, rfl⟩)
  | draw | abandon | store => contradiction

theorem LifecycleStep.role {s : Session D} {id : Nat} {call : Call} {task : Task}
    {effects : List (Effect D)} (h : LifecycleStep s id call task effects) :
    exists task', Effect.lastTask? effects = some task' ∧
      ((exists outcome, task' = .done outcome) ∨
        task'.role? = task.role? ∧ task'.isLifecycle = true) := by
  cases h with
  | launched launch turn dead =>
      rw [Effect.lastTask?_append]
      exact ⟨_, rfl, Or.inr ⟨rfl, rfl⟩⟩
  | refused launch reason turn dead =>
      rw [Effect.lastTask?_append]
      exact ⟨_, rfl, Or.inl ⟨_, rfl⟩⟩
  | notIntroduced k number deadline reason before givesUp =>
      rw [Effect.lastTask?_append]
      exact ⟨_, rfl, Or.inr ⟨rfl, rfl⟩⟩
  | sentExit k force number deadline before givesUp =>
      rw [Effect.lastTask?_append]
      exact ⟨_, rfl, Or.inr ⟨rfl, rfl⟩⟩
  | introduced k number deadline v heard => exact ⟨_, rfl, Or.inr ⟨rfl, rfl⟩⟩
  | notAnnounced k reason => exact ⟨_, rfl, Or.inr ⟨rfl, rfl⟩⟩
  | askedToShutDown force k turn alive => exact ⟨_, rfl, Or.inr ⟨rfl, rfl⟩⟩
  | cutShort force k turn alive => exact ⟨_, rfl, Or.inr ⟨rfl, rfl⟩⟩
  | exited k force heard => exact ⟨_, rfl, Or.inr ⟨rfl, rfl⟩⟩
  | _ => exact ⟨_, rfl, Or.inl ⟨_, rfl⟩⟩

/-!
## Courses
-/

def Cast (settings : Settings) (ops : List Operation) (s : Session D) : Prop :=
  forall id task, s.task? id = some task ->
    exists op, ops[id]? = some op ∧ op.Hosts settings task

theorem begun_concat (moments : List (Moment D)) (m : Moment D) :
    begun (moments ++ [m]) = begun moments ++ begun [m] :=
  List.filterMap_append

theorem begun_begin {m : Moment D} {op : Operation} (h : m.action = .begin op) :
    begun [m] = [op] := by
  simp [begun, h]

theorem undergo_calls_length (s : Session D) (id : Nat) (effects : List (Effect D)) :
    (s.undergo id effects).calls.length = s.calls.length := by
  induction effects generalizing s with
  | nil => rfl
  | cons e rest ih => rw [undergo_cons, ih, apply_calls_length]

theorem calls_length_stepConnection {s u : Session D} {k : Nat}
    {step : Connection -> Option (Connection × Emitted)}
    (h : s.stepConnection k step = some u) :
    u.calls.length = s.calls.length := by
  unfold stepConnection at h
  split at h
  case h_1 => contradiction
  case h_2 c hc =>
    rcases Option.map_eq_some_iff.mp h with ⟨⟨c', e⟩, _, rfl⟩
    rcases (s.setConnection k c').emit_eq e with ⟨calls, hlength, heq⟩
    exact (congrArg (·.calls.length) heq).trans hlength

section

variable [FileSystem D]

theorem calls_length_of_act {s u : Session D} {a : Action} (h : s.act a = some u) :
    u.calls.length = s.calls.length + (begun [(⟨s, a, u⟩ : Moment D)]).length := by
  cases a with
  | begin op =>
      cases h
      rcases s.beginCall_effects op with ⟨effects, _, hafter⟩
      rw [begun_begin rfl, hafter, undergo_calls_length]
      simp [addCall]
  | goOn id =>
      rcases stepCall_effects h with ⟨call, effects, _, _, hafter⟩
      rw [hafter, undergo_calls_length]
      rfl
  | cancel id =>
      cases h
      exact List.length_modify ..
  | serve k => exact calls_length_stepConnection h
  | takeIn k => exact calls_length_stepConnection h
  | noticeExit k => exact calls_length_stepConnection h
  | expire k => exact calls_length_stepConnection h
  | _ =>
      cases h
      rfl

theorem Course.length_begun {settings : Settings} {processId : Nat} {workspace : Workspace D}
    {moments : List (Moment D)} {s : Session D}
    (course : Course (Session.new settings processId workspace) moments s) :
    (begun moments).length = s.calls.length := by
  induction course with
  | refl => rfl
  | act course a ha ih => rw [begun_concat, List.length_append, ih, calls_length_of_act ha]
  | touch course disk ih => exact ih

theorem Course.keeps_settings {s u : Session D} {moments : List (Moment D)}
    (course : Course s moments u) : u.settings = s.settings := by
  induction course with
  | refl => rfl
  | act course a ha ih => exact (settings_of_act ha).trans ih
  | touch course disk ih => exact ih

theorem hosts_of_goOn {s u : Session D} {id : Nat} {op : Operation} {call : Call}
    (hcall : s.call? id = some call) (hhosts : op.Hosts s.settings call.task)
    (h : s.stepTask id call call.task = some u) :
    exists task, u.task? id = some task ∧ op.Hosts s.settings task := by
  have htask (effects : List (Effect D)) :
      (s.undergo id effects).task? id = (Effect.lastTask? effects).or (some call.task) := by
    rw [undergo_task? (lt_of_call? hcall), if_pos rfl, task?_of_call? hcall]
  have hlive : call.task.role? ≠ none := fun hnone => by
    rcases Task.eq_done_of_role? hnone with ⟨outcome, hdone⟩
    rw [hdone, stepTask_done] at h
    contradiction
  have hrole {task : Task} (hsame : task.role? = call.task.role?) :
      task.role? = some op.role :=
    hsame.trans (hhosts.role.resolve_left hlive)
  rcases call.task.requesting_or_not with
    ⟨k, number, method, timeout, deadline, hrequesting⟩ | hrequesting
  · rw [hrequesting] at h
    rcases requesting_departs h with ⟨before, outcome, _, rfl, _⟩
    refine ⟨.done outcome, ?_, .done s.settings op outcome⟩
    rw [htask, Effect.lastTask?_append]
    rfl
  have hdirect := hhosts.not_request hlive hrequesting
  cases hlife : call.task.isLifecycle with
  | true =>
      rcases stepTask_lifecycleStep hlife h with ⟨effects, hstep, rfl⟩
      rcases hstep.role with ⟨task, hlast, hto⟩
      refine ⟨task, by rw [htask, hlast, Option.some_or], ?_⟩
      rcases hto with ⟨outcome, rfl⟩ | ⟨hsame, hlife'⟩
      · exact .done s.settings op outcome
      · refine .of_role (hrole hsame) hdirect fun k number method timeout deadline heq => ?_
        rw [heq] at hlife'
        contradiction
  | false =>
      rcases stepTask_abiding hlife h with ⟨effects, habides, rfl⟩
      cases hlast : Effect.lastTask? effects with
      | none => exact ⟨call.task, by rw [htask, hlast, Option.none_or], hhosts⟩
      | some task =>
          refine ⟨task, by rw [htask, hlast, Option.some_or], ?_⟩
          have huser := (Task.role?_of_user hlife).resolve_left hlive
          rcases lastTask?_of_abides habides hlast with
            ⟨outcome, rfl⟩ | hadmits | ⟨k, method, timeout, _, ⟨_, htimeout, _⟩, rfl⟩
          · exact .done s.settings op outcome
          · rcases Task.role?_of_user hadmits.user with hdone | hother
            · rcases Task.eq_done_of_role? hdone with ⟨outcome, rfl⟩
              exact .done s.settings op outcome
            · refine .of_role (hrole (hother.trans huser.symm)) hdirect
                fun k number method timeout deadline heq => ?_
              rw [heq] at hadmits
              exact nomatch hadmits.idle
          · refine .of_role (hrole huser.symm) hdirect fun k' number method' timeout' deadline
              heq => ?_
            injection heq with _ _ _ hsame
            exact hsame.symm.trans htimeout

omit [FileSystem D] in
theorem hosts_of_begin (s : Session D) (op : Operation) :
    exists task, (s.beginCall op).task? s.calls.length = some task ∧
      op.Hosts s.settings task := by
  have hlt := s.calls_length_lt_addCall
  have htask (effects : List (Effect D)) :
      (s.addCall.undergo s.calls.length effects).task? s.calls.length =
        (Effect.lastTask? effects).or (some (.done (.ok .unit))) := by
    rw [undergo_task? hlt, if_pos rfl, task?_addCall, if_pos rfl]
  have hother (hstart : forall launch, op ≠ .start launch)
      (hstop : forall force, op ≠ .stop force)
      (hdirect : forall method params timeout, op ≠ .request method params timeout) :
      exists task, (s.beginCall op).task? s.calls.length = some task ∧
        op.Hosts s.settings task := by
    have hrole : op.role = .other := by
      cases op with
      | start launch => exact absurd rfl (hstart launch)
      | stop force => exact absurd rfl (hstop force)
      | _ => rfl
    rcases s.addCall.begin_abiding s.calls.length op hstart hstop with ⟨effects, habides, hu⟩
    have hafter : (s.beginCall op).task? s.calls.length = _ :=
      (congrArg (·.task? s.calls.length) hu).trans (htask effects)
    cases hlast : Effect.lastTask? effects with
    | none => exact ⟨_, by rw [hafter, hlast, Option.none_or], .done _ op _⟩
    | some task =>
        refine ⟨task, by rw [hafter, hlast, Option.some_or], ?_⟩
        rcases lastTask?_of_abides habides hlast with
          ⟨outcome, rfl⟩ | hadmits | ⟨k, method, timeout, _, ⟨⟨params, limit, hop⟩, _⟩, rfl⟩
        · exact .done s.settings op outcome
        · rcases Task.role?_of_user hadmits.user with hdone | hother
          · rcases Task.eq_done_of_role? hdone with ⟨outcome, rfl⟩
            exact .done s.settings op outcome
          · refine .of_role (hother.trans (by rw [hrole])) hdirect
              fun k number method timeout deadline heq => ?_
            rw [heq] at hadmits
            cases hadmits.idle
        · exact absurd hop (hdirect method params limit)
  cases op with
  | start launch =>
      exact ⟨.starting launch, htask [.lineUp, .rest (.starting launch)],
        .starting s.settings launch⟩
  | stop force =>
      exact ⟨.stopping force, htask [.lineUp, .rest (.stopping force)],
        .stopping s.settings force⟩
  | request method params limit =>
      simp only [beginCall, begin]
      split
      · exact ⟨_, htask [.finish (.error .notInitialized)], .done _ _ _⟩
      case h_2 k _ =>
        exact ⟨_, htask [.draw, .ask k (.request s.nextNumber method params) (.requesting k
          s.nextNumber method (effectiveTimeout s.settings (.request method params limit)) _)],
          .request s.settings method params limit k s.nextNumber _⟩
  | _ => exact hother (by simp) (by simp) (by simp)

/-- Over a course every call stands at a task of its operation. -/
theorem Course.cast {settings : Settings} {processId : Nat} {workspace : Workspace D}
    {moments : List (Moment D)} {s : Session D}
    (course : Course (Session.new settings processId workspace) moments s) :
    Cast settings (begun moments) s := by
  induction course with
  | refl => exact fun id task htask => nomatch htask
  | touch course disk ih => exact ih
  | @act moments t u course a ha ih =>
      intro id task htask
      have hgrow {op : Operation} (hop : (begun moments)[id]? = some op) :
          (begun (moments ++ [⟨t, a, u⟩]))[id]? = some op := by
        rw [begun_concat, List.getElem?_append_left (List.getElem?_eq_some_iff.mp hop).1, hop]
      rcases task?_of_kind (kind_of_act ha) id with hsame | haction | ⟨hid, op, haction⟩
      · rcases ih id task (hsame.symm.trans htask) with ⟨op, hop, hhosts⟩
        exact ⟨op, hgrow hop, hhosts⟩
      · change a = _ at haction
        subst haction
        simp only [Session.act, stepCall] at ha
        split at ha
        case h_2 => contradiction
        case h_1 call hcall =>
          rcases ih id call.task (task?_of_call? hcall) with ⟨op, hop, hhosts⟩
          have hsettings : t.settings = settings := course.keeps_settings
          rcases hosts_of_goOn hcall (hsettings ▸ hhosts) ha with ⟨task', htask', hhosts'⟩
          cases Option.some.inj (htask.symm.trans htask')
          exact ⟨op, hgrow hop, hsettings ▸ hhosts'⟩
      · change a = _ at haction
        subst haction hid
        cases ha
        rcases t.hosts_of_begin op with ⟨task', htask', hhosts⟩
        cases Option.some.inj (htask.symm.trans htask')
        have hsettings : t.settings = settings := course.keeps_settings
        refine ⟨op, ?_, hsettings ▸ hhosts⟩
        rw [begun_concat, begun_begin rfl, ← course.length_begun, List.getElem?_concat_length]

end

end Session
end LanguageClient

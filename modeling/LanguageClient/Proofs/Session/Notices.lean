import LanguageClient.Proofs.Session.Dealings
import LanguageClient.Proofs.Session.Handshake
import LanguageClient.Proofs.Session.Waits

/-!
# Notices that an answer is no longer wanted

A connection tells its server that the answer to a request is no longer wanted once at most,
after the request itself, and only if a call has given the request up and no response to it
has come in before. Whoever else says so is a user who has asked for just this.
-/

namespace LanguageClient

variable {D : Type}

/-!
## What calls bring to a connection
-/

def Moment.Utters (m : Moment D) (message : Message) : Prop :=
  exists method params, message = .notification method params ∧
    (method = "$/cancelRequest" -> m.action = .begin (.notify method params))

namespace Effect

/-- There is reason for an effect at a moment, as far as it has requests given up. -/
def IsDue (m : Moment D) : Effect D -> Prop
  | .abandon k number => m.Renounces k number
  | .ask _ question _ =>
    forall message t t', question.command t = .notify message t' -> m.Utters message
  | _ => True

def Brings (id k : Nat) (command : Command) : Effect D -> Prop
  | .ask j question _ => j = k ∧ exists serial, command = question.command ⟨id, serial⟩
  | .abandon j number => j = k ∧ command = .abandon number
  | _ => False

end Effect

namespace Session

section

variable {m : Moment D} {e : Effect D}

theorem due_of_abides {l : Licence} (h : e.Abides l) (hown : l.own = none)
    (hutters : forall message, l.utters message -> m.Utters message) : e.IsDue m := by
  cases h with
  | ask k question task admits unclaimed plain reaches utters hands =>
      exact fun message t t' hnotify => hutters message (utters message t t' hnotify)
  | inquire k method params timeout reaches waits =>
      intro message t t' hnotify
      cases hnotify
  | abandon k number own => cases hown.symm.trans own
  | _ => trivial

theorem due_of_terminate (m : Moment D) (k : Nat) (force : Bool) (task : Task) :
    (Effect.ask k (.terminate force) task).IsDue m := by
  intro message t t' hnotify
  cases hnotify

theorem due_of_request (m : Moment D) (k number : Nat) (method : String) (params : Json)
    (task : Task) : (Effect.ask k (.request number method params) task).IsDue m := by
  intro message t t' hnotify
  cases hnotify

theorem LifecycleStep.due {s : Session D} {id : Nat} {call : Call} {task : Task}
    {effects : List (Effect D)} (h : LifecycleStep s id call task effects)
    (hidle : task.request? = none) (m : Moment D) (he : e ∈ effects) : e.IsDue m := by
  have hforgetting (h : e ∈ s.forgetting) : e.IsDue m := by
    rw [forgetting_eq_reset h]
    trivial
  cases h with
  | introduced k number deadline v heard => cases hidle
  | notIntroduced k number deadline reason before givesUp => cases hidle
  | sentExit k force number deadline before givesUp => cases hidle
  | refused launch reason turn dead =>
      rcases List.mem_append.mp he with he | he
      · exact hforgetting he
      · rw [List.mem_singleton.mp he]
        trivial
  | launched launch turn dead =>
      simp only [List.mem_append, List.mem_cons, List.not_mem_nil, or_false] at he
      rcases he with he | rfl | rfl | rfl
      · exact hforgetting he
      · trivial
      · trivial
      · exact due_of_request m _ _ _ _ _
  | askedToShutDown force k turn alive =>
      simp only [List.mem_cons, List.not_mem_nil, or_false] at he
      rcases he with rfl | rfl | rfl
      · trivial
      · trivial
      · exact due_of_request m _ _ _ _ _
  | notAnnounced k reason =>
      simp only [List.mem_cons, List.not_mem_nil, or_false] at he
      rcases he with rfl | rfl
      · trivial
      · exact due_of_terminate m k true _
  | cutShort force k turn alive =>
      simp only [List.mem_cons, List.not_mem_nil, or_false] at he
      rcases he with rfl | rfl
      · trivial
      · exact due_of_terminate m k force _
  | exited k force heard =>
      rw [List.mem_singleton.mp he]
      exact due_of_terminate m k force _
  | _ =>
      simp only [List.mem_cons, List.not_mem_nil, or_false] at he
      rcases he with rfl | rfl <;> trivial

theorem StopsWaiting.due {s u : Session D} {id : Nat} {call : Call} {w : Wait}
    {answer : Except Failure Json} {before after : List (Effect D)}
    (h : StopsWaiting s call w answer before after) (hcall : s.call? id = some call)
    (hwait : call.task.wait? s.settings = some w) (hu : u = s.undergo id (before ++ after))
    (he : e ∈ before ++ after) : e.IsDue ⟨s, .goOn id, u⟩ := by
  rcases List.mem_append.mp he with he | he
  · rcases h.givesUp with hnothing | ⟨hbefore, failure, hanswer, hrenounced⟩
    · rw [hnothing] at he
      contradiction
    · rw [hbefore] at he
      rw [List.mem_singleton.mp he]
      refine ⟨id, call, w, failure, rfl, hcall, hwait, rfl, rfl, hrenounced, ?_⟩
      rw [hu, h.task? hcall, hanswer]
  · cases e with
    | ask k question task =>
        intro message t t' hnotify
        rcases h.utters k question task message t t' he hnotify with
          ⟨method, params, hmessage, hmethod⟩
        exact ⟨method, params, hmessage, fun hcancel => absurd hcancel hmethod⟩
    | abandon k number => exact absurd he (h.spares k number)
    | _ => trivial

end

/-- Whatever a call does at a moment, there is reason for it. -/
theorem due_of_act [FileSystem D] {s u : Session D} {a : Action} (h : s.act a = some u)
    (hcall : Moment.ofCall (⟨s, a, u⟩ : Moment D) = true) :
    exists (t : Session D) (id : Nat) (effects : List (Effect D)),
      t.connections = s.connections ∧ u = t.undergo id effects ∧
        (forall op, a = .begin op -> id = s.calls.length) ∧
        forall e, e ∈ effects -> e.IsDue ⟨s, a, u⟩ := by
  cases a with
  | begin op =>
      cases h
      have hother (hstart : forall launch, op ≠ .start launch)
          (hstop : forall force, op ≠ .stop force) :
          exists (t : Session D) (id : Nat) (effects : List (Effect D)),
            t.connections = s.connections ∧ s.beginCall op = t.undergo id effects ∧
              (forall op', Action.begin op = .begin op' -> id = s.calls.length) ∧
              forall e, e ∈ effects -> e.IsDue ⟨s, .begin op, s.beginCall op⟩ := by
        rcases s.addCall.begin_abiding s.calls.length op hstart hstop with
          ⟨effects, habides, hu⟩
        refine ⟨s.addCall, _, effects, rfl, hu, fun _ _ => rfl, fun e he => ?_⟩
        refine due_of_abides (habides e he) rfl ?_
        rintro message ⟨method, params, rfl, hmessage⟩
        exact ⟨method, params, hmessage, fun _ => rfl⟩
      have hwaits (task : Task) (e : Effect D) (he : e ∈ [.lineUp, .rest task]) :
          e.IsDue ⟨s, .begin op, s.beginCall op⟩ := by
        simp only [List.mem_cons, List.not_mem_nil, or_false] at he
        rcases he with rfl | rfl <;> trivial
      cases op with
      | start launch =>
          exact ⟨s.addCall, _, _, rfl, rfl, fun _ _ => rfl, hwaits (.starting launch)⟩
      | stop force =>
          exact ⟨s.addCall, _, _, rfl, rfl, fun _ _ => rfl, hwaits (.stopping force)⟩
      | _ => exact hother (by simp) (by simp)
  | goOn id =>
      have hact := h
      simp only [act, stepCall] at h
      split at h
      case h_2 => contradiction
      case h_1 call hc =>
        suffices exists effects, u = s.undergo id effects ∧
            forall e, e ∈ effects -> e.IsDue ⟨s, .goOn id, u⟩ by
          rcases this with ⟨effects, hu, hdue⟩
          exact ⟨s, id, effects, rfl, hu, by simp, hdue⟩
        cases hrequest : call.task.request? with
        | some request =>
            rcases call.task.exists_wait?_of_request? s.settings hrequest with ⟨w, hwait, _⟩
            rcases waiting_stops hwait h with ⟨answer, before, after, hstops, hu⟩
            exact ⟨_, hu, fun e he => hstops.due hc hwait hu he⟩
        | none =>
            cases hlife : call.task.isLifecycle with
            | true =>
                rcases stepTask_lifecycleStep hlife h with ⟨effects, hstep, hu⟩
                exact ⟨effects, hu, fun e he => hstep.due hrequest _ he⟩
            | false =>
                rcases stepTask_abiding hlife h with ⟨effects, habides, hu⟩
                refine ⟨effects, hu, fun e he => due_of_abides (habides e he) hrequest ?_⟩
                rintro message ⟨params, hmessage⟩
                refine ⟨_, params, hmessage, fun hcancel => ?_⟩
                exact absurd hcancel (by decide)
  | _ => contradiction

/-!
## What waits in a queue
-/

theorem waiting_of_connection? {s : Session D} {k : Nat} {c : Connection}
    (h : s.connection? k = some c) : s.waiting k = c.commands := by
  rw [waiting, h]
  rfl

theorem holdings_pos_of_waiting {s : Session D} {k : Nat} {command : Command} {t : Ticket}
    (h : command ∈ s.waiting k) (hticket : command.ticket? = some t) : 0 < s.holdings t := by
  rw [waiting] at h
  cases hc : s.connection? k with
  | none =>
      rw [hc] at h
      contradiction
  | some c =>
      rw [hc] at h
      have ht : t ∈ c.tickets := List.mem_append_right _ (List.mem_append_right _
        (List.mem_filterMap.mpr ⟨command, h, hticket⟩))
      exact List.count_pos_iff.mpr (List.mem_flatMap.mpr ⟨c, List.mem_of_getElem? hc, ht⟩)

theorem mem_waiting_of_concat {s u : Session D} {j k : Nat} {command other : Command}
    (hconnection : u.connection? k = (s.connection? k).map fun c =>
      if c.isAlive = true ∧ j = k then { c with commands := c.commands ++ [other] } else c)
    (h : command ∈ u.waiting k) : command ∈ s.waiting k ∨ j = k ∧ command = other := by
  rw [waiting, hconnection] at h
  rw [waiting]
  cases hc : s.connection? k with
  | none =>
      rw [hc] at h
      contradiction
  | some c =>
      rw [hc] at h
      by_cases hthis : c.isAlive = true ∧ j = k
      · simp only [Option.map_some, if_pos hthis, Option.getD_some] at h
        rcases List.mem_append.mp h with h | h
        · exact Or.inl h
        · exact Or.inr ⟨hthis.2, List.mem_singleton.mp h⟩
      · simp only [Option.map_some, if_neg hthis] at h
        exact Or.inl h

theorem waiting_modifyConnection (s : Session D) (j : Nat) {f : Connection -> Connection}
    (hf : forall c, (f c).commands = c.commands) (k : Nat) :
    (s.modifyConnection j f).waiting k = s.waiting k := by
  rw [waiting, connection?_modifyConnection, waiting]
  split
  · rw [Option.map_map, Function.comp_def]
    simp only [hf]
  · rfl

theorem waiting_launch (s : Session D) (launched : Bool) (k : Nat) :
    (s.launch launched).waiting k = s.waiting k := by
  rw [waiting, waiting, connection?, launch, connection?]
  rcases Nat.lt_trichotomy k s.connections.length with hk | hk | hk
  · rw [List.getElem?_append_left hk]
  · rw [hk, List.getElem?_concat_length, List.getElem?_eq_none (Nat.le_refl _)]
    rfl
  · rw [List.getElem?_eq_none (by simp; omega), List.getElem?_eq_none (Nat.le_of_lt hk)]

theorem mem_waiting_apply (s : Session D) (id : Nat) (e : Effect D) {k : Nat}
    {command : Command} (h : command ∈ (e.apply id s).waiting k) :
    command ∈ s.waiting k ∨ e.Brings id k command := by
  cases e with
  | ask j question task =>
      cases hcall : s.call? id with
      | none =>
          rw [Effect.apply, ask, hcall] at h
          exact Or.inl h
      | some call =>
          refine (mem_waiting_of_concat (connection?_ask hcall j question.command task k)
            h).imp_right ?_
          exact fun hnew => ⟨hnew.1, _, hnew.2⟩
  | abandon j number =>
      exact mem_waiting_of_concat (s.connection?_enqueue j (.abandon number) k) h
  | condemn j =>
      refine Or.inl ?_
      rwa [Effect.apply,
        s.waiting_modifyConnection j (f := fun c => { c with stopping := true })
          fun _ => rfl] at h
  | welcome j =>
      refine Or.inl ?_
      rwa [Effect.apply,
        s.waiting_modifyConnection j (f := fun c => { c with initialized := true })
          fun _ => rfl] at h
  | launch launched => exact Or.inl (s.waiting_launch launched k ▸ h)
  | _ => exact Or.inl h

theorem mem_waiting_undergo (s : Session D) (id : Nat) (effects : List (Effect D)) {k : Nat}
    {command : Command} (h : command ∈ (s.undergo id effects).waiting k) :
    command ∈ s.waiting k ∨ exists e, e ∈ effects ∧ e.Brings id k command := by
  induction effects generalizing s with
  | nil => exact Or.inl h
  | cons e rest ih =>
      rcases ih (e.apply id s) h with h | ⟨e', he', hbrings⟩
      · rcases s.mem_waiting_apply id e h with h | hbrings
        · exact Or.inl h
        · exact Or.inr ⟨e, List.mem_cons_self, hbrings⟩
      · exact Or.inr ⟨e', List.mem_cons_of_mem _ he', hbrings⟩

end Session

/-- There is reason for a command to connection `k`, as far as it has requests given up: a
call has given the request up, or its user has asked for just this. -/
structure Command.IsDue (k : Nat) (moments : List (Moment D)) (command : Command) : Prop where
  abandoned : forall number, command = .abandon number ->
    exists m, m ∈ moments ∧ m.Renounces k number
  notified : forall message t, command = .notify message t ->
    exists method params, message = .notification method params ∧
      (method = "$/cancelRequest" -> Began moments t.call (.notify method params))

theorem Command.IsDue.concat {k : Nat} {moments : List (Moment D)} {command : Command}
    (h : command.IsDue k moments) (m : Moment D) : command.IsDue k (moments ++ [m]) where
  abandoned number hcommand := by
    rcases h.abandoned number hcommand with ⟨m', hm', hrenounces⟩
    exact ⟨m', List.mem_append_left _ hm', hrenounces⟩
  notified message t hcommand := by
    rcases h.notified message t hcommand with ⟨method, params, hmessage, hbegan⟩
    exact ⟨method, params, hmessage, fun hmethod => (hbegan hmethod).concat m⟩

namespace Session

variable [FileSystem D] {settings : Settings} {processId : Nat} {workspace : Workspace D}
  {moments : List (Moment D)} {s : Session D}

/-- There is reason for whatever waits for a connection. -/
theorem Course.waiting_due (course :
      Course (Session.new settings processId workspace) moments s)
    {k : Nat} {command : Command} (h : command ∈ s.waiting k) : command.IsDue k moments := by
  induction course with
  | refl => contradiction
  | touch course disk ih => exact ih h
  | @act moments t u course a ha ih =>
      cases hcall : Moment.ofCall (⟨t, a, u⟩ : Moment D) with
      | false =>
          rcases drifts_of_act ha hcall k with ⟨_, hnone⟩ | ⟨c, c', hc, hc', hfades⟩
          · rw [waiting, show u.connection? k = none from hnone] at h
            contradiction
          · rw [waiting_of_connection? hc'] at h
            exact (ih (waiting_of_connection? hc ▸ hfades.kept h)).concat _
      | true =>
          rcases due_of_act ha hcall with ⟨t', id, effects, hsame, hu, hid, hdue⟩
          rw [hu] at h
          rcases t'.mem_waiting_undergo id effects h with hold | ⟨e, he, hbrings⟩
          · have hwaits : command ∈ t.waiting k := by
              rwa [waiting, connection?, hsame, ← connection?, ← waiting] at hold
            exact (ih hwaits).concat _
          · have hdue := hdue e he
            cases e with
            | ask j question task =>
                rcases hbrings with ⟨rfl, serial, rfl⟩
                refine ⟨fun number hcommand => ?_, fun message ticket hcommand => ?_⟩
                · have hown := question.own ⟨id, serial⟩
                  rw [hcommand] at hown
                  contradiction
                · rcases hdue message _ ticket hcommand with
                    ⟨method, params, hmessage, hbegins⟩
                  refine ⟨method, params, hmessage, fun hmethod => ?_⟩
                  have haction := hbegins hmethod
                  have hown := question.own ⟨id, serial⟩
                  rw [hcommand] at hown
                  cases hown
                  change a = _ at haction
                  rw [Began, begun_concat, begun_begin haction, hid _ haction,
                    ← course.length_begun, List.getElem?_concat_length]
            | abandon j number =>
                rcases hbrings with ⟨rfl, rfl⟩
                refine ⟨fun n hcommand => ?_, fun message ticket hcommand => by cases hcommand⟩
                cases hcommand
                exact ⟨_, List.mem_append_right _ (List.mem_singleton_self _), hdue⟩
            | _ => cases hbrings

end Session
end LanguageClient

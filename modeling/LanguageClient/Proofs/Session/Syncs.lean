import LanguageClient.Proofs.Session.OpenDocuments
import LanguageClient.Proofs.Session.Withdrawals

/-!
# Where synced contents come from

A call that syncs a file first reads it and then hands what it has read to a connection, and
in between anything may happen. Every content that a connection serves was read, as it is,
by the call that it is served for, and a sync that succeeds reports what came of serving it.
-/

namespace LanguageClient

variable {D : Type}

/-!
## Reading
-/

/-- What is to be synced is a content, with line feeds alone. -/
structure SyncInput.Renders (input : SyncInput) (content : Text) : Prop where
  text : input.text = (LineEnding.normalize content).1
  hash : input.hash = contentHash input.text
  lineEnding : input.lineEnding = LineEnding.detect content

theorem LineEnding.normalize_snd (content : Text) :
    (LineEnding.normalize content).2 = LineEnding.detect content := by
  unfold LineEnding.normalize
  cases LineEnding.detect content <;> rfl

def Session.fileText? [FileSystem D] (s : Session D) (name : Text) : Option Text :=
  match s.workspace.locate name with
  | .error _ => none
  | .ok path =>
    match s.workspace.read path with
    | .error _ => none
    | .ok snapshot => snapshot.text?

theorem Session.renders_of_readFile [FileSystem D] {s : Session D} {name : Text}
    {input : SyncInput} (h : s.readFile name = .ok input) :
    exists content, s.fileText? name = some content ∧ input.Renders content := by
  rcases ok_of_bind h with ⟨path, hpath, h⟩
  rcases ok_of_bind h with ⟨stat?, _, h⟩
  cases stat? with
  | none => contradiction
  | some stat =>
      dsimp only at h
      split at h
      case isTrue => contradiction
      case isFalse =>
        split at h
        case isTrue => contradiction
        case isFalse =>
          rcases ok_of_bind h with ⟨snapshot, hsnapshot, h⟩
          split at h
          case h_1 => contradiction
          case h_2 content hcontent =>
            cases h
            refine ⟨content, ?_, rfl, rfl, LineEnding.normalize_snd content⟩
            simp only [Session.fileText?, hpath, hsnapshot, hcontent]

namespace Moment

structure Reads [FileSystem D] (id k : Nat) (name : Text) (input : SyncInput) (m : Moment D) :
    Prop where
  action : m.action = .goOn id
  task : exists next, m.before.task? id = some (.reading k name next)
  content : m.before.readFile name = .ok input

structure Hands (id k : Nat) (input : SyncInput) (m : Moment D) : Prop where
  action : m.action = .goOn id
  task : exists next, m.before.task? id = some (.handing k input next)

end Moment

/-!
## What calls hand over
-/

def Task.content? : Task -> Option (Nat × SyncInput)
  | .handing k input _ => some (k, input)
  | _ => none

theorem Task.content?_eq_some {task : Task} {k : Nat} {input : SyncInput} :
    task.content? = some (k, input) <-> exists next, task = .handing k input next := by
  constructor
  · intro h
    cases task with
    | handing k' input' next =>
        cases h
        exact ⟨next, rfl⟩
    | _ => contradiction
  · rintro ⟨next, rfl⟩
    rfl

/-- A content that an effect of call `id` hands over is one that the call has, and a content
that it comes to have is one that it reads. -/
structure Effect.Traced [FileSystem D] (m : Moment D) (id : Nat) (e : Effect D) : Prop where
  handed : forall k question task input t t', e = .ask k question task ->
    question.command t = .sync input t' -> m.Hands id k input
  read : forall task k input, e.task? = some task -> task.content? = some (k, input) ->
    exists name, m.Reads id k name input

namespace Effect

variable [FileSystem D] {m : Moment D} {id : Nat} {e : Effect D}

theorem Traced.of_ask {k : Nat} {question : Question} {task : Task}
    (hcommand : forall input t t', question.command t ≠ .sync input t')
    (htask : task.content? = none) : (Effect.ask k question task).Traced m id where
  handed k' question' task' input t t' he hsync := by
    cases he
    exact absurd hsync (hcommand input t t')
  read task' k' input heq hcontent := by
    cases heq
    cases htask.symm.trans hcontent

theorem Traced.of_other (hask : forall k question task, e ≠ .ask k question task)
    (htask : forall task, e.task? = some task -> task.content? = none) : e.Traced m id where
  handed k question task input t t' he := absurd he (hask k question task)
  read task k input heq hcontent := by
    cases (htask task heq).symm.trans hcontent

theorem traced_of_task?_none (hask : forall k question task, e ≠ .ask k question task)
    (hnone : e.task? = none) : e.Traced m id :=
  .of_other hask fun task h => by cases hnone.symm.trans h

theorem traced_finish (outcome : Outcome) : (Effect.finish outcome).Traced m id :=
  .of_other (fun _ _ _ h => by cases h) fun task h => by
    cases h
    rfl

theorem traced_terminate (k : Nat) (force : Bool) {task : Task}
    (htask : task.content? = none) :
    (Effect.ask k (.terminate force) task).Traced m id :=
  .of_ask (fun _ _ _ h => by cases h) htask

theorem traced_request (k number : Nat) (method : String) (params : Json) {task : Task}
    (htask : task.content? = none) :
    (Effect.ask k (.request number method params) task).Traced m id :=
  .of_ask (fun _ _ _ h => by cases h) htask

theorem traced_notify (k : Nat) (message : Message) {task : Task}
    (htask : task.content? = none) :
    (Effect.ask k (.notify message) task).Traced m id :=
  .of_ask (fun _ _ _ h => by cases h) htask

theorem Abides.traced {l : Licence} (h : e.Abides l)
    (hreads : forall k input, l.reads k input -> exists name, m.Reads id k name input)
    (hhands : forall k input, l.hands k input -> m.Hands id k input) : e.Traced m id := by
  have hadmitted {task : Task} (admits : l.Admits task) {k : Nat} {input : SyncInput}
      (hcontent : task.content? = some (k, input)) : exists name, m.Reads id k name input := by
    rcases Task.content?_eq_some.mp hcontent with ⟨next, htask⟩
    exact hreads k input (admits.read k input next htask)
  cases h with
  | rest task admits =>
      refine ⟨fun k question task input t t' he => ?_, fun task' k input heq => ?_⟩
      · cases he
      · cases heq
        exact hadmitted admits
  | ask k question task admits unclaimed plain reaches utters hands =>
      refine ⟨fun k' question' task' input t t' he hsync => ?_, fun task' k' input heq => ?_⟩
      · cases he
        exact hhands k input (hands input t t' hsync)
      · cases heq
        exact hadmitted admits
  | inquire k method params timeout reaches waits => exact traced_request _ _ _ _ rfl
  | finish outcome => exact traced_finish outcome
  | draw => exact traced_of_task?_none (fun _ _ _ h => by cases h) rfl
  | abandon k number own => exact traced_of_task?_none (fun _ _ _ h => by cases h) rfl
  | store workspace => exact traced_of_task?_none (fun _ _ _ h => by cases h) rfl

end Effect

namespace Session

variable [FileSystem D]

theorem LifecycleStep.traced {s : Session D} {id : Nat} {call : Call} {task : Task}
    {effects : List (Effect D)} (h : LifecycleStep s id call task effects) (m : Moment D)
    {e : Effect D} (he : e ∈ effects) : e.Traced m id := by
  have hquiet {e : Effect D} (hask : forall k question task, e ≠ .ask k question task)
      (hnone : e.task? = none) : e.Traced m id := Effect.traced_of_task?_none hask hnone
  have hforgetting (h : e ∈ s.forgetting) : e.Traced m id := by
    rw [forgetting_eq_reset h]
    exact hquiet (fun _ _ _ h => by cases h) rfl
  have hgivesUp {k number : Nat} {before : List (Effect D)} (hgives : GivesUp k number before)
      (h : e ∈ before) : e.Traced m id := by
    rcases hgives with rfl | rfl
    · contradiction
    · rw [List.mem_singleton.mp h]
      exact hquiet (fun _ _ _ h => by cases h) rfl
  have hcondemn (k : Nat) : (Effect.condemn k : Effect D).Traced m id :=
    hquiet (fun _ _ _ h => by cases h) rfl
  have hdraw : (Effect.draw : Effect D).Traced m id := hquiet (fun _ _ _ h => by cases h) rfl
  have hreset : (Effect.reset : Effect D).Traced m id := hquiet (fun _ _ _ h => by cases h) rfl
  cases h with
  | alreadyRunning | nothingToStop =>
      rw [List.mem_singleton.mp he]
      exact Effect.traced_finish _
  | refused launch reason turn dead =>
      rcases List.mem_append.mp he with he | he
      · exact hforgetting he
      · rw [List.mem_singleton.mp he]
        exact Effect.traced_finish _
  | launched launch turn dead =>
      simp only [List.mem_append, List.mem_cons, List.not_mem_nil, or_false] at he
      rcases he with he | rfl | rfl | rfl
      · exact hforgetting he
      · exact hquiet (fun _ _ _ h => by cases h) rfl
      · exact hdraw
      · exact Effect.traced_request _ _ _ _ rfl
  | introduced k number deadline v heard =>
      simp only [List.mem_cons, List.not_mem_nil, or_false] at he
      rcases he with rfl | rfl
      · exact hquiet (fun _ _ _ h => by cases h) rfl
      · exact Effect.traced_notify _ _ rfl
  | notIntroduced k number deadline reason before givesUp =>
      simp only [List.mem_append, List.mem_cons, List.not_mem_nil, or_false] at he
      rcases he with he | rfl | rfl
      · exact hgivesUp givesUp he
      · exact hcondemn k
      · exact Effect.traced_terminate _ _ rfl
  | announced k heard =>
      simp only [List.mem_cons, List.not_mem_nil, or_false] at he
      rcases he with rfl | rfl
      · exact hquiet (fun _ _ _ h => by cases h) rfl
      · exact Effect.traced_finish _
  | notAnnounced k reason =>
      simp only [List.mem_cons, List.not_mem_nil, or_false] at he
      rcases he with rfl | rfl
      · exact hcondemn k
      · exact Effect.traced_terminate _ _ rfl
  | aborted | alreadyEnded | stopped =>
      simp only [List.mem_cons, List.not_mem_nil, or_false] at he
      rcases he with rfl | rfl
      · exact hreset
      · exact Effect.traced_finish _
  | askedToShutDown force k turn alive =>
      simp only [List.mem_cons, List.not_mem_nil, or_false] at he
      rcases he with rfl | rfl | rfl
      · exact hcondemn k
      · exact hdraw
      · exact Effect.traced_request _ _ _ _ rfl
  | cutShort force k turn alive =>
      simp only [List.mem_cons, List.not_mem_nil, or_false] at he
      rcases he with rfl | rfl
      · exact hcondemn k
      · exact Effect.traced_terminate _ _ rfl
  | sentExit k force number deadline before givesUp =>
      simp only [List.mem_append, List.mem_cons, List.not_mem_nil, or_false] at he
      rcases he with he | rfl
      · exact hgivesUp givesUp he
      · exact Effect.traced_notify _ _ rfl
  | exited k force heard =>
      rw [List.mem_singleton.mp he]
      exact Effect.traced_terminate _ _ rfl

/-- Whatever a call does at a moment, it hands over and keeps only what it has read. -/
theorem traced_of_act {s u : Session D} {a : Action} (h : s.act a = some u)
    (hcall : Moment.ofCall (⟨s, a, u⟩ : Moment D) = true) :
    exists (t : Session D) (id : Nat) (effects : List (Effect D)),
      t.connections = s.connections ∧ id < t.calls.length ∧
        (forall j task, t.task? j = some task ->
          s.task? j = some task ∨ task.content? = none) ∧
        u = t.undergo id effects ∧ forall e, e ∈ effects -> e.Traced ⟨s, a, u⟩ id := by
  cases a with
  | begin op =>
      cases h
      have hadded (j : Nat) (task : Task) (htask : s.addCall.task? j = some task) :
          s.task? j = some task ∨ task.content? = none := by
        rw [task?_addCall] at htask
        split at htask
        · cases htask
          exact Or.inr rfl
        · exact Or.inl htask
      have hlt := s.calls_length_lt_addCall
      have hwaits (waiting : Task) (hcontent : waiting.content? = none) {e : Effect D}
          (he : e ∈ [.lineUp, .rest waiting]) :
          e.Traced ⟨s, .begin op, s.beginCall op⟩ s.calls.length := by
        simp only [List.mem_cons, List.not_mem_nil, or_false] at he
        rcases he with rfl | rfl
        · exact Effect.traced_of_task?_none (fun _ _ _ h => by cases h) rfl
        · refine .of_other (fun _ _ _ h => by cases h) fun task htask => ?_
          cases htask
          exact hcontent
      have hother (hstart : forall launch, op ≠ .start launch)
          (hstop : forall force, op ≠ .stop force) :
          exists (t : Session D) (id : Nat) (effects : List (Effect D)),
            t.connections = s.connections ∧ id < t.calls.length ∧
              (forall j task, t.task? j = some task ->
                s.task? j = some task ∨ task.content? = none) ∧
              s.beginCall op = t.undergo id effects ∧
              forall e, e ∈ effects -> e.Traced ⟨s, .begin op, s.beginCall op⟩ id := by
        rcases s.addCall.begin_abiding s.calls.length op hstart hstop with
          ⟨effects, habides, hu⟩
        exact ⟨s.addCall, _, effects, rfl, hlt, hadded, hu, fun e he =>
          (habides e he).traced (fun _ _ => False.elim) fun _ _ => False.elim⟩
      cases op with
      | start launch =>
          exact ⟨s.addCall, _, _, rfl, hlt, hadded, rfl, fun _ =>
            hwaits (.starting launch) rfl⟩
      | stop force =>
          exact ⟨s.addCall, _, _, rfl, hlt, hadded, rfl, fun _ => hwaits (.stopping force) rfl⟩
      | _ => exact hother (by simp) (by simp)
  | goOn id =>
      simp only [act, stepCall] at h
      split at h
      case h_2 => contradiction
      case h_1 call hc =>
        have htask : s.task? id = some call.task := task?_of_call? hc
        suffices exists effects, u = s.undergo id effects ∧
            forall e, e ∈ effects -> e.Traced ⟨s, .goOn id, u⟩ id by
          rcases this with ⟨effects, hu, htraced⟩
          exact ⟨s, id, effects, rfl, lt_of_call? hc, fun _ _ => Or.inl, hu, htraced⟩
        cases hlife : call.task.isLifecycle with
        | true =>
            rcases stepTask_lifecycleStep hlife h with ⟨effects, hstep, hu⟩
            exact ⟨effects, hu, fun e he => hstep.traced _ he⟩
        | false =>
            rcases stepTask_abiding hlife h with ⟨effects, habides, hu⟩
            refine ⟨effects, hu, fun e he => (habides e he).traced ?_ ?_⟩
            · rintro k input ⟨name, next, hreading, hread⟩
              exact ⟨name, rfl, ⟨next, hreading ▸ htask⟩, hread⟩
            · rintro k input ⟨next, hhanding⟩
              exact ⟨rfl, next, hhanding ▸ htask⟩
  | _ => contradiction

/-!
## Contents over a course
-/

variable {settings : Settings} {processId : Nat} {workspace : Workspace D}
  {moments : List (Moment D)} {s : Session D}

omit [FileSystem D] in
theorem task?_of_other {m : Moment D} (hkind : m.Kind) (hcall : m.ofCall = false) (id : Nat) :
    m.after.task? id = m.before.task? id := by
  rcases task?_of_kind hkind id with hsame | haction | ⟨_, op, haction⟩
  · exact hsame
  · rw [Moment.ofCall, haction] at hcall
    contradiction
  · rw [Moment.ofCall, haction] at hcall
    contradiction

theorem Course.reads_of_content
    (course : Course (Session.new settings processId workspace) moments s) {id k : Nat}
    {task : Task} {input : SyncInput} (htask : s.task? id = some task)
    (hcontent : task.content? = some (k, input)) :
    exists m name, m ∈ moments ∧ m.Reads id k name input := by
  induction course generalizing task with
  | refl => contradiction
  | touch course disk ih => exact ih htask hcontent
  | @act moments t u course a ha ih =>
      have hearlier (h : t.task? id = some task) :
          exists m name, m ∈ moments ++ [⟨t, a, u⟩] ∧ m.Reads id k name input := by
        rcases ih h hcontent with ⟨m, name, hm, hreads⟩
        exact ⟨m, name, List.mem_append_left _ hm, hreads⟩
      cases hcall : Moment.ofCall (⟨t, a, u⟩ : Moment D) with
      | false => exact hearlier ((task?_of_other (kind_of_act ha) hcall id).symm.trans htask)
      | true =>
          rcases traced_of_act ha hcall with ⟨t', j, effects, _, hlt, hsame, hu, htraced⟩
          have hkept (h : t'.task? id = some task) :
              exists m name, m ∈ moments ++ [⟨t, a, u⟩] ∧ m.Reads id k name input := by
            rcases hsame id task h with hold | hnone
            · exact hearlier hold
            · cases hnone.symm.trans hcontent
          rw [hu] at htask
          rcases task?_of_undergo hlt htask with hold | ⟨rfl, hlast⟩
          · exact hkept hold
          · rcases Effect.exists_of_lastTask? hlast with ⟨e, he, heq⟩
            rcases (htraced e he).read task k input heq hcontent with ⟨name, hreads⟩
            exact ⟨_, name, List.mem_append_right _ (List.mem_singleton.mpr rfl), hreads⟩

theorem Course.hands_of_waiting
    (course : Course (Session.new settings processId workspace) moments s) {k : Nat}
    {input : SyncInput} {ticket : Ticket} (h : .sync input ticket ∈ s.waiting k) :
    exists m, m ∈ moments ∧ m.Hands ticket.call k input := by
  induction course with
  | refl => contradiction
  | touch course disk ih => exact ih h
  | @act moments t u course a ha ih =>
      have hearlier (h : .sync input ticket ∈ t.waiting k) :
          exists m, m ∈ moments ++ [⟨t, a, u⟩] ∧ m.Hands ticket.call k input := by
        rcases ih h with ⟨m, hm, hhands⟩
        exact ⟨m, List.mem_append_left _ hm, hhands⟩
      cases hcall : Moment.ofCall (⟨t, a, u⟩ : Moment D) with
      | false =>
          rcases drifts_of_act ha hcall k with ⟨_, hnone⟩ | ⟨c, c', hc, hc', hfades⟩
          · rw [waiting, show u.connection? k = none from hnone] at h
            contradiction
          · rw [waiting_of_connection? hc'] at h
            exact hearlier (waiting_of_connection? hc ▸ hfades.kept h)
      | true =>
          rcases traced_of_act ha hcall with ⟨t', j, effects, hsame, _, _, hu, htraced⟩
          rw [hu] at h
          rcases t'.mem_waiting_undergo j effects h with hold | ⟨e, he, hbrings⟩
          · refine hearlier ?_
            rwa [waiting, connection?, hsame, ← connection?, ← waiting] at hold
          · cases e with
            | ask i question task =>
                rcases hbrings with ⟨rfl, serial, hcommand⟩
                have hhands :=
                  (htraced _ he).handed i question task input ⟨j, serial⟩ ticket rfl
                  hcommand.symm
                have hticket := question.own ⟨j, serial⟩
                rw [← hcommand] at hticket
                cases hticket
                exact ⟨_, List.mem_append_right _ (List.mem_singleton.mpr rfl), hhands⟩
            | abandon i number => cases hbrings.2
            | _ => exact hbrings.elim

theorem Course.reads_of_served {u : Session D} {earlier later : List (Moment D)} {m : Moment D}
    (course : Course (Session.new settings processId workspace) (earlier ++ m :: later) u)
    {k : Nat}
    {input : SyncInput} {ticket : Ticket} (h : m.served? k = some (.sync input ticket)) :
    exists r name, r ∈ earlier ∧ r.Reads ticket.call k name input := by
  rcases course.split with ⟨hbefore, _, _⟩
  rcases hbefore.hands_of_waiting (Moment.waiting_of_served? h) with ⟨handed, hmem, hhands⟩
  rcases List.append_of_mem hmem with ⟨first, second, rfl⟩
  rcases hbefore.split with ⟨hfirst, _, _⟩
  rcases hhands.task with ⟨next, htask⟩
  rcases hfirst.reads_of_content htask rfl with ⟨r, name, hr, hreads⟩
  exact ⟨r, name, List.mem_append_left _ hr, hreads⟩

/-- The call that a content of the history was served for has read it. -/
theorem Course.reads_of_operation {earlier later : List (Moment D)} {v : Moment D}
    (course : Course (Session.new settings processId workspace) (earlier ++ v :: later) s)
    {k : Nat} {input : SyncInput} (h : .sync input ∈ operations k (earlier ++ [v])) :
    exists r caller name, r ∈ earlier ∧ r.Reads caller k name input := by
  rcases mem_operations.mp h with ⟨m, hm, hop⟩
  rcases m.served_of_operation? hop with ⟨t, hserved⟩
  rcases List.mem_append.mp hm with hm | hm
  · rcases List.append_of_mem hm with ⟨first, second, rfl⟩
    rcases course.split with ⟨hearlier, _, _⟩
    rcases hearlier.reads_of_served hserved with ⟨r, name, hr, hreads⟩
    exact ⟨r, t.call, name, List.mem_append_left _ hr, hreads⟩
  · cases List.mem_singleton.mp hm
    rcases course.reads_of_served hserved with ⟨r, name, hr, hreads⟩
    exact ⟨r, t.call, name, hr, hreads⟩

end Session
end LanguageClient

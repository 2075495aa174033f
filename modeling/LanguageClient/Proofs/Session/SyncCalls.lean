import LanguageClient.Proofs.Session.Emissions
import LanguageClient.Proofs.Session.Syncs

/-!
# Calls that sync a file

A call that has been begun to sync a file reads it once, hands over what it has read, waits,
and ends. If it succeeds, a connection has served the content, and what the call reports is
what the record of the open documents made of it.
-/

namespace LanguageClient

variable {D : Type}

/-!
## Answers about syncs
-/

theorem Connection.synced_of_serve {now : Nat} {c : Connection} {input : SyncInput}
    {t t' : Ticket} {synced : SyncedDocument}
    (h : (serve now c (.sync input t)).2 = .answer t' (.synced (.ok synced))) :
    synced = (c.store.sync input).2.1 := by
  have hanswers := congrArg Emitted.answers h
  rcases hsync : c.store.sync input with ⟨store, made, notification⟩
  cases notification with
  | none =>
      simp only [serve, hsync] at hanswers
      cases hanswers
      rfl
  | some message =>
      simp only [serve, hsync] at hanswers
      cases hwrite : ({ c with store }.write (.message message)).2 with
      | error e =>
          rw [hwrite] at hanswers
          cases hanswers
      | ok =>
          rw [hwrite] at hanswers
          cases hanswers
          rfl

theorem Moment.served_of_synced {m : Moment D} {t : Ticket} {r : Except Failure SyncedDocument}
    (h : (t, .synced r) ∈ m.answers) :
    exists k c input, m.served? k = some (.sync input t) ∧ m.before.connection? k = some c ∧
      c.isAlive = true ∧ forall synced, r = .ok synced ->
      synced = (c.store.sync input).2.1 := by
  rcases served_of_answer h rfl with
    ⟨k, c, rest, command, hc, halive, hserved, hticket, hexpects, hserve⟩
  cases command with
  | sync input t' =>
      cases hticket
      refine ⟨k, c, input, hserved, hc, halive, fun synced heq => ?_⟩
      subst heq
      exact Connection.synced_of_serve (c := { c with commands := rest }) hserve
  | _ => contradiction

/-!
## Where a sync stands
-/

inductive Task.Syncs (name : Text) : Task -> Prop where
  | reading (k : Nat) : Syncs name (.reading k name .answer)
  | handing (k : Nat) (input : SyncInput) : Syncs name (.handing k input .answer)
  | syncing : Syncs name (.syncing .answer)
  | done (outcome : Outcome) : Syncs name (.done outcome)

def Task.isReading : Task -> Bool
  | .reading .. => true
  | _ => false

def Task.synced? : Task -> Option SyncedDocument
  | .done (.ok (.synced d)) => some d
  | _ => none

theorem Task.synced?_eq_some {task : Task} {d : SyncedDocument} :
    task.synced? = some d <-> task = .done (.ok (.synced d)) := by
  constructor
  · intro h
    unfold Task.synced? at h
    split at h
    · cases h
      rfl
    · contradiction
  · rintro rfl
    rfl

namespace Session

/-- A call that syncs a file never goes back to reading it, and reports what it is answered. -/
structure GoesOnSyncing (name : Text) (call : Call) (task : Task) : Prop where
  syncs : task.Syncs name
  unread : task.isReading = false
  report : forall d, task.synced? = some d -> call.mailbox = some (.synced (.ok d))

variable {name : Text}

theorem syncs_of_begin [FileSystem D] (s : Session D) {task : Task}
    (htask : (s.beginCall (.sync name)).task? s.calls.length = some task) :
    task.Syncs name ∧ task.synced? = none := by
  rcases s.addCall.startSync_startsSync s.calls.length name .answer with ⟨e, starts, hu⟩
  have hu : s.beginCall (.sync name) = s.addCall.undergo s.calls.length [e] := hu
  have hafter {last : Task} (hlast : Effect.lastTask? [e] = some last) : last = task := by
    rw [hu, undergo_task?_self s.calls_length_lt_addCall hlast] at htask
    exact Option.some.inj htask
  cases starts with
  | reads k =>
      cases hafter rfl
      exact ⟨.reading k, rfl⟩
  | fails _ _ fails =>
      cases fails
      cases hafter rfl
      exact ⟨.done _, rfl⟩

theorem syncs_of_goOn [FileSystem D] {s u : Session D} {id : Nat} {call : Call}
    (hcall : s.call? id = some call) (hsyncs : call.task.Syncs name)
    (h : s.stepTask id call call.task = some u) :
    exists task, u.task? id = some task ∧ GoesOnSyncing name call task := by
  have huser : call.task.isLifecycle = false := by
    generalize call.task = task at hsyncs
    cases hsyncs <;> rfl
  rcases stepTask_userStep huser h with ⟨effects, step, rfl⟩
  have hafter {last : Task} (hlast : Effect.lastTask? effects = some last) :
      (s.undergo id effects).task? id = some last :=
    undergo_task?_self (lt_of_call? hcall) hlast
  generalize call.task = task at hsyncs step
  cases hsyncs with
  | reading k =>
      cases step with
      | reads _ _ _ input => exact ⟨_, hafter rfl, .handing k input, rfl, nofun⟩
      | cannotRead _ _ _ _ _ _ fails =>
          cases fails
          exact ⟨_, hafter rfl, .done _, rfl, nofun⟩
  | handing k input =>
      cases step
      exact ⟨_, hafter rfl, .syncing, rfl, nofun⟩
  | syncing =>
      cases step with
      | synced _ _ _ heard ends =>
          cases ends
          refine ⟨_, hafter rfl, .done _, rfl, fun d hd => ?_⟩
          cases hd
          exact heard
      | syncRefused _ _ _ _ fails | notSynced _ _ _ _ _ fails =>
          cases fails
          exact ⟨_, hafter rfl, .done _, rfl, nofun⟩
  | done outcome => nomatch step

/-!
## Syncs over a course
-/

variable [FileSystem D] {settings : Settings} {processId : Nat} {workspace : Workspace D}
  {moments : List (Moment D)} {s : Session D} {id : Nat}

theorem Course.syncs_next {m : Moment D}
    (course : Course (Session.new settings processId workspace) moments m.before)
    (hact : m.before.act m.action = some m.after)
    (hbegan : Began (moments ++ [m]) id (.sync name))
    (hsyncs : forall {task : Task}, m.before.task? id = some task -> task.Syncs name)
    {task : Task} (htask : m.after.task? id = some task) :
    m.before.task? id = some task ∨
      (exists call, m.action = .goOn id ∧ m.before.call? id = some call ∧
        GoesOnSyncing name call task) ∨
      m.before.task? id = none ∧ task.Syncs name ∧ task.synced? = none := by
  rcases task?_of_kind (kind_of_act hact) id with hsame | haction | ⟨rfl, op, haction⟩
  · exact Or.inl (hsame.symm.trans htask)
  · rw [haction] at hact
    simp only [Session.act, stepCall] at hact
    split at hact
    case h_2 => contradiction
    case h_1 call hcall =>
      rcases syncs_of_goOn hcall (hsyncs (task?_of_call? hcall)) hact with
        ⟨task', htask', hgoes⟩
      cases Option.some.inj (htask.symm.trans htask')
      exact Or.inr (Or.inl ⟨call, haction, hcall, hgoes⟩)
  · rw [Began, begun_concat, begun_begin haction, ← course.length_begun,
      List.getElem?_concat_length] at hbegan
    cases hbegan
    rw [haction] at hact
    rw [← Option.some.inj hact] at htask
    refine Or.inr (Or.inr ⟨?_, m.before.syncs_of_begin htask⟩)
    rw [task?, call?, List.getElem?_eq_none (Nat.le_refl _)]
    rfl

theorem Course.syncs (course : Course (Session.new settings processId workspace) moments s)
    (hbegan : Began moments id (.sync name)) {task : Task} (htask : s.task? id = some task) :
    task.Syncs name := by
  induction course generalizing task with
  | refl => contradiction
  | touch course disk ih => exact ih hbegan htask
  | @act moments t u course a ha ih =>
      have hsyncs {task : Task} (h : t.task? id = some task) : task.Syncs name :=
        ih (course.began_of_task? h hbegan) h
      rcases course.syncs_next (m := ⟨t, a, u⟩) ha hbegan hsyncs htask with
        hsame | ⟨_, _, _, hgoes⟩ | ⟨_, hfirst, _⟩
      · exact hsyncs hsame
      · exact hgoes.syncs
      · exact hfirst

theorem task?_of_reads {m : Moment D} (hact : m.before.act m.action = some m.after) {k : Nat}
    {name : Text} {input : SyncInput} (h : m.Reads id k name input) :
    exists next, m.after.task? id = some (.handing k input next) := by
  rcases h with ⟨haction, ⟨next, htask⟩, hread⟩
  rw [haction] at hact
  simp only [Session.act, stepCall] at hact
  split at hact
  case h_2 => contradiction
  case h_1 call hcall =>
    rw [show call.task = .reading k name next from
      Option.some.inj ((task?_of_call? hcall).symm.trans htask)] at hact
    simp only [stepTask, hread] at hact
    refine ⟨next, ?_⟩
    rw [← Option.some.inj hact, task?_setTask (lt_of_call? hcall), if_pos rfl]

theorem Course.exists_task? (course :
      Course (Session.new settings processId workspace) moments s)
    {op : Operation} (hbegan : Began moments id op) : exists task, s.task? id = some task := by
  have hlt : id < s.calls.length :=
    course.length_begun ▸ (List.getElem?_eq_some_iff.mp hbegan).1
  rcases call?_eq_some_of_lt hlt with ⟨call, hcall⟩
  exact ⟨call.task, task?_of_call? hcall⟩

theorem Course.unread_of_reading
    (course : Course (Session.new settings processId workspace) moments s)
    (hbegan : Began moments id (.sync name)) {task : Task} (htask : s.task? id = some task)
    (hreading : task.isReading = true) {m : Moment D} (hm : m ∈ moments) {k : Nat}
    {name' : Text} {input : SyncInput} : ¬ m.Reads id k name' input := by
  induction course generalizing task with
  | refl => contradiction
  | touch course disk ih => exact ih hbegan htask hreading hm
  | @act moments t u course a ha ih =>
      intro hreads
      rcases List.mem_append.mp hm with hold | hnew
      · have hsyncs {task : Task} (h : t.task? id = some task) : task.Syncs name :=
          course.syncs (course.began_of_task? h hbegan) h
        rcases course.syncs_next (m := ⟨t, a, u⟩) ha hbegan hsyncs htask with
          hsame | ⟨_, _, _, hgoes⟩ | ⟨habsent, _, _⟩
        · exact ih (course.began_of_task? hsame hbegan) hsame hreading hold hreads
        · cases hgoes.unread.symm.trans hreading
        · -- Whoever has read something has begun before.
          rcases List.append_of_mem hold with ⟨first, second, rfl⟩
          rcases course.split with ⟨hfirst, _, _⟩
          rcases hreads.task with ⟨next, hbefore⟩
          rcases hfirst.cast id _ hbefore with ⟨op, hop, _⟩
          rcases course.exists_task? (Began.append hop (m :: second)) with ⟨task', htask'⟩
          cases habsent.symm.trans htask'
      · cases List.mem_singleton.mp hnew
        rcases task?_of_reads ha hreads with ⟨next, hhanding⟩
        cases Option.some.inj (hhanding.symm.trans htask)
        contradiction

/-- A call that syncs a file reads it once. -/
theorem Course.reads_once (course :
      Course (Session.new settings processId workspace) moments s)
    (hbegan : Began moments id (.sync name)) {m m' : Moment D} (hm : m ∈ moments)
    (hm' : m' ∈ moments) {k k' : Nat} {name' name'' : Text} {input input' : SyncInput}
    (h : m.Reads id k name' input) (h' : m'.Reads id k' name'' input') : input = input' := by
  induction course with
  | refl => contradiction
  | touch course disk ih => exact ih hbegan hm hm'
  | @act moments t u course a ha ih =>
      have hnot {m : Moment D} {k : Nat} {name' : Text} {input : SyncInput}
          (hold : m ∈ moments) (h : m.Reads id k name' input) {k' : Nat} {name'' : Text}
          {input' : SyncInput} (h' : Moment.Reads id k' name'' input' ⟨t, a, u⟩) : False := by
        rcases h'.task with ⟨next, htask⟩
        exact course.unread_of_reading (course.began_of_task? htask hbegan) htask rfl hold h
      rcases List.mem_append.mp hm with hold | hnew
      · rcases List.mem_append.mp hm' with hold' | hnew'
        · rcases List.append_of_mem hold with ⟨first, second, rfl⟩
          rcases course.split with ⟨hfirst, _, _⟩
          rcases h.task with ⟨next, hbefore⟩
          rw [List.append_assoc] at hbegan
          exact ih (Began.append (hfirst.began_of_task? hbefore hbegan)
            (m :: second)) hold hold'
        · exact (hnot hold h (List.mem_singleton.mp hnew' ▸ h')).elim
      · rcases List.mem_append.mp hm' with hold' | hnew'
        · exact (hnot hold' h' (List.mem_singleton.mp hnew ▸ h)).elim
        · cases List.mem_singleton.mp hnew
          cases List.mem_singleton.mp hnew'
          rcases h.task with ⟨next, htask⟩
          rcases h'.task with ⟨next', htask'⟩
          cases Option.some.inj (htask.symm.trans htask')
          exact Except.ok.inj (h.content.symm.trans h'.content)

/-!
## What a sync reports
-/

theorem Course.synced_of_mail
    (course : Course (Session.new settings processId workspace) moments s)
    {r : Except Failure SyncedDocument} (h : s.mail? id = some (.synced r)) :
    exists m t, m ∈ moments ∧ (t, .synced r) ∈ m.answers ∧ t.call = id := by
  induction course with
  | refl => contradiction
  | touch course disk ih => exact ih h
  | @act moments t u course a ha ih =>
      rcases mail?_of_act ha h with hold | hdropped | ⟨ticket, hanswer, hid⟩
      · rcases ih hold with ⟨m, ticket, hm, hanswer, hid⟩
        exact ⟨m, ticket, List.mem_append_left _ hm, hanswer, hid⟩
      · contradiction
      · exact ⟨_, ticket, List.mem_append_right _ (List.mem_singleton.mpr rfl), hanswer, hid⟩

theorem Course.mail_of_report
    (course : Course (Session.new settings processId workspace) moments s)
    (hbegan : Began moments id (.sync name)) {d : SyncedDocument} {task : Task}
    (htask : s.task? id = some task) (hreport : task.synced? = some d) :
    exists m, m ∈ moments ∧ m.before.mail? id = some (.synced (.ok d)) := by
  induction course generalizing task with
  | refl => contradiction
  | touch course disk ih => exact ih hbegan htask hreport
  | @act moments t u course a ha ih =>
      have hsyncs {task : Task} (h : t.task? id = some task) : task.Syncs name :=
        course.syncs (course.began_of_task? h hbegan) h
      rcases course.syncs_next (m := ⟨t, a, u⟩) ha hbegan hsyncs htask with
        hsame | ⟨call, _, hcall, hgoes⟩ | ⟨_, _, hnone⟩
      · rcases ih (course.began_of_task? hsame hbegan) hsame hreport with ⟨m, hm, hmail⟩
        exact ⟨m, List.mem_append_left _ hm, hmail⟩
      · refine ⟨_, List.mem_append_right _ (List.mem_singleton.mpr rfl), ?_⟩
        rw [mail?, hcall]
        exact hgoes.report d hreport
      · cases hnone.symm.trans hreport

/-- What a sync reports is what the record makes of a content that a
connection has served for it. -/
theorem Course.serves_of_report
    (course : Course (Session.new settings processId workspace) moments s)
    (hbegan : Began moments id (.sync name)) {d : SyncedDocument}
    (h : s.task? id = some (.done (.ok (.synced d)))) :
    exists k input t earlier v later, moments = earlier ++ v :: later ∧
      v.served? k = some (.sync input t) ∧ t.call = id ∧
        d = ((History.store (operations k earlier)).sync input).2.1 := by
  rcases course.mail_of_report hbegan h rfl with ⟨m, hm, hmail⟩
  rcases List.append_of_mem hm with ⟨first, second, rfl⟩
  rcases course.split with ⟨hfirst, _, _⟩
  rcases hfirst.synced_of_mail hmail with ⟨v, t, hv, hanswer, hid⟩
  rcases List.append_of_mem hv with ⟨earlier, later, rfl⟩
  rcases hfirst.split with ⟨hearlier, _, _⟩
  rcases v.served_of_synced hanswer with ⟨k, c, input, hserved, hc, halive, hsynced⟩
  refine ⟨k, input, t, earlier, v, later ++ m :: second, by simp, hserved, hid, ?_⟩
  rw [hsynced d rfl]
  exact congrArg Prod.fst (DocumentStore.sync_congr (hearlier.documents hc halive) input).2

theorem Course.name_of_reads {earlier later : List (Moment D)} {m : Moment D}
    (course : Course (Session.new settings processId workspace) (earlier ++ m :: later) s)
    (hbegan : Began (earlier ++ m :: later) id (.sync name)) {k : Nat} {name' : Text}
    {input : SyncInput} (h : m.Reads id k name' input) : name' = name := by
  rcases course.split with ⟨hearlier, _, _⟩
  rcases h.task with ⟨next, htask⟩
  cases hearlier.syncs (hearlier.began_of_task? htask hbegan) htask
  rfl

end Session
end LanguageClient

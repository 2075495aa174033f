import LanguageClient.Proofs.Session.Clocks
import LanguageClient.Proofs.Session.Listings
import LanguageClient.Proofs.Session.Published
import LanguageClient.Proofs.Session.SyncedEndings

/-!
# Waiting for diagnostics

A call that waits for the diagnostics of a file reads the events on the bus one by one. It
goes on when there is news of diagnostics for just this file or when its time is up, and
then looks up what the connection has on record. Events for other files, and the notice that
events have been lost, leave it waiting. So what it returns before its deadline has been
looked up after diagnostics for the file have come in.
-/

namespace LanguageClient

variable {D : Type}

/-!
## Reading the bus
-/

namespace EventBus

theorem le_next_receive (bus : EventBus) (sub : Subscription) :
    sub.next ≤ (bus.receive sub).2.next := by
  rw [receive]
  split
  · dsimp only
    omega
  · split
    · exact Nat.le_succ _
    · exact Nat.le_refl _

theorem event_of_receive {bus : EventBus} {sub : Subscription} {e : Event}
    (h : (bus.receive sub).1 = .event e) : bus.log.toList[sub.next]? = some e := by
  rw [receive] at h
  split at h
  · cases h
  · split at h
    case h_1 e' hevent =>
      cases h
      rw [Array.getElem?_toList]
      exact hevent
    case h_2 => cases h

end EventBus

namespace Session

def Announces (s : Session D) (uri : String) (sub : Subscription) : Prop :=
  exists version count, (s.bus.receive sub).1 = .event (.diagnostics uri version count)

def Expires (s : Session D) (sub : Subscription) (deadline : Nat) : Prop :=
  (s.bus.receive sub).1 = .empty ∧ deadline ≤ s.now

/-- What ends a wait for the diagnostics of `uri`. -/
inductive EndsWait (s : Session D) (uri : String) (sub : Subscription) (deadline : Nat) :
    Prop where
  | announced (news : s.Announces uri sub)
  | expired (due : s.Expires sub deadline)
  | exited (code : Option Int) (heard : (s.bus.receive sub).1 = .event (.exited code))
  | stopped (heard : (s.bus.receive sub).1 = .event .stopped)

/-!
## Single steps
-/

inductive WaitStep (s : Session D) (uri : String) (sub : Subscription) (deadline : Nat) :
    Effect D -> Prop where
  | waits : WaitStep s uri sub deadline (.rest (.waiting uri (s.bus.receive sub).2 deadline))
  | looks (k : Nat) (reason : s.Announces uri sub ∨ s.Expires sub deadline) :
      WaitStep s uri sub deadline (.ask k (.diagnostics (some uri)) (.listing (.list uri)))
  | fails (e : Failure) (reason : s.EndsWait uri sub deadline) :
      WaitStep s uri sub deadline (.finish (.error e))

theorem LooksUp.waitStep {s : Session D} {uri : String} {sub : Subscription} {deadline : Nat}
    {e : Effect D} (h : LooksUp s (.list uri) e)
    (reason : s.Announces uri sub ∨ s.Expires sub deadline) :
    WaitStep s uri sub deadline e := by
  cases h with
  | asks k => exact .looks k reason
  | fails => exact .fails .notInitialized (reason.elim .announced .expired)

theorem begin_waitForDiagnostics (s : Session D) (name : Text) (timeout : Nat) :
    (exists e, s.beginCall (.waitForDiagnostics name timeout) =
      s.addCall.undergo s.calls.length [.finish (.error e)]) ∨
      exists uri, s.documentUri name = .ok uri ∧
        s.beginCall (.waitForDiagnostics name timeout) = s.addCall.undergo s.calls.length
          [.rest (.waiting uri s.bus.subscribe (s.now + Limit.requestTimeout timeout))] := by
  rcases @begin_openingStep _ s.addCall s.calls.length
    (.waitForDiagnostics name timeout) nofun nofun with ⟨effects, step, hu⟩
  cases step with
  | unready => exact Or.inl ⟨_, hu⟩
  | misnamed => exact Or.inl ⟨_, hu⟩
  | waits _ _ uri named => exact Or.inr ⟨uri, named, hu⟩
  | looksUp _ _ _ views => nomatch views
  | forbidden _ edits => nomatch edits

variable [FileSystem D] {s u : Session D} {id : Nat} {call : Call}

theorem stepTask_waitStep {uri : String} {sub : Subscription} {deadline : Nat}
    (h : s.stepTask id call (.waiting uri sub deadline) = some u) :
    exists e : Effect D, WaitStep s uri sub deadline e ∧ u = s.undergo id [e] := by
  rcases stepTask_userStep rfl h with ⟨effects, step, hu⟩
  cases step with
  | overhears | missed => exact ⟨_, .waits, hu⟩
  | announced _ _ _ version count e heard looks =>
      exact ⟨e, looks.waitStep (Or.inl ⟨version, count, heard⟩), hu⟩
  | expired _ _ _ e heard due looks => exact ⟨e, looks.waitStep (Or.inr ⟨heard, due⟩), hu⟩
  | exited _ _ _ code heard => exact ⟨_, .fails _ (.exited code heard), hu⟩
  | stopped _ _ _ heard => exact ⟨_, .fails _ (.stopped heard), hu⟩

end Session

/-!
## Stages of a wait
-/

/-- Call `id` looks up at this moment what connection `k`, which is alive,
has on record for `uri`. -/
structure Moment.Looks (id k : Nat) (uri : String) (list : List Json) (v : Moment D) :
    Prop where
  served : exists t, v.served? k = some (.diagnostics (some uri) t) ∧ t.call = id
  live : exists c, v.before.connection? k = some c ∧ c.isAlive = true ∧
    list = c.store.diagnosticsOf uri

def HasCome (uri : String) (moments : List (Moment D)) : Prop :=
  exists d j params, d ∈ moments ∧ d.Publishes j uri params

def HasFound (id : Nat) (uri : String) (list : List Json) (moments : List (Moment D)) : Prop :=
  exists first v rest k, moments = first ++ v :: rest ∧ HasCome uri first ∧
    v.Looks id k uri list

theorem HasCome.append {uri : String} {moments : List (Moment D)} (h : HasCome uri moments)
    (more : List (Moment D)) : HasCome uri (moments ++ more) := by
  rcases h with ⟨d, j, params, hd, hpublishes⟩
  exact ⟨d, j, params, List.mem_append_left _ hd, hpublishes⟩

theorem HasFound.append {id : Nat} {uri : String} {list : List Json}
    {moments : List (Moment D)} (h : HasFound id uri list moments) (more : List (Moment D)) :
    HasFound id uri list (moments ++ more) := by
  rcases h with ⟨first, v, rest, k, rfl, hcome, hlooks⟩
  exact ⟨first, v, rest ++ more, k, by simp, hcome, hlooks⟩

theorem Moment.looks_of_answer {m : Moment D} {t : Ticket} {uri : String}
    {lists : List (String × List Json)}
    (hasks : forall k command, command ∈ m.before.waiting k -> command.ticket? = some t ->
      command = .diagnostics (some uri) t) (h : (t, .diagnostics lists) ∈ m.answers) :
    exists k list, lists = [(uri, list)] ∧ m.Looks t.call k uri list := by
  rcases Moment.tells_of_answer hasks h with ⟨k, _, htells⟩
  rcases htells.live with ⟨c, hc, halive, rfl⟩
  exact ⟨k, _, rfl, htells.served, c, hc, halive, rfl⟩

namespace Session

/-- How far call `id` has come, which waits for the diagnostics of `uri` until `deadline`
and has subscribed to the bus from place `start` on. -/
inductive WaitStage (id : Nat) (uri : String) (start deadline : Nat) (since : List (Moment D))
    (s : Session D) : Prop where
  | waiting (sub : Subscription) (task : s.task? id = some (.waiting uri sub deadline))
      (place : start ≤ sub.next)
  | listing (task : s.task? id = some (.listing (.list uri)))
      (come : deadline ≤ s.now ∨ HasCome uri since)
      (mail : forall lists, s.mail? id = some (.diagnostics lists) ->
        exists list, lists = [(uri, list)] ∧ (deadline ≤ s.now ∨ HasFound id uri list since))
  | returned (list : List Json) (task : s.task? id = some (.done (.ok (.list list))))
      (found : deadline ≤ s.now ∨ HasFound id uri list since)
  | failed (e : Failure) (task : s.task? id = some (.done (.error e)))

theorem WaitStage.same_of_waiting {id start deadline deadline' : Nat} {uri uri' : String}
    {since : List (Moment D)} {s : Session D} {sub : Subscription}
    (h : WaitStage id uri start deadline since s)
    (htask : s.task? id = some (.waiting uri' sub deadline')) :
    uri' = uri ∧ deadline' = deadline := by
  cases h with
  | waiting sub' task place =>
      cases htask.symm.trans task
      exact ⟨rfl, rfl⟩
  | listing task come mail => cases htask.symm.trans task
  | returned list task found => cases htask.symm.trans task
  | failed e task => cases htask.symm.trans task

theorem WaitStage.found_of_returned {id start deadline : Nat} {uri : String}
    {since : List (Moment D)} {s : Session D} {value : Value}
    (h : WaitStage id uri start deadline since s)
    (htask : s.task? id = some (.done (.ok value))) :
    exists list, value = .list list ∧ (deadline ≤ s.now ∨ HasFound id uri list since) := by
  cases h with
  | waiting sub task place => cases htask.symm.trans task
  | listing task come mail => cases htask.symm.trans task
  | returned list task found =>
      cases htask.symm.trans task
      exact ⟨list, rfl, found⟩
  | failed e task => cases htask.symm.trans task

theorem WaitStage.stays {id start deadline : Nat} {uri : String} {since : List (Moment D)}
    {s u : Session D} {m : Moment D} (h : WaitStage id uri start deadline since s)
    (htask : u.task? id = s.task? id) (hnow : s.now ≤ u.now)
    (hmail : forall lists, u.mail? id = some (.diagnostics lists) ->
      s.mail? id = some (.diagnostics lists) ∨ exists k list, lists = [(uri, list)] ∧
        m.Looks id k uri list) :
    WaitStage id uri start deadline (since ++ [m]) u := by
  have hlate {P Q : Prop} (hPQ : P -> Q) (h : deadline ≤ s.now ∨ P) : deadline ≤ u.now ∨ Q :=
    h.imp (fun hle => Nat.le_trans hle hnow) hPQ
  cases h with
  | waiting sub task place => exact .waiting sub (htask.trans task) place
  | listing task come mail =>
      refine .listing (htask.trans task)
        (hlate (HasCome.append · _) come) fun lists hlists => ?_
      rcases hmail lists hlists with hold | ⟨k, list, heq, hlooks⟩
      · rcases mail lists hold with ⟨list, heq, hfound⟩
        exact ⟨list, heq, hlate (HasFound.append · _) hfound⟩
      · exact ⟨list, heq, hlate (fun hcome => ⟨since, m, [], k, rfl, hcome, hlooks⟩) come⟩
  | returned list task found =>
      exact .returned list (htask.trans task) (hlate (HasFound.append · _) found)
  | failed e task => exact .failed e (htask.trans task)

theorem come_of_announces {s : Session D} {since : List (Moment D)} {older : List Event}
    {uri : String} {sub : Subscription} (hplace : older.length ≤ sub.next)
    (hlog : s.bus.log.toList = older ++ since.flatMap Moment.events)
    (h : s.Announces uri sub) :
    HasCome uri since := by
  rcases h with ⟨version, count, hevent⟩
  have hread := EventBus.event_of_receive hevent
  rw [hlog, List.getElem?_append_right hplace] at hread
  rcases List.mem_flatMap.mp (List.mem_of_getElem? hread) with ⟨d, hd, hpublished⟩
  rcases d.publication_of_event hpublished with ⟨j, params, hpublishes⟩
  exact ⟨d, j, params, hd, hpublishes⟩

theorem WaitStep.stage {s : Session D} {since : List (Moment D)} {older : List Event}
    {id deadline : Nat} {uri : String} {sub : Subscription} {e : Effect D} {call : Call}
    (h : WaitStep s uri sub deadline e) (hcall : s.call? id = some call)
    (hplace : older.length ≤ sub.next)
    (hlog : s.bus.log.toList = older ++ since.flatMap Moment.events) :
    WaitStage id uri older.length deadline since (s.undergo id [e]) := by
  have hlt := lt_of_call? hcall
  cases h with
  | waits =>
      refine .waiting _ (undergo_task?_self hlt rfl) ?_
      exact Nat.le_trans hplace (s.bus.le_next_receive sub)
  | looks k reason =>
      refine .listing (undergo_task?_self hlt rfl) ?_ fun lists hmail => ?_
      · rw [undergo_now]
        exact reason.symm.imp And.right (come_of_announces hplace hlog)
      · -- The question has only just been asked.
        cases mail?_ask_self hcall k _ _ hmail
  | fails e reason => exact .failed e (undergo_task?_self hlt rfl)

theorem WaitStep.brings {s : Session D} {id deadline : Nat} {uri : String} {sub : Subscription}
    {e : Effect D} (h : WaitStep s uri sub deadline e) {k : Nat} {command : Command}
    {t : Ticket} (hbrings : e.Brings id k command) (hticket : command.ticket? = some t) :
    command = .diagnostics (some uri) t := by
  cases h with
  | waits => exact hbrings.elim
  | looks j reason =>
      rcases hbrings with ⟨_, serial, rfl⟩
      cases hticket
      rfl
  | fails e reason => exact hbrings.elim

structure AwaitsDiagnostics (id : Nat) (uri : String) (start deadline : Nat)
    (since : List (Moment D)) (s : Session D) : Prop where
  stage : WaitStage id uri start deadline since s
  asks : forall k command t, command ∈ s.waiting k -> command.ticket? = some t ->
    t.call = id ->
    command = .diagnostics (some uri) t

namespace AwaitsDiagnostics

variable [FileSystem D] {s u : Session D} {a : Action} {id start deadline : Nat} {uri : String}
  {since : List (Moment D)}

omit [FileSystem D] in
theorem lt (h : AwaitsDiagnostics id uri start deadline since s) : id < s.calls.length := by
  have hlt {task : Task} (htask : s.task? id = some task) : id < s.calls.length := by
    rcases Option.map_eq_some_iff.mp htask with ⟨call, hcall, _⟩
    exact lt_of_call? hcall
  cases h.stage with
  | waiting sub task place => exact hlt task
  | listing task come mail => exact hlt task
  | returned list task found => exact hlt task
  | failed e task => exact hlt task

theorem stays (h : AwaitsDiagnostics id uri start deadline since s) (hact : s.act a = some u)
    (hother : a ≠ .goOn id) :
    AwaitsDiagnostics id uri start deadline (since ++ [⟨s, a, u⟩]) u := by
  have hsame : u.task? id = s.task? id := by
    rcases task?_of_kind (kind_of_act hact) id with hsame | haction | ⟨hid, _⟩
    · exact hsame
    · exact absurd haction hother
    · exact absurd h.lt (Nat.not_lt_of_ge (Nat.le_of_eq hid.symm))
  constructor
  case stage =>
    refine h.stage.stays hsame (now_of_act hact ▸ Nat.le_add_right _ _) fun lists hmail => ?_
    rcases mail?_of_act hact hmail with hold | hdropped | ⟨t, hanswer, rfl⟩
    · exact Or.inl hold
    · contradiction
    · exact Or.inr (Moment.looks_of_answer
        (fun k command hmem hticket => h.asks k command t hmem hticket rfl) hanswer)
  case asks =>
    intro k command t hmem hticket hid
    exact h.asks k command t (waiting_of_other hact h.lt hother hmem hticket hid) hticket hid

theorem goesOn {older : List Event}
    (h : AwaitsDiagnostics id uri older.length deadline since s)
    (hlog : s.bus.log.toList = older ++ since.flatMap Moment.events)
    (hact : s.act (.goOn id) = some u) :
    AwaitsDiagnostics id uri older.length deadline (since ++ [⟨s, .goOn id, u⟩]) u := by
  suffices exists e : Effect D, u = s.undergo id [e] ∧
      WaitStage id uri older.length deadline since u ∧
      forall k command t, e.Brings id k command -> command.ticket? = some t ->
        command = .diagnostics (some uri) t by
    rcases this with ⟨e, hu, hstage, hbrings⟩
    refine ⟨hstage.stays rfl (Nat.le_refl _) fun lists => Or.inl, fun k command t hmem => ?_⟩
    rw [hu] at hmem
    rcases s.mem_waiting_undergo id [e] hmem with hold | ⟨e', he', h'⟩
    · exact h.asks k command t hold
    · cases List.mem_singleton.mp he'
      exact fun hticket _ => hbrings k command t h' hticket
  simp only [act, stepCall] at hact
  split at hact
  case h_2 => contradiction
  case h_1 call hcall =>
    have hlt := lt_of_call? hcall
    have hstands {task : Task} (htask : s.task? id = some task) : call.task = task :=
      Option.some.inj ((task?_of_call? hcall).symm.trans htask)
    cases h.stage with
    | waiting sub task place =>
        rw [hstands task] at hact
        rcases stepTask_waitStep hact with ⟨e, hstep, rfl⟩
        exact ⟨e, rfl, hstep.stage hcall place hlog, fun k command t => hstep.brings⟩
    | listing task come mail =>
        rw [hstands task] at hact
        rcases listing_ends hact with ⟨lists, hmail, rfl⟩ | ⟨e, rfl⟩
        · rcases mail lists (by rw [mail?, hcall]; exact hmail) with ⟨list, rfl, hfound⟩
          have hviewed :
              viewed s.settings.serverName [(uri, list)] (.list uri) = .list list := by
            simp [viewed, Table.find?]
          rw [hviewed]
          refine ⟨_, rfl, .returned list (undergo_task?_self hlt rfl) ?_, fun _ _ _ =>
            False.elim⟩
          rwa [undergo_now]
        · exact ⟨_, rfl, .failed e (undergo_task?_self hlt rfl), fun _ _ _ => False.elim⟩
    | returned list task found =>
        rw [hstands task, stepTask_done] at hact
        contradiction
    | failed e task =>
        rw [hstands task, stepTask_done] at hact
        contradiction

omit [FileSystem D] in
theorem touch (h : AwaitsDiagnostics id uri start deadline since s) (disk : D) :
    AwaitsDiagnostics id uri start deadline since
      { s with workspace := { s.workspace with disk } } := by
  refine ⟨?_, h.asks⟩
  cases h.stage with
  | waiting sub task place => exact .waiting sub task place
  | listing task come mail => exact .listing task come mail
  | returned list task found => exact .returned list task found
  | failed e task => exact .failed e task

theorem course {t : Session D} (h : AwaitsDiagnostics id uri t.bus.log.size deadline [] t)
    (course : Course t since s) :
    AwaitsDiagnostics id uri t.bus.log.size deadline since s := by
  induction course with
  | refl => exact h
  | touch course disk ih => exact ih.touch disk
  | @act moments u v course a ha ih =>
      by_cases haction : a = .goOn id
      · subst haction
        rw [← Array.length_toList] at ih ⊢
        exact ih.goesOn course.bus ha
      · exact ih.stays ha haction

end AwaitsDiagnostics

/-!
## Whole waits
-/

/-- At moment `v`, after the moments `first` since a call began, the call is given the list:
the connection that is alive looks up what it has on record for `uri`, after diagnostics for
`uri` have come in. Of those that this connection has taken in itself, and after which the
document has not been closed, the list is the last. -/
structure LooksUpAfresh (id k : Nat) (uri : String) (list : List Json)
    (first : List (Moment D)) (v : Moment D) : Prop where
  come : exists d j params, d ∈ first ∧ d.Publishes j uri params
  served : exists t, v.served? k = some (.diagnostics (some uri) t) ∧ t.call = id
  current : v.before.current = some k
  live : exists c, v.before.connection? k = some c ∧ c.isAlive = true ∧
    list = c.store.diagnosticsOf uri
  last : forall before d between params, first = before ++ d :: between ->
    d.Publishes k uri params -> (forall m, m ∈ between -> ¬ m.Closes k uri) ->
    Moment.LastOn k uri (d :: between) list

/-- How call `id` fares that is begun at moment `b` to wait for the
diagnostics of file `name`. -/
structure WaitsAfresh [FileSystem D] (id : Nat) (name : Text) (timeout : Nat) (b : Moment D)
    (since : List (Moment D)) (s : Session D) : Prop where
  /-- It waits for the diagnostics of this file, and goes on waiting until there is news of
  them, the connection ends or the time is up. -/
  waits : forall m uri sub deadline, m ∈ since ->
    m.before.task? id = some (.waiting uri sub deadline) ->
    b.before.documentUri name = .ok uri ∧
      deadline = b.before.now + max 100 (min timeout (5 * 60 * 1000)) ∧
      ((exists sub', m.after.task? id = some (.waiting uri sub' deadline)) ∨
        m.before.EndsWait uri sub deadline)
  /-- What it returns in time has been looked up afresh. -/
  returns : forall value, s.outcome? id = some (.ok value) ->
    s.now < b.before.now + max 100 (min timeout (5 * 60 * 1000)) ->
    exists uri list first v rest k, b.before.documentUri name = .ok uri ∧ value = .list list ∧
      since = first ++ v :: rest ∧ LooksUpAfresh id k uri list first v

section

variable [FileSystem D] {settings : Settings} {processId : Nat} {workspace : Workspace D}
  {moments past since : List (Moment D)} {s : Session D} {id : Nat} {name : Text}
  {timeout : Nat}

theorem Course.awaits_of_begin (course :
      Course (Session.new settings processId workspace) past s)
    (name : Text) (timeout : Nat) :
    (exists e, (s.beginCall (.waitForDiagnostics name timeout)).task? s.calls.length =
      some (.done (.error e))) ∨
      exists uri, s.documentUri name = .ok uri ∧
        AwaitsDiagnostics s.calls.length uri
          (s.beginCall (.waitForDiagnostics name timeout)).bus.log.size
          (s.now + Limit.requestTimeout timeout) []
          (s.beginCall (.waitForDiagnostics name timeout)) := by
  have hlt := s.calls_length_lt_addCall
  rcases s.begin_waitForDiagnostics name timeout with ⟨e, hu⟩ | ⟨uri, huri, hu⟩
  · refine Or.inl ⟨e, ?_⟩
    rw [hu]
    exact undergo_task?_self hlt rfl
  · refine Or.inr ⟨uri, huri, ?_⟩
    rw [hu, undergo_bus]
    refine ⟨.waiting s.bus.subscribe (undergo_task?_self hlt rfl) (Nat.le_refl _), ?_⟩
    intro k command t hmem hticket hid
    rcases s.addCall.mem_waiting_undergo _ _ hmem with hold | ⟨e, he, hbrings⟩
    · exact absurd (course.lt_of_waiting hold hticket) (hid ▸ Nat.lt_irrefl _)
    · cases List.mem_singleton.mp he
      exact hbrings.elim

theorem AwaitsDiagnostics.waits {start deadline : Nat} {uri : String} {m : Moment D}
    (h : AwaitsDiagnostics id uri start deadline since m.before)
    (hact : m.before.act m.action = some m.after) {uri' : String} {sub : Subscription}
    {deadline' : Nat} (htask : m.before.task? id = some (.waiting uri' sub deadline')) :
    uri' = uri ∧ deadline' = deadline ∧
      ((exists sub', m.after.task? id = some (.waiting uri sub' deadline)) ∨
        m.before.EndsWait uri sub deadline) := by
  rcases h.stage.same_of_waiting htask with ⟨rfl, rfl⟩
  refine ⟨rfl, rfl, ?_⟩
  rcases task?_of_kind (kind_of_act hact) id with hstays | haction | ⟨hid, _⟩
  · exact Or.inl ⟨sub, hstays.trans htask⟩
  · rw [haction] at hact
    simp only [act, stepCall] at hact
    split at hact
    case h_2 => contradiction
    case h_1 call hcall =>
      rw [Option.some.inj ((task?_of_call? hcall).symm.trans htask)] at hact
      rcases stepTask_waitStep hact with ⟨e, hstep, hu⟩
      cases hstep with
      | waits => exact Or.inl ⟨_, hu ▸ undergo_task?_self (lt_of_call? hcall) rfl⟩
      | looks k reason => exact Or.inr (reason.elim .announced .expired)
      | fails e reason => exact Or.inr reason
  · exact absurd h.lt (Nat.not_lt_of_ge (Nat.le_of_eq hid.symm))

/-- What has been found was on record, as the last that had come in. -/
theorem Course.looksUpAfresh {first rest : List (Moment D)} {v : Moment D} {k : Nat}
    {uri : String} {list : List Json}
    (course : Course (Session.new settings processId workspace) (past ++ first ++ v :: rest) s)
    (hcome : HasCome uri first) (hlooks : v.Looks id k uri list) :
    LooksUpAfresh id k uri list first v := by
  rcases course.split with ⟨hbefore, _, _⟩
  rcases hlooks.live with ⟨c, hc, halive, hlist⟩
  refine ⟨hcome, hlooks.served, ?_, hlooks.live, ?_⟩
  · exact hbefore.exclusive.alive k ((isAlive_of_connection? hc).trans halive)
  · rintro before d between params rfl hpublishes hopen
    rw [hlist]
    rw [← List.append_assoc] at hbefore
    exact hbefore.lastOn hc halive rfl hpublishes hopen

theorem Course.waitsAfresh {b : Moment D}
    (course : Course (Session.new settings processId workspace) (past ++ b :: since) s)
    (begins : b.action = .begin (.waitForDiagnostics name timeout)) :
    WaitsAfresh b.before.calls.length name timeout b since s := by
  rcases course.split with ⟨hpast, hact, hsince⟩
  have hbegun : b.after = b.before.beginCall (.waitForDiagnostics name timeout) := by
    rw [begins] at hact
    exact (Option.some.inj hact).symm
  have hlimit : Limit.requestTimeout timeout = max 100 (min timeout (5 * 60 * 1000)) :=
    Limit.clamp_eq (by decide) timeout
  have hawaits := hpast.awaits_of_begin name timeout
  rw [← hbegun, hlimit] at hawaits
  rcases hawaits with ⟨e, hfailed⟩ | ⟨uri, huri, hawaits⟩
  · have hdone {moments : List (Moment D)} {u : Session D} (h : Course b.after moments u) :
        u.task? b.before.calls.length = some (.done (.error e)) :=
      outcome?_eq_some.mp (h.reaches.outcome? (outcome?_eq_some.mpr hfailed))
    constructor
    case waits =>
      intro m uri sub deadline hm htask
      rcases List.append_of_mem hm with ⟨early, later, rfl⟩
      cases (hdone hsince.split.1).symm.trans htask
    case returns =>
      intro value hvalue
      cases (hdone hsince).symm.trans (outcome?_eq_some.mp hvalue)
  · constructor
    case waits =>
      intro m uri' sub deadline hm htask
      rcases List.append_of_mem hm with ⟨early, later, rfl⟩
      rcases hsince.split with ⟨hearly, hnext, _⟩
      rcases (hawaits.course hearly).waits hnext htask with ⟨rfl, rfl, hwaits⟩
      exact ⟨huri, rfl, hwaits⟩
    case returns =>
      intro value hvalue htime
      have hstage := (hawaits.course hsince).stage
      rcases hstage.found_of_returned (outcome?_eq_some.mp hvalue) with ⟨list, hlist, hfound⟩
      rcases hfound with hlate | ⟨first, v, rest, k, rfl, hcome, hlooks⟩
      · exact absurd htime (Nat.not_lt_of_ge hlate)
      · refine ⟨uri, list, first, v, rest, k, huri, hlist, rfl, ?_⟩
        rw [List.append_cons past b, ← List.append_assoc] at course
        exact course.looksUpAfresh hcome hlooks

/-- Waiting for the diagnostics of a file is neither stale nor early: what is returned
before the deadline was looked up on the live connection after diagnostics for this very
file had come in, and nothing about other files ends the wait. -/
theorem course_waitsAfresh
    (course : Course (Session.new settings processId workspace) moments s)
    (began : Began moments id (.waitForDiagnostics name timeout)) :
    exists past b since, moments = past ++ b :: since ∧
      b.action = .begin (.waitForDiagnostics name timeout) ∧ b.before.calls.length = id ∧
      WaitsAfresh id name timeout b since s := by
  rcases began.split with ⟨past, b, since, rfl, begins, hid⟩
  rw [course.split.1.length_begun] at hid
  subst hid
  exact ⟨past, b, since, rfl, begins, rfl, course.waitsAfresh begins⟩

end

/-!
## A wait between other files
-/

/-- While a call waits for the diagnostics of one file, those of another file come first. -/
def listening : List Action :=
  opening ++ [.begin (.waitForDiagnostics ['f'] 1000),
    .receive 0 (framed ("\x7b\"method\":\"textDocument/publishDiagnostics\"," ++
      "\"params\":\x7b\"uri\":\"file:///w/g\",\"diagnostics\":[1]\x7d\x7d")),
    .takeIn 0, .goOn 1,
    .receive 0 (framed ("\x7b\"method\":\"textDocument/publishDiagnostics\"," ++
      "\"params\":\x7b\"uri\":\"file:///w/f\",\"diagnostics\":[2]\x7d\x7d")),
    .takeIn 0, .goOn 1, .serve 0, .goOn 1]

def listed? (s : Session D) (id : Nat) : Option (List Json) :=
  match s.outcome? id with
  | some (.ok (.list list)) => some list
  | _ => none

theorem outcome?_of_listed? {s : Session D} {id : Nat} {list : List Json}
    (h : s.listed? id = some list) : s.outcome? id = some (.ok (.list list)) := by
  rw [listed?] at h
  split at h
  case h_1 other houtcome =>
    cases h
    exact houtcome
  case h_2 => contradiction

theorem course_waitsAfresh_listening :
    exists moments s,
      Course (Session.new roomy 0 (Workspace.new (.ofString "/w") (shelf "a\n"))) moments s ∧
      Began moments 1 (.waitForDiagnostics ['f'] 1000) ∧
      s.outcome? 1 = some (.ok (.list [.int 2])) ∧ s.now = 0 ∧
      exists past b since, moments = past ++ b :: since ∧
        b.action = .begin (.waitForDiagnostics ['f'] 1000) ∧ b.before.calls.length = 1 ∧
        WaitsAfresh 1 ['f'] 1000 b since s := by
  have hcourse : ((Session.new roomy 0 (Workspace.new (.ofString "/w") (shelf "a\n"))).play
      (listening.map .inr)).map (fun (moments, s) =>
        (s.listed? 1, s.now, (begun moments)[1]?)) =
      some (some [.int 2], 0, some (.waitForDiagnostics ['f'] 1000)) := by
    decide +kernel
  rcases exists_course_of_play hcourse with ⟨moments, s, course, heq⟩
  simp only [Prod.mk.injEq] at heq
  rcases heq with ⟨hlist, hnow, hbegan⟩
  exact ⟨moments, s, course, hbegan, outcome?_of_listed? hlist, hnow,
    course_waitsAfresh course hbegan⟩

end Session
end LanguageClient

import LanguageClient.Proofs.Message.Diagnostics
import LanguageClient.Proofs.Session.Exclusion
import LanguageClient.Proofs.Session.Progress
import LanguageClient.Proofs.Session.SyncedEndings

/-!
# Looking diagnostics up

A call that wants to see diagnostics asks the connection that is ready. When its
question is served, it is told what the connection has on record then, and that is what
it makes its answer of.
-/

namespace LanguageClient

variable {D : Type}

def DocumentStore.listed (store : DocumentStore) : Option String -> List (String × List Json)
  | some uri => [(uri, store.diagnosticsOf uri)]
  | none => store.diagnostics.entries

namespace Moment

/-- Connection `k`, which is alive, tells call `id` at this moment what it has on record. -/
structure Tells (id k : Nat) (uri : Option String) (lists : List (String × List Json))
    (v : Moment D) : Prop where
  served : exists t, v.served? k = some (.diagnostics uri t) ∧ t.call = id
  live : exists c, v.before.connection? k = some c ∧ c.isAlive = true ∧
    lists = c.store.listed uri

theorem tells_of_answer {m : Moment D} {t : Ticket} {uri : Option String}
    {lists : List (String × List Json)}
    (hasks : forall k command, command ∈ m.before.waiting k -> command.ticket? = some t ->
      command = .diagnostics uri t) (h : (t, .diagnostics lists) ∈ m.answers) :
    exists k, .diagnostics uri t ∈ m.before.waiting k ∧ m.Tells t.call k uri lists := by
  rcases served_of_answer h rfl with ⟨k, c, rest, command, hc, halive, hserved, hticket, _,
    hserve⟩
  have hwaits := waiting_of_served? hserved
  cases hasks k command hwaits hticket
  refine ⟨k, hwaits, ⟨t, hserved, rfl⟩, c, hc, halive, ?_⟩
  cases uri <;>
    · cases congrArg Emitted.answers hserve
      rfl

structure TakesUp (id : Nat) (view : View) (lists : List (String × List Json)) (w : Moment D) :
    Prop where
  action : w.action = .goOn id
  stands : exists call, w.before.call? id = some call ∧ call.task = .listing view ∧
    call.mailbox = some (.diagnostics lists)

end Moment

namespace Session

variable [FileSystem D] {s u : Session D} {id k : Nat} {view : View}

/-- What waits at a connection for a call has waited before, unless the call takes a step. -/
theorem waiting_of_other {a : Action} (h : s.act a = some u) (hlt : id < s.calls.length)
    (hother : a ≠ .goOn id) {k : Nat} {command : Command} {t : Ticket}
    (hmem : command ∈ u.waiting k) (hticket : command.ticket? = some t) (hid : t.call = id) :
    command ∈ s.waiting k := by
  have hbrings {j : Nat} (hj : j ≠ id) {e : Effect D} (h : e.Brings j k command) : False := by
    cases e with
    | ask i question task =>
        rcases h with ⟨_, serial, rfl⟩
        cases (question.own ⟨j, serial⟩).symm.trans hticket
        exact hj hid
    | abandon i number => cases h.2 ▸ hticket
    | _ => exact h.elim
  cases hcall : Moment.ofCall (⟨s, a, u⟩ : Moment D) with
  | false =>
      rcases drifts_of_act h hcall k with ⟨_, hnone⟩ | ⟨c, c', hc, hc', hfades⟩
      · rw [waiting, show u.connection? k = none from hnone] at hmem
        contradiction
      · rw [waiting_of_connection? hc'] at hmem
        exact waiting_of_connection? hc ▸ hfades.kept hmem
  | true =>
      cases a with
      | begin op =>
          cases h
          rcases s.beginCall_effects op with ⟨effects, _, hafter⟩
          rw [hafter] at hmem
          rcases s.addCall.mem_waiting_undergo _ effects hmem with hold | ⟨e, _, he⟩
          · exact hold
          · exact (hbrings (Nat.ne_of_gt hlt) he).elim
      | goOn j =>
          rcases stepCall_effects h with ⟨_, effects, _, _, hafter⟩
          rw [hafter] at hmem
          rcases s.mem_waiting_undergo j effects hmem with hold | ⟨e, _, he⟩
          · exact hold
          · exact (hbrings (fun hj => hother (hj ▸ rfl)) he).elim
      | _ => contradiction

theorem Course.lt_of_waiting {settings : Settings} {processId : Nat} {workspace : Workspace D}
    {past : List (Moment D)}
    (course : Course (Session.new settings processId workspace) past s)
    {command : Command} {t : Ticket} (hmem : command ∈ s.waiting k)
    (hticket : command.ticket? = some t) : t.call < s.calls.length := by
  have hheld : 0 < s.holdings t := holdings_pos_of_waiting hmem hticket
  rcases course.ticketed.issued t (Nat.lt_of_lt_of_le hheld (Nat.le_add_right _ _)) with
    ⟨call, hcall, _⟩
  exact lt_of_call? hcall

/-!
## Single steps
-/

omit [FileSystem D] in
theorem mem_waiting_ask {call : Call} (hcall : s.call? id = some call)
    (halive : s.isAlive k = true) (question : Ticket -> Command) (task : Task) :
    question ⟨id, call.serial + 1⟩ ∈ (s.ask id k question task).waiting k := by
  have hasked := connection?_ask hcall k question task k
  cases hc : s.connection? k with
  | none => cases (isAlive_of_absent hc).symm.trans halive
  | some c =>
      rw [hc, Option.map_some, if_pos ⟨(isAlive_of_connection? hc).symm.trans halive,
        rfl⟩] at hasked
      rw [waiting_of_connection? hasked]
      exact List.mem_append_right _ List.mem_cons_self

omit [FileSystem D] in
theorem begin_looksUp {op : Operation} (views : Views s op view) (id : Nat) :
    exists e, LooksUp s view e ∧ s.begin id op = s.undergo id [e] := by
  cases views with
  | list name uri named =>
      simp only [begin, named]
      cases hready : s.ready? with
      | none => exact ⟨_, .fails hready, rfl⟩
      | some k => exact s.list_looksUp id (.list uri)
  | all | allItems => exact s.list_looksUp id _
  | items name path found =>
      simp only [begin, found]
      exact s.list_looksUp id _

theorem listing_ends {call : Call} (h : s.stepTask id call (.listing view) = some u) :
    (exists lists, call.mailbox = some (.diagnostics lists) ∧
      u = s.undergo id [.finish (.ok (viewed s.settings.serverName lists view))]) ∨
      exists e, u = s.undergo id [.finish (.error e)] := by
  rcases stepTask_userStep rfl h with ⟨effects, step, hu⟩
  cases step with
  | listed _ lists heard => exact Or.inl ⟨lists, heard, hu⟩
  | notListed => exact Or.inr ⟨_, hu⟩

/-!
## Stages of a lookup
-/

def HasTold (id k : Nat) (view : View) (lists : List (String × List Json))
    (moments : List (Moment D)) : Prop :=
  exists v, v ∈ moments ∧ v.Tells id k view.uri? lists

def HasListed (id k : Nat) (view : View) (lists : List (String × List Json))
    (moments : List (Moment D)) : Prop :=
  exists first w rest, moments = first ++ w :: rest ∧ HasTold id k view lists first ∧
    w.TakesUp id view lists

/-- How far call `id` has come, which has asked connection `k` for what a view shows. -/
inductive ListStage (id k : Nat) (view : View) (since : List (Moment D)) (s : Session D) :
    Prop where
  | asked (task : s.task? id = some (.listing view))
      (mail : forall lists, s.mail? id = some (.diagnostics lists) ->
        HasTold id k view lists since)
  | returned (lists : List (String × List Json))
      (task : s.task? id = some (.done (.ok (viewed s.settings.serverName lists view))))
      (listed : HasListed id k view lists since)
  | failed (e : Failure) (task : s.task? id = some (.done (.error e)))

structure LooksUpAt (id k : Nat) (view : View) (since : List (Moment D)) (s : Session D) :
    Prop where
  stage : ListStage id k view since s
  asks : forall j command t, command ∈ s.waiting j -> command.ticket? = some t ->
    t.call = id -> j = k ∧ command = .diagnostics view.uri? t

namespace LooksUpAt

variable {a : Action} {since : List (Moment D)}

omit [FileSystem D] in
theorem lt (h : LooksUpAt id k view since s) : id < s.calls.length := by
  have hlt {task : Task} (htask : s.task? id = some task) : id < s.calls.length := by
    rcases Option.map_eq_some_iff.mp htask with ⟨call, hcall, _⟩
    exact lt_of_call? hcall
  cases h.stage with
  | asked task | returned _ task | failed _ task => exact hlt task

theorem act (h : LooksUpAt id k view since s) (hact : s.act a = some u) :
    LooksUpAt id k view (since ++ [⟨s, a, u⟩]) u := by
  by_cases hother : a = .goOn id
  case neg =>
    have htask {task : Task} (htask : s.task? id = some task) : u.task? id = some task :=
      task?_of_act hact htask hother
    refine ⟨?_, fun j command t hmem hticket hid =>
      h.asks j command t (waiting_of_other hact h.lt hother hmem hticket hid) hticket hid⟩
    cases h.stage with
    | asked task mail =>
        refine .asked (htask task) fun lists hlists => ?_
        rcases mail?_of_act hact hlists with hold | hdropped | ⟨t, hanswer, rfl⟩
        · rcases mail lists hold with ⟨v, hv, htells⟩
          exact ⟨v, List.mem_append_left _ hv, htells⟩
        · contradiction
        · have hasks (j : Nat) (command : Command) (hmem : command ∈ s.waiting j)
              (hticket : command.ticket? = some t) : command = .diagnostics view.uri? t :=
            (h.asks j command t hmem hticket rfl).2
          rcases Moment.tells_of_answer hasks hanswer with ⟨j, hwaits, htells⟩
          cases (h.asks j _ t hwaits rfl rfl).1
          exact ⟨_, List.mem_append_right _ List.mem_cons_self, htells⟩
    | returned lists task listed =>
        rcases listed with ⟨first, w, rest, rfl, htold, htakes⟩
        refine .returned lists ?_ ⟨first, w, rest ++ [⟨s, a, u⟩], by simp, htold, htakes⟩
        rw [settings_of_act hact]
        exact htask task
    | failed e task => exact .failed e (htask task)
  case pos =>
    subst hother
    cases h.stage with
    | asked task mail =>
        rcases Option.map_eq_some_iff.mp task with ⟨call, hcall, hstands⟩
        have hlt := lt_of_call? hcall
        have hasks {outcome : Outcome} (hu : u = s.undergo id [.finish outcome]) (j : Nat)
            (command : Command) (t : Ticket) (hmem : command ∈ u.waiting j)
            (hticket : command.ticket? = some t) (hid : t.call = id) :
            j = k ∧ command = .diagnostics view.uri? t := by
          rw [hu] at hmem
          rcases s.mem_waiting_undergo id _ hmem with hold | ⟨e, he, hbrings⟩
          · exact h.asks j command t hold hticket hid
          · cases List.mem_singleton.mp he
            exact hbrings.elim
        have hstep : s.stepTask id call (.listing view) = some u := by
          rw [← hact, act, stepCall, hcall, ← hstands]
        rcases listing_ends hstep with ⟨lists, hheard, hu⟩ | ⟨e, hu⟩
        · refine ⟨.returned lists ?_ ?_, hasks hu⟩
          · rw [settings_of_act hact, hu]
            exact undergo_task?_self hlt rfl
          · exact ⟨since, _, [], rfl, mail lists (by rw [mail?, hcall]; exact hheard),
              rfl, call, hcall, hstands, hheard⟩
        · exact ⟨.failed e (hu ▸ undergo_task?_self hlt rfl), hasks hu⟩
    | returned _ task => exact absurd hact (not_goOn_done task)
    | failed _ task => exact absurd hact (not_goOn_done task)

omit [FileSystem D] in
theorem touch (h : LooksUpAt id k view since s) (disk : D) :
    LooksUpAt id k view since { s with workspace := { s.workspace with disk } } := by
  refine ⟨?_, h.asks⟩
  cases h.stage with
  | asked task mail => exact .asked task mail
  | returned lists task listed => exact .returned lists task listed
  | failed e task => exact .failed e task

theorem course {t : Session D} (h : LooksUpAt id k view [] t) (course : Course t since s) :
    LooksUpAt id k view since s := by
  induction course with
  | refl => exact h
  | touch _ disk ih => exact ih.touch disk
  | act _ a ha ih => exact ih.act ha

/-- Wherever such a call has got to, it can come to its end by itself. -/
theorem exists_ended (h : LooksUpAt id k view since s) (hresponsive : s.Responsive) :
    exists more u outcome, Unaided id s more u ∧ u.outcome? id = some outcome := by
  cases h.stage with
  | returned lists task => exact ⟨[], s, _, .refl, outcome?_eq_some.mpr task⟩
  | failed e task => exact ⟨[], s, _, .refl, outcome?_eq_some.mpr task⟩
  | asked task =>
      rcases Option.map_eq_some_iff.mp task with ⟨call, hcall, hstands⟩
      rcases hresponsive.exists_hasMail hcall (by rw [hstands]; rfl) with
        ⟨more, t, unaided, call', hcall', hstands', hmail⟩
      rw [hstands] at hstands'
      have hgoes : exists u, t.act (.goOn id) = some u := by
        rcases call' with ⟨task', serial, mailbox, cancelled⟩
        dsimp only at hstands' hmail
        subst hstands'
        rcases Option.ne_none_iff_exists'.mp hmail with ⟨answer, rfl⟩
        simp only [Session.act, stepCall, hcall', stepTask]
        split
        case h_3 hnone => contradiction
        all_goals exact ⟨_, rfl⟩
      rcases hgoes with ⟨u, hact⟩
      have hstep : t.stepTask id call' (.listing view) = some u := by
        rw [← hact, Session.act, stepCall, hcall', ← hstands']
      have hfinishes : exists outcome, u = t.undergo id [.finish outcome] := by
        rcases listing_ends hstep with ⟨lists, -, hu⟩ | ⟨e, hu⟩
        · exact ⟨_, hu⟩
        · exact ⟨_, hu⟩
      rcases hfinishes with ⟨outcome, hu⟩
      have hdone : u.task? id = some (.done outcome) :=
        hu ▸ undergo_task?_self (lt_of_call? hcall') rfl
      exact ⟨_, u, outcome, unaided.append (.step hact (Or.inl rfl)),
        outcome?_eq_some.mpr hdone⟩

end LooksUpAt

/-!
## Whole lookups
-/

/-- How call `id` fares that is begun at moment `b` to see what a view shows. -/
structure SeesDiagnostics (id : Nat) (view : View) (b : Moment D) (since : List (Moment D))
    (s : Session D) : Prop where
  refused : b.before.ready? = none -> b.after.outcome? id = some (.error .notInitialized)
  asks : forall k, b.before.ready? = some k -> b.after.task? id = some (.listing view) ∧
    exists t, t.call = id ∧ .diagnostics view.uri? t ∈ b.after.waiting k
  returns : forall value, s.outcome? id = some (.ok value) ->
    exists k lists, b.before.ready? = some k ∧ HasListed id k view lists since ∧
      value = viewed s.settings.serverName lists view
  ends : exists more u outcome, Unaided id s more u ∧ u.outcome? id = some outcome

section

variable {settings : Settings} {processId : Nat} {workspace : Workspace D}
  {moments past since : List (Moment D)}

theorem Course.looksUpAt (course : Course (Session.new settings processId workspace) past s)
    (k : Nat) (view : View) :
    LooksUpAt s.calls.length k view []
      (s.addCall.undergo s.calls.length [.ask k (.diagnostics view.uri?)
        (.listing view)]) := by
  refine ⟨.asked (undergo_task?_self s.calls_length_lt_addCall rfl) fun lists hmail => ?_, ?_⟩
  · cases mail?_ask_self s.call?_addCall k _ _ hmail
  · intro j command t hmem hticket hid
    rcases s.addCall.mem_waiting_undergo _ _ hmem with hold | ⟨e, he, hbrings⟩
    · exact absurd (course.lt_of_waiting hold hticket) (hid ▸ Nat.lt_irrefl _)
    · cases List.mem_singleton.mp he
      rcases hbrings with ⟨rfl, serial, rfl⟩
      cases hticket
      exact ⟨rfl, rfl⟩

theorem Course.seesDiagnostics {b : Moment D} {op : Operation}
    (course : Course (Session.new settings processId workspace) (past ++ b :: since) s)
    (begins : b.action = .begin op) (views : Views b.before op view) :
    SeesDiagnostics b.before.calls.length view b since s := by
  rcases course.split with ⟨hpast, hact, hsince⟩
  have hbegun : b.before.beginCall op = b.after := by
    rw [begins] at hact
    exact Option.some.inj hact
  have hlt := b.before.calls_length_lt_addCall
  have hviews : Views b.before.addCall op view := by
    cases views with
    | list name uri named => exact .list name uri named
    | all => exact .all
    | items name path found => exact .items name path found
    | allItems => exact .allItems
  rcases begin_looksUp hviews b.before.calls.length with ⟨e, looks, hafter⟩
  replace hafter := hbegun.symm.trans hafter
  cases looks with
  | fails unready =>
      have hunready : b.before.ready? = none := unready
      have hfailed : b.after.outcome? b.before.calls.length = some (.error .notInitialized) :=
        outcome?_eq_some.mpr (hafter ▸ undergo_task?_self hlt rfl)
      have hstays := hsince.reaches.outcome? hfailed
      refine ⟨fun _ => hfailed, fun k hready => ?_, fun value hvalue => ?_, [], s, _, .refl,
        hstays⟩
      · cases hunready.symm.trans hready
      · cases hstays.symm.trans hvalue
  | asks k ready =>
      have hready : b.before.ready? = some k := ready
      have hasked := hpast.looksUpAt k view
      rw [← show b.after = b.before.addCall.undergo _ _ from hafter] at hasked
      have hlooks := hasked.course hsince
      refine ⟨fun hunready => ?_, fun j hj => ?_, fun value hvalue => ?_,
        hlooks.exists_ended course.responsive⟩
      · cases hunready.symm.trans hready
      · cases hready.symm.trans hj
        rcases (ready?_eq_some ready).2 with ⟨c, hc, halive, _⟩
        refine ⟨hafter ▸ undergo_task?_self hlt rfl, ⟨_, Call.fresh.serial + 1⟩, rfl, ?_⟩
        rw [hafter]
        exact mem_waiting_ask b.before.call?_addCall
          ((isAlive_of_connection? hc).trans halive) _ _
      · have htask := outcome?_eq_some.mp hvalue
        cases hlooks.stage with
        | asked task => cases task.symm.trans htask
        | returned lists task listed =>
            cases task.symm.trans htask
            exact ⟨k, lists, hready, listed, rfl⟩
        | failed e task => cases task.symm.trans htask

end

/-- A call that wants to see diagnostics asks the connection that is ready, comes to its
end, and returns what its view makes of all that this connection had on record when it
served the call. -/
theorem course_seesDiagnostics {settings : Settings} {processId : Nat}
    {workspace : Workspace D} {moments : List (Moment D)} {op : Operation}
    (course : Course (Session.new settings processId workspace) moments s)
    (began : Began moments id op) :
    exists past b since, moments = past ++ b :: since ∧ b.action = .begin op ∧
      b.before.calls.length = id ∧
      forall view, Views b.before op view -> SeesDiagnostics id view b since s := by
  rcases began.split with ⟨past, b, since, rfl, begins, hid⟩
  rw [course.split.1.length_begun] at hid
  subst hid
  exact ⟨past, b, since, rfl, begins, rfl, fun _ => course.seesDiagnostics begins⟩

/-- All items that a call returns are those of the complete entries that the connection
which was ready when the call began had on record when it served the call. -/
theorem course_flattens {settings : Settings} {processId : Nat} {workspace : Workspace D}
    {moments : List (Moment D)} {value : Value}
    (course : Course (Session.new settings processId workspace) moments s)
    (began : Began moments id .allDiagnosticItems)
    (hvalue : s.outcome? id = some (.ok value)) :
    exists past b since k v c t, moments = past ++ b :: since ∧
      b.action = .begin .allDiagnosticItems ∧
      b.before.ready? = some k ∧ v ∈ since ∧ v.served? k = some (.diagnostics none t) ∧
      t.call = id ∧
      v.before.connection? k = some c ∧ c.isAlive = true ∧
      exists items : List DiagnosticItem.Labelled, value = .items (items.map (·.item)) ∧
        (DiagnosticItem.AllShort c.store.diagnostics.entries ->
          DiagnosticItem.Flattens s.settings.serverName c.store.diagnostics.entries
          items) := by
  rcases course_seesDiagnostics course began with ⟨past, b, since, rfl, begins, -, hsees⟩
  rcases (hsees .allItems .allItems).returns value hvalue with ⟨k, lists, hready, hlisted, rfl⟩
  rcases hlisted with ⟨first, w, rest, rfl, ⟨v, hv, htells⟩, -⟩
  rcases htells.served with ⟨t, hserved, hid⟩
  rcases htells.live with ⟨c, hc, halive, rfl⟩
  refine ⟨past, b, _, k, v, c, t, rfl, begins, hready, List.mem_append_left _ hv, hserved,
    hid, hc, halive, _, viewed_allItems _ _, fun hshort =>
    DiagnosticItem.flattens_arranged hshort⟩

end Session
end LanguageClient

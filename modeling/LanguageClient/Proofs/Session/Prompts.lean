import LanguageClient.Proofs.Session.Drift

/-!
# Questions that are answered

Most questions are answered as soon as they are served, whatever the server does. A call
that has asked one of them does not wait in vain: the question is in the queue of a
connection, which can serve what stands before it; and a connection that no longer serves
anything can come to its end, where it drops whatever is left.
-/

namespace LanguageClient

def Command.isPrompt : Command -> Bool
  | .notify .. | .sync .. | .close .. | .isOpen .. | .diagnostics .. | .status _ => true
  | .request .. | .abandon _ | .terminate .. => false

def Task.listens : Task -> Bool
  | .notifying | .syncing _ | .closing | .listing _ | .counting _ | .checking ..
      | .saving .. => true
  | _ => false

namespace Connection

/-!
## The queue
-/

/-- A connection that is to see a process off has one, and nothing waits
for one that has ended. -/
structure IsOrderly (c : Connection) : Prop where
  process : forall t, c.phase.ticket? = some t -> c.process ≠ none
  queue : c.isAlive = false -> c.commands = []

/-- Between `c` and `c'`, a question stays in the queue unless it is answered. -/
structure Minds (c c' : Connection) (e : Emitted) : Prop where
  queue : forall command t, command ∈ c.commands -> command.isPrompt = true ->
    command.ticket? = some t -> command ∈ c'.commands ∨ exists a, (t, a) ∈ e.answers
  orderly : c.IsOrderly -> c'.IsOrderly

theorem isOrderly_new (launched : Bool) : (Connection.new launched).IsOrderly :=
  ⟨nofun, nofun⟩

section

variable {now : Nat} {c c' : Connection} {e : Emitted}

theorem IsOrderly.used (h : c.IsOrderly) (hused : Used c c') : c'.IsOrderly where
  process t ht := by
    rw [hused.phase] at ht
    exact h.process t ht ∘ hused.process
  queue hdead := by
    rw [hused.isAlive] at hdead
    rw [hused.refuses hdead]
    exact h.queue hdead

theorem minds_of_same (hphase : c'.phase = c.phase) (hcommands : c'.commands = c.commands)
    (hprocess : c'.process = none -> c.process = none) : Minds c c' e where
  queue command t hmem _ _ := Or.inl (hcommands ▸ hmem)
  orderly h := by
    constructor
    · intro t ht
      exact h.process t (hphase ▸ ht) ∘ hprocess
    · intro hdead
      rw [isAlive, hphase, ← isAlive] at hdead
      exact hcommands.trans (h.queue hdead)

theorem teardown_minds {b : Connection} (hcommands : b.commands = c.commands)
    (code : Option Int) : Minds c (b.teardown code).1 (b.teardown code).2 where
  queue command t hmem _ hticket := by
    refine Or.inr ⟨.dropped, List.mem_append_right _ (List.mem_map.mpr ⟨t, ?_, rfl⟩)⟩
    exact List.mem_filterMap.mpr ⟨command, hcommands ▸ hmem, hticket⟩
  orderly _ := ⟨nofun, fun _ => rfl⟩

theorem teardownFor_minds {b : Connection}
    (hcommands : forall command, command ∈ c.commands -> command.isPrompt = true ->
      command ∈ b.commands) (t : Ticket) (code : Option Int) :
    Minds c (b.teardownFor t code).1 (b.teardownFor t code).2 where
  queue command t' hmem hprompt hticket := by
    rcases (teardown_minds (rfl : b.commands = b.commands) code).queue command t'
      (hcommands command hmem hprompt) hprompt hticket with hkept | ⟨a, ha⟩
    · exact absurd hkept List.not_mem_nil
    · exact Or.inr ⟨a, List.mem_cons_of_mem _ ha⟩
  orderly _ := ⟨nofun, fun _ => rfl⟩

theorem serve_answers {command : Command} {t : Ticket} (hprompt : command.isPrompt = true)
    (hticket : command.ticket? = some t) :
    exists a, (t, a) ∈ (serve now c command).2.answers := by
  cases command with
  | notify message t' =>
      cases hticket
      exact ⟨_, List.mem_singleton.mpr rfl⟩
  | sync input t' =>
      cases hticket
      rcases hsync : c.store.sync input with ⟨store, synced, _ | message⟩
      · exact ⟨_, by simp only [serve, hsync]; exact List.mem_singleton.mpr rfl⟩
      · exact ⟨_, by simp only [serve, hsync]; exact List.mem_singleton.mpr rfl⟩
  | close uri t' =>
      cases hticket
      rcases hclose : c.store.close uri with ⟨store, _ | message⟩
      · exact ⟨_, by simp only [serve, hclose]; exact List.mem_singleton.mpr rfl⟩
      · exact ⟨_, by simp only [serve, hclose]; exact List.mem_singleton.mpr rfl⟩
  | isOpen uri t' =>
      cases hticket
      exact ⟨_, List.mem_singleton.mpr rfl⟩
  | diagnostics uri t' =>
      cases hticket
      cases uri <;> exact ⟨_, List.mem_singleton.mpr rfl⟩
  | status t' =>
      cases hticket
      exact ⟨_, List.mem_singleton.mpr rfl⟩
  | _ => contradiction

end

theorem serve_minds (now : Nat) {c : Connection} {command : Command} {rest : List Command}
    (hphase : c.phase = .serving) (hcommands : c.commands = command :: rest) :
    Minds c (serve now { c with commands := rest } command).1
      (serve now { c with commands := rest } command).2 := by
  have hrest {first : Command} (hmem : first ∈ c.commands) (hne : first ≠ command) :
      first ∈ rest := by
    rw [hcommands] at hmem
    exact (List.mem_cons.mp hmem).resolve_left hne
  by_cases hend : exists force t, command = .terminate force t
  · rcases hend with ⟨force, t, rfl⟩
    have hkept (first : Command) (hmem : first ∈ c.commands)
        (hprompt : first.isPrompt = true) : first ∈ rest := by
      refine hrest hmem fun heq => ?_
      subst heq
      contradiction
    simp only [serve]
    split
    case h_1 => exact teardownFor_minds hkept t none
    case h_2 process held =>
      constructor
      · exact fun first t' hmem hprompt _ => Or.inl (hkept first hmem hprompt)
      · intro _
        refine ⟨fun t' _ => ?_, fun hdead => ?_⟩
        · dsimp only at held ⊢
          rw [held]
          exact Option.some_ne_none process
        · contradiction
  · have hstays := serve_stays now { c with commands := rest } fun force t heq =>
      hend ⟨force, t, heq⟩
    constructor
    · intro first t hmem hprompt hticket
      by_cases heq : first = command
      · subst heq
        exact Or.inr (serve_answers hprompt hticket)
      · exact Or.inl (hstays.commands ▸ hrest hmem heq)
    · intro _
      constructor
      · intro t ht
        rw [hstays.phase, hphase] at ht
        contradiction
      · intro hdead
        rw [isAlive, hstays.phase, hphase] at hdead
        contradiction

theorem dispatch_minds (folder : String × String) {c b : Connection}
    (hphase : b.phase = c.phase) (hcommands : b.commands = c.commands)
    (hprocess : b.process = c.process) (message : Json) :
    Minds c (dispatch folder b message).1 (dispatch folder b message).2 := by
  have hstays := dispatch_stays folder b message
  exact minds_of_same (hstays.phase.trans hphase) (hstays.commands.trans hcommands)
    fun hnone => hprocess ▸ hstays.process hnone

theorem Retires.minds {now : Nat} {c c' : Connection} {e : Emitted} (h : Retires now c c' e) :
    Minds c c' e := by
  cases h with
  | reaps | drains =>
      exact ⟨fun _ _ hmem _ _ => Or.inl hmem, fun _ => ⟨nofun, nofun⟩⟩
  | signals force t deadline phase | kills force t deadline phase =>
      refine ⟨fun _ _ hmem _ _ => Or.inl hmem, fun horderly => ⟨fun _ _ => ?_, nofun⟩⟩
      exact horderly.process t (by rw [phase]; rfl)
  | closes b code reason => exact teardown_minds reason.same.1 code
  | parts code _ t => exact teardownFor_minds (fun _ hmem _ => hmem) t code

end Connection

namespace Session

variable {D : Type}

/-- Whatever step a connection takes, it minds the questions in its queue. -/
theorem minds_of_connectionStep? {s : Session D} {a : Action} {k : Nat}
    {step : Connection -> Option (Connection × Emitted)} {c c' : Connection} {e : Emitted}
    (haction : s.connectionStep? a = some (k, step)) (h : step c = some (c', e)) :
    Connection.Minds c c' e := by
  cases a with
  | serve =>
      cases haction
      rcases Connection.stepCommand_serves h with ⟨command, rest, _, hphase, hcommands, hserve⟩
      have hminds := Connection.serve_minds s.now hphase hcommands
      rwa [hserve] at hminds
  | takeIn =>
      cases haction
      rcases Connection.stepInbound_cases h with ⟨message, rest, _, _, _, hdispatch⟩
        | ⟨_, hretires⟩
      · have hminds := Connection.dispatch_minds s.folder (c := c)
          (b := { c with inbound := rest }) rfl rfl rfl message
        rwa [hdispatch] at hminds
      · exact hretires.minds
  | noticeExit =>
      cases haction
      exact (Connection.stepExit_retires h).minds
  | expire =>
      cases haction
      exact (Connection.stepDeadline_retires h).minds
  | _ => contradiction

end Session

/-!
## Steps of calls
-/

def Effect.IsApt {D : Type} : Effect D -> Prop
  | .rest task => task.listens = false
  | .ask _ question task =>
    task.listens = true -> forall t, (question.command t).isPrompt = true
  | _ => True

namespace Session

section

variable {D : Type} {s : Session D} {e : Effect D} {effects : List (Effect D)}

theorem Continues.isApt {job : EditJob} {result : FileEditResult}
    (h : Continues job result e) :
    e.IsApt := by
  cases h with
  | next => exact rfl
  | last => trivial

theorem ChecksOpen.isApt {job : EditJob} {result : FileEditResult}
    (h : ChecksOpen s job result e) : e.IsApt := by
  cases h with
  | asks => exact fun _ _ => rfl
  | continues _ _ continues => exact continues.isApt

theorem FailsSync.isApt {failure : Failure} {next : AfterSync} (h : FailsSync failure next e) :
    e.IsApt := by
  cases h with
  | answer | ask => trivial
  | save _ _ _ continues => exact continues.isApt

theorem StartsSync.isApt {name : Text} {next : AfterSync} (h : StartsSync s name next e) :
    e.IsApt := by
  cases h with
  | reads => exact rfl
  | fails _ _ fails => exact fails.isApt

theorem EndsSync.apt {synced : SyncedDocument} {next : AfterSync}
    (h : EndsSync s synced next effects) : forall e, e ∈ effects -> e.IsApt := by
  cases h with
  | answer | asksNobody => exact List.forall_mem_singleton.mpr trivial
  | asks => exact List.forall_mem_cons.mpr ⟨trivial, List.forall_mem_singleton.mpr nofun⟩
  | saves => exact List.forall_mem_singleton.mpr fun _ _ => rfl
  | continues _ _ _ _ continues => exact List.forall_mem_singleton.mpr continues.isApt

theorem LooksUp.isApt {view : View} (h : LooksUp s view e) : e.IsApt := by
  cases h with
  | asks => exact fun _ _ => rfl
  | fails => trivial

theorem OpeningStep.apt {op : Operation} (h : OpeningStep s op effects) :
    forall e, e ∈ effects -> e.IsApt := by
  cases h with
  | asks => exact List.forall_mem_cons.mpr ⟨trivial, List.forall_mem_singleton.mpr nofun⟩
  | notifies | closes | counts => exact List.forall_mem_singleton.mpr fun _ _ => rfl
  | syncs _ _ starts | queries _ _ _ starts => exact List.forall_mem_singleton.mpr starts.isApt
  | looksUp _ _ _ _ looks => exact List.forall_mem_singleton.mpr looks.isApt
  | waits | edits | editsFirst => exact List.forall_mem_singleton.mpr rfl
  | _ => exact List.forall_mem_singleton.mpr trivial

theorem UserStep.apt [FileSystem D] {call : Call} {task : Task}
    (h : UserStep s call task effects) : forall e, e ∈ effects -> e.IsApt := by
  cases h with
  | withdraws | gaveUp =>
      exact List.forall_mem_cons.mpr ⟨trivial, List.forall_mem_singleton.mpr trivial⟩
  | reads | overhears | missed => exact List.forall_mem_singleton.mpr rfl
  | hands => exact List.forall_mem_singleton.mpr fun _ _ => rfl
  | cannotRead _ _ _ _ _ _ fails | syncRefused _ _ _ _ fails | notSynced _ _ _ _ _ fails =>
      exact List.forall_mem_singleton.mpr fails.isApt
  | synced _ _ _ _ ends => exact ends.apt
  | announced _ _ _ _ _ _ _ looks | expired _ _ _ _ _ _ looks =>
      exact List.forall_mem_singleton.mpr looks.isApt
  | edits => exact List.forall_mem_cons.mpr ⟨trivial, List.forall_mem_singleton.mpr rfl⟩
  | edited _ _ _ _ _ _ _ checks =>
      exact List.forall_mem_cons.mpr ⟨trivial, List.forall_mem_singleton.mpr checks.isApt⟩
  | leftAlone _ _ _ _ _ _ _ continues =>
      exact List.forall_mem_cons.mpr ⟨trivial, List.forall_mem_singleton.mpr continues.isApt⟩
  | isOpen _ _ _ _ starts => exact List.forall_mem_singleton.mpr starts.isApt
  | notOpen _ _ _ _ _ _ continues | saved _ _ _ _ _ continues =>
      exact List.forall_mem_singleton.mpr continues.isApt
  | _ => exact List.forall_mem_singleton.mpr trivial

theorem apt_forgetting (s : Session D) : forall e, e ∈ s.forgetting -> e.IsApt := by
  intro e he
  rw [forgetting_eq_reset he]
  trivial

theorem GivesUp.apt {k number : Nat} (h : GivesUp k number effects) :
    forall e, e ∈ effects -> e.IsApt := by
  rcases h with rfl | rfl
  · exact List.forall_mem_nil _
  · exact List.forall_mem_singleton.mpr trivial

theorem LifecycleStep.apt {id : Nat} {call : Call} {task : Task}
    (h : LifecycleStep s id call task effects) : forall e, e ∈ effects -> e.IsApt := by
  cases h with
  | alreadyRunning | nothingToStop => exact List.forall_mem_singleton.mpr trivial
  | refused =>
      exact List.forall_mem_append.mpr ⟨s.apt_forgetting,
        List.forall_mem_singleton.mpr trivial⟩
  | launched =>
      exact List.forall_mem_append.mpr ⟨s.apt_forgetting, List.forall_mem_cons.mpr ⟨trivial,
        List.forall_mem_cons.mpr ⟨trivial, List.forall_mem_singleton.mpr nofun⟩⟩⟩
  | introduced | notAnnounced | cutShort =>
      exact List.forall_mem_cons.mpr ⟨trivial, List.forall_mem_singleton.mpr nofun⟩
  | notIntroduced _ _ _ _ _ givesUp =>
      exact List.forall_mem_append.mpr ⟨givesUp.apt,
        List.forall_mem_cons.mpr ⟨trivial, List.forall_mem_singleton.mpr nofun⟩⟩
  | announced | aborted | alreadyEnded | stopped =>
      exact List.forall_mem_cons.mpr ⟨trivial, List.forall_mem_singleton.mpr trivial⟩
  | askedToShutDown =>
      exact List.forall_mem_cons.mpr ⟨trivial,
        List.forall_mem_cons.mpr ⟨trivial, List.forall_mem_singleton.mpr nofun⟩⟩
  | sentExit _ _ _ _ _ givesUp =>
      exact List.forall_mem_append.mpr ⟨givesUp.apt, List.forall_mem_singleton.mpr nofun⟩
  | exited => exact List.forall_mem_singleton.mpr nofun

end

/-!
## No call waits in vain
-/

section

variable {D : Type}

def Asked (s : Session D) (k : Nat) (t : Ticket) : Prop :=
  exists c command, s.connection? k = some c ∧ command ∈ c.commands ∧
    command.isPrompt = true ∧ command.ticket? = some t

def Heard (s : Session D) : Prop :=
  forall id call, s.call? id = some call -> call.task.listens = true -> call.mailbox = none ->
    exists k, s.Asked k ⟨id, call.serial⟩

/-- Every answer that a call listens for can come. -/
structure Responsive (s : Session D) : Prop where
  heard : s.Heard
  orderly : forall k c, s.connection? k = some c -> c.IsOrderly

variable {s u : Session D} {id : Nat}

theorem Asked.apply {k : Nat} {t : Ticket} (h : s.Asked k t) (hid : id < s.calls.length)
    (e : Effect D) : (e.apply id s).Asked k t := by
  rcases h with ⟨c, command, hc, hmem, hprompt, hticket⟩
  rcases apply_connection? hid e hc with ⟨c', hc', hused, _⟩
  exact ⟨c', command, hc', hused.kept hmem, hprompt, hticket⟩

theorem Heard.of_calls (h : s.Heard) (hcalls : u.calls = s.calls)
    (hasked : forall k t, s.Asked k t -> u.Asked k t) : u.Heard := by
  intro id call hcall hlistens hmail
  have hbefore : s.call? id = some call := (congrArg (·[id]?) hcalls).symm.trans hcall
  rcases h id call hbefore hlistens hmail with ⟨k, hk⟩
  exact ⟨k, hasked k _ hk⟩

theorem Heard.setTask (h : s.Heard) {task : Task} (hdeaf : task.listens = false) :
    (s.setTask id task).Heard := by
  intro j call hcall hlistens hmail
  rw [Session.setTask, call?_modifyCall] at hcall
  split at hcall
  case isTrue =>
    rcases Option.map_eq_some_iff.mp hcall with ⟨old, -, rfl⟩
    exact absurd (hdeaf.symm.trans hlistens) Bool.false_ne_true
  case isFalse => exact h j call hcall hlistens hmail

theorem Heard.ask (h : s.Heard) (hid : id < s.calls.length) (k : Nat) {question : Question}
    {task : Task}
    (hprompt : task.listens = true -> forall t, (question.command t).isPrompt = true) :
    (s.ask id k question.command task).Heard := by
  rcases call?_eq_some_of_lt hid with ⟨old, hold⟩
  intro j call hcall hlistens hmail
  have hcall' := hcall
  rw [ask_eq hold, call?_enqueue, call?_modifyCall] at hcall'
  split at hcall'
  case isFalse =>
    rcases h j call hcall' hlistens hmail with ⟨k', hk'⟩
    exact ⟨k', hk'.apply hid (.ask k question task)⟩
  case isTrue hj =>
    subst hj
    rw [hold] at hcall'
    cases hcall'
    -- A call whose question has reached nobody has been told so.
    have halive : s.isAlive k = true := by
      cases halive : s.isAlive k with
      | true => rfl
      | false => simp [halive] at hmail
    cases hc : s.connection? k with
    | none => exact absurd ((isAlive_of_absent hc).symm.trans halive) Bool.false_ne_true
    | some c =>
        rw [isAlive_of_connection? hc] at halive
        refine ⟨k, { c with commands := c.commands ++
          [question.command ⟨id, old.serial + 1⟩] },
          question.command ⟨id, old.serial + 1⟩, ?_, ?_, hprompt hlistens _, question.own _⟩
        · rw [connection?_ask hold, hc, Option.map_some, if_pos ⟨halive, rfl⟩]
        · exact List.mem_append_right _ List.mem_cons_self

theorem Heard.apply (h : s.Heard) (hid : id < s.calls.length) {e : Effect D} (hapt : e.IsApt) :
    (e.apply id s).Heard := by
  cases e with
  | rest task => exact h.setTask hapt
  | finish outcome => exact Heard.setTask (s := { s with turns := s.turns.erase id }) h rfl
  | ask k question task => exact h.ask hid k hapt
  | abandon k number =>
      refine h.of_calls ?_ fun k' t hk' => hk'.apply hid (.abandon k number)
      rw [Effect.apply, enqueue]
      split <;> rfl
  | _ => exact h.of_calls rfl fun k' t hk' => hk'.apply hid _

theorem Heard.undergo (h : s.Heard) (hid : id < s.calls.length) {effects : List (Effect D)}
    (hapt : forall e, e ∈ effects -> e.IsApt) : (s.undergo id effects).Heard := by
  induction effects generalizing s with
  | nil => exact h
  | cons e rest ih =>
      rcases List.forall_mem_cons.mp hapt with ⟨he, hrest⟩
      exact ih (h.apply hid he) (by rwa [apply_calls_length]) hrest

theorem Heard.addCall (h : s.Heard) : s.addCall.Heard := by
  intro id call hcall hlistens hmail
  rw [Session.addCall, call?, List.getElem?_append] at hcall
  split at hcall
  case isTrue => exact h id call hcall hlistens hmail
  case isFalse =>
    cases List.mem_singleton.mp (List.mem_of_getElem? hcall)
    contradiction

theorem exists_call?_of_deliver {t : Ticket} {a : Answer} {call' : Call}
    (hcall : (s.deliver t a).call? id = some call') :
    exists call, s.call? id = some call ∧ call'.task = call.task ∧ call'.serial = call.serial ∧
      (call'.mailbox = none -> call.mailbox = none ∧ t ≠ ⟨id, call.serial⟩) := by
  rw [deliver, call?_modifyCall] at hcall
  split at hcall
  case isFalse hother =>
    exact ⟨call', hcall, rfl, rfl, fun hmail => ⟨hmail, fun ht => hother (ht ▸ rfl)⟩⟩
  case isTrue hid =>
    rcases Option.map_eq_some_iff.mp hcall with ⟨call, hbefore, rfl⟩
    refine ⟨call, hbefore, ?_⟩
    split
    case isTrue hserial => exact ⟨rfl, rfl, fun hmail => absurd hmail (Option.some_ne_none a)⟩
    case isFalse hserial =>
      exact ⟨rfl, rfl, fun hmail => ⟨hmail, fun ht => hserial (ht ▸ rfl)⟩⟩

theorem exists_call?_of_deliverAll {answers : List (Ticket × Answer)} {call' : Call}
    (hcall : (s.deliverAll answers).call? id = some call') :
    exists call, s.call? id = some call ∧ call'.task = call.task ∧ call'.serial = call.serial ∧
      (call'.mailbox = none ->
        call.mailbox = none ∧ forall a, (⟨id, call.serial⟩, a) ∉ answers) := by
  induction answers generalizing s with
  | nil => exact ⟨call', hcall, rfl, rfl, fun hmail => ⟨hmail, fun _ => List.not_mem_nil⟩⟩
  | cons first rest ih =>
      rcases first with ⟨t, a⟩
      rcases ih hcall with ⟨between, hbetween, htask, hserial, hmail⟩
      rcases exists_call?_of_deliver hbetween with ⟨call, hcall, htask', hserial', hmail'⟩
      refine ⟨call, hcall, htask.trans htask', hserial.trans hserial', fun hnone => ?_⟩
      rcases hmail hnone with ⟨hnone, hunanswered⟩
      rcases hmail' hnone with ⟨hnone, hother⟩
      refine ⟨hnone, fun b hb => ?_⟩
      rcases List.mem_cons.mp hb with heq | hrest
      · exact hother (congrArg Prod.fst heq).symm
      · exact hunanswered b (hserial' ▸ hrest)

variable [FileSystem D] {a : Action}

/-- As long as no call takes a step, calls are only told answers. -/
theorem exists_call?_of_act (h : s.act a = some u)
    (hother : Moment.ofCall (⟨s, a, u⟩ : Moment D) = false) {call' : Call}
    (hcall : u.call? id = some call') :
    exists call, s.call? id = some call ∧ call'.task = call.task ∧ call'.serial = call.serial ∧
      (call'.mailbox = none -> call.mailbox = none ∧
        forall answer, (⟨id, call.serial⟩, answer) ∉ (⟨s, a, u⟩ : Moment D).answers) := by
  have hquiet (hemitted : (⟨s, a, u⟩ : Moment D).emitted? = none) (t : Ticket)
      (answer : Answer) :
      (t, answer) ∉ (⟨s, a, u⟩ : Moment D).answers := by
    rw [Moment.answers, hemitted]
    exact List.not_mem_nil
  cases kind_of_act h with
  | connection k c c' e hemitted _ _ _ after =>
      dsimp only at after
      rw [Moment.answers, hemitted]
      rw [after] at hcall
      exact exists_call?_of_deliverAll (s := s.setConnection k c') hcall
  | begins op effects action =>
      dsimp only at action
      subst action
      contradiction
  | goesOn j call effects action =>
      dsimp only at action
      subst action
      contradiction
  | withdraws j action after =>
      dsimp only at action after
      rw [after, call?_modifyCall] at hcall
      have hnothing := hquiet (Moment.emitted?_of_action (by rw [action]; rfl))
      split at hcall
      case isFalse => exact ⟨call', hcall, rfl, rfl, fun hmail => ⟨hmail, hnothing _⟩⟩
      case isTrue =>
        rcases Option.map_eq_some_iff.mp hcall with ⟨call, hbefore, rfl⟩
        exact ⟨call, hbefore, rfl, rfl, fun hmail => ⟨hmail, hnothing _⟩⟩
  | world k f _ hemitted _ after =>
      dsimp only at after
      subst after
      exact ⟨call', hcall, rfl, rfl, fun hmail => ⟨hmail, hquiet hemitted _⟩⟩
  | elapses ms action after =>
      dsimp only at action after
      have hnothing := hquiet (Moment.emitted?_of_action (by rw [action]; rfl))
      subst after
      exact ⟨call', hcall, rfl, rfl, fun hmail => ⟨hmail, hnothing _⟩⟩

theorem Asked.act {k : Nat} {t : Ticket} (h : s.Asked k t) (hact : s.act a = some u) :
    u.Asked k t ∨ exists answer, (t, answer) ∈ (⟨s, a, u⟩ : Moment D).answers := by
  rcases h with ⟨c, command, hc, hmem, hprompt, hticket⟩
  cases (kind_of_act hact).passes k with
  | absent before => cases hc.symm.trans before
  | appears _ before => cases hc.symm.trans before
  | used b c' before after used =>
      cases hc.symm.trans before
      exact Or.inl ⟨c', command, after, used.kept hmem, hprompt, hticket⟩
  | proceeds b c' e emitted before after _ _ _ _ source =>
      cases hc.symm.trans before
      rcases source with ⟨step, haction, hstep⟩
      rw [Moment.answers, emitted]
      exact ((minds_of_connectionStep? haction hstep).queue command t hmem hprompt
        hticket).imp_left fun hkept => ⟨c', command, after, hkept, hprompt, hticket⟩

theorem Heard.act (h : s.Heard) (hact : s.act a = some u) : u.Heard := by
  cases hcall : Moment.ofCall (⟨s, a, u⟩ : Moment D) with
  | false =>
      intro id call' hcall' hlistens hmail
      rcases exists_call?_of_act hact hcall hcall' with ⟨call, hcall, htask, hserial, hunheard⟩
      rcases hunheard hmail with ⟨hbefore, hunanswered⟩
      rcases h id call hcall (htask ▸ hlistens) hbefore with ⟨k, hk⟩
      rw [hserial]
      rcases hk.act hact with hstays | ⟨answer, hanswer⟩
      · exact ⟨k, hstays⟩
      · exact absurd hanswer (hunanswered answer)
  | true =>
      cases a with
      | begin op =>
          cases hact
          have hlt := s.calls_length_lt_addCall
          have hopens (hstart : forall launch, op ≠ .start launch)
              (hstop : forall force, op ≠ .stop force) : (s.beginCall op).Heard := by
            rcases s.addCall.begin_openingStep s.calls.length hstart hstop with
              ⟨effects, step, hu⟩
            rw [beginCall, ← Session.addCall, hu]
            exact h.addCall.undergo hlt step.apt
          cases op with
          | start launch | stop force =>
              exact Heard.setTask
                (s := { s.addCall with turns := s.turns ++ [s.calls.length] }) h.addCall rfl
          | _ => exact hopens (by simp) (by simp)
      | goOn id =>
          simp only [Session.act, stepCall] at hact
          split at hact
          case h_2 => contradiction
          case h_1 call hcall =>
            have hlt := lt_of_call? hcall
            cases hlife : call.task.isLifecycle with
            | true =>
                rcases stepTask_lifecycleStep hlife hact with ⟨effects, step, rfl⟩
                exact h.undergo hlt step.apt
            | false =>
                rcases stepTask_userStep hlife hact with ⟨effects, step, rfl⟩
                exact h.undergo hlt step.apt
      | _ => contradiction

theorem Responsive.act (h : s.Responsive) (hact : s.act a = some u) : u.Responsive := by
  refine ⟨h.heard.act hact, fun k c' hc' => ?_⟩
  cases (kind_of_act hact).passes k with
  | absent _ after => cases hc'.symm.trans after
  | appears c'' _ after _ _ _ fresh =>
      cases hc'.symm.trans after
      rcases fresh with ⟨launched, hused⟩
      exact (Connection.isOrderly_new launched).used hused
  | used c c'' before after used =>
      cases hc'.symm.trans after
      exact (h.orderly k c before).used used
  | proceeds c c'' e _ before after _ _ _ _ source =>
      cases hc'.symm.trans after
      rcases source with ⟨step, haction, hstep⟩
      exact (minds_of_connectionStep? haction hstep).orderly (h.orderly k c before)

theorem Course.responsive {settings : Settings} {processId : Nat} {workspace : Workspace D}
    {moments : List (Moment D)}
    (course : Course (Session.new settings processId workspace) moments s) : s.Responsive := by
  induction course with
  | refl =>
      refine ⟨fun id call hcall => ?_, fun k c hc => ?_⟩
      · exact absurd hcall.symm (Option.some_ne_none call)
      · exact absurd hc.symm (Option.some_ne_none c)
  | act _ a hact ih => exact ih.act hact
  | touch _ disk ih => exact ⟨ih.heard, ih.orderly⟩

end

end Session

end LanguageClient

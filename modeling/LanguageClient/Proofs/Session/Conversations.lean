import LanguageClient.Proofs.Session.Protocol

/-!
# Starting and stopping a server

The calls that start and stop follow the protocol: whoever launches a server introduces
the client and opens the protocol or withdraws, and whoever stops a server asks it to
shut down and tells it to exit. So the protocol is followed on every connection,
whatever calls there are.
-/

namespace LanguageClient

variable {D : Type}

namespace Session

/-!
## Calls that start and stop
-/

theorem any_welcomes_forgetting (s : Session D) (k : Nat) :
    s.forgetting.any (Effect.welcomes k) = false := by
  unfold forgetting
  split <;> rfl

theorem hushed_forgetting {s : Session D} {e : Effect D} (h : e ∈ s.forgetting) (k : Nat) :
    e.Hushed k :=
  .quiet e (by rw [forgetting_eq_reset h]; rfl)

theorem not_launch_forgetting (s : Session D) (launched : Bool) :
    .launch launched ∉ s.forgetting :=
  fun h => nomatch forgetting_eq_reset h

theorem GivesUp.hushed {j k number : Nat} {effects : List (Effect D)}
    (h : GivesUp j number effects) (hspares : effects = [] ∨ j ≠ k) {e : Effect D}
    (he : e ∈ effects) : e.Hushed k := by
  rcases h with rfl | rfl
  · exact nomatch he
  · rw [List.mem_singleton.mp he]
    exact .spared j number (hspares.resolve_left (List.cons_ne_nil _ _))

theorem GivesUp.not_launch {j number : Nat} {effects : List (Effect D)}
    (h : GivesUp j number effects) (launched : Bool) : .launch launched ∉ effects := by
  rcases h with rfl | rfl <;> simp

theorem GivesUp.any_welcomes {j number : Nat} {effects : List (Effect D)}
    (h : GivesUp j number effects) (k : Nat) : effects.any (Effect.welcomes k) = false := by
  rcases h with rfl | rfl <;> rfl

theorem undergo_current (s : Session D) (id : Nat) (effects : List (Effect D)) :
    (s.undergo id effects).current = (effects.foldl (Effect.redraw id) s.outline).current :=
  congrArg Outline.current (s.undergo_outline id effects)

theorem Follows.muffled {k id : Nat} {moments : List (Moment D)} {s : Session D} {call : Call}
    {effects : List (Effect D)} {task : Task} (h : Follows k moments s)
    (hcall : s.call? id = some call) (hlast : Effect.lastTask? effects = some task)
    (hhushed : forall e, e ∈ effects -> e.Hushed k)
    (habsent : s.connection? k = none -> (s.undergo id effects).connection? k = none)
    (hapart : task.stage? ≠ some k)
    (hwelcome : forall p, s.Keeps k p -> effects.any (Effect.welcomes k) = true ->
      p.isOpen = true)
    (hheld : forall p, s.Keeps k p -> p.isClosing = true ->
      (s.undergo id effects).current = some k -> task.isLifecycle = true ∧
      task.waits = false) :
    Follows k (moments ++ [⟨s, .goOn id, s.undergo id effects⟩]) (s.undergo id effects) := by
  have hid := lt_of_call? hcall
  refine h.step (m := ⟨s, .goOn id, s.undergo id effects⟩) rfl rfl hid rfl habsent
    fun p htalks hkeeps => ?_
  refine ⟨p, ⟨fun h => h, fun h => h, fun task' htask' => ?_, fun _ _ _ _ hsuits => hsuits,
    hwelcome p hkeeps, fun hcurrent hclosing => ?_⟩, fun added horders hnothing => ?_⟩
  · rw [hlast, Option.some_or] at htask'
    cases htask'
    exact .of_apart hapart
  · rcases hheld p hkeeps hclosing hcurrent with ⟨hlife, hwaits⟩
    refine ⟨id, task, ?_, hwaits⟩
    rw [lifecycle?, undergo_task?_self hid hlast]
    exact if_pos hlife
  · have hadded : added.filter (!·.isSilent) = [] := by
      cases hc : s.connection? k with
      | none =>
          rw [hnothing hc]
          rfl
      | some c => exact (horders (Option.ne_none_iff_exists'.mpr ⟨c, hc⟩)).hushed hhushed
    rw [hadded, List.append_nil]
    exact htalks.concat _

theorem Follows.hush {k id : Nat} {moments : List (Moment D)} {s : Session D} {call : Call}
    {effects : List (Effect D)} {task : Task} (h : Follows k moments s)
    (hcall : s.call? id = some call) (hlast : Effect.lastTask? effects = some task)
    (hhushed : forall e, e ∈ effects -> e.Hushed k)
    (habsent : s.connection? k = none -> (s.undergo id effects).connection? k = none)
    (hapart : task.stage? ≠ some k) (hwelcome : effects.any (Effect.welcomes k) = false)
    (hheld : forall p, s.Keeps k p -> p.isClosing = true ->
      (s.undergo id effects).current = some k -> task.isLifecycle = true ∧
      task.waits = false) :
    Follows k (moments ++ [⟨s, .goOn id, s.undergo id effects⟩]) (s.undergo id effects) :=
  h.muffled hcall hlast hhushed habsent hapart
    (fun _ _ hwelcome' => absurd (hwelcome.symm.trans hwelcome') Bool.false_ne_true) hheld

theorem Follows.still {k id : Nat} {moments : List (Moment D)} {s : Session D} {call : Call}
    {effects : List (Effect D)} {task : Task} (h : Follows k moments s)
    (hcall : s.call? id = some call) (hlast : Effect.lastTask? effects = some task)
    (hquiet : effects.all Effect.isQuiet = true) (hidle : task.stage? = none)
    (hlaunch : forall launched, .launch launched ∉ effects)
    (hwelcome : effects.any (Effect.welcomes k) = false)
    (hheld : forall p, s.Keeps k p -> p.isClosing = true ->
      (s.undergo id effects).current ≠ some k) :
    Follows k (moments ++ [⟨s, .goOn id, s.undergo id effects⟩]) (s.undergo id effects) :=
  h.hush hcall hlast (fun e he => .quiet e (List.all_eq_true.mp hquiet e he))
    (undergo_absent (lt_of_call? hcall) hlaunch) (task.apart_of_idle hidle k) hwelcome
    fun p hkeeps hclosing hcurrent => absurd hcurrent (hheld p hkeeps hclosing)

theorem Follows.leavesNone {k id : Nat} {moments : List (Moment D)} {s : Session D}
    {call : Call} {effects : List (Effect D)} {task : Task} (h : Follows k moments s)
    (hcall : s.call? id = some call) (hlast : Effect.lastTask? effects = some task)
    (hquiet : effects.all Effect.isQuiet = true) (hidle : task.stage? = none)
    (hlaunch : forall launched, .launch launched ∉ effects)
    (hwelcome : effects.any (Effect.welcomes k) = false)
    (hnone : (effects.foldl (Effect.redraw id) s.outline).current = none) :
    Follows k (moments ++ [⟨s, .goOn id, s.undergo id effects⟩]) (s.undergo id effects) :=
  h.still hcall hlast hquiet hidle hlaunch hwelcome fun _ _ _ => by
    rw [undergo_current, hnone]
    exact (Option.some_ne_none k).symm

theorem Follows.asks {k id : Nat} {moments : List (Moment D)} {s : Session D} {call : Call}
    {effects : List (Effect D)} (h : Follows k moments s) (hcall : s.call? id = some call)
    (before : List (Effect D)) (j : Nat) (question : Question) (task : Task)
    (heffects : effects = before ++ [.ask j question task])
    (hbefore : forall e, e ∈ before -> e.Hushed k)
    (hquestion : (.ask j question task : Effect D).Hushed k)
    (habsent : s.connection? k = none -> (s.undergo id effects).connection? k = none)
    (hwelcome : before.any (Effect.welcomes k) = false) (hapart : task.stage? ≠ some k)
    (hlife : task.isLifecycle = true) (hacts : task.waits = false) :
    Follows k (moments ++ [⟨s, .goOn id, s.undergo id effects⟩]) (s.undergo id effects) := by
  refine h.hush hcall (heffects ▸ Effect.lastTask?_concat before rfl) (fun e he => ?_) habsent
    hapart ?_ fun _ _ _ _ => ⟨hlife, hacts⟩
  · rw [heffects] at he
    rcases List.mem_append.mp he with he | he
    · exact hbefore e he
    · exact List.mem_singleton.mp he ▸ hquestion
  · rw [heffects, List.any_append, hwelcome]
    rfl

theorem Follows.terminates {k id j : Nat} {moments : List (Moment D)} {s : Session D}
    {call : Call} {before effects : List (Effect D)} {force : Bool} {task : Task}
    (h : Follows k moments s) (hcall : s.call? id = some call) (number : Nat)
    (heffects : effects = before ++ [.condemn j, .ask j (.terminate force) task])
    (givesUp : GivesUp j number before) (hspares : before = [] ∨ j ≠ k)
    (hidle : task.stage? = none) (hlife : task.isLifecycle = true)
    (hacts : task.waits = false) :
    Follows k (moments ++ [⟨s, .goOn id, s.undergo id effects⟩]) (s.undergo id effects) := by
  refine h.asks hcall (before ++ [.condemn j]) j (.terminate force) task
    (heffects.trans (by simp)) (fun e he => ?_) (.silent _ _ _ fun _ => rfl)
    (undergo_absent (lt_of_call? hcall) fun launched => ?_) ?_ (task.apart_of_idle hidle k)
    hlife hacts
  · rcases List.mem_append.mp he with he | he
    · exact givesUp.hushed hspares he
    · exact .quiet e (by rw [List.mem_singleton.mp he]; rfl)
  · rw [heffects, List.mem_append, not_or]
    exact ⟨givesUp.not_launch launched, by simp⟩
  · rw [List.any_append, givesUp.any_welcomes]
    rfl

theorem Keeps.not_closing {k id : Nat} {s : Session D} {p : Progress} (h : s.Keeps k p)
    (horderly : Orderly s) (hturn : s.turns.head? = some id) {task : Task}
    (htask : s.lifecycle? id = some task) (hwaits : task.waits = true)
    (hcurrent : s.current = some k) : p.isClosing = false := by
  cases hclosing : p.isClosing with
  | false => rfl
  | true =>
      rcases h.held hcurrent hclosing with ⟨j, task', hj, hacts⟩
      cases Option.some.inj (hturn.symm.trans (horderly.first j task' hj hacts))
      cases Option.some.inj (htask.symm.trans hj)
      exact hwaits.symm.trans hacts

end Session

theorem Operation.eq_start_of_role {op : Operation} (h : op.role = .start) :
    exists launch, op = .start launch := by
  cases op with
  | start launch => exact ⟨launch, rfl⟩
  | _ => contradiction

theorem Operation.eq_stop_of_role {op : Operation} (h : op.role = .stop) :
    exists force, op = .stop force := by
  cases op with
  | stop force => exact ⟨force, rfl⟩
  | _ => contradiction

namespace Session

theorem Leads.of_asked {k id number : Nat} {s : Session D} {effects : List (Effect D)}
    {p : Progress} {task : Task} (hlast : Effect.lastTask? effects = some task)
    (hsuits : task.Suits k p id) (hwelcome : effects.any (Effect.welcomes k) = false)
    (hclosing : p.isClosing = false) : Leads k id s effects (.asked id number) p where
  silent := nofun
  ready := nofun
  own task' htask' := by
    rw [hlast, Option.some_or] at htask'
    cases htask'
    exact hsuits
  others _ _ hj _ hsuits' := hsuits'.of_asked hj p
  welcome h := absurd (hwelcome.symm.trans h) Bool.false_ne_true
  held _ h := absurd (hclosing.symm.trans h) Bool.false_ne_true

theorem Leads.of_open {k id : Nat} {s : Session D} {effects : List (Effect D)}
    {p p' : Progress}
    {task : Task} (hid : id < s.calls.length) (hp : p.isOpen = true) (hp' : p'.isOpen = true)
    (hlast : Effect.lastTask? effects = some task) (hsuits : task.Suits k p' id)
    (hothers : forall j task, id ≠ j -> s.task? j = some task -> task.Suits k p j ->
      task.Suits k p' j)
    (hlife : task.isLifecycle = true) (hacts : task.waits = false) :
    Leads k id s effects p p' where
  silent h := by
    subst h
    contradiction
  ready _ := hp'
  own task' htask' := by
    rw [hlast, Option.some_or] at htask'
    cases htask'
    exact hsuits
  others := hothers
  welcome _ := hp'
  held _ _ := by
    refine ⟨id, task, ?_, hacts⟩
    rw [lifecycle?, undergo_task?_self hid hlast]
    exact if_pos hlife

theorem Keeps.present {k : Nat} {s : Session D} {p : Progress} (h : s.Keeps k p)
    (hp : p ≠ .silent) : s.connection? k ≠ none :=
  fun hnone => hp (h.absent hnone)

theorem undergo_launch {k id : Nat} {s : Session D} (hid : id < s.calls.length)
    (hk : s.connections.length = k) (launched : Bool) (question : Question) (task : Task)
    (hheard : forall t, (question.command t).isSilent = false) :
    let u := s.undergo id (s.forgetting ++ [.launch launched, .draw, .ask k question task])
    exists c serial, u.connection? k = some c ∧ c.initialized = false ∧
      c.commands.filter (!·.isSilent) = [question.command ⟨id, serial⟩] := by
  intro u
  -- The connection is new when the question is asked.
  have hnew : (s.undergo id (s.forgetting ++ [.launch launched])).connection? k =
      some (Connection.new launched) := by
    have hconnections : (s.undergo id s.forgetting).connections = s.connections := by
      unfold forgetting
      split <;> rfl
    have hlaunch : s.undergo id (s.forgetting ++ [.launch launched]) =
        (s.undergo id s.forgetting).launch launched := List.foldl_append ..
    rw [hlaunch, connection?, Session.launch, hconnections, ← hk]
    exact List.getElem?_concat_length
  have hsplit : u = (s.undergo id (s.forgetting ++ [.launch launched])).undergo id
      [.draw, .ask k question task] := by
    rw [undergo, undergo, ← List.foldl_append, List.append_assoc]
    rfl
  rcases undergo_gets (by rwa [undergo_calls_length]) _ hnew with
    ⟨c, added, hc, hgets, horders⟩
  have horders : Effect.AllOrder id k _ added := horders
  rcases Effect.AllOrder.question [.draw] horders
    (fun e he => .quiet e (by rw [List.mem_singleton.mp he]; rfl)) hheard with ⟨serial, hadded⟩
  refine ⟨c, serial, hsplit ▸ hc, hgets.initialized, ?_⟩
  rw [← hadded]
  exact congrArg _ hgets.commands

section

variable {k id : Nat} {moments : List (Moment D)} {s : Session D} {call : Call}
  (h : Follows k moments s) (hcall : s.call? id = some call)

include h hcall

theorem Follows.opens {number deadline : Nat}
    (htask : call.task = .introducing k number deadline) (hanswered : forall serial params,
      errands k moments = [.request number "initialize" params ⟨id, serial⟩] ->
      exists earlier m later result, moments = earlier ++ m :: later ∧
        m.hears? k number = some (.ok result) ∧
        spoken k earlier = [⟨some id, .message (.request number "initialize" params)⟩])
    {effects : List (Effect D)} {capabilities : Json}
    (heffects : effects = [.learn capabilities,
      .ask k (.notify (.notification "initialized" (Json.ofMembers []))) (.announcing k)]) :
    Follows k (moments ++ [⟨s, .goOn id, s.undergo id effects⟩]) (s.undergo id effects) := by
  have hid := lt_of_call? hcall
  subst heffects
  refine h.step (m := ⟨s, .goOn id, _⟩) rfl rfl hid rfl (undergo_absent hid (by simp))
    fun p htalks hkeeps => ?_
  have hp := (hkeeps.tasks id _ (htask ▸ task?_of_call? hcall)).introducing number deadline rfl
  subst hp
  rcases htalks.asked_inv with ⟨serial, params, launch, hbegan, herrands⟩
  refine ⟨.running, .of_asked rfl .of_announcing rfl rfl, fun added horders _ => ?_⟩
  · have horders := horders (hkeeps.present (by simp))
    rcases Effect.AllOrder.question [.learn capabilities] horders
      (fun e he => .quiet e (by rw [List.mem_singleton.mp he]; rfl)) (fun _ => rfl) with
      ⟨serial', hadded⟩
    rcases hanswered serial params herrands with
      ⟨earlier, m, later, result, rfl, hhears, hspoken⟩
    rw [hadded, herrands]
    exact .opened id number serial serial' params launch (hbegan.concat _)
      ⟨earlier, m, later ++ [_], result, List.append_assoc earlier (m :: later) [_], hhears,
        hspoken⟩

theorem Follows.withdraws {number deadline : Nat}
    (htask : call.task = .introducing k number deadline) {effects : List (Effect D)}
    {reason : Failure}
    (heffects : effects = [.abandon k number, .condemn k,
      .ask k (.terminate true) (.aborting reason)]) :
    Follows k (moments ++ [⟨s, .goOn id, s.undergo id effects⟩]) (s.undergo id effects) := by
  have hid := lt_of_call? hcall
  subst heffects
  refine h.step (m := ⟨s, .goOn id, _⟩) rfl rfl hid rfl (undergo_absent hid (by simp))
    fun p htalks hkeeps => ?_
  have hp := (hkeeps.tasks id _ (htask ▸ task?_of_call? hcall)).introducing number deadline rfl
  subst hp
  rcases htalks.asked_inv with ⟨serial, params, launch, hbegan, herrands⟩
  refine ⟨.withdrawn, .of_asked rfl (.of_idle rfl) rfl rfl, fun added horders _ => ?_⟩
  · rcases horders (hkeeps.present (by simp)) with ⟨first, later, hfirst, hlater, rfl⟩
    rw [Effect.Orders, if_pos rfl] at hfirst
    rw [hfirst, List.filter_append, hlater.hushed, List.append_nil, herrands]
    · exact .withdrawn id number serial params launch (hbegan.concat _)
    · intro e he
      rcases List.mem_cons.mp he with rfl | he
      · exact .quiet _ rfl
      · rw [List.mem_singleton.mp he]
        exact .silent _ _ _ fun _ => rfl

theorem Follows.shutsDown {force : Bool} (htask : call.task = .stopping force)
    (horderly : Orderly s) (hturn : s.turns.head? = some id) (hready : s.ready? = some k)
    {op : Operation} (hbegan : Began moments id op) (hrole : op.role = .stop)
    {effects : List (Effect D)} {number deadline : Nat}
    (heffects : effects = [.condemn k, .draw, .ask k (.request number "shutdown" .null)
      (.shuttingDown k force number deadline)]) :
    Follows k (moments ++ [⟨s, .goOn id, s.undergo id effects⟩]) (s.undergo id effects) := by
  have hid := lt_of_call? hcall
  have hlife : s.lifecycle? id = some (.stopping force) := by
    rw [lifecycle?, task?_of_call? hcall, htask]
    rfl
  rcases Operation.eq_stop_of_role hrole with ⟨force', rfl⟩
  subst heffects
  refine h.step (m := ⟨s, .goOn id, _⟩) rfl rfl hid rfl (undergo_absent hid (by simp))
    fun p htalks hkeeps => ?_
  have hp : p = .running := by
    have hopen := hkeeps.ready hready
    have hclosing := hkeeps.not_closing horderly hturn hlife rfl (ready?_eq_some hready).1
    cases p <;> first | rfl | contradiction
  subst hp
  refine ⟨.leaving id, .of_open hid rfl rfl rfl (.of_shuttingDown force deadline)
    (fun j task' hj hother hsuits => ?_) rfl rfl, fun added horders _ => ?_⟩
  · -- Nobody else has its turn, so nobody introduces a client.
    refine hsuits.of_running (fun hannouncing => ?_) rfl
    have hlife' : s.lifecycle? j = some (.announcing k) := by
      rw [lifecycle?, hother, hannouncing]
      rfl
    exact absurd (Option.some.inj (hturn.symm.trans (horderly.first j _ hlife' rfl))) hj
  · have horders := horders (hkeeps.present (by simp))
    have hhushed (e : Effect D) (he : e ∈ [.condemn k, .draw]) : e.Hushed k := by
      rcases List.mem_cons.mp he with rfl | he
      · exact .quiet _ rfl
      · exact .quiet e (by rw [List.mem_singleton.mp he]; rfl)
    rcases Effect.AllOrder.question [.condemn k, .draw] horders hhushed (fun _ => rfl) with
      ⟨serial, hadded⟩
    rw [hadded]
    exact .shutdown id number serial force' _ (htalks.concat _) (Began.concat hbegan _)

theorem Follows.exits {force : Bool} {number deadline : Nat}
    (htask : call.task = .shuttingDown k force number deadline)
    {before effects : List (Effect D)} (hgivesUp : GivesUp k number before)
    (heffects : effects = before ++
      [.ask k (.notify (.notification "exit" .null)) (.exiting k force)]) :
    Follows k (moments ++ [⟨s, .goOn id, s.undergo id effects⟩]) (s.undergo id effects) := by
  have hid := lt_of_call? hcall
  have hlast : Effect.lastTask? effects = some (.exiting k force) := by
    rw [heffects, Effect.lastTask?_append]
    rfl
  have hlaunch : forall launched, .launch launched ∉ effects := by
    rcases hgivesUp with rfl | rfl <;> simp [heffects]
  refine h.step (m := ⟨s, .goOn id, _⟩) rfl rfl hid rfl (undergo_absent hid hlaunch)
    fun p htalks hkeeps => ?_
  have hp :=
    (hkeeps.tasks id _ (htask ▸ task?_of_call? hcall)).leaving force number deadline rfl
  subst hp
  refine ⟨.left id, .of_open hid rfl rfl hlast (.of_idle rfl)
    (fun _ _ hj _ hsuits => hsuits.of_leaving hj rfl) rfl rfl, fun added horders _ => ?_⟩
  have horders := horders (hkeeps.present (by simp))
  rw [heffects] at horders
  rcases horders.append_inv with ⟨first, later, hfirst, hlater, rfl⟩
  rcases Effect.AllOrder.question [] hlater (by simp) (fun _ => rfl) with ⟨serial, hadded⟩
  rw [List.filter_append, hadded, ← List.append_assoc]
  refine .exit id serial _ ?_
  rcases hgivesUp with rfl | rfl
  · cases hfirst
    rw [List.filter_nil, List.append_nil]
    exact htalks.concat _
  · rcases hfirst with ⟨_, _, hone, rfl, rfl⟩
    rw [Effect.Orders, if_pos rfl] at hone
    rw [hone]
    exact .free _ _ _ (htalks.concat _) rfl (.abandon number)

theorem Follows.launches (hk : s.connections.length = k) {op : Operation}
    (hbegan : Began moments id op) (hrole : op.role = .start) {effects : List (Effect D)}
    {launched : Bool} {number deadline : Nat} {params : Json}
    (heffects : effects = s.forgetting ++ [.launch launched, .draw,
      .ask k (.request number "initialize" params) (.introducing k number deadline)]) :
    Follows k (moments ++ [⟨s, .goOn id, s.undergo id effects⟩]) (s.undergo id effects) := by
  have hid := lt_of_call? hcall
  rcases h with ⟨p, htalks, hkeeps⟩
  rcases Operation.eq_start_of_role hrole with ⟨launch, rfl⟩
  have hnone : s.connection? k = none := List.getElem?_eq_none (Nat.le_of_eq hk)
  have hkeeps := hkeeps (not_isGone_of_absent hnone)
  have hp := hkeeps.absent hnone
  subst hp
  rcases undergo_launch hid hk launched (.request number "initialize" params)
    (.introducing k number deadline) (fun _ => rfl) with
    ⟨c, serial, hc, hinitialized, hcommands⟩
  rw [← heffects] at hc
  refine ⟨.asked id number, ?_, fun _ => ?_⟩
  · rw [errands_concat, htalks.silent_inv, Moment.asks_of_absent rfl hnone, waiting, hc]
    exact hcommands ▸ .asked id number serial params launch (Began.concat hbegan _)
  constructor
  case absent =>
    intro hnone'
    cases hnone'.symm.trans hc
  case greeted =>
    intro b hb hgreeted
    cases Option.some.inj (hb.symm.trans hc)
    cases hinitialized.symm.trans hgreeted
  case tasks =>
    intro j task hj
    rw [undergo_task? hid] at hj
    split at hj
    case isTrue hsame =>
      rw [heffects, Effect.lastTask?_append] at hj
      cases hj
      exact hsame ▸ .of_introducing deadline
    case isFalse => exact (hkeeps.tasks j task hj).of_silent _
  case held => exact fun _ h => absurd h Bool.false_ne_true

theorem Follows.launchesElsewhere (hk : s.connections.length ≠ k) {effects : List (Effect D)}
    {launched : Bool} {number deadline : Nat} {params : Json}
    (heffects : effects = s.forgetting ++ [.launch launched, .draw,
      .ask s.connections.length (.request number "initialize" params)
        (.introducing s.connections.length number deadline)]) :
    Follows k (moments ++ [⟨s, .goOn id, s.undergo id effects⟩]) (s.undergo id effects) := by
  refine h.asks hcall (s.forgetting ++ [.launch launched, .draw]) s.connections.length
    (.request number "initialize" params) (.introducing s.connections.length number deadline)
    (heffects.trans (List.append_assoc _ [_, _] [_]).symm) (fun e he => ?_)
    (.elsewhere _ _ _ hk) (fun hnone => ?_) ?_ (fun heq => hk (Option.some.inj heq)) rfl rfl
  · rcases List.mem_append.mp he with he | he
    · exact hushed_forgetting he k
    · exact .quiet e (List.all_eq_true.mp rfl e he)
  · -- The new connection comes after all others, and is not connection `k`.
    have hlength : (s.undergo id effects).connections.length = s.connections.length + 1 := by
      have houtline := congrArg Outline.connections (s.undergo_outline id effects)
      rw [heffects, List.foldl_append, foldl_redraw_forgetting] at houtline
      exact heffects ▸ houtline
    have hle : s.connections.length ≤ k := List.getElem?_eq_none_iff.mp hnone
    refine List.getElem?_eq_none ?_
    rw [hlength]
    exact Nat.lt_of_le_of_ne hle hk
  · rw [List.any_append, s.any_welcomes_forgetting]
    rfl

theorem Follows.refused {effects : List (Effect D)} {outcome : Outcome}
    (heffects : effects = s.forgetting ++ [.finish outcome]) :
    Follows k (moments ++ [⟨s, .goOn id, s.undergo id effects⟩]) (s.undergo id effects) := by
  refine h.leavesNone hcall (heffects ▸ Effect.lastTask?_concat s.forgetting rfl) ?_ rfl
    (fun launched => ?_) ?_ ?_
  · rw [heffects, List.all_append, List.all_eq_true.mpr fun e he => ?_]
    · rfl
    · rw [forgetting_eq_reset he]
      rfl
  · rw [heffects, List.mem_append, not_or]
    exact ⟨s.not_launch_forgetting launched, by simp⟩
  · rw [heffects, List.any_append, s.any_welcomes_forgetting]
    rfl
  · rw [heffects, List.foldl_append, foldl_redraw_forgetting]
    rfl

theorem Follows.announces {j : Nat} (horderly : Orderly s)
    (htask : call.task = .announcing j) :
    Follows k (moments ++ [⟨s, .goOn id, s.undergo id [.welcome j, .finish (.ok .unit)]⟩])
      (s.undergo id [.welcome j, .finish (.ok .unit)]) := by
  have hown : s.task? id = some (.announcing j) := htask ▸ task?_of_call? hcall
  have hrunning {p : Progress} (hkeeps : s.Keeps k p) (hj : j = k) : p = .running :=
    (hkeeps.tasks id _ hown).announcing (hj ▸ rfl)
  refine h.muffled hcall rfl (fun e he => .quiet e (List.all_eq_true.mp rfl e he))
    (undergo_absent (lt_of_call? hcall) (by simp)) (Task.apart_of_idle rfl k)
    (fun p hkeeps hwelcome => ?_) fun p hkeeps hclosing hhere => ?_
  · simp only [List.any_cons, Effect.welcomes, List.any_nil, Bool.or_false,
      decide_eq_true_eq] at hwelcome
    rw [hrunning hkeeps hwelcome]
    rfl
  · have hj := horderly.current id (.announcing j) j (by rw [lifecycle?, hown]; rfl) rfl
    rw [undergo_current] at hhere
    rw [hrunning hkeeps (Option.some.inj (hj.symm.trans hhere))] at hclosing
    contradiction

theorem Follows.lifecycle {settings : Settings} (horderly : Orderly s)
    (hcast : Cast settings (begun moments) s) {effects : List (Effect D)}
    (hstep : LifecycleStep s id call call.task effects)
    (hanswered : forall number deadline v, call.task = .introducing k number deadline ->
      call.mailbox = some (.response (.ok v)) -> forall serial params,
      errands k moments = [.request number "initialize" params ⟨id, serial⟩] ->
      exists earlier m later result, moments = earlier ++ m :: later ∧
        m.hears? k number = some (.ok result) ∧
        spoken k earlier = [⟨some id, .message (.request number "initialize" params)⟩])
    (hready : forall j force number deadline,
      Effect.lastTask? effects = some (.shuttingDown j force number deadline) ->
      s.ready? = some j) :
    Follows k (moments ++ [⟨s, .goOn id, s.undergo id effects⟩]) (s.undergo id effects) := by
  have habsent := @undergo_absent D s id (lt_of_call? hcall)
  have hbegan {role : Role} (hrole : call.task.role? = some role) :
      exists op, Began moments id op ∧ op.role = role := by
    rcases hcast id call.task (task?_of_call? hcall) with ⟨op, hop, hhosts⟩
    exact ⟨op, hop, hhosts.role_eq hrole⟩
  generalize htask : call.task = task at *
  cases hstep with
  | alreadyRunning launch turn alive =>
      have hlife : s.lifecycle? id = some (.starting launch) := by
        rw [lifecycle?, task?_of_call? hcall, htask]
        rfl
      refine h.still hcall rfl rfl rfl (by simp) rfl fun p hkeeps hclosing hhere => ?_
      have hopen := hkeeps.not_closing horderly turn hlife rfl hhere
      exact Bool.false_ne_true (hopen.symm.trans hclosing)
  | refused launch reason turn dead => exact h.refused hcall rfl
  | launched launch turn dead =>
      by_cases hk : s.connections.length = k
      · rcases hbegan rfl with ⟨op, hop, hrole⟩
        exact h.launches hcall hk hop hrole (by rw [hk])
      · exact h.launchesElsewhere hcall hk rfl
  | introduced j number deadline v heard =>
      by_cases hj : j = k
      · subst hj
        exact h.opens hcall htask (hanswered number deadline v rfl heard) rfl
      · exact h.asks hcall [_] _ _ _ rfl
          (fun e he => .quiet e (List.all_eq_true.mp rfl e he)) (.elsewhere _ _ _ hj)
          (habsent (by simp)) rfl (fun heq => hj (Option.some.inj heq)) rfl rfl
  | notIntroduced j number deadline reason before givesUp =>
      by_cases hj : j = k
      · subst hj
        rcases givesUp with rfl | rfl
        · exact h.terminates hcall number rfl (Or.inl rfl) (Or.inl rfl) rfl rfl rfl
        · exact h.withdraws hcall htask rfl
      · exact h.terminates hcall number rfl givesUp (Or.inr hj) rfl rfl rfl
  | announced j heard => exact h.announces hcall horderly htask
  | notAnnounced j reason =>
      exact h.terminates hcall 0 (List.nil_append _).symm (Or.inl rfl) (Or.inl rfl)
        rfl rfl rfl
  | aborted reason heard => exact h.leavesNone hcall rfl rfl rfl (by simp) rfl rfl
  | nothingToStop force turn idle => exact h.leavesNone hcall rfl rfl rfl (by simp) rfl idle
  | alreadyEnded force turn dead => exact h.leavesNone hcall rfl rfl rfl (by simp) rfl rfl
  | askedToShutDown force j turn alive =>
      by_cases hj : j = k
      · subst hj
        rcases hbegan rfl with ⟨op, hop, hrole⟩
        exact h.shutsDown hcall htask horderly turn (hready j force _ _ rfl) hop hrole rfl
      · exact h.asks hcall [_, _] _ _ _ rfl
          (fun e he => .quiet e (List.all_eq_true.mp rfl e he)) (.elsewhere _ _ _ hj)
          (habsent (by simp)) rfl (fun heq => hj (Option.some.inj heq)) rfl rfl
  | cutShort force j turn alive =>
      exact h.terminates hcall 0 (List.nil_append _).symm (Or.inl rfl) (Or.inl rfl)
        rfl rfl rfl
  | sentExit j force number deadline before givesUp =>
      by_cases hj : j = k
      · subst hj
        exact h.exits hcall htask givesUp rfl
      · refine h.asks hcall before _ _ _ rfl (fun _ he => givesUp.hushed (Or.inr hj) he)
          (.elsewhere _ _ _ hj) (habsent fun launched => ?_) (givesUp.any_welcomes k)
          (Task.apart_of_idle rfl k) rfl rfl
        rw [List.mem_append, not_or]
        exact ⟨givesUp.not_launch launched, by simp⟩
  | exited j force heard =>
      exact h.asks hcall [] _ _ _ rfl (by simp) (.silent _ _ _ fun _ => rfl)
        (habsent (by simp)) rfl (Task.apart_of_idle rfl k) rfl rfl
  | stopped heard => exact h.leavesNone hcall rfl rfl rfl (by simp) rfl rfl

end

theorem ready_of_stop {s : Session D} {id : Nat} {call : Call} (hcall : s.call? id = some call)
    {force : Bool} {k : Nat} (halive : s.alive? = some k) {j number deadline : Nat}
    {force' : Bool}
    (h : (s.stop id force).task? id = some (.shuttingDown j force' number deadline)) :
    s.ready? = some k := by
  rcases alive?_eq_some.mp halive with ⟨hcurrent, halive'⟩
  cases hc : s.connection? k with
  | none =>
      rw [isAlive_of_absent hc] at halive'
      contradiction
  | some c =>
      rw [isAlive_of_connection? hc] at halive'
      cases hinitialized : c.initialized with
      | true =>
          rw [ready?, halive, Option.filter_some, hc]
          exact if_pos hinitialized
      | false =>
          have hcall' {b : Connection} : (s.setConnection k b).call? id = some call := hcall
          simp only [stop, hcurrent, hc, halive', hinitialized, if_true, terminate,
            Bool.false_eq_true, if_false] at h
          rw [task?_ask hcall', if_pos rfl] at h
          cases h

theorem LifecycleStep.stops {s : Session D} {id : Nat} {call : Call} {task : Task}
    {effects : List (Effect D)} (h : LifecycleStep s id call task effects)
    {k number deadline : Nat} {force : Bool} (hlast : Effect.lastTask? effects =
      some (.shuttingDown k force number deadline)) :
    task = .stopping force ∧ s.turns.head? = some id ∧ s.alive? = some k := by
  cases h with
  | askedToShutDown force' k' turn alive =>
      cases hlast
      exact ⟨rfl, turn, alive⟩
  | launched launch turn dead =>
      rw [Effect.lastTask?_append] at hlast
      cases hlast
  | refused launch reason turn dead =>
      rw [Effect.lastTask?_append] at hlast
      cases hlast
  | notIntroduced k' number' deadline' reason before givesUp =>
      rw [Effect.lastTask?_append] at hlast
      cases hlast
  | sentExit k' force' number' deadline' before givesUp =>
      rw [Effect.lastTask?_append] at hlast
      cases hlast
  | _ => cases hlast

/-!
## Courses
-/

variable [FileSystem D] {settings : Settings} {processId : Nat} {workspace : Workspace D}
  {moments : List (Moment D)} {s : Session D}

/-- A server that has answered the introduction has heard it before, and nothing else. -/
theorem Course.introduction_heard
    (course : Course (Session.new settings processId workspace) moments s) {id k number : Nat}
    {deadline : Nat} (htask : s.task? id = some (.introducing k number deadline)) {v : Json}
    (hmail : s.mail? id = some (.response (.ok v))) {serial : Nat} {params : Json}
    (herrands : errands k moments = [.request number "initialize" params ⟨id, serial⟩]) :
    exists earlier m later result, moments = earlier ++ m :: later ∧
      m.hears? k number = some (.ok result) ∧
      spoken k earlier = [⟨some id, .message (.request number "initialize" params)⟩] := by
  rcases course.heard htask rfl hmail (r := .ok v) rfl with
    ⟨earlier, m, later, t, rfl, hhears, hregistered⟩
  refine ⟨earlier, m, later, v, rfl, hhears, ?_⟩
  rcases course.split with ⟨hearlier, _, _⟩
  rcases hearlier.posted hregistered with ⟨m', method, params', hm', hletters⟩
  have hsaid : spoken k earlier ≠ [] := by
    refine List.ne_nil_of_mem
      (a := ⟨some t.call, .message (.request number method params')⟩) ?_
    refine List.mem_filter.mpr ⟨List.mem_flatMap.mpr ⟨m', hm', ?_⟩, rfl⟩
    rw [hletters]
    exact List.mem_singleton_self _
  rcases hearlier.voiced k with ⟨served, hbegins, hvoiced⟩
  have hserved : served <+: [.request number "initialize" params ⟨id, serial⟩] := by
    rw [← herrands, errands_append]
    exact hbegins.trans (List.prefix_append _ _)
  cases served with
  | nil => exact absurd hvoiced.nil_inv hsaid
  | cons command rest =>
      rcases List.prefix_cons_iff.mp hserved with hnil | ⟨rest', hcons, hrest⟩
      · contradiction
      · cases hcons
        cases List.prefix_nil.mp hrest
        generalize spoken k earlier = said at hvoiced
        cases hvoiced.singleton_inv with
        | request => rfl
        | silent _ hsilent => contradiction

/-- The protocol is followed on every connection. -/
theorem Course.follows (course : Course (Session.new settings processId workspace) moments s)
    (k : Nat) : Follows k moments s := by
  induction course with
  | refl =>
      exact ⟨.silent, .silent, fun _ => ⟨fun _ => rfl, fun _ hc => (nomatch hc),
        fun _ _ htask => (nomatch htask), fun hcurrent => (nomatch hcurrent)⟩⟩
  | touch course disk ih =>
      rcases ih with ⟨p, htalks, hkeeps⟩
      refine ⟨p, htalks, fun hhere => ?_⟩
      rcases hkeeps hhere with ⟨habsent, hgreeted, htasks, hheld⟩
      exact ⟨habsent, hgreeted, htasks, hheld⟩
  | @act moments t u course a ha ih =>
      cases hcall : Moment.ofCall (⟨t, a, u⟩ : Moment D) with
      | false =>
          rcases quiet_of_act ha hcall with ⟨htask, houtline⟩
          exact ih.drift hcall (drifts_of_act ha hcall k) htask houtline
      | true =>
          cases a with
          | begin op =>
              cases ha
              exact ih.begin course.length_begun op
          | goOn id =>
              have hact := ha
              simp only [Session.act, Session.stepCall] at ha
              split at ha
              case h_2 => contradiction
              case h_1 call hc =>
                cases hlife : call.task.isLifecycle with
                | false => exact ih.userGoesOn course.cast hc hlife ha
                | true =>
                    rcases stepTask_lifecycleStep hlife ha with ⟨effects, hstep, rfl⟩
                    refine ih.lifecycle hc course.orderly course.cast hstep ?_ ?_
                    · intro number deadline v htask hmail serial params herrands
                      have hmail' : t.mail? id = some (.response (.ok v)) := by
                        rw [mail?, hc]
                        exact hmail
                      exact course.introduction_heard
                        (htask ▸ task?_of_call? hc) hmail' herrands
                    · intro j force number deadline hlast
                      rcases hstep.stops hlast with ⟨hstopping, hturn, halive⟩
                      have hafter := undergo_task? (lt_of_call? hc) effects id
                      rw [if_pos rfl, hlast, Option.some_or] at hafter
                      rw [hstopping] at ha
                      simp only [stepTask, if_pos hturn, Option.some.injEq] at ha
                      exact ready_of_stop hc halive (ha ▸ hafter)
          | _ => contradiction

end Session
end LanguageClient

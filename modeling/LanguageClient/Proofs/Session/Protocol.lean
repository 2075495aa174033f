import LanguageClient.Proofs.Session.Errands
import LanguageClient.Proofs.Session.Roles

/-!
# The protocol with a server

What a connection is asked to say follows a protocol: the call that has started the server
introduces the client, and gives up or goes on according to the answer; then anybody may
speak; and a call that stops the server says two last things, one after the other. How far
the protocol has come decides what each call may stand at, and what each call stands at
decides what it can ask for next.
-/

namespace LanguageClient

variable {D : Type}

/-- How far the protocol has come on a connection. -/
inductive Progress where
  | silent
  /-- The client has introduced itself. -/
  | asked (starter number : Nat)
  /-- The client does not wait for the answer to its introduction any more. -/
  | withdrawn
  | running
  /-- The server has been asked to shut down. -/
  | leaving (stopper : Nat)
  /-- The server has been told to exit. -/
  | left (stopper : Nat)

namespace Progress

def isOpen : Progress -> Bool
  | .running | .leaving _ | .left _ => true
  | _ => false

def isClosing : Progress -> Bool
  | .leaving _ | .left _ => true
  | _ => false

end Progress

/-- Call `id` has been begun with this operation. -/
def Began (moments : List (Moment D)) (id : Nat) (op : Operation) : Prop :=
  (begun moments)[id]? = some op

theorem Began.concat {moments : List (Moment D)} {id : Nat} {op : Operation}
    (h : Began moments id op) (m : Moment D) : Began (moments ++ [m]) id op := by
  rw [Began, Session.begun_concat, List.getElem?_append_left
    (List.getElem?_eq_some_iff.mp h).1, h]

theorem Began.append {moments : List (Moment D)} {id : Nat} {op : Operation}
    (h : Began moments id op) (more : List (Moment D)) : Began (moments ++ more) id op := by
  induction more generalizing moments with
  | nil => rwa [List.append_nil]
  | cons m rest ih => exact List.append_cons moments m rest ▸ ih (h.concat m)

theorem Began.split {moments : List (Moment D)} {id : Nat} {op : Operation}
    (h : Began moments id op) :
    exists past b since, moments = past ++ b :: since ∧ b.action = .begin op ∧
      (begun past).length = id := by
  rcases List.getElem?_eq_some_iff.mp h with ⟨hlt, hop⟩
  have hsplit :
      begun moments = (begun moments).take id ++ op :: (begun moments).drop (id + 1) := by
    rw [← hop, List.getElem_cons_drop, List.take_append_drop]
  rcases split_of_filterMap hsplit with ⟨past, b, since, hmoments, hpast, hb, _⟩
  refine ⟨past, b, since, hmoments, ?_, ?_⟩
  · split at hb
    case h_1 op' haction =>
      cases hb
      exact haction
    case h_2 => contradiction
  · rw [begun, hpast, List.length_take_of_le (Nat.le_of_lt hlt)]

theorem Session.Course.began_of_task? [FileSystem D] {settings : Settings} {processId : Nat}
    {workspace : Workspace D} {earlier later : List (Moment D)} {s : Session D}
    (course : Session.Course (Session.new settings processId workspace) earlier s) {id : Nat}
    {task : Task} (htask : s.task? id = some task) {op : Operation}
    (hbegan : Began (earlier ++ later) id op) : Began earlier id op := by
  rcases course.cast id task htask with ⟨op', hop', _⟩
  cases Option.some.inj ((Began.append hop' later).symm.trans hbegan)
  exact hop'

inductive Command.IsFree (moments : List (Moment D)) : Command -> Prop where
  | abandon (number : Nat) : IsFree moments (.abandon number)
  | user (command : Command) (t : Ticket) (op : Operation) (own : command.ticket? = some t)
      (began : Began moments t.call op) (role : op.role = .other)
      (utters : forall params t', command = .notify (.notification "initialized" params) t' ->
        exists params', op = .notify "initialized" params') : IsFree moments command

inductive Talks (k : Nat) (moments : List (Moment D)) : Progress -> List Command -> Prop where
  | silent : Talks k moments .silent []
  | asked (starter number serial : Nat) (params : Json) (launch : Launch)
      (began : Began moments starter (.start launch)) :
      Talks k moments (.asked starter number)
        [.request number "initialize" params ⟨starter, serial⟩]
  | withdrawn (starter number serial : Nat) (params : Json) (launch : Launch)
      (began : Began moments starter (.start launch)) :
      Talks k moments .withdrawn
        [.request number "initialize" params ⟨starter, serial⟩, .abandon number]
  | opened (starter number serial serial' : Nat) (params : Json) (launch : Launch)
      (began : Began moments starter (.start launch))
      (answered : exists earlier m later result, moments = earlier ++ m :: later ∧
        m.hears? k number = some (.ok result) ∧
        spoken k earlier = [⟨some starter, .message (.request number "initialize" params)⟩]) :
      Talks k moments .running
        [.request number "initialize" params ⟨starter, serial⟩,
          .notify (.notification "initialized" (Json.ofMembers [])) ⟨starter, serial'⟩]
  | free (p : Progress) (commands : List Command) (command : Command)
      (h : Talks k moments p commands) (ready : p.isOpen = true)
      (free : command.IsFree moments) : Talks k moments p (commands ++ [command])
  | shutdown (stopper number serial : Nat) (force : Bool) (commands : List Command)
      (h : Talks k moments .running commands) (began : Began moments stopper (.stop force)) :
      Talks k moments (.leaving stopper)
        (commands ++ [.request number "shutdown" .null ⟨stopper, serial⟩])
  | exit (stopper serial : Nat) (commands : List Command)
      (h : Talks k moments (.leaving stopper) commands) :
      Talks k moments (.left stopper)
        (commands ++ [.notify (.notification "exit" .null) ⟨stopper, serial⟩])

namespace Command.IsFree

theorem concat {moments : List (Moment D)} {command : Command} (h : command.IsFree moments)
    (m : Moment D) : command.IsFree (moments ++ [m]) := by
  cases h with
  | abandon number => exact .abandon number
  | user _ t op own began role utters => exact .user _ t op own (began.concat m) role utters

end Command.IsFree

namespace Talks

variable {k : Nat} {moments : List (Moment D)} {p : Progress} {commands : List Command}

theorem concat (h : Talks k moments p commands) (m : Moment D) :
    Talks k (moments ++ [m]) p commands := by
  induction h with
  | silent => exact .silent
  | asked starter number serial params launch began =>
      exact .asked starter number serial params launch (began.concat m)
  | withdrawn starter number serial params launch began =>
      exact .withdrawn starter number serial params launch (began.concat m)
  | opened starter number serial serial' params launch began answered =>
      rcases answered with ⟨earlier, m', later, result, rfl, hhears, hspoken⟩
      exact .opened starter number serial serial' params launch (began.concat m)
        ⟨earlier, m', later ++ [m], result, by simp, hhears, hspoken⟩
  | free p commands command h ready free ih =>
      exact .free p commands command ih ready (free.concat m)
  | shutdown stopper number serial force commands h began ih =>
      exact .shutdown stopper number serial force commands ih (began.concat m)
  | exit stopper serial commands h ih => exact .exit stopper serial commands ih

theorem silent_inv (h : Talks k moments .silent commands) : commands = [] := by
  cases h with
  | silent => rfl
  | free commands command h ready free => contradiction

theorem asked_inv {starter number : Nat}
    (h : Talks k moments (.asked starter number) commands) :
    exists serial params launch, Began moments starter (.start launch) ∧
      commands = [.request number "initialize" params ⟨starter, serial⟩] := by
  cases h with
  | asked _ _ serial params launch began => exact ⟨serial, params, launch, began, rfl⟩
  | free commands command h ready free => contradiction

theorem said {e : Effect D} {added : List Command} (h : Talks k moments p commands)
    {l : Licence} {id : Nat} {op : Operation} (habides : e.Abides l)
    (hreaches : l.reaches k -> p.isOpen = true)
    (hown : forall number, l.own = some (k, number) -> p.isOpen = true)
    (hbegan : Began moments id op) (hrole : op.role = .other)
    (hutters : forall params, l.utters (.notification "initialized" params) ->
      exists params', op = .notify "initialized" params')
    (horders : e.Orders id k added) :
    Talks k moments p (commands ++ added.filter (!·.isSilent)) := by
  have hnothing (hadded : added.filter (!·.isSilent) = []) :
      Talks k moments p (commands ++ added.filter (!·.isSilent)) := by
    rwa [hadded, List.append_nil]
  have hone (command : Command) (hready : p.isOpen = true) (hfree : command.IsFree moments)
      (hadded : added = [command]) :
      Talks k moments p (commands ++ added.filter (!·.isSilent)) := by
    subst hadded
    cases hsilent : command.isSilent with
    | true => exact hnothing (List.filter_cons_of_neg (by simp [hsilent]))
    | false =>
        rw [List.filter_cons_of_pos (by simp [hsilent]), List.filter_nil]
        exact .free p commands command h hready hfree
  cases habides with
  | ask j question task admits unclaimed plain reaches utters hands =>
      rw [Effect.Orders] at horders
      split at horders
      case isFalse =>
        subst horders
        exact hnothing rfl
      case isTrue hj =>
        subst hj
        rcases horders with ⟨serial, rfl⟩
        rcases reaches with hsilent | hreached
        · exact hnothing (List.filter_cons_of_neg (by simp [hsilent]))
        · refine hone _ (hreaches hreached)
            (.user _ ⟨id, serial⟩ op (question.own _) hbegan hrole
            fun params t' hcommand => ?_) rfl
          exact hutters params (utters _ _ _ hcommand)
  | inquire j method params timeout reaches waits =>
      rw [Effect.Orders] at horders
      split at horders
      case isFalse =>
        subst horders
        exact hnothing rfl
      case isTrue hj =>
        subst hj
        rcases horders with ⟨serial, rfl⟩
        refine hone _ (hreaches reaches) (.user _ ⟨id, serial⟩ op rfl hbegan hrole ?_) rfl
        intro params' t' heq
        contradiction
  | abandon j number own =>
      rw [Effect.Orders] at horders
      split at horders
      case isFalse =>
        subst horders
        exact hnothing rfl
      case isTrue hj =>
        subst hj
        exact hone _ (hown number own) (.abandon number) horders
  | rest task admits =>
      cases horders
      exact hnothing rfl
  | finish outcome =>
      cases horders
      exact hnothing rfl
  | draw =>
      cases horders
      exact hnothing rfl
  | store workspace =>
      cases horders
      exact hnothing rfl

theorem allSaid {effects : List (Effect D)} {added : List Command}
    (h : Talks k moments p commands) {l : Licence} {id : Nat} {op : Operation}
    (habides : forall e, e ∈ effects -> e.Abides l)
    (hreaches : l.reaches k -> p.isOpen = true)
    (hown : forall number, l.own = some (k, number) -> p.isOpen = true)
    (hbegan : Began moments id op) (hrole : op.role = .other)
    (hutters : forall params, l.utters (.notification "initialized" params) ->
      exists params', op = .notify "initialized" params')
    (horders : Effect.AllOrder id k effects added) :
    Talks k moments p (commands ++ added.filter (!·.isSilent)) := by
  induction effects generalizing commands added with
  | nil =>
      cases horders
      rwa [List.filter_nil, List.append_nil]
  | cons e others ih =>
      rcases horders with ⟨first, later, hfirst, hlater, rfl⟩
      rw [List.filter_append, ← List.append_assoc]
      exact ih (h.said (habides e List.mem_cons_self) hreaches hown hbegan hrole hutters
        hfirst) (fun e' he' => habides e' (List.mem_cons_of_mem _ he')) hlater

end Talks

/-!
## Where calls stand
-/

def Task.stage? : Task -> Option Nat
  | .introducing k _ _ | .announcing k | .shuttingDown k _ _ _ => some k
  | task => task.claim?

theorem Task.apart_of_idle {task : Task} (h : task.stage? = none) (k : Nat) :
    task.stage? ≠ some k :=
  fun hstage => Option.some_ne_none k (hstage.symm.trans h)

structure Task.Suits (k : Nat) (p : Progress) (id : Nat) (task : Task) : Prop where
  introducing : forall number deadline, task = .introducing k number deadline ->
    p = .asked id number
  announcing : task = .announcing k -> p = .running
  leaving : forall force number deadline, task = .shuttingDown k force number deadline ->
    p = .leaving id
  claim : task.claim? = some k -> p.isOpen = true

namespace Task.Suits

variable {k j id number : Nat} {p p' : Progress} {task : Task}

theorem of_introducing (deadline : Nat) :
    (Task.introducing k number deadline).Suits k (.asked id number) id where
  introducing n _ h := by
    cases h
    rfl
  announcing := nofun
  leaving := nofun
  claim := nofun

theorem of_announcing : (Task.announcing k).Suits k .running id where
  introducing := nofun
  announcing _ := rfl
  leaving := nofun
  claim := nofun

theorem of_shuttingDown (force : Bool) (deadline : Nat) :
    (Task.shuttingDown k force number deadline).Suits k (.leaving id) id where
  introducing := nofun
  announcing := nofun
  leaving _ _ _ _ := rfl
  claim := nofun

theorem of_apart (h : task.stage? ≠ some k) : task.Suits k p id where
  introducing _ _ htask := absurd (htask ▸ rfl) h
  announcing htask := absurd (htask ▸ rfl) h
  leaving _ _ _ htask := absurd (htask ▸ rfl) h
  claim hclaim := by
    refine absurd ?_ h
    cases task <;> first | exact hclaim | contradiction

theorem of_idle (h : task.stage? = none) : task.Suits k p id :=
  of_apart (task.apart_of_idle h k)

theorem of_user (huser : task.isLifecycle = false)
    (hclaim : task.claim? = some k -> p.isOpen = true) : task.Suits k p id where
  introducing number deadline htask := by
    rw [htask] at huser
    contradiction
  announcing htask := by
    rw [htask] at huser
    contradiction
  leaving force number deadline htask := by
    rw [htask] at huser
    contradiction
  claim := hclaim

/-!
The protocol goes on, but not for this call.
-/

theorem of_silent (h : task.Suits k .silent id) (p : Progress) : task.Suits k p id where
  introducing number deadline htask := nomatch h.introducing number deadline htask
  announcing htask := nomatch h.announcing htask
  leaving force number deadline htask := nomatch h.leaving force number deadline htask
  claim hclaim := nomatch h.claim hclaim

/-- While a call waits for the answer to its introduction, no other call has
to do with the server. -/
theorem of_asked (h : task.Suits k (.asked id number) j) (hj : id ≠ j) (p : Progress) :
    task.Suits k p j where
  introducing n deadline htask := by
    injection h.introducing n deadline htask with hid
    exact absurd hid hj
  announcing htask := nomatch h.announcing htask
  leaving force n deadline htask := nomatch h.leaving force n deadline htask
  claim hclaim := nomatch h.claim hclaim

theorem of_running (h : task.Suits k .running j) (hannouncing : task ≠ .announcing k)
    (hopen : p.isOpen = true) : task.Suits k p j where
  introducing number deadline htask := nomatch h.introducing number deadline htask
  announcing htask := absurd htask hannouncing
  leaving force number deadline htask := nomatch h.leaving force number deadline htask
  claim _ := hopen

theorem of_leaving (h : task.Suits k (.leaving id) j) (hj : id ≠ j) (hopen : p.isOpen = true) :
    task.Suits k p j where
  introducing number deadline htask := nomatch h.introducing number deadline htask
  announcing htask := nomatch h.announcing htask
  leaving force number deadline htask := by
    injection h.leaving force number deadline htask with hid
    exact absurd hid hj
  claim _ := hopen

end Task.Suits

namespace Session

def IsGone (s : Session D) (k : Nat) : Prop :=
  exists c, s.connection? k = some c ∧ c.isAlive = false

theorem not_isGone_of_absent {s : Session D} {k : Nat} (h : s.connection? k = none) :
    ¬ s.IsGone k :=
  fun ⟨_, hc, _⟩ => nomatch h.symm.trans hc

theorem not_isGone_of_alive {s : Session D} {k : Nat} {c : Connection}
    (h : s.connection? k = some c) (halive : c.isAlive = true) : ¬ s.IsGone k := by
  rintro ⟨b, hb, hdead⟩
  rw [← Option.some.inj (h.symm.trans hb), halive] at hdead
  contradiction

/-- What a state has to do with the progress of the protocol on connection `k`. -/
structure Keeps (k : Nat) (s : Session D) (p : Progress) : Prop where
  absent : s.connection? k = none -> p = .silent
  greeted : forall c, s.connection? k = some c -> c.initialized = true -> p.isOpen = true
  tasks : forall id task, s.task? id = some task -> task.Suits k p id
  /-- A server that is in use while it is being stopped is stopped by a
  call that has its turn. -/
  held : s.current = some k -> p.isClosing = true ->
    exists id task, s.lifecycle? id = some task ∧ task.waits = false

/-- On connection `k` the protocol has been followed. -/
def Follows (k : Nat) (moments : List (Moment D)) (s : Session D) : Prop :=
  exists p, Talks k moments p (errands k moments) ∧ (¬ s.IsGone k -> s.Keeps k p)

/-!
## Moments without calls
-/

theorem quiet_of_act [FileSystem D] {s u : Session D} {a : Action} (h : s.act a = some u)
    (hcall : Moment.ofCall (⟨s, a, u⟩ : Moment D) = false) :
    (forall id, u.task? id = s.task? id) ∧ u.outline = s.outline := by
  cases kind_of_act h with
  | connection k c c' e hemitted hc halive hproceeds hafter haction =>
      rw [show u = _ from hafter]
      exact ⟨task?_emit k c' e, outline_emit k c' e⟩
  | begins op effects haction hfirst hafter =>
      rw [show a = _ from haction] at hcall
      contradiction
  | goesOn id call effects haction hcall' hstep hafter =>
      rw [show a = _ from haction] at hcall
      contradiction
  | withdraws id haction hafter =>
      rw [show u = _ from hafter]
      exact ⟨s.task?_cancelled id, rfl⟩
  | world k f hundisturbed hquiet haction hafter =>
      rw [show u = _ from hafter]
      exact ⟨fun _ => rfl, (s.modifyConnection_alike k f).outline⟩
  | elapses ms haction hafter =>
      rw [show u = _ from hafter]
      exact ⟨fun _ => rfl, rfl⟩

theorem Follows.drift {k : Nat} {moments : List (Moment D)} {m : Moment D}
    (h : Follows k moments m.before) (hcall : m.ofCall = false) (hdrifts : m.Drifts k)
    (htask : forall id, m.after.task? id = m.before.task? id)
    (houtline : m.after.outline = m.before.outline) : Follows k (moments ++ [m]) m.after := by
  rcases h with ⟨p, htalks, hkeeps⟩
  have hasks : m.asks k = [] := by rw [Moment.asks, if_neg (Bool.eq_false_iff.mp hcall)]
  refine ⟨p, ?_, fun hhere => ?_⟩
  · rw [errands_concat, hasks, List.filter_nil, List.append_nil]
    exact htalks.concat m
  have hbefore : ¬ m.before.IsGone k := by
    rintro ⟨c, hc, hdead⟩
    rcases hdrifts with ⟨hnone, _⟩ | ⟨b, c', hb, hc', hfades⟩
    · cases hc.symm.trans hnone
    · cases Option.some.inj (hc.symm.trans hb)
      refine hhere ⟨c', hc', Bool.eq_false_iff.mpr fun halive => ?_⟩
      rw [hfades.alive halive] at hdead
      contradiction
  have hkeeps := hkeeps hbefore
  constructor
  case absent =>
    intro hnone
    rcases hdrifts with ⟨hnone', _⟩ | ⟨c, c', hc, hc', hfades⟩
    · exact hkeeps.absent hnone'
    · cases hnone.symm.trans hc'
  case greeted =>
    intro c' hc' hinitialized
    rcases hdrifts with ⟨_, hnone⟩ | ⟨c, b', hc, hb', hfades⟩
    · cases hc'.symm.trans hnone
    · cases Option.some.inj (hc'.symm.trans hb')
      exact hkeeps.greeted c hc (hfades.initialized hinitialized)
  case tasks =>
    intro id task hid
    exact hkeeps.tasks id task ((htask id).symm.trans hid)
  case held =>
    intro hcurrent hclosing
    have hsame : m.after.current = m.before.current := congrArg Outline.current houtline
    rcases hkeeps.held (hsame.symm.trans hcurrent) hclosing with ⟨id, task, hlife, hwaits⟩
    exact ⟨id, task, by rw [lifecycle?, htask, ← lifecycle?, hlife], hwaits⟩

/-!
## Moments of calls
-/

structure Leads (k id : Nat) (s : Session D) (effects : List (Effect D)) (p p' : Progress) :
    Prop where
  silent : p = .silent -> p' = .silent
  ready : p.isOpen = true -> p'.isOpen = true
  own : forall task, (Effect.lastTask? effects).or (s.task? id) = some task ->
    task.Suits k p' id
  others : forall j task, id ≠ j -> s.task? j = some task -> task.Suits k p j ->
    task.Suits k p' j
  welcome : effects.any (Effect.welcomes k) = true -> p'.isOpen = true
  held : (s.undergo id effects).current = some k -> p'.isClosing = true ->
    exists j task, (s.undergo id effects).lifecycle? j = some task ∧ task.waits = false

theorem Keeps.step {k id : Nat} {s : Session D} {effects : List (Effect D)} {p p' : Progress}
    (h : s.Keeps k p) (hid : id < s.calls.length) (hleads : Leads k id s effects p p')
    (habsent : s.connection? k = none -> (s.undergo id effects).connection? k = none) :
    (s.undergo id effects).Keeps k p' where
  absent hnone := by
    cases hc : s.connection? k with
    | none => exact hleads.silent (h.absent hc)
    | some c =>
        rcases undergo_gets hid effects hc with ⟨c', _, hc', _⟩
        exact nomatch hnone.symm.trans hc'
  greeted c' hc' hinitialized := by
    cases hc : s.connection? k with
    | none => exact nomatch (habsent hc).symm.trans hc'
    | some c =>
        rcases undergo_gets hid effects hc with ⟨b', _, hb', hgets, _⟩
        cases Option.some.inj (hc'.symm.trans hb')
        rw [hgets.initialized, Bool.or_eq_true] at hinitialized
        rcases hinitialized with hinitialized | hwelcome
        · exact hleads.ready (h.greeted c hc hinitialized)
        · exact hleads.welcome hwelcome
  tasks j task hj := by
    rw [undergo_task? hid] at hj
    split at hj
    case isTrue hsame =>
      subst hsame
      exact hleads.own task hj
    case isFalse hother => exact hleads.others j task hother hj (h.tasks j task hj)
  held := hleads.held

theorem Follows.step {k id : Nat} {moments : List (Moment D)} {m : Moment D} {s : Session D}
    {effects : List (Effect D)} (h : Follows k moments s) (hcall : m.ofCall = true)
    (hsame : s.connections = m.before.connections) (hid : id < s.calls.length)
    (hafter : m.after = s.undergo id effects)
    (habsent : s.connection? k = none -> (s.undergo id effects).connection? k = none)
    (hstep : forall p, Talks k moments p (errands k moments) -> s.Keeps k p ->
      exists p', Leads k id s effects p p' ∧
        forall added, (s.connection? k ≠ none -> Effect.AllOrder id k effects added) ->
          (s.connection? k = none -> added = []) ->
          Talks k (moments ++ [m]) p' (errands k moments ++ added.filter (!·.isSilent))) :
    Follows k (moments ++ [m]) m.after := by
  rcases h with ⟨p, htalks, hkeeps⟩
  have hbefore : m.before.connection? k = s.connection? k := congrArg (·[k]?) hsame.symm
  rw [Follows, errands_concat, hafter]
  cases hc : s.connection? k with
  | none =>
      have hasks : m.asks k = [] := by
        rw [Moment.asks_of_absent hcall (hbefore.trans hc), hafter, waiting, habsent hc]
        rfl
      have hkeeps := hkeeps (not_isGone_of_absent hc)
      rcases hstep p htalks hkeeps with ⟨p', hleads, htalks'⟩
      rw [hasks]
      refine ⟨p', ?_, fun _ => hkeeps.step hid hleads habsent⟩
      exact htalks' [] (fun hne => absurd hc hne) fun _ => rfl
  | some c =>
      rcases undergo_gets hid effects hc with ⟨c', added, hc', hgets, horders⟩
      have hasks := Moment.asks_of_gets hcall (hbefore.trans hc)
        ((congrArg (·.connection? k) hafter).trans hc') hgets
      rw [hasks]
      cases halive : c.isAlive with
      | false =>
          rw [halive, if_neg Bool.false_ne_true] at horders
          rw [horders, List.filter_nil, List.append_nil]
          refine ⟨p, htalks.concat m, fun hhere => absurd ?_ hhere⟩
          exact ⟨c', hc', hgets.isAlive.trans halive⟩
      | true =>
          rw [if_pos halive] at horders
          have hkeeps := hkeeps (not_isGone_of_alive hc halive)
          rcases hstep p htalks hkeeps with ⟨p', hleads, htalks'⟩
          refine ⟨p', htalks' added (fun _ => horders) fun hnone => ?_,
            fun _ => hkeeps.step hid hleads habsent⟩
          cases hc.symm.trans hnone

/-!
## Calls of users
-/

theorem ready?_eq_some {s : Session D} {k : Nat} (h : s.ready? = some k) :
    s.current = some k ∧ exists c, s.connection? k = some c ∧ c.isAlive = true ∧
      c.initialized = true := by
  rw [ready?, Option.filter_eq_some_iff, alive?_eq_some] at h
  rcases h with ⟨⟨hcurrent, halive⟩, hinitialized⟩
  split at hinitialized
  case h_1 c hc =>
    exact ⟨hcurrent, c, hc, (isAlive_of_connection? hc).symm.trans halive, hinitialized⟩
  case h_2 => contradiction

theorem Keeps.ready {k : Nat} {s : Session D} {p : Progress} (h : s.Keeps k p)
    (hready : s.ready? = some k) : p.isOpen = true := by
  rcases ready?_eq_some hready with ⟨_, c, hc, _, hinitialized⟩
  exact h.greeted c hc hinitialized

theorem inner_of_abides {l : Licence} {effects : List (Effect D)}
    (h : forall e, e ∈ effects -> e.Abides l) (k id : Nat) :
    (forall launched, .launch launched ∉ effects) ∧
      effects.any (Effect.welcomes k) = false ∧
      forall o : Outline, (effects.foldl (Effect.redraw id) o).current = o.current := by
  induction effects with
  | nil => exact ⟨fun _ => List.not_mem_nil, rfl, fun _ => rfl⟩
  | cons e others ih =>
      rcases ih fun e' he' => h e' (List.mem_cons_of_mem _ he') with
        ⟨hlaunch, hwelcome, hcurrent⟩
      have he := h e List.mem_cons_self
      refine ⟨fun launched hmem => ?_, ?_, fun o => ?_⟩
      · rcases List.mem_cons.mp hmem with rfl | hmem
        · exact nomatch he
        · exact hlaunch launched hmem
      · rw [List.any_cons, hwelcome, Bool.or_false]
        cases he <;> rfl
      · rw [List.foldl_cons, hcurrent]
        cases he <;> rfl

theorem undergo_absent {s : Session D} {id : Nat} (hid : id < s.calls.length)
    {effects : List (Effect D)} (hlaunch : forall launched, .launch launched ∉ effects)
    {k : Nat} (hc : s.connection? k = none) : (s.undergo id effects).connection? k = none := by
  rcases undergo_connection?_absent hid effects hc with hnone | ⟨_, _, _, _, launched, hmem, _⟩
  · exact hnone
  · exact absurd hmem (hlaunch launched)

theorem Keeps.held_of_other {k id : Nat} {s : Session D} {p : Progress} (h : s.Keeps k p)
    (hid : id < s.calls.length) {effects : List (Effect D)}
    (hother : s.lifecycle? id = none)
    (hcurrent : (s.undergo id effects).current = s.current)
    (hhere : (s.undergo id effects).current = some k) (hclosing : p.isClosing = true) :
    exists j task, (s.undergo id effects).lifecycle? j = some task ∧ task.waits = false := by
  rcases h.held (hcurrent.symm.trans hhere) hclosing with ⟨j, task, hlife, hwaits⟩
  refine ⟨j, task, ?_, hwaits⟩
  have hj : id ≠ j := fun heq => by
    rw [← heq, hother] at hlife
    contradiction
  rw [lifecycle?, undergo_task? hid, if_neg hj, ← lifecycle?, hlife]

theorem Follows.user {k id : Nat} {moments : List (Moment D)} {m : Moment D} {s : Session D}
    {effects : List (Effect D)} (h : Follows k moments s) (hcall : m.ofCall = true)
    (hsame : s.connections = m.before.connections) (hid : id < s.calls.length)
    (hafter : m.after = s.undergo id effects) {l : Licence}
    (habides : forall e, e ∈ effects -> e.Abides l) (hother : s.lifecycle? id = none)
    (hreaches : forall p, s.Keeps k p -> l.reaches k -> p.isOpen = true)
    (hown : forall p number, s.Keeps k p -> l.own = some (k, number) -> p.isOpen = true)
    {op : Operation} (hbegan : Began (moments ++ [m]) id op) (hrole : op.role = .other)
    (hutters : forall params, l.utters (.notification "initialized" params) ->
      exists params', op = .notify "initialized" params') :
        Follows k (moments ++ [m]) m.after := by
  rcases inner_of_abides habides k id with ⟨hlaunch, hwelcome, hcurrent⟩
  refine h.step hcall hsame hid hafter (undergo_absent hid hlaunch) fun p htalks hkeeps => ?_
  have hreaches := hreaches p hkeeps
  refine ⟨p, ⟨fun h => h, fun h => h, fun task htask => ?_, fun _ _ _ _ hsuits => hsuits,
    ?_, ?_⟩, ?_⟩
  · cases hlast : Effect.lastTask? effects with
    | none =>
        rw [hlast, Option.none_or] at htask
        exact hkeeps.tasks id task htask
    | some task' =>
        rw [hlast, Option.some_or] at htask
        cases htask
        rcases lastTask?_of_abides habides hlast with
          ⟨outcome, rfl⟩ | hadmits | ⟨j, method, timeout, hj, _, rfl⟩
        · exact .of_idle rfl
        · exact .of_user hadmits.user fun hclaim => hreaches (hadmits.claim k hclaim)
        · refine .of_user rfl fun hclaim => ?_
          cases hclaim
          exact hreaches hj
  · exact fun h => absurd (hwelcome.symm.trans h) Bool.false_ne_true
  · exact hkeeps.held_of_other hid hother
      ((congrArg Outline.current (s.undergo_outline id effects)).trans (hcurrent s.outline))
  · intro added horders hnothing
    cases hc : s.connection? k with
    | none =>
        rw [hnothing hc, List.filter_nil, List.append_nil]
        exact htalks.concat m
    | some c =>
        exact (htalks.concat m).allSaid habides hreaches (hown p · hkeeps) hbegan hrole hutters
          (horders (by rw [hc]; exact nofun))

theorem Follows.addCall {k : Nat} {moments : List (Moment D)} {s : Session D}
    (h : Follows k moments s) : Follows k moments s.addCall := by
  rcases h with ⟨p, htalks, hkeeps⟩
  refine ⟨p, htalks, fun hhere => ?_⟩
  rcases hkeeps hhere with ⟨habsent, hgreeted, htasks, hheld⟩
  refine ⟨habsent, hgreeted, fun id task htask => ?_, fun hcurrent hclosing => ?_⟩
  · rw [task?_addCall] at htask
    split at htask
    · cases htask
      exact .of_idle rfl
    · exact htasks id task htask
  · rcases hheld hcurrent hclosing with ⟨id, task, hlife, hwaits⟩
    exact ⟨id, task, (s.lifecycle?_addCall id).trans hlife, hwaits⟩

theorem lifecycle?_new (s : Session D) : s.addCall.lifecycle? s.calls.length = none := by
  rw [lifecycle?, task?_addCall, if_pos rfl]
  rfl

theorem Follows.begin {k : Nat} {moments : List (Moment D)} {s : Session D}
    (h : Follows k moments s) (hlength : (begun moments).length = s.calls.length)
    (op : Operation) :
    Follows k (moments ++ [⟨s, .begin op, s.beginCall op⟩]) (s.beginCall op) := by
  have hid := s.calls_length_lt_addCall
  have hbegan : Began (moments ++ [⟨s, .begin op, s.beginCall op⟩]) s.calls.length op := by
    rw [Began, begun_concat, begun_begin rfl, ← hlength, List.getElem?_concat_length]
  have hwaits (task : Task) (hidle : task.stage? = none)
      (hafter : s.beginCall op = s.addCall.undergo s.calls.length [.lineUp, .rest task]) :
      Follows k (moments ++ [⟨s, .begin op, s.beginCall op⟩]) (s.beginCall op) := by
    refine h.addCall.step (m := ⟨s, .begin op, s.beginCall op⟩) rfl rfl hid hafter
      (undergo_absent hid (by simp)) fun p htalks hkeeps => ?_
    refine ⟨p, ⟨fun h => h, fun h => h, fun task' htask' => ?_, fun _ _ _ _ hsuits => hsuits,
      nofun, ?_⟩, fun added horders hnothing => ?_⟩
    · cases htask'
      exact .of_idle hidle
    · exact hkeeps.held_of_other hid s.lifecycle?_new rfl
    · have hadded : added = [] := by
        cases hc : s.addCall.connection? k with
        | none => exact hnothing hc
        | some c =>
            rcases horders (by rw [hc]; exact nofun) with
              ⟨_, _, rfl, ⟨_, _, rfl, rfl, rfl⟩, rfl⟩
            rfl
      rw [hadded, List.filter_nil, List.append_nil]
      exact htalks.concat _
  have hother (hrole : op.role = .other) :
      Follows k (moments ++ [⟨s, .begin op, s.beginCall op⟩]) (s.beginCall op) := by
    rcases s.addCall.begin_abiding s.calls.length op
      (by rintro _ rfl; contradiction) (by rintro _ rfl; contradiction) with
      ⟨effects, habides, hafter⟩
    refine h.addCall.user (m := ⟨s, .begin op, s.beginCall op⟩) rfl rfl hid hafter habides
      s.lifecycle?_new (fun p hkeeps hready => hkeeps.ready hready) nofun hbegan hrole ?_
    rintro params ⟨method, params', rfl, hmessage⟩
    injection hmessage with _ _ hmethod
    cases hmethod
    exact ⟨params', rfl⟩
  cases op with
  | start launch => exact hwaits (.starting launch) rfl rfl
  | stop force => exact hwaits (.stopping force) rfl rfl
  | _ => exact hother rfl

theorem claim?_of_request? {task : Task} (huser : task.isLifecycle = false) {k number : Nat}
    (h : task.request? = some (k, number)) : task.claim? = some k := by
  cases task with
  | requesting j n method timeout deadline =>
      cases h
      rfl
  | introducing j n deadline => contradiction
  | shuttingDown j force n deadline => contradiction
  | _ => contradiction

section

variable [FileSystem D] {settings : Settings} {k id : Nat} {moments : List (Moment D)}
  {s u : Session D} {call : Call}

theorem Follows.userGoesOn (h : Follows k moments s) (hcast : Cast settings (begun moments) s)
    (hcall : s.call? id = some call) (huser : call.task.isLifecycle = false)
    (hstep : s.stepTask id call call.task = some u) :
    Follows k (moments ++ [⟨s, .goOn id, u⟩]) u := by
  have htask := task?_of_call? hcall
  rcases hcast id call.task htask with ⟨op, hbegan, hhosts⟩
  have hlive : call.task.role? ≠ none := fun hnone => by
    rcases Task.eq_done_of_role? hnone with ⟨outcome, hdone⟩
    rw [hdone, stepTask_done] at hstep
    contradiction
  have hrole := hhosts.role_eq ((Task.role?_of_user huser).resolve_left hlive)
  have hother : s.lifecycle? id = none := by
    rw [lifecycle?, htask, Option.filter_some, huser]
    rfl
  rcases stepTask_abiding huser hstep with ⟨effects, habides, hafter⟩
  refine h.user (m := ⟨s, .goOn id, u⟩) rfl rfl (lt_of_call? hcall) hafter habides hother
    (fun p hkeeps hreaches => ?_) (fun p number hkeeps hown => ?_)
    (Began.concat hbegan _) hrole ?_
  · rcases hreaches with hready | hclaim
    · exact hkeeps.ready hready
    · exact (hkeeps.tasks id call.task htask).claim hclaim
  · exact (hkeeps.tasks id call.task htask).claim (claim?_of_request? huser hown)
  · rintro params ⟨params', hmessage⟩
    injection hmessage with _ _ hmethod
    exact absurd (Option.some.inj hmethod) (by decide)

end

end Session
end LanguageClient

import LanguageClient.Proofs.Session.UserSteps

/-!
# Steps of calls

Only calls that start or stop a server do anything else than ask, draw, give up, store and
turn to another task. This module says which effects their steps consist of, and puts them
beside the steps of all other calls.
-/

namespace LanguageClient

variable {D : Type}

theorem isModest_map {α : Type} (r : Except Failure α) {f : α -> Value}
    (hf : forall a, (Task.done (.ok (f a))).isModest = true) :
    (Task.done (r.map f)).isModest = true := by
  cases r with
  | ok a => exact hf a
  | error e => rfl

theorem isModest_viewed (serverName : String) (lists : List (String × List Json))
    (view : View) :
    (Task.done (.ok (Session.viewed serverName lists view))).isModest = true := by
  cases view <;> rfl

namespace Session

/-!
## Modest steps
-/

def Modest (id : Nat) (s u : Session D) : Prop :=
  exists effects : List (Effect D), (forall e, e ∈ effects -> e.isModest = true) ∧
    u = s.undergo id effects

section

variable {s u : Session D} {id : Nat} {e : Effect D} {effects : List (Effect D)}

theorem Continues.isModest {job : EditJob} {result : FileEditResult}
    (h : Continues job result e) : e.isModest = true := by
  cases h with
  | next => rfl
  | last =>
      rw [Effect.isModest]
      split <;> rfl

theorem ChecksOpen.isModest {job : EditJob} {result : FileEditResult}
    (h : ChecksOpen s job result e) : e.isModest = true := by
  cases h with
  | asks => rfl
  | continues _ _ continues => exact continues.isModest

theorem FailsSync.isModest {failure : Failure} {next : AfterSync}
    (h : FailsSync failure next e) : e.isModest = true := by
  cases h with
  | answer | ask => rfl
  | save _ _ _ continues => exact continues.isModest

theorem StartsSync.isModest {name : Text} {next : AfterSync} (h : StartsSync s name next e) :
    e.isModest = true := by
  cases h with
  | reads => rfl
  | fails _ _ fails => exact fails.isModest

theorem EndsSync.modest {synced : SyncedDocument} {next : AfterSync}
    (h : EndsSync s synced next effects) : forall e, e ∈ effects -> e.isModest = true := by
  cases h with
  | asks => exact List.forall_mem_cons.mpr ⟨rfl, List.forall_mem_singleton.mpr rfl⟩
  | continues _ _ _ _ continues => exact List.forall_mem_singleton.mpr continues.isModest
  | _ => exact List.forall_mem_singleton.mpr rfl

theorem LooksUp.isModest {view : View} (h : LooksUp s view e) : e.isModest = true := by
  cases h <;> rfl

theorem OpeningStep.modest {op : Operation} (h : OpeningStep s op effects) :
    forall e, e ∈ effects -> e.isModest = true := by
  cases h with
  | asks => exact List.forall_mem_cons.mpr ⟨rfl, List.forall_mem_singleton.mpr rfl⟩
  | syncs _ _ starts | queries _ _ _ starts =>
      exact List.forall_mem_singleton.mpr starts.isModest
  | looksUp _ _ _ _ looks => exact List.forall_mem_singleton.mpr looks.isModest
  | _ => exact List.forall_mem_singleton.mpr rfl

theorem UserStep.modest [FileSystem D] {call : Call} {task : Task}
    (h : UserStep s call task effects) : forall e, e ∈ effects -> e.isModest = true := by
  cases h with
  | withdraws | gaveUp | edits =>
      exact List.forall_mem_cons.mpr ⟨rfl, List.forall_mem_singleton.mpr rfl⟩
  | responded _ _ _ _ _ r | notified r | closed r =>
      exact List.forall_mem_singleton.mpr (isModest_map r fun _ => rfl)
  | listed view => exact List.forall_mem_singleton.mpr (isModest_viewed _ _ view)
  | cannotRead _ _ _ _ _ _ fails | syncRefused _ _ _ _ fails | notSynced _ _ _ _ _ fails =>
      exact List.forall_mem_singleton.mpr fails.isModest
  | synced _ _ _ _ ends => exact ends.modest
  | announced _ _ _ _ _ _ _ looks | expired _ _ _ _ _ _ looks =>
      exact List.forall_mem_singleton.mpr looks.isModest
  | edited _ _ _ _ _ _ _ checks =>
      exact List.forall_mem_cons.mpr ⟨rfl, List.forall_mem_singleton.mpr checks.isModest⟩
  | leftAlone _ _ _ _ _ _ _ continues =>
      exact List.forall_mem_cons.mpr ⟨rfl, List.forall_mem_singleton.mpr continues.isModest⟩
  | isOpen _ _ _ _ starts => exact List.forall_mem_singleton.mpr starts.isModest
  | notOpen _ _ _ _ _ _ continues | saved _ _ _ _ _ continues =>
      exact List.forall_mem_singleton.mpr continues.isModest
  | _ => exact List.forall_mem_singleton.mpr rfl

theorem begin_modest (s : Session D) (id : Nat) {op : Operation}
    (hstart : forall launch, op ≠ .start launch) (hstop : forall force, op ≠ .stop force) :
    Modest id s (s.begin id op) := by
  rcases s.begin_openingStep id hstart hstop with ⟨effects, step, hu⟩
  exact ⟨effects, step.modest, hu⟩

theorem stepTask_modest [FileSystem D] {call : Call} {task : Task}
    (htask : task.isLifecycle = false) (h : s.stepTask id call task = some u) :
    Modest id s u := by
  rcases stepTask_userStep htask h with ⟨effects, step, hu⟩
  exact ⟨effects, step.modest, hu⟩

end

/-!
## Starting and stopping
-/

def forgetting (s : Session D) : List (Effect D) :=
  if s.current.isSome then [.reset] else []

def GivesUp (k number : Nat) (effects : List (Effect D)) : Prop :=
  effects = [] ∨ effects = [.abandon k number]

/-- The steps of the calls that start and stop servers. -/
inductive LifecycleStep (s : Session D) (id : Nat) (call : Call) :
    Task -> List (Effect D) -> Prop where
  | alreadyRunning (launch : Launch) (turn : s.turns.head? = some id)
      (alive : s.alive?.isSome = true) :
      LifecycleStep s id call (.starting launch) [.finish (.error .alreadyRunning)]
  | refused (launch : Launch) (reason : LaunchFailure) (turn : s.turns.head? = some id)
      (dead : s.alive? = none) :
      LifecycleStep s id call (.starting launch)
        (s.forgetting ++ [.finish (.error (.launch s.settings.command reason))])
  | launched (launch : Launch) (turn : s.turns.head? = some id) (dead : s.alive? = none) :
      LifecycleStep s id call (.starting launch)
        (s.forgetting ++ [.launch launch.isProcess, .draw,
          .ask s.connections.length (.request s.nextNumber "initialize" s.introduction)
            (.introducing s.connections.length s.nextNumber
              (s.now + s.settings.defaultTimeoutMs))])
  | introduced (k number deadline : Nat) (v : Json)
      (heard : call.mailbox = some (.response (.ok v))) :
      LifecycleStep s id call (.introducing k number deadline)
        [.learn ((v.get? "capabilities").getD .null),
          .ask k (.notify (.notification "initialized" (Json.ofMembers []))) (.announcing k)]
  | notIntroduced (k number deadline : Nat) (reason : Failure) (before : List (Effect D))
      (givesUp : GivesUp k number before) :
      LifecycleStep s id call (.introducing k number deadline)
        (before ++ [.condemn k, .ask k (.terminate true) (.aborting reason)])
  | announced (k : Nat) (heard : call.mailbox = some (.written (.ok ()))) :
      LifecycleStep s id call (.announcing k) [.welcome k, .finish (.ok .unit)]
  | notAnnounced (k : Nat) (reason : Failure) :
      LifecycleStep s id call (.announcing k)
        [.condemn k, .ask k (.terminate true) (.aborting reason)]
  | aborted (reason : Failure) (heard : call.mailbox.isSome = true) :
      LifecycleStep s id call (.aborting reason) [.reset, .finish (.error reason)]
  | nothingToStop (force : Bool) (turn : s.turns.head? = some id) (idle : s.current = none) :
      LifecycleStep s id call (.stopping force) [.finish (.ok .unit)]
  | alreadyEnded (force : Bool) (turn : s.turns.head? = some id) (dead : s.alive? = none) :
      LifecycleStep s id call (.stopping force) [.reset, .finish (.ok .unit)]
  | askedToShutDown (force : Bool) (k : Nat) (turn : s.turns.head? = some id)
      (alive : s.alive? = some k) :
      LifecycleStep s id call (.stopping force)
        [.condemn k, .draw, .ask k (.request s.nextNumber "shutdown" .null)
          (.shuttingDown k force s.nextNumber (s.now + 5000))]
  | cutShort (force : Bool) (k : Nat) (turn : s.turns.head? = some id)
      (alive : s.alive? = some k) :
      LifecycleStep s id call (.stopping force)
        [.condemn k, .ask k (.terminate force) .terminating]
  | sentExit (k : Nat) (force : Bool) (number deadline : Nat) (before : List (Effect D))
      (givesUp : GivesUp k number before) :
      LifecycleStep s id call (.shuttingDown k force number deadline)
        (before ++ [.ask k (.notify (.notification "exit" .null)) (.exiting k force)])
  | exited (k : Nat) (force : Bool) (heard : call.mailbox.isSome = true) :
      LifecycleStep s id call (.exiting k force) [.ask k (.terminate force) .terminating]
  | stopped (heard : call.mailbox.isSome = true) :
      LifecycleStep s id call .terminating [.reset, .finish (.ok .unit)]

theorem alive?_eq_some {s : Session D} {k : Nat} :
    s.alive? = some k <-> s.current = some k ∧ s.isAlive k = true := by
  rw [alive?, Option.filter_eq_some_iff]

theorem setConnection_eq_modifyConnection {s : Session D} {k : Nat} {c : Connection}
    (h : s.connection? k = some c) (f : Connection -> Connection) :
    s.setConnection k (f c) = s.modifyConnection k f := by
  have hlist : s.connections.set k (f c) = s.connections.modify k f := by
    apply List.ext_getElem?
    intro j
    rw [List.getElem?_set, List.getElem?_modify]
    by_cases hj : k = j
    · subst hj
      have hlt := (List.getElem?_eq_some_iff.mp h).1
      rw [if_pos rfl, if_pos hlt]
      rw [connection?] at h
      rw [h]
      simp
    · simp [hj]
  rw [setConnection, hlist, modifyConnection]

theorem start_lifecycleStep (s : Session D) (id : Nat) (call : Call) (launch : Launch)
    (turn : s.turns.head? = some id) :
    exists effects, LifecycleStep s id call (.starting launch) effects ∧
      s.start id launch = s.undergo id effects := by
  by_cases halive : s.alive?.isSome = true
  · refine ⟨_, .alreadyRunning launch turn halive, ?_⟩
    rw [start, if_pos halive]
    rfl
  · have hdead : s.alive? = none := Option.not_isSome_iff_eq_none.mp halive
    have hrefused (reason : LaunchFailure) : LifecycleStep s id call (.starting launch) _ :=
      .refused launch reason turn hdead
    have hlaunched : LifecycleStep s id call (.starting launch) _ :=
      .launched launch turn hdead
    by_cases hcurrent : s.current.isSome = true
    · rw [forgetting, if_pos hcurrent] at hlaunched
      simp only [forgetting, if_pos hcurrent] at hrefused
      simp only [start, if_neg halive, if_pos hcurrent]
      split
      · exact ⟨_, hrefused _, rfl⟩
      · exact ⟨_, hlaunched, rfl⟩
    · rw [forgetting, if_neg hcurrent] at hlaunched
      simp only [forgetting, if_neg hcurrent] at hrefused
      simp only [start, if_neg halive, if_neg hcurrent]
      split
      · exact ⟨_, hrefused _, rfl⟩
      · exact ⟨_, hlaunched, rfl⟩

theorem stop_lifecycleStep (s : Session D) (id : Nat) (call : Call) (force : Bool)
    (turn : s.turns.head? = some id) :
    exists effects, LifecycleStep s id call (.stopping force) effects ∧
      s.stop id force = s.undergo id effects := by
  cases hcurrent : s.current with
  | none =>
      refine ⟨_, .nothingToStop force turn hcurrent, ?_⟩
      simp only [stop, hcurrent]
      rfl
  | some k =>
      have hended (hdead : s.isAlive k = false) :
          exists effects, LifecycleStep s id call (.stopping force) effects ∧
            s.reset.finish id (.ok .unit) = s.undergo id effects := by
        refine ⟨_, .alreadyEnded force turn ?_, rfl⟩
        rw [alive?, hcurrent, Option.filter_some,
          if_neg (by rw [hdead]; exact Bool.false_ne_true)]
      cases hc : s.connection? k with
      | none =>
          simp only [stop, hcurrent, hc]
          exact hended (by rw [isAlive, hc])
      | some c =>
          have hsame : s.isAlive k = c.isAlive := by
            rw [isAlive, hc]
          simp only [stop, hcurrent, hc]
          split
          case isFalse hdead => exact hended (hsame.trans (Bool.eq_false_iff.mpr hdead))
          case isTrue halive =>
            have hk : s.alive? = some k := alive?_eq_some.mpr ⟨hcurrent, hsame.trans halive⟩
            have hcondemn :=
              setConnection_eq_modifyConnection hc fun c => { c with stopping := true }
            split
            · refine ⟨_, .askedToShutDown force k turn hk, ?_⟩
              rw [hcondemn]
              rfl
            · refine ⟨_, .cutShort force k turn hk, ?_⟩
              rw [hcondemn]
              rfl

/-- Every step of a call that starts or stops a server is one of these. -/
theorem stepTask_lifecycleStep [FileSystem D] {s u : Session D} {id : Nat} {call : Call}
    {task : Task}
    (htask : task.isLifecycle = true) (h : s.stepTask id call task = some u) :
    exists effects, LifecycleStep s id call task effects ∧ u = s.undergo id effects := by
  cases task with
  | starting launch =>
      simp only [stepTask] at h
      split at h
      case isTrue turn =>
        cases h
        exact s.start_lifecycleStep id call launch turn
      case isFalse => contradiction
  | introducing k number deadline =>
      simp only [stepTask] at h
      split at h
      case h_1 v heard =>
        cases h
        exact ⟨_, .introduced k number deadline v heard, rfl⟩
      case h_2 e _ =>
        cases h
        exact ⟨_, .notIntroduced k number deadline e [] (Or.inl rfl), rfl⟩
      case h_3 =>
        cases h
        exact ⟨_, .notIntroduced k number deadline _ [] (Or.inl rfl), rfl⟩
      case h_4 =>
        split at h
        · cases h
          exact ⟨_, .notIntroduced k number deadline _ [.abandon k number] (Or.inr rfl), rfl⟩
        · contradiction
  | announcing k =>
      simp only [stepTask] at h
      split at h
      case h_1 heard =>
        cases h
        exact ⟨_, .announced k heard, rfl⟩
      case h_2 =>
        cases h
        exact ⟨_, .notAnnounced k _, rfl⟩
      case h_3 =>
        cases h
        exact ⟨_, .notAnnounced k _, rfl⟩
      case h_4 => contradiction
  | aborting reason =>
      simp only [stepTask] at h
      split at h
      case h_1 heard =>
        cases h
        exact ⟨_, .aborted reason (by rw [heard]; rfl), rfl⟩
      case h_2 => contradiction
  | stopping force =>
      simp only [stepTask] at h
      split at h
      case isTrue turn =>
        cases h
        exact s.stop_lifecycleStep id call force turn
      case isFalse => contradiction
  | shuttingDown k force number deadline =>
      simp only [stepTask] at h
      split at h
      case h_1 =>
        cases h
        exact ⟨_, .sentExit k force number deadline [] (Or.inl rfl), rfl⟩
      case h_2 =>
        split at h
        · cases h
          exact ⟨_, .sentExit k force number deadline [.abandon k number] (Or.inr rfl), rfl⟩
        · contradiction
  | exiting k force =>
      simp only [stepTask] at h
      split at h
      case h_1 heard =>
        cases h
        exact ⟨_, .exited k force (by rw [heard]; rfl), rfl⟩
      case h_2 => contradiction
  | terminating =>
      simp only [stepTask] at h
      split at h
      case h_1 heard =>
        cases h
        exact ⟨_, .stopped (by rw [heard]; rfl), rfl⟩
      case h_2 => contradiction
  | _ => contradiction

/-!
## All steps of calls
-/

inductive CallStep (s : Session D) (id : Nat) (call : Call) (effects : List (Effect D)) :
    Prop where
  | modest (other : call.task.isLifecycle = false)
      (effects_modest : forall e, e ∈ effects -> e.isModest = true)
  | lifecycle (step : LifecycleStep s id call call.task effects)

theorem stepCall_effects [FileSystem D] {s u : Session D} {id : Nat}
    (h : s.stepCall id = some u) :
    exists call effects, s.call? id = some call ∧ CallStep s id call effects ∧
      u = s.undergo id effects := by
  unfold stepCall at h
  split at h
  case h_2 => contradiction
  case h_1 call hcall =>
    cases htask : call.task.isLifecycle with
    | false =>
        rcases stepTask_modest htask h with ⟨effects, hmodest, hu⟩
        exact ⟨call, effects, hcall, .modest htask hmodest, hu⟩
    | true =>
        rcases stepTask_lifecycleStep htask h with ⟨effects, hstep, hu⟩
        exact ⟨call, effects, hcall, .lifecycle hstep, hu⟩

inductive FirstStep (effects : List (Effect D)) : Prop where
  | modest (effects_modest : forall e, e ∈ effects -> e.isModest = true)
  | waits (task : Task) (waits : task.waits = true) (eq : effects = [.lineUp, .rest task])

def addCall (s : Session D) : Session D :=
  { s with calls := s.calls ++ [Call.fresh] }

theorem beginCall_effects (s : Session D) (op : Operation) :
    exists effects, FirstStep effects ∧
      s.beginCall op = s.addCall.undergo s.calls.length effects := by
  have hmodest (hstart : forall launch, op ≠ .start launch)
      (hstop : forall force, op ≠ .stop force) :
      exists effects : List (Effect D), FirstStep effects ∧
        s.beginCall op = s.addCall.undergo s.calls.length effects := by
    rcases s.addCall.begin_modest s.calls.length hstart hstop with ⟨effects, hmodest, hu⟩
    exact ⟨effects, .modest hmodest, hu⟩
  cases op with
  | start launch => exact ⟨_, .waits (.starting launch) rfl rfl, rfl⟩
  | stop force => exact ⟨_, .waits (.stopping force) rfl rfl, rfl⟩
  | _ => exact hmodest (fun _ h => nomatch h) fun _ h => nomatch h

end Session
end LanguageClient

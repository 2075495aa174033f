import LanguageClient.Proofs.Session.Influence

/-!
# Condemned connections

A connection is condemned when a call stops it or gives up starting it. The mark that
decides between the two errors of an ending says exactly this: as long as the connection is
alive, it is marked if and only if it has been condemned before.
-/

namespace LanguageClient

namespace Task

def introduces? : Task -> Option Nat
  | .introducing k _ _ | .announcing k => some k
  | _ => none

theorem isLifecycle_of_introduces? {task : Task} {k : Nat} (h : task.introduces? = some k) :
    task.isLifecycle = true := by
  cases task <;> first | rfl | contradiction

end Task

/-- Connection `k` is alive, and a call stops it or gives up starting it. -/
def Moment.Condemns {D : Type} (k : Nat) (m : Moment D) : Prop :=
  m.before.isAlive k = true ∧ exists id, m.action = .goOn id ∧
    ((m.before.current = some k ∧ exists force, m.before.task? id = some (.stopping force)) ∨
      exists task reason, m.before.task? id = some task ∧ task.introduces? = some k ∧
        m.after.task? id = some (.aborting reason))

namespace Session

variable {D : Type}

/-!
## Single steps
-/

theorem task?_of_call? {s : Session D} {id : Nat} {call : Call} (h : s.call? id = some call) :
    s.task? id = some call.task := by
  rw [task?, h]
  rfl

theorem forgetting_eq_reset {s : Session D} {e : Effect D} (h : e ∈ s.forgetting) :
    e = .reset := by
  unfold forgetting at h
  split at h
  · exact List.mem_singleton.mp h
  · contradiction

theorem any_condemns_forgetting (s : Session D) (k : Nat) :
    s.forgetting.any (Effect.condemns k) = false := by
  unfold forgetting
  split <;> rfl

theorem GivesUp.any_condemns {k number : Nat} {effects : List (Effect D)}
    (h : GivesUp k number effects) (j : Nat) : effects.any (Effect.condemns j) = false := by
  rcases h with rfl | rfl <;> rfl

theorem any_condemns_of_modest {effects : List (Effect D)}
    (h : forall e, e ∈ effects -> e.isModest = true) (k : Nat) :
    effects.any (Effect.condemns k) = false := by
  rw [List.any_eq_false]
  intro e he
  cases e with
  | condemn j => exact absurd (h _ he) Bool.false_ne_true
  | _ => exact Bool.false_ne_true

theorem LifecycleStep.any_condemns {s : Session D} {id : Nat} {call : Call} {task : Task}
    {effects : List (Effect D)} (h : LifecycleStep s id call task effects) {k : Nat}
    (halive : s.isAlive k = true) :
    effects.any (Effect.condemns k) = true <->
      (s.current = some k ∧ exists force, task = .stopping force) ∨
        task.introduces? = some k ∧
          exists reason, Effect.lastTask? effects = some (.aborting reason) := by
  cases h with
  | alreadyRunning launch turn alive => simp [Effect.condemns, Task.introduces?]
  | refused launch reason turn dead =>
      simp [List.any_append, any_condemns_forgetting, Effect.condemns, Task.introduces?]
  | launched launch turn dead =>
      simp [List.any_append, any_condemns_forgetting, Effect.condemns, Task.introduces?]
  | introduced j number deadline v heard =>
      simp [Effect.condemns, Effect.lastTask?, Effect.task?]
  | notIntroduced j number deadline reason before givesUp =>
      simp [List.any_append, givesUp.any_condemns, Effect.condemns, Task.introduces?,
        Effect.lastTask?_append, Effect.lastTask?, Effect.task?]
  | announced j heard => simp [Effect.condemns, Effect.lastTask?, Effect.task?]
  | notAnnounced j reason =>
      simp [Effect.condemns, Task.introduces?, Effect.lastTask?, Effect.task?]
  | aborted reason heard => simp [Effect.condemns, Task.introduces?]
  | nothingToStop force turn idle => simp [Effect.condemns, Task.introduces?, idle]
  | alreadyEnded force turn dead =>
      have hcurrent : s.current ≠ some k := fun hcurrent => by
        rw [alive?_eq_some.mpr ⟨hcurrent, halive⟩] at dead
        contradiction
      simp [Effect.condemns, Task.introduces?, hcurrent]
  | askedToShutDown force j turn alive =>
      simp [Effect.condemns, Task.introduces?, (alive?_eq_some.mp alive).1]
  | cutShort force j turn alive =>
      simp [Effect.condemns, Task.introduces?, (alive?_eq_some.mp alive).1]
  | sentExit j force number deadline before givesUp =>
      simp [List.any_append, givesUp.any_condemns, Effect.condemns, Task.introduces?]
  | exited j force heard => simp [Effect.condemns, Task.introduces?]
  | stopped heard => simp [Effect.condemns, Task.introduces?]

theorem CallStep.any_condemns {s : Session D} {id : Nat} {call : Call}
    {effects : List (Effect D)}
    (hcall : s.call? id = some call) (h : CallStep s id call effects) {k : Nat}
    (halive : s.isAlive k = true) :
    effects.any (Effect.condemns k) = true <->
      Moment.Condemns k ⟨s, .goOn id, s.undergo id effects⟩ := by
  have htask := task?_of_call? hcall
  have hafter : (s.undergo id effects).task? id =
      (Effect.lastTask? effects).or (some call.task) := by
    rw [undergo_task? (lt_of_call? hcall), if_pos rfl, htask]
  cases h with
  | modest other hmodest =>
      rw [any_condemns_of_modest hmodest]
      refine ⟨fun h => absurd h Bool.false_ne_true, ?_⟩
      rintro ⟨_, id', hid, ⟨_, force, hstopping⟩ | ⟨task, reason, hbefore, hintroduces, _⟩⟩
      · cases hid
        rw [htask] at hstopping
        rw [Option.some.inj hstopping] at other
        contradiction
      · cases hid
        rw [htask] at hbefore
        rw [Option.some.inj hbefore, Task.isLifecycle_of_introduces? hintroduces] at other
        contradiction
  | lifecycle step =>
      rw [step.any_condemns halive]
      constructor
      · rintro (⟨hcurrent, force, hstopping⟩ | ⟨hintroduces, reason, hlast⟩)
        · exact ⟨halive, id, rfl, Or.inl ⟨hcurrent, force, hstopping ▸ htask⟩⟩
        · refine ⟨halive, id, rfl, Or.inr ⟨call.task, reason, htask, hintroduces, ?_⟩⟩
          exact hafter.trans (by rw [hlast]; rfl)
      · rintro ⟨_, id', hid, ⟨hcurrent, force, hstopping⟩ |
          ⟨task, reason, hbefore, hintroduces, hlast⟩⟩
        · cases hid
          exact Or.inl ⟨hcurrent, force, Option.some.inj (htask.symm.trans hstopping)⟩
        · cases hid
          cases Option.some.inj (htask.symm.trans hbefore)
          refine Or.inr ⟨hintroduces, reason, ?_⟩
          have hlast' := hafter.symm.trans hlast
          cases hlist : Effect.lastTask? effects with
          | none =>
              rw [hlist, Option.none_or] at hlast'
              rw [Option.some.inj hlast'] at hintroduces
              contradiction
          | some task => rwa [hlist, Option.some_or] at hlast'

theorem CallStep.any_condemns_of_launch {s : Session D} {id : Nat} {call : Call}
    {effects : List (Effect D)} (h : CallStep s id call effects) {launched : Bool}
    (hlaunch : .launch launched ∈ effects) (k : Nat) :
    effects.any (Effect.condemns k) = false := by
  cases h with
  | modest other hmodest => exact any_condemns_of_modest hmodest k
  | lifecycle step =>
      -- Among the steps of a start or a stop, only one opens a connection.
      generalize call.task = task at step
      have hgivesUp {j number : Nat} {before : List (Effect D)} (h : GivesUp j number before) :
          .launch launched ∉ before := by
        rcases h with rfl | rfl <;> simp
      have hforgetting : .launch launched ∉ s.forgetting :=
        fun h => nomatch forgetting_eq_reset h
      cases step with
      | launched launch turn dead =>
          simp [List.any_append, any_condemns_forgetting, Effect.condemns]
      | refused launch reason turn dead => simp [hforgetting] at hlaunch
      | notIntroduced j number deadline reason before givesUp =>
          simp [hgivesUp givesUp] at hlaunch
      | sentExit j force number deadline before givesUp => simp [hgivesUp givesUp] at hlaunch
      | _ => simp at hlaunch

theorem FirstStep.any_condemns {effects : List (Effect D)} (h : FirstStep effects) (k : Nat) :
    effects.any (Effect.condemns k) = false := by
  cases h with
  | modest hmodest => exact any_condemns_of_modest hmodest k
  | waits task _ heq =>
      subst heq
      rfl

theorem connection?_emit {s : Session D} {k : Nat} {c : Connection}
    (hc : s.connection? k = some c) (c' : Connection) (e : Emitted) (j : Nat) :
    ((s.setConnection k c').emit e).connection? j = if k = j then some c'
    else s.connection? j := by
  have hconnections := (s.setConnection k c').connections_emit e
  exact (congrArg (·[j]?) hconnections).trans (s.connection?_setConnection k j hc)

end Session

/-!
## Moments
-/

namespace Moment

variable {D : Type} {m : Moment D}

/-- What a moment means for connection `k`. Only a step of its own answers
or publishes anything. -/
inductive Passes (m : Moment D) (k : Nat) : Prop where
  | absent (before : m.before.connection? k = none) (after : m.after.connection? k = none)
      (quiet : m.eventsOf k = [])
  | appears (c' : Connection) (before : m.before.connection? k = none)
      (after : m.after.connection? k = some c') (alive : c'.isAlive = true)
      (mark : c'.stopping = false) (quiet : m.eventsOf k = [])
      (fresh : exists launched, Connection.Used (Connection.new launched) c')
  | used (c c' : Connection) (before : m.before.connection? k = some c)
      (after : m.after.connection? k = some c') (used : Connection.Used c c')
      (mark : c.isAlive = true ->
        (c'.stopping = true <-> c.stopping = true ∨ m.Condemns k))
      (quiet : m.eventsOf k = [])
  | proceeds (c c' : Connection) (e : Emitted) (emitted : m.emitted? = some (k, e))
      (before : m.before.connection? k = some c) (after : m.after.connection? k = some c')
      (step : m.after = (m.before.setConnection k c').emit e) (alive : c.isAlive = true)
      (proceeds : Connection.Proceeds m.before.now c c' e)
      (spared : ¬ m.Condemns k)
      (source : exists step, m.before.connectionStep? m.action = some (k, step) ∧
        step c = some (c', e))

theorem not_condemns_of_action (h : forall id, m.action ≠ .goOn id) (k : Nat) :
    ¬ m.Condemns k := by
  rintro ⟨_, id, hid, _⟩
  exact h id hid

theorem not_condemns_of_absent {k : Nat} (h : m.before.connection? k = none) :
    ¬ m.Condemns k := by
  rintro ⟨halive, _⟩
  rw [Session.isAlive_of_absent h] at halive
  contradiction

theorem eventsOf_of_emitted? (h : m.emitted? = none) (k : Nat) :
    m.eventsOf k = [] := by
  rw [Moment.eventsOf, h]

theorem passes_of_same (hsame : m.after.connections = m.before.connections)
    (hquiet : m.emitted? = none) (haction : forall id, m.action ≠ .goOn id) (k : Nat) :
    m.Passes k := by
  have hafter : m.after.connection? k = m.before.connection? k := congrArg (·[k]?) hsame
  have hevents := eventsOf_of_emitted? hquiet k
  cases hc : m.before.connection? k with
  | none => exact .absent hc (hafter.trans hc) hevents
  | some c =>
      refine .used c c hc (hafter.trans hc) (.refl c) (fun _ => ?_) hevents
      simp [not_condemns_of_action haction]

theorem passes_of_undergo {s : Session D} {id : Nat} {effects : List (Effect D)}
    (hlt : id < s.calls.length) (hsame : s.connections = m.before.connections)
    (hafter : m.after = s.undergo id effects) (hquiet : m.emitted? = none)
    (hmark : forall k, m.before.isAlive k = true ->
      (effects.any (Effect.condemns k) = true <-> m.Condemns k))
    (hlaunch : forall launched k, .launch launched ∈ effects ->
      effects.any (Effect.condemns k) = false) (k : Nat) : m.Passes k := by
  have hevents := eventsOf_of_emitted? hquiet k
  have hbefore : s.connection? k = m.before.connection? k := congrArg (·[k]?) hsame
  cases hc : m.before.connection? k with
  | none =>
      rcases Session.undergo_connection?_absent hlt effects (hbefore.trans hc) with
        hnone | ⟨c', hc', halive, hstopping, launched, hmem, hused⟩
      · exact .absent hc (by rw [hafter, hnone]) hevents
      · refine .appears c' hc (by rw [hafter, hc']) halive ?_ hevents ⟨launched, hused⟩
        cases hmarked : c'.stopping with
        | false => rfl
        | true => exact (hstopping hmarked).symm.trans (hlaunch launched k hmem)
  | some c =>
      rcases Session.undergo_connection? hlt effects (hbefore.trans hc) with
        ⟨c', hc', hused, hstopping⟩
      refine .used c c' hc (by rw [hafter, hc']) hused (fun halive => ?_) hevents
      rw [hstopping, Bool.or_eq_true,
        hmark k (by rw [Session.isAlive_of_connection? hc, halive])]

/-- Every moment passes each connection in one of these ways. -/
theorem Kind.passes (h : m.Kind) (k : Nat) : m.Passes k := by
  cases h with
  | connection j c c' e hemitted hc halive hproceeds hafter haction hsource =>
      have hconnection := Session.connection?_emit hc c' e k
      rw [← hafter] at hconnection
      by_cases hj : j = k
      · subst hj
        rw [if_pos rfl] at hconnection
        exact .proceeds c c' e hemitted hc hconnection hafter halive hproceeds
          (not_condemns_of_action haction j) hsource
      · rw [if_neg hj] at hconnection
        have hevents : m.eventsOf k = [] := by
          rw [eventsOf, hemitted]
          exact if_neg hj
        cases hb : m.before.connection? k with
        | none => exact .absent hb (hconnection.trans hb) hevents
        | some b =>
            refine .used b b hb (hconnection.trans hb) (.refl b) (fun _ => ?_) hevents
            simp [not_condemns_of_action haction]
  | begins op effects haction hfirst hafter =>
      have hquiet : m.emitted? = none := emitted?_of_action (by rw [haction]; rfl)
      refine passes_of_undergo m.before.calls_length_lt_addCall rfl hafter hquiet
        (fun j _ => ?_) ?_ k
      · rw [hfirst.any_condemns]
        exact iff_of_false Bool.false_ne_true
          (not_condemns_of_action (by rw [haction]; nofun) j)
      · exact fun _ j _ => hfirst.any_condemns j
  | goesOn id call effects haction hcall hstep hafter =>
      have hquiet : m.emitted? = none := emitted?_of_action (by rw [haction]; rfl)
      refine passes_of_undergo (Session.lt_of_call? hcall) rfl hafter hquiet (fun j hj =>
        ?_) ?_ k
      · rw [hstep.any_condemns hcall hj, ← haction, ← hafter]
      · exact fun launched j hlaunch => hstep.any_condemns_of_launch hlaunch j
  | withdraws id haction hafter =>
      exact passes_of_same (by rw [hafter]; rfl) (emitted?_of_action (by rw [haction]; rfl))
        (by rw [haction]; nofun) k
  | world j f hundisturbed hquiet haction hafter =>
      have hevents := eventsOf_of_emitted? hquiet k
      have hconnection := m.before.connection?_modifyConnection j k f
      rw [← hafter] at hconnection
      cases hc : m.before.connection? k with
      | none =>
          rw [hc, Option.map_none, ite_self] at hconnection
          exact .absent hc hconnection hevents
      | some c =>
          rw [hc] at hconnection
          by_cases hj : j = k
          · rw [if_pos hj, Option.map_some] at hconnection
            rcases hundisturbed c with
              ⟨hphase, hcommands, hpending, hstore, hwritten, hstopping, hprocess⟩
            refine .used c (f c) hc hconnection
              ⟨hphase, hpending, hstore, hwritten, hprocess,
                hcommands ▸ List.Subset.refl _, fun _ => hcommands⟩ (fun _ => ?_) hevents
            simp [hstopping, not_condemns_of_action haction]
          · rw [if_neg hj] at hconnection
            refine .used c c hc hconnection (.refl c) (fun _ => ?_) hevents
            simp [not_condemns_of_action haction]
  | elapses ms haction hafter =>
      exact passes_of_same (by rw [hafter]) (emitted?_of_action (by rw [haction]; rfl))
        (by rw [haction]; nofun) k

end Moment
end LanguageClient

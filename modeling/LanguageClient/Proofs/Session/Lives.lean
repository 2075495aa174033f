import LanguageClient.Proofs.Session.Marks

/-!
# The lives of connections

Over a course a connection comes up, goes on, and may come to its end once. As long as it
goes on it publishes no last event, and it is marked if and only if it has been condemned.
After its end it stays as the end has left it.
-/

namespace LanguageClient

variable {D : Type}

/-- Connection `k` comes to its end at moment `m`: it goes from `c` to `c'` and gives off
`e`. Of its queue `unserved` is left, `asker` is the ticket under which the end was asked
for, and the process has left `code`. -/
structure Ending (k : Nat) (earlier : List (Moment D)) (m : Moment D) (later : List (Moment D))
    (s : Session D) (c c' : Connection) (e : Emitted) (code : Option Int)
    (asker : Option Ticket) (unserved : List Command) : Prop where
  emitted : m.emitted? = some (k, e)
  before : m.before.connection? k = some c
  after : m.after.connection? k = some c'
  step : m.after = (m.before.setConnection k c').emit e
  ends : Connection.Ends m.before.now c c' e code asker unserved
  mark : c.stopping = true <-> exists m', m' ∈ earlier ∧ m'.Condemns k
  quiet : forall event, event ∈ published k earlier -> event.isTerminal = false
  silent : published k later = []
  still : exists d, s.connection? k = some d ∧ d.IsOver ∧ d.written = c.written

/-- What has become of connection `k`. -/
inductive Life (k : Nat) (moments : List (Moment D)) (s : Session D) : Prop where
  | absent (here : s.connection? k = none) (silent : published k moments = [])
      (spared : forall m, m ∈ moments -> ¬ m.Condemns k)
  | going (c : Connection) (here : s.connection? k = some c) (alive : c.isAlive = true)
      (quiet : forall event, event ∈ published k moments -> event.isTerminal = false)
      (mark : c.stopping = true <-> exists m, m ∈ moments ∧ m.Condemns k)
  | gone (earlier : List (Moment D)) (m : Moment D) (later : List (Moment D))
      (c c' : Connection)
      (e : Emitted) (code : Option Int) (asker : Option Ticket) (unserved : List Command)
      (split : moments = earlier ++ m :: later)
      (ending : Ending k earlier m later s c c' e code asker unserved)

theorem exists_mem_concat {moments : List (Moment D)} {m : Moment D} {k : Nat} :
    (exists m', m' ∈ moments ++ [m] ∧ m'.Condemns k) <->
      (exists m', m' ∈ moments ∧ m'.Condemns k) ∨ m.Condemns k := by
  simp [or_and_right, exists_or]

namespace Connection

theorem IsOver.not_isAlive {c : Connection} (h : c.IsOver) : c.isAlive = false := by
  rw [isAlive, h.phase]
  rfl

theorem IsOver.used {c c' : Connection} (h : c.IsOver) (hused : Used c c') : c'.IsOver where
  phase := hused.phase.trans h.phase
  commands := (hused.refuses h.not_isAlive).trans h.commands
  pending := hused.pending.trans h.pending
  store := hused.store.trans h.store

end Connection

namespace Life

variable {k : Nat} {moments : List (Moment D)} {m : Moment D}

theorem step_absent (hlife : Life k moments m.before)
    (hbefore : m.before.connection? k = none) :
    published k moments = [] ∧ forall m, m ∈ moments -> ¬ m.Condemns k := by
  cases hlife with
  | absent _ hsilent hspared => exact ⟨hsilent, hspared⟩
  | going c hc _ _ _ =>
      rw [hc] at hbefore
      contradiction
  | gone _ _ _ _ _ _ _ _ _ _ hending =>
      rcases hending.still with ⟨d, hd, _⟩
      rw [hd] at hbefore
      contradiction

theorem step (hlife : Life k moments m.before) (hpasses : m.Passes k) :
    Life k (moments ++ [m]) m.after := by
  cases hpasses with
  | absent hbefore hafter hevents =>
      rcases hlife.step_absent hbefore with ⟨hsilent, hspared⟩
      refine .absent hafter (by rw [published_concat, hsilent, hevents]; rfl) fun m' hm' => ?_
      rcases List.mem_append.mp hm' with hm' | hm'
      · exact hspared m' hm'
      · rw [List.mem_singleton.mp hm']
        exact Moment.not_condemns_of_absent hbefore
  | appears c' hbefore hafter halive hmark hevents =>
      rcases hlife.step_absent hbefore with ⟨hsilent, hspared⟩
      refine .going c' hafter halive (fun event hevent => ?_) ?_
      · rw [published_concat, hsilent, hevents] at hevent
        exact nomatch hevent
      · rw [hmark, exists_mem_concat]
        refine iff_of_false Bool.false_ne_true ?_
        rintro (⟨m', hm', hcondemns⟩ | hcondemns)
        · exact hspared m' hm' hcondemns
        · exact Moment.not_condemns_of_absent hbefore hcondemns
  | used b b' hbefore hafter hused hmark hevents =>
      cases hlife with
      | absent here _ _ =>
          rw [here] at hbefore
          contradiction
      | going c here halive hquiet hlast =>
          cases Option.some.inj (here.symm.trans hbefore)
          refine .going b' hafter (hused.isAlive.trans halive) (fun event hevent => ?_) ?_
          · rw [published_concat, hevents, List.append_nil] at hevent
            exact hquiet event hevent
          · rw [hmark halive, hlast, exists_mem_concat]
      | gone earlier m' later c c' e code asker unserved hsplit hending =>
          refine .gone earlier m' (later ++ [m]) c c' e code asker unserved
            (by rw [hsplit]; simp) { hending with silent := ?_, still := ?_ }
          · rw [published_concat, hending.silent, hevents]
            rfl
          · rcases hending.still with ⟨d, hd, hover, hwritten⟩
            cases Option.some.inj (hd.symm.trans hbefore)
            exact ⟨b', hafter, hover.used hused, hused.written.trans hwritten⟩
  | proceeds b b' e hemitted hbefore hafter hstep halive hproceeds hspared =>
      cases hlife with
      | absent here _ _ =>
          rw [here] at hbefore
          contradiction
      | going c here _ hquiet hlast =>
          cases Option.some.inj (here.symm.trans hbefore)
          cases hproceeds with
          | goesOn halive' hstopping hevents _ =>
              have hown : m.eventsOf k = e.events := by
                rw [Moment.eventsOf, hemitted]
                exact if_pos rfl
              refine .going b' hafter halive' (fun event hevent => ?_) ?_
              · rw [published_concat, hown] at hevent
                rcases List.mem_append.mp hevent with hevent | hevent
                · exact hquiet event hevent
                · exact hevents event hevent
              · rw [hstopping, hlast, exists_mem_concat, or_iff_left hspared]
          | ends code asker unserved hends =>
              refine .gone moments m [] b b' e code asker unserved rfl
                ⟨hemitted, hbefore, hafter, hstep, hends, hlast, hquiet, rfl, b', hafter,
                  hends.gone, hends.written⟩
      | gone _ _ _ _ _ _ _ _ _ _ hending =>
          -- A connection that has ended takes no step.
          rcases hending.still with ⟨d, hd, hover, _⟩
          cases Option.some.inj (hd.symm.trans hbefore)
          rw [hover.not_isAlive] at halive
          contradiction

end Life

theorem Session.Course.life [FileSystem D] {settings : Settings} {processId : Nat}
    {workspace : Workspace D} {moments : List (Moment D)} {s : Session D}
    (course : Session.Course (Session.new settings processId workspace) moments s) (k : Nat) :
    Life k moments s := by
  induction course with
  | refl => exact .absent rfl rfl fun _ h => nomatch h
  | act course a ha ih => exact ih.step ((Session.kind_of_act ha).passes k)
  | touch course disk ih =>
      cases ih with
      | absent here silent spared => exact .absent here silent spared
      | going c here alive quiet mark => exact .going c here alive quiet mark
      | gone earlier m later c c' e code asker unserved split ending =>
          exact .gone earlier m later c c' e code asker unserved split { ending with }

end LanguageClient

import LanguageClient.Proofs.Document.Publications
import LanguageClient.Proofs.Session.Drift
import LanguageClient.Proofs.Session.Recorded

/-!
# The record of a connection

The syncs and closes that a connection serves and the diagnostics that it takes in make
a history. As long as the connection is alive, its record is the one that this history
leaves. As long as no sync and no close has been answered with a failure, the server
has been told what the history has to say about open documents, so its copy of them can
be read off the history.
-/

namespace LanguageClient

def Command.operation? : Command -> Option DocumentOperation
  | .sync input _ => some (.sync input)
  | .close uri _ => some (.close uri)
  | _ => none

def Answer.isRefusal : Answer -> Bool
  | .synced (.error _) | .closed (.error _) => true
  | _ => false

namespace Connection

/-!
## Single steps of a connection
-/

theorem write_store (c : Connection) (out : Outgoing) : (c.write out).1.store = c.store := by
  unfold write
  split <;> rfl

theorem isAlive_teardown (c : Connection) (code : Option Int) :
    (c.teardown code).1.isAlive = false :=
  rfl

theorem isAlive_of_taking {c : Connection}
    (h : c.phase = .serving ∨ exists deadline code, c.phase = .draining deadline code) :
    c.isAlive = true := by
  rcases h with h | ⟨deadline, code, h⟩ <;> simp [isAlive, h]

section

variable {now : Nat} {c c' : Connection} {e : Emitted} {command : Command}

/-- Serving an operation takes the record to where the operation leads. -/
theorem serve_store (now : Nat) {op : DocumentOperation} (h : command.operation? = some op) :
    (serve now c command).1.store = (op.apply c.store).1 := by
  cases command with
  | sync input t =>
      cases h
      rcases hsync : c.store.sync input with ⟨store, synced, notification⟩
      simp only [serve, hsync, DocumentOperation.apply]
      cases notification with
      | none => rfl
      | some message => exact write_store _ _
  | close uri t =>
      cases h
      rcases hclose : c.store.close uri with ⟨store, notification⟩
      simp only [serve, hclose, DocumentOperation.apply]
      cases notification with
      | none => rfl
      | some message => exact write_store _ _
  | _ => contradiction

theorem serve_store_of_other (now : Nat) (h : command.operation? = none)
    (halive : (serve now c command).1.isAlive = true) :
    (serve now c command).1.store = c.store := by
  cases command with
  | request number method params t =>
      simp only [serve]
      split
      · rfl
      · have hstore := write_store { c with pending := c.pending.insert number t }
          (.message (.request number method params))
        split
        case h_1 d heq =>
          rw [heq] at hstore
          exact hstore
        case h_2 d e heq =>
          rw [heq] at hstore
          exact hstore
  | abandon number =>
      simp only [serve]
      split
      · exact write_store { c with pending := c.pending.erase number } _
      · rfl
  | notify message t => exact c.write_store _
  | sync | close => contradiction
  | isOpen uri t => rfl
  | diagnostics uri t => cases uri <;> rfl
  | status t => rfl
  | terminate force t =>
      simp only [serve] at halive ⊢
      split
      case h_1 hprocess =>
          rw [hprocess] at halive
          exact absurd ((c.isAlive_teardown none).symm.trans halive) Bool.false_ne_true
      case h_2 => rfl

end

/-!
## What the server is told
-/

theorem utterance?_of_operation (c : Connection) {command : Command} {op : DocumentOperation}
    (h : command.operation? = some op) : c.utterance? command = (op.apply c.store).2 := by
  cases command with
  | sync input t =>
      cases h
      rfl
  | close uri t =>
      cases h
      rfl
  | _ => contradiction

theorem serve_refuses (now : Nat) {c : Connection} {command : Command} {op : DocumentOperation}
    {message : Message} (h : command.operation? = some op) (hclosed : c.writable = false)
    (hspeaks : (op.apply c.store).2 = some message) :
    exists t a, (t, a) ∈ (serve now c command).2.answers ∧ a.isRefusal = true := by
  have hwrite (store : DocumentStore) (out : Outgoing) :
      ({ c with store }.write out).2 = .error (.transport .brokenPipe) := by
    rw [write, if_neg (by rw [hclosed]; exact Bool.false_ne_true)]
  cases command with
  | sync input t =>
      cases h
      rcases hsync : c.store.sync input with ⟨store, synced, notification⟩
      rw [DocumentOperation.apply, hsync] at hspeaks
      cases hspeaks
      simp only [serve, hsync, hwrite]
      exact ⟨t, _, List.mem_singleton.mpr rfl, rfl⟩
  | close uri t =>
      cases h
      rcases hclose : c.store.close uri with ⟨store, notification⟩
      rw [DocumentOperation.apply, hclose] at hspeaks
      cases hspeaks
      simp only [serve, hclose, hwrite]
      exact ⟨t, _, List.mem_singleton.mpr rfl, rfl⟩
  | _ => contradiction

end Connection

/-!
## Moments
-/

section

variable {D : Type}

def Moment.operation? (k : Nat) (m : Moment D) : Option DocumentOperation :=
  (m.served? k).bind Command.operation?

def Moment.publication? (k : Nat) (m : Moment D) : Option Json :=
  (m.dispatched? k).bind Json.publication?

def Moment.dealing? (k : Nat) (m : Moment D) : Option RecordOperation :=
  match m.operation? k with
  | some op => some (.document op)
  | none => (m.publication? k).map .publish

def Moment.notices (k : Nat) (m : Moment D) : List Message :=
  if (m.operation? k).isSome then
    (m.letters k).filterMap fun l =>
      match l.content with
      | .message message => some message
      | .reply _ => none
  else []

def operations (k : Nat) (moments : List (Moment D)) : List DocumentOperation :=
  moments.filterMap (Moment.operation? k)

def dealings (k : Nat) (moments : List (Moment D)) : List RecordOperation :=
  moments.filterMap (Moment.dealing? k)

def notices (k : Nat) (moments : List (Moment D)) : List Message :=
  moments.flatMap (Moment.notices k)

/-- No sync and no close on connection `k` has been answered with a failure. -/
def Unrefused (k : Nat) (moments : List (Moment D)) : Prop :=
  forall m, m ∈ moments -> (m.operation? k).isSome = true ->
    forall t a, (t, a) ∈ m.answers -> a.isRefusal = false

theorem mem_operations {k : Nat} {moments : List (Moment D)} {op : DocumentOperation} :
    op ∈ operations k moments <-> exists m, m ∈ moments ∧ m.operation? k = some op :=
  List.mem_filterMap

theorem operations_append (k : Nat) (first second : List (Moment D)) :
    operations k (first ++ second) = operations k first ++ operations k second :=
  List.filterMap_append

theorem operations_concat_none {k : Nat} {m : Moment D} (h : m.operation? k = none)
    (moments : List (Moment D)) : operations k (moments ++ [m]) = operations k moments := by
  rw [operations_append, operations, operations, List.filterMap_cons_none h,
    List.filterMap_nil, List.append_nil]

theorem operations_concat_some {k : Nat} {m : Moment D} {op : DocumentOperation}
    (h : m.operation? k = some op) (moments : List (Moment D)) :
    operations k (moments ++ [m]) = operations k moments ++ [op] := by
  rw [operations_append, operations, operations, List.filterMap_cons_some h,
    List.filterMap_nil]

theorem split_of_operations {k : Nat} {moments : List (Moment D)} {op : DocumentOperation}
    {past rest : List DocumentOperation} (h : operations k moments = past ++ op :: rest) :
    exists earlier v later, moments = earlier ++ v :: later ∧ operations k earlier = past ∧
      v.operation? k = some op ∧ operations k later = rest :=
  split_of_filterMap h

theorem dealings_concat (k : Nat) (moments : List (Moment D)) (m : Moment D) :
    dealings k (moments ++ [m]) = dealings k moments ++ (m.dealing? k).toList := by
  rw [dealings, List.filterMap_append, ← dealings]
  cases h : m.dealing? k <;> simp [h]

theorem filterMap_dealings (k : Nat) (moments : List (Moment D)) :
    (dealings k moments).filterMap RecordOperation.document? = operations k moments := by
  rw [dealings, List.filterMap_filterMap, operations]
  congr 1
  funext m
  rw [Moment.dealing?]
  cases m.operation? k with
  | some op => rfl
  | none => cases m.publication? k <;> rfl

theorem clear_not_mem_dealings (k : Nat) (moments : List (Moment D)) :
    .clear ∉ dealings k moments := by
  intro h
  rcases List.mem_filterMap.mp h with ⟨m, _, hop⟩
  rw [Moment.dealing?] at hop
  split at hop
  · cases hop
  · cases hpublication : m.publication? k <;> simp [hpublication] at hop

theorem notices_append (k : Nat) (first second : List (Moment D)) :
    notices k (first ++ second) = notices k first ++ notices k second :=
  List.flatMap_append

theorem notices_concat (k : Nat) (moments : List (Moment D)) (m : Moment D) :
    notices k (moments ++ [m]) = notices k moments ++ m.notices k := by
  rw [notices_append, notices, notices, List.flatMap_singleton]

theorem Unrefused.past {k : Nat} {first second : List (Moment D)}
    (h : Unrefused k (first ++ second)) : Unrefused k first :=
  fun m hm => h m (List.mem_append_left second hm)

end

namespace Moment

variable {D : Type} {k : Nat} {m : Moment D}

theorem operation?_of_served {command : Command} (h : m.served? k = some command) :
    m.operation? k = command.operation? := by
  rw [operation?, h]
  rfl

theorem operation?_of_idle (h : m.served? k = none) : m.operation? k = none := by
  rw [operation?, h]
  rfl

theorem publication?_of_dispatched {message : Json} (h : m.dispatched? k = some message) :
    m.publication? k = message.publication? := by
  rw [publication?, h]
  rfl

theorem publication?_of_idle (h : m.dispatched? k = none) : m.publication? k = none := by
  rw [publication?, h]
  rfl

theorem dealing?_eq_none_iff :
    m.dealing? k = none <-> m.operation? k = none ∧ m.publication? k = none := by
  rw [dealing?]
  split
  case h_1 op hop => simp [hop]
  case h_2 hnone => simp [hnone]

theorem dealing?_eq_some_iff {op : RecordOperation} : m.dealing? k = some op <->
    (exists op', m.operation? k = some op' ∧ .document op' = op) ∨
      exists params, m.operation? k = none ∧ m.publication? k = some params ∧
        .publish params = op := by
  rw [dealing?]
  split
  case h_1 op' hop => simp [hop]
  case h_2 hnone => simp [hnone]

theorem served_of_operation? {input : SyncInput} (h : m.operation? k = some (.sync input)) :
    exists t, m.served? k = some (.sync input t) := by
  rcases Option.bind_eq_some_iff.mp h with ⟨command, hserved, hcommand⟩
  cases command with
  | sync input' t =>
      cases hcommand
      exact ⟨t, hserved⟩
  | _ => cases hcommand

theorem notices_of_idle (h : m.operation? k = none) : m.notices k = [] := by
  rw [notices, h]
  rfl

theorem answers_of_served {c : Connection} {command : Command}
    (hc : m.before.connection? k = some c) (h : m.served? k = some command) :
    exists rest, c.phase = .serving ∧
      m.answers = (Connection.serve m.before.now { c with
        commands := rest } command).2.answers := by
  rcases action_of_served? h with ⟨haction, hnext⟩
  rw [hc] at hnext
  rcases Connection.stepCommand_eq m.before.now hnext with ⟨rest, hphase, _, hstep⟩
  refine ⟨rest, hphase, ?_⟩
  simp [answers, emitted?, Session.connectionStep?, haction, hc, hstep]

end Moment

namespace Session

variable {D : Type}

/-!
## Records from moment to moment
-/

theorem undergo_store {s : Session D} {id : Nat} (h : id < s.calls.length)
    (effects : List (Effect D)) {k : Nat} {c' : Connection}
    (hc' : (s.undergo id effects).connection? k = some c') :
    s.connection? k = none ∧ c'.store = .empty ∨
      exists c, s.connection? k = some c ∧ Connection.Used c c' := by
  cases hc : s.connection? k with
  | some c =>
      rcases undergo_connection? h effects hc with ⟨c'', hc'', hused, _⟩
      cases Option.some.inj (hc''.symm.trans hc')
      exact Or.inr ⟨c, rfl, hused⟩
  | none =>
      rcases undergo_connection?_absent h effects hc with
        hnone | ⟨c'', hc'', _, _, _, _, hused⟩
      · exact absurd (hnone.symm.trans hc') (Option.some_ne_none c').symm
      · cases Option.some.inj (hc''.symm.trans hc')
        exact Or.inl ⟨rfl, hused.store⟩

/-- Connection `k`, which is `c'` after a moment, has the record that it had before, or it
is new and has nothing on record. -/
def KeepsRecord (s : Session D) (k : Nat) (c' : Connection) : Prop :=
  s.connection? k = none ∧ c'.store = .empty ∨
    exists c, s.connection? k = some c ∧ c.isAlive = true ∧ c'.store = c.store

theorem keepsRecord_undergo {s : Session D} {id : Nat} (h : id < s.calls.length)
    (effects : List (Effect D)) {k : Nat} {c' : Connection}
    (hc' : (s.undergo id effects).connection? k = some c') (halive : c'.isAlive = true) :
    s.KeepsRecord k c' := by
  refine (undergo_store h effects hc').imp_right ?_
  rintro ⟨c, hc, hused⟩
  exact ⟨c, hc, hused.isAlive ▸ halive, hused.store⟩

theorem keepsRecord_modifyConnection {s : Session D} {j k : Nat} {f : Connection -> Connection}
    (hf : forall c, Connection.Undisturbed c (f c)) {c' : Connection}
    (hc' : (s.modifyConnection j f).connection? k = some c') (halive : c'.isAlive = true) :
    s.KeepsRecord k c' := by
  rw [connection?_modifyConnection] at hc'
  split at hc'
  · rcases Option.map_eq_some_iff.mp hc' with ⟨c, hc, rfl⟩
    refine Or.inr ⟨c, hc, ?_, (hf c).store⟩
    rwa [Connection.isAlive, (hf c).phase, ← Connection.isAlive] at halive
  · exact Or.inr ⟨c', hc', halive, rfl⟩

theorem keepsRecord_stepConnection {s u : Session D} {j : Nat}
    {step : Connection -> Option (Connection × Emitted)} {k : Nat} {c' : Connection}
    (hstep : forall {c c' e}, j = k -> s.connection? k = some c -> step c = some (c', e) ->
      c'.isAlive = true -> c.isAlive = true ∧ c'.store = c.store)
    (h : s.stepConnection j step = some u) (hc' : u.connection? k = some c')
    (halive : c'.isAlive = true) : s.KeepsRecord k c' := by
  unfold stepConnection at h
  split at h
  case h_1 => contradiction
  case h_2 c hc =>
    rcases Option.map_eq_some_iff.mp h with ⟨⟨d, e⟩, hd, rfl⟩
    rw [connection?_emit hc] at hc'
    by_cases hj : j = k
    · subst hj
      rw [if_pos rfl] at hc'
      cases hc'
      exact Or.inr ⟨c, hc, hstep rfl hc hd halive⟩
    · rw [if_neg hj] at hc'
      exact Or.inr ⟨c', hc', halive, rfl⟩

variable [FileSystem D]

theorem keepsRecord_of_still {s u : Session D} {a : Action} (h : s.act a = some u) {k : Nat}
    (hserved : Moment.served? k (⟨s, a, u⟩ : Moment D) = none)
    (hdispatched : Moment.dispatched? k (⟨s, a, u⟩ : Moment D) = none) {c' : Connection}
    (hc' : u.connection? k = some c') (halive : c'.isAlive = true) : s.KeepsRecord k c' := by
  cases a with
  | begin op =>
      cases h
      rcases s.beginCall_effects op with ⟨effects, _, hafter⟩
      rw [hafter] at hc'
      exact keepsRecord_undergo s.calls_length_lt_addCall effects hc' halive
  | goOn id =>
      rcases stepCall_effects h with ⟨call, effects, hcall, _, hafter⟩
      rw [hafter] at hc'
      exact keepsRecord_undergo (lt_of_call? hcall) effects hc' halive
  | serve j =>
      refine keepsRecord_stepConnection ?_ h hc' halive
      rintro c c' e rfl hc hstep _
      have hidle : c.next? = none := by simpa [Moment.served?, hc] using hserved
      rw [Connection.stepCommand_of_idle hidle] at hstep
      contradiction
  | takeIn j =>
      refine keepsRecord_stepConnection ?_ h hc' halive
      rintro c c' e rfl hc hstep halive
      have hidle : c.first? = none := by simpa [Moment.dispatched?, hc] using hdispatched
      have hretires := Connection.stepInbound_retires hidle hstep
      exact ⟨hretires.isAlive, hretires.leaves.store halive⟩
  | noticeExit j =>
      refine keepsRecord_stepConnection ?_ h hc' halive
      intro c c' e _ _ hstep halive
      have hretires := Connection.stepExit_retires hstep
      exact ⟨hretires.isAlive, hretires.leaves.store halive⟩
  | expire j =>
      refine keepsRecord_stepConnection ?_ h hc' halive
      intro c c' e _ _ hstep halive
      have hretires := Connection.stepDeadline_retires hstep
      exact ⟨hretires.isAlive, hretires.leaves.store halive⟩
  | receive j bytes =>
      cases h
      exact keepsRecord_modifyConnection (fun c => c.receive_undisturbed bytes) hc' halive
  | hangUp j =>
      cases h
      exact keepsRecord_modifyConnection Connection.hangUp_undisturbed hc' halive
  | breakPipe j =>
      cases h
      exact keepsRecord_modifyConnection Connection.breakPipe_undisturbed hc' halive
  | exit j code =>
      cases h
      exact keepsRecord_modifyConnection (fun c => c.exit_undisturbed code) hc' halive
  | cancel id =>
      cases h
      exact Or.inr ⟨c', hc', halive, rfl⟩
  | elapse ms =>
      cases h
      exact Or.inr ⟨c', hc', halive, rfl⟩

/-- Only what its record goes through changes the record of a connection. -/
theorem keepsRecord_of_act {s u : Session D} {a : Action} (h : s.act a = some u) {k : Nat}
    (hnone : Moment.dealing? k (⟨s, a, u⟩ : Moment D) = none) {c' : Connection}
    (hc' : u.connection? k = some c') (halive : c'.isAlive = true) : s.KeepsRecord k c' := by
  rcases Moment.dealing?_eq_none_iff.mp hnone with ⟨hoperation, hpublication⟩
  cases fares_of_act h k with
  | still served dispatched => exact keepsRecord_of_still h served dispatched hc' halive
  | serves c c'' e command rest before served _ phase _ step after =>
      rw [show u = _ from after, connection?_emit before, if_pos rfl] at hc'
      cases hc'
      have hstore := Connection.serve_store_of_other s.now (c := { c with commands := rest })
        ((Moment.operation?_of_served served).symm.trans hoperation)
      rw [step] at hstore
      exact Or.inr ⟨c, before, Connection.isAlive_of_serving phase, hstore halive⟩
  | takesIn c c'' e message rest before _ dispatched phase step after =>
      rw [show u = _ from after, connection?_emit before, if_pos rfl] at hc'
      cases hc'
      have hstore := (RecordHistory.dispatch_of_other s.folder { c with inbound := rest }
        ((Moment.publication?_of_dispatched dispatched).symm.trans hpublication)).1
      rw [step] at hstore
      exact Or.inr ⟨c, before, Connection.isAlive_of_taking phase, hstore⟩

theorem store_of_dealing {s u : Session D} {a : Action} (h : s.act a = some u) {k : Nat}
    {op : RecordOperation} (hop : Moment.dealing? k (⟨s, a, u⟩ : Moment D) = some op) :
    exists c c', s.connection? k = some c ∧ c.isAlive = true ∧ u.connection? k = some c' ∧
      c'.store = op.apply c.store := by
  rcases Moment.dealing?_eq_some_iff.mp hop with
    ⟨op, hoperation, rfl⟩ | ⟨params, hnone, hpublication, rfl⟩
  · cases fares_of_act h k with
    | still served => cases (Moment.operation?_of_idle served).symm.trans hoperation
    | takesIn _ _ _ _ _ _ served =>
        cases (Moment.operation?_of_idle served).symm.trans hoperation
    | serves c c' e command rest before served _ phase _ step after =>
        have hstore := Connection.serve_store s.now (c := { c with commands := rest })
          ((Moment.operation?_of_served served).symm.trans hoperation)
        rw [step] at hstore
        refine ⟨c, c', before, Connection.isAlive_of_serving phase, ?_, hstore⟩
        rw [show u = _ from after, connection?_emit before, if_pos rfl]
  · cases fares_of_act h k with
    | still _ dispatched =>
        cases (Moment.publication?_of_idle dispatched).symm.trans hpublication
    | serves _ _ _ _ _ _ _ dispatched =>
        cases (Moment.publication?_of_idle dispatched).symm.trans hpublication
    | takesIn c c' e message rest before _ dispatched phase step after =>
        have hstore := congrArg (fun r => r.1.store)
          (RecordHistory.dispatch_of_publication s.folder { c with inbound := rest }
            ((Moment.publication?_of_dispatched dispatched).symm.trans hpublication))
        rw [step] at hstore
        refine ⟨c, c', before, Connection.isAlive_of_taking phase, ?_, hstore⟩
        rw [show u = _ from after, connection?_emit before, if_pos rfl]

/-!
## Records over a course
-/

variable {settings : Settings} {processId : Nat} {workspace : Workspace D}
  {moments : List (Moment D)} {s : Session D} {k : Nat}

theorem Course.dealings_of_absent
    (course : Course (Session.new settings processId workspace) moments s)
    (h : s.connection? k = none) : dealings k moments = [] := by
  induction course with
  | refl => rfl
  | touch course disk ih => exact ih h
  | @act moments t u course a ha ih =>
      have hbefore : t.connection? k = none := by
        cases (kind_of_act ha).passes k with
        | absent before => exact before
        | appears c' _ after => cases h.symm.trans after
        | used c c' _ after => cases h.symm.trans after
        | proceeds c c' e _ _ after => cases h.symm.trans after
      cases hop : Moment.dealing? k (⟨t, a, u⟩ : Moment D) with
      | none => rw [dealings_concat, hop, ih hbefore]; rfl
      | some op =>
          rcases store_of_dealing ha hop with ⟨c, _, hc, _⟩
          cases hbefore.symm.trans hc

/-- As long as a connection is alive, its record is the one that its history leaves. -/
theorem Course.store (course : Course (Session.new settings processId workspace) moments s)
    {c : Connection} (hc : s.connection? k = some c) (halive : c.isAlive = true) :
    c.store = RecordHistory.store (dealings k moments) := by
  induction course generalizing c with
  | refl => contradiction
  | touch course disk ih => exact ih hc halive
  | @act moments t u course a ha ih =>
      rw [dealings_concat]
      cases hop : Moment.dealing? k (⟨t, a, u⟩ : Moment D) with
      | none =>
          rw [Option.toList_none, List.append_nil]
          rcases keepsRecord_of_act ha hop hc halive with ⟨habsent, hnew⟩
            | ⟨b, hb, hlive, hsame⟩
          · rw [course.dealings_of_absent habsent, hnew]
            rfl
          · rw [hsame, ih hb hlive]
      | some op =>
          rcases store_of_dealing ha hop with ⟨b, b', hb, hlive, hb', hstore⟩
          cases hb'.symm.trans hc
          rw [Option.toList_some, RecordHistory.store_append, hstore, ih hb hlive]

theorem Course.documents (course : Course (Session.new settings processId workspace) moments s)
    {c : Connection} (hc : s.connection? k = some c) (halive : c.isAlive = true) :
    c.store.documents = (History.store (operations k moments)).documents := by
  rw [course.store hc halive, ← filterMap_dealings]
  exact RecordHistory.documents_store (clear_not_mem_dealings k moments)

/-- As long as nothing is refused, the server is told what the history of
the documents has to say. -/
theorem Course.notices_eq (course :
      Course (Session.new settings processId workspace) moments s)
    (h : Unrefused k moments) :
    notices k moments = History.notices (operations k moments) := by
  induction course with
  | refl => rfl
  | touch course disk ih => exact ih h
  | @act moments t u course a ha ih =>
      rw [notices_concat, ih h.past]
      cases hop : Moment.operation? k (⟨t, a, u⟩ : Moment D) with
      | none =>
          rw [operations_concat_none hop, Moment.notices_of_idle hop, List.append_nil]
      | some op =>
          rw [operations_concat_some hop, History.notices_append]
          refine congrArg _ ?_
          cases fares_of_act ha k with
          | still served => cases (Moment.operation?_of_idle served).symm.trans hop
          | takesIn _ _ _ _ _ _ served =>
              cases (Moment.operation?_of_idle served).symm.trans hop
          | serves c c' e command rest before served _ phase _ step after =>
              have hcommand := (Moment.operation?_of_served served).symm.trans hop
              have hspeaks : c.utterance? command =
                  (op.apply (History.store (operations k moments))).2 := by
                rw [c.utterance?_of_operation hcommand]
                exact (DocumentOperation.apply_congr
                  (course.documents before (Connection.isAlive_of_serving phase)) op).2
              have hletters := Moment.letters_of_serves before served step after
              rw [hspeaks] at hletters
              rw [Moment.notices, hop, Option.isSome_some, if_pos rfl, hletters]
              cases hwritable : c.writable with
              | true =>
                  cases (op.apply (History.store (operations k moments))).2 with
                  | none => rfl
                  | some message => rfl
              | false =>
                  cases hmessage : (op.apply (History.store (operations k moments))).2 with
                  | none => rfl
                  | some message =>
                      -- The server no longer reads, so the answer would have been a failure.
                      rw [hmessage, c.utterance?_of_operation hcommand] at hspeaks
                      rcases Moment.answers_of_served before served with ⟨rest', _, hanswers⟩
                      rcases Connection.serve_refuses t.now (c := { c with commands := rest' })
                        hcommand hwritable hspeaks with ⟨ticket, answer, hmem, hrefusal⟩
                      have hheard := h _ (List.mem_append_right _ (List.mem_singleton.mpr rfl))
                        (by rw [hop]; rfl) ticket answer (by rw [hanswers]; exact hmem)
                      cases hheard.symm.trans hrefusal

end Session
end LanguageClient

import LanguageClient.Proofs.Session.Marks

/-!
# What connections write

Over a course a connection writes letters: requests and notifications that calls have asked
for, notices that an answer is no longer wanted, and replies to the server. Serving a
command or taking in a message adds at most one letter, and nothing else adds any.
-/

namespace LanguageClient

/-- Something that has been written, with the call that has asked for it. Replies and
notices that an answer is no longer wanted go out for no call. -/
structure Letter where
  sender : Option Nat
  content : Outgoing
  deriving DecidableEq, Repr

def Outgoing.reply? : Outgoing -> Option Json
  | .reply v => some v
  | .message _ => none

def Letter.isReply (l : Letter) : Bool :=
  l.content.reply?.isSome

namespace Connection

/-!
## Single steps of a connection
-/

def utterance? (c : Connection) : Command -> Option Message
  | .request number method params _ =>
    if c.pending.contains number then none else some (.request number method params)
  | .abandon number => if c.pending.contains number then some (cancelNotice number) else none
  | .notify message _ => some message
  | .sync input _ => (c.store.sync input).2.2
  | .close uri _ => (c.store.close uri).2
  | _ => none

def replyTo? (folder : String × String) (message : Json) : Option Json :=
  match Incoming.classify message with
  | .request id method params =>
    some (ServerRequest.reply id (ServerRequest.answer method params folder.1 folder.2))
  | _ => none

structure Stays (c c' : Connection) : Prop where
  phase : c'.phase = c.phase
  commands : c'.commands = c.commands
  writable : c'.writable = c.writable
  initialized : c'.initialized = c.initialized
  process : c'.process = none -> c.process = none

theorem write_stays (c : Connection) (out : Outgoing) : Stays c (c.write out).1 := by
  unfold write
  split <;> exact ⟨rfl, rfl, rfl, rfl, id⟩

theorem write_written (c : Connection) (out : Outgoing) :
    (c.write out).1.written = c.written ++ if c.writable then [out] else [] := by
  unfold write
  split
  · rfl
  · exact (List.append_nil _).symm

theorem written_nothing (c : Connection) (b : Bool) :
    c.written = c.written ++ if b then [] else [] := by
  rw [ite_self, List.append_nil]

section

variable (now : Nat) (c : Connection)

theorem serve_request (number : Nat) (method : String) (params : Json) (t : Ticket) :
    let c' := (serve now c (.request number method params t)).1
    Stays c c' ∧ c'.written = c.written ++
      if c.writable then
        ((c.utterance? (.request number method params t)).toList.map .message) else [] := by
  by_cases htaken : c.pending.contains number = true
  · simp only [serve, utterance?, htaken, if_true]
    exact ⟨⟨rfl, rfl, rfl, rfl, id⟩, c.written_nothing _⟩
  · simp only [serve, utterance?, if_neg htaken, write]
    by_cases hwritable : c.writable = true
    · simp only [hwritable, if_true]
      exact ⟨⟨rfl, rfl, hwritable.symm, rfl, id⟩, rfl⟩
    · simp only [hwritable]
      exact ⟨⟨rfl, rfl, by simpa using hwritable, rfl, id⟩, (List.append_nil _).symm⟩

theorem serve_abandon (number : Nat) :
    let c' := (serve now c (.abandon number)).1
    Stays c c' ∧ c'.written = c.written ++
      if c.writable then ((c.utterance? (.abandon number)).toList.map .message) else [] := by
  by_cases hheld : c.pending.contains number = true
  · simp only [serve, utterance?, hheld, if_true]
    rcases write_stays { c with pending := c.pending.erase number }
      (.message (cancelNotice number)) with
      ⟨hphase, hcommands, hwritable, hinitialized, hprocess⟩
    exact ⟨⟨hphase, hcommands, hwritable, hinitialized, hprocess⟩, write_written _ _⟩
  · simp only [serve, utterance?, if_neg hheld]
    exact ⟨⟨rfl, rfl, rfl, rfl, id⟩, c.written_nothing _⟩

theorem serve_sync (input : SyncInput) (t : Ticket) :
    let c' := (serve now c (.sync input t)).1
    Stays c c' ∧ c'.written = c.written ++
      if c.writable then ((c.utterance? (.sync input t)).toList.map .message) else [] := by
  rcases hsync : c.store.sync input with ⟨store, synced, notification⟩
  cases notification with
  | none =>
      simp only [serve, utterance?, hsync]
      exact ⟨⟨rfl, rfl, rfl, rfl, id⟩, c.written_nothing _⟩
  | some message =>
      simp only [serve, utterance?, hsync]
      rcases write_stays { c with store } (.message message) with
        ⟨hphase, hcommands, hwritable, hinitialized, hprocess⟩
      exact ⟨⟨hphase, hcommands, hwritable, hinitialized, hprocess⟩, write_written _ _⟩

theorem serve_close (uri : String) (t : Ticket) :
    let c' := (serve now c (.close uri t)).1
    Stays c c' ∧ c'.written = c.written ++
      if c.writable then ((c.utterance? (.close uri t)).toList.map .message) else [] := by
  rcases hclose : c.store.close uri with ⟨store, notification⟩
  cases notification with
  | none =>
      simp only [serve, utterance?, hclose]
      exact ⟨⟨rfl, rfl, rfl, rfl, id⟩, c.written_nothing _⟩
  | some message =>
      simp only [serve, utterance?, hclose]
      rcases write_stays { c with store } (.message message) with
        ⟨hphase, hcommands, hwritable, hinitialized, hprocess⟩
      exact ⟨⟨hphase, hcommands, hwritable, hinitialized, hprocess⟩, write_written _ _⟩

/-- Serving a command writes what the command has to say, as long as
anything can be written. -/
theorem serve_written (command : Command) :
    (serve now c command).1.written = c.written ++
      if c.writable then (c.utterance? command).toList.map .message else [] := by
  cases command with
  | request number method params t => exact (serve_request now c number method params t).2
  | abandon number => exact (serve_abandon now c number).2
  | notify message t => exact c.write_written (.message message)
  | sync input t => exact (serve_sync now c input t).2
  | close uri t => exact (serve_close now c uri t).2
  | isOpen uri t => exact c.written_nothing _
  | diagnostics uri t => cases uri <;> exact c.written_nothing _
  | status t => exact c.written_nothing _
  | terminate force t =>
      simp only [serve]
      split <;> exact c.written_nothing _

theorem serve_stays {command : Command} (h : forall force t, command ≠ .terminate force t) :
    Stays c (serve now c command).1 := by
  cases command with
  | request number method params t => exact (serve_request now c number method params t).1
  | abandon number => exact (serve_abandon now c number).1
  | notify message t => exact c.write_stays (.message message)
  | sync input t => exact (serve_sync now c input t).1
  | close uri t => exact (serve_close now c uri t).1
  | isOpen uri t => exact ⟨rfl, rfl, rfl, rfl, id⟩
  | diagnostics uri t => cases uri <;> exact ⟨rfl, rfl, rfl, rfl, id⟩
  | status t => exact ⟨rfl, rfl, rfl, rfl, id⟩
  | terminate force t => exact absurd rfl (h force t)

theorem serve_terminate (force : Bool) (t : Ticket) :
    (serve now c (.terminate force t)).1.phase ≠ .serving := by
  simp only [serve]
  split
  · have hended : (c.teardownFor t none).1.phase = .ended := rfl
    simp [hended]
  · simp

end

theorem takeNotification_stays (c : Connection) (method : String) (params : Json) :
    Stays c (c.takeNotification method params).1 ∧
      (c.takeNotification method params).1.written = c.written := by
  unfold takeNotification
  repeat' split
  all_goals exact ⟨⟨rfl, rfl, rfl, rfl, id⟩, rfl⟩

theorem dispatch_stays (folder : String × String) (c : Connection) (message : Json) :
    Stays c (dispatch folder c message).1 := by
  unfold dispatch
  split
  · repeat' split
    all_goals exact ⟨rfl, rfl, rfl, rfl, id⟩
  · exact c.write_stays _
  · exact (c.takeNotification_stays _ _).1
  · exact ⟨rfl, rfl, rfl, rfl, id⟩

theorem dispatch_written (folder : String × String) (c : Connection) (message : Json) :
    (dispatch folder c message).1.written = c.written ++
      if c.writable then (replyTo? folder message).toList.map .reply else [] := by
  cases hmessage : Incoming.classify message with
  | response id outcome =>
      simp only [dispatch, replyTo?, hmessage]
      repeat' split
      all_goals exact (List.append_nil _).symm
  | request id method params =>
      simp only [dispatch, replyTo?, hmessage]
      exact c.write_written _
  | notification method params =>
      simp only [dispatch, replyTo?, hmessage]
      exact (c.takeNotification_stays method params).2.trans (c.written_nothing _)
  | invalid =>
      simp only [dispatch, replyTo?, hmessage]
      exact c.written_nothing _

/-- A step that neither serves a command nor takes in a message: the connection writes
nothing and serves no command any more. -/
structure Leaves (c c' : Connection) : Prop where
  written : c'.written = c.written
  phase : c'.phase ≠ .serving
  initialized : c'.initialized = true -> c.initialized = true
  kept : c'.commands ⊆ c.commands
  store : c'.isAlive = true -> c'.store = c.store

theorem leaves_of_teardown {c c' : Connection} (hphase : c'.phase = .ended)
    (hwritten : c'.written = c.written) (hinitialized : c'.initialized = false)
    (hcommands : c'.commands = []) : Leaves c c' where
  written := hwritten
  phase := by simp [hphase]
  initialized h := by simp [hinitialized] at h
  kept := hcommands ▸ List.nil_subset _
  store h := by simp [isAlive, hphase] at h

theorem Retires.leaves {now : Nat} {c c' : Connection} {e : Emitted} (h : Retires now c c' e) :
    Leaves c c' := by
  cases h with
  | reaps | drains | signals | kills =>
      exact ⟨rfl, nofun, id, List.Subset.refl _, fun _ => rfl⟩
  | closes b code reason => exact leaves_of_teardown rfl reason.same.2.2.1 rfl rfl
  | parts => exact leaves_of_teardown rfl rfl rfl rfl

end Connection

namespace Session

variable {D : Type}

def writtenOn (s : Session D) (k : Nat) : List Outgoing :=
  ((s.connection? k).map Connection.written).getD []

/-!
## Calls write nothing
-/

theorem writtenOn_congr {s u : Session D} (h : u.connections = s.connections) (k : Nat) :
    u.writtenOn k = s.writtenOn k := by
  rw [writtenOn, connection?, h, ← connection?, ← writtenOn]

theorem writtenOn_modifyConnection (s : Session D) (j : Nat) {f : Connection -> Connection}
    (hf : forall c, (f c).written = c.written) (k : Nat) :
    (s.modifyConnection j f).writtenOn k = s.writtenOn k := by
  rw [writtenOn, connection?_modifyConnection, writtenOn]
  split
  · rw [Option.map_map, Function.comp_def]
    simp only [hf]
  · rfl

theorem writtenOn_enqueue (s : Session D) (j : Nat) (command : Command) (k : Nat) :
    (s.enqueue j command).writtenOn k = s.writtenOn k := by
  rw [enqueue]
  split
  · exact s.writtenOn_modifyConnection j (f := fun c =>
      { c with commands := c.commands ++ [command] }) (fun _ => rfl) k
  · rfl

theorem writtenOn_ask (s : Session D) (id j : Nat) (question : Ticket -> Command) (task : Task)
    (k : Nat) : (s.ask id j question task).writtenOn k = s.writtenOn k := by
  cases hcall : s.call? id with
  | none => rw [ask, hcall]
  | some call =>
      rw [ask_eq hcall, writtenOn_enqueue]
      exact writtenOn_congr rfl k

theorem writtenOn_launch (s : Session D) (launched : Bool) (k : Nat) :
    (s.launch launched).writtenOn k = s.writtenOn k := by
  rw [writtenOn, writtenOn, connection?, launch, connection?]
  rcases Nat.lt_trichotomy k s.connections.length with hk | hk | hk
  · rw [List.getElem?_append_left hk]
  · rw [hk, List.getElem?_concat_length, List.getElem?_eq_none (Nat.le_refl _)]
    rfl
  · rw [List.getElem?_eq_none (by simp; omega), List.getElem?_eq_none (Nat.le_of_lt hk)]

theorem apply_writtenOn (s : Session D) (id : Nat) (e : Effect D) (k : Nat) :
    (e.apply id s).writtenOn k = s.writtenOn k := by
  cases e with
  | ask j question task => exact s.writtenOn_ask id j question.command task k
  | abandon j number => exact s.writtenOn_enqueue j (.abandon number) k
  | condemn j =>
      exact s.writtenOn_modifyConnection j (f := fun c => { c with stopping := true })
        (fun _ => rfl) k
  | welcome j =>
      exact s.writtenOn_modifyConnection j (f := fun c => { c with initialized := true })
        (fun _ => rfl) k
  | launch launched => exact s.writtenOn_launch launched k
  | _ => exact writtenOn_congr rfl k

theorem undergo_writtenOn (s : Session D) (id : Nat) (effects : List (Effect D)) (k : Nat) :
    (s.undergo id effects).writtenOn k = s.writtenOn k := by
  induction effects generalizing s with
  | nil => rfl
  | cons e rest ih => rw [undergo_cons, ih, apply_writtenOn]

end Session

/-!
## Moments
-/

namespace Moment

variable {D : Type} (k : Nat) (m : Moment D)

def served? : Option Command :=
  match m.action with
  | .serve j => if j = k then (m.before.connection? k).bind Connection.next? else none
  | _ => none

def dispatched? : Option Json :=
  match m.action with
  | .takeIn j => if j = k then (m.before.connection? k).bind Connection.first? else none
  | _ => none

def letters : List Letter :=
  ((m.after.writtenOn k).drop (m.before.writtenOn k).length).map
    (⟨((m.served? k).bind Command.ticket?).map Ticket.call, ·⟩)

/-- What a moment means for the letters of connection `k`. -/
inductive Fares : Prop where
  | still (served : m.served? k = none) (dispatched : m.dispatched? k = none)
      (written : m.after.writtenOn k = m.before.writtenOn k)
  | serves (c c' : Connection) (e : Emitted) (command : Command) (rest : List Command)
      (before : m.before.connection? k = some c) (served : m.served? k = some command)
      (dispatched : m.dispatched? k = none) (phase : c.phase = .serving)
      (queue : c.commands = command :: rest)
      (step : Connection.serve m.before.now { c with commands := rest } command = (c', e))
      (after : m.after = (m.before.setConnection k c').emit e)
  | takesIn (c c' : Connection) (e : Emitted) (message : Json) (rest : List Inbound)
      (before : m.before.connection? k = some c) (served : m.served? k = none)
      (dispatched : m.dispatched? k = some message)
      (phase : c.phase = .serving ∨ exists deadline code, c.phase = .draining deadline code)
      (step : Connection.dispatch m.before.folder { c with inbound := rest } message = (c', e))
      (after : m.after = (m.before.setConnection k c').emit e)

end Moment

namespace Session

variable {D : Type}

theorem writtenOn_emit {s : Session D} {j : Nat} {c : Connection}
    (hc : s.connection? j = some c) (c' : Connection) (e : Emitted) (k : Nat) :
    ((s.setConnection j c').emit e).writtenOn k = if j = k then c'.written
    else s.writtenOn k := by
  rw [writtenOn, connection?_emit hc]
  split
  · rfl
  · rfl

theorem writtenOn_stepConnection {s u : Session D} {j : Nat}
    {step : Connection -> Option (Connection × Emitted)}
    (hwritten : forall c c' e, step c = some (c', e) -> c'.written = c.written)
    (h : s.stepConnection j step = some u) (k : Nat) : u.writtenOn k = s.writtenOn k := by
  unfold stepConnection at h
  split at h
  case h_1 => contradiction
  case h_2 c hc =>
    rcases Option.map_eq_some_iff.mp h with ⟨⟨c', e⟩, hstep, hu⟩
    subst hu
    rw [writtenOn_emit hc]
    split
    case isTrue hj =>
      rw [hwritten c c' e hstep, writtenOn, ← hj, hc]
      rfl
    case isFalse => rfl

theorem fares_of_serve {s u : Session D} {j : Nat}
    (h : s.stepConnection j (·.stepCommand s.now) = some u) (k : Nat) :
    Moment.Fares k ⟨s, .serve j, u⟩ := by
  unfold stepConnection at h
  split at h
  case h_1 => contradiction
  case h_2 c hc =>
    rcases Option.map_eq_some_iff.mp h with ⟨⟨c', e⟩, hstep, hu⟩
    subst hu
    by_cases hj : j = k
    · subst hj
      rcases Connection.stepCommand_serves hstep with
        ⟨command, rest, hnext, hphase, hqueue, hserve⟩
      refine .serves c c' e command rest hc ?_ rfl hphase hqueue hserve rfl
      rw [Moment.served?]
      simp [hc, hnext]
    · refine .still ?_ rfl ?_
      · rw [Moment.served?]
        exact if_neg hj
      · exact (writtenOn_emit hc c' e k).trans (if_neg hj)

theorem fares_of_takeIn {s u : Session D} {j : Nat}
    (h : s.stepConnection j (·.stepInbound s.now s.folder) = some u) (k : Nat) :
    Moment.Fares k ⟨s, .takeIn j, u⟩ := by
  unfold stepConnection at h
  split at h
  case h_1 => contradiction
  case h_2 c hc =>
    rcases Option.map_eq_some_iff.mp h with ⟨⟨c', e⟩, hstep, hu⟩
    subst hu
    have hother (hwritten : ((s.setConnection j c').emit e).writtenOn k = s.writtenOn k)
        (hnone : j ≠ k ∨ c.first? = none) :
        Moment.Fares k ⟨s, .takeIn j, (s.setConnection j c').emit e⟩ := by
      refine .still rfl ?_ hwritten
      rw [Moment.dispatched?]
      dsimp only
      split
      case isTrue hj =>
        rw [← hj, hc]
        exact hnone.resolve_left fun hne => hne hj
      case isFalse => rfl
    by_cases hj : j = k
    · subst hj
      rcases Connection.stepInbound_cases hstep with
        ⟨message, rest, hfirst, _, hphase, hdispatch⟩ | ⟨hfirst, hretires⟩
      · refine .takesIn c c' e message rest hc rfl ?_ hphase hdispatch rfl
        rw [Moment.dispatched?]
        simp [hc, hfirst]
      · refine hother ?_ (Or.inr hfirst)
        rw [writtenOn_emit hc, if_pos rfl, hretires.leaves.written, writtenOn, hc]
        rfl
    · exact hother ((writtenOn_emit hc c' e k).trans (if_neg hj)) (Or.inl hj)

/-- Every moment is one of these for each connection. -/
theorem fares_of_act [FileSystem D] {s u : Session D} {a : Action} (h : s.act a = some u)
    (k : Nat) :
    Moment.Fares k ⟨s, a, u⟩ := by
  cases a with
  | begin op =>
      cases h
      rcases s.beginCall_effects op with ⟨effects, _, hafter⟩
      refine .still rfl rfl ?_
      exact (congrArg (·.writtenOn k) hafter).trans
        ((s.addCall.undergo_writtenOn _ effects k).trans (writtenOn_congr rfl k))
  | goOn id =>
      rcases stepCall_effects h with ⟨call, effects, _, _, hafter⟩
      refine .still rfl rfl ?_
      exact (congrArg (·.writtenOn k) hafter).trans (s.undergo_writtenOn id effects k)
  | cancel id =>
      cases h
      exact .still rfl rfl (writtenOn_congr rfl k)
  | serve j => exact fares_of_serve h k
  | takeIn j => exact fares_of_takeIn h k
  | noticeExit j =>
      exact .still rfl rfl (writtenOn_stepConnection
        (fun _ _ _ hstep => (Connection.stepExit_retires hstep).leaves.written) h k)
  | expire j =>
      exact .still rfl rfl (writtenOn_stepConnection
        (fun _ _ _ hstep => (Connection.stepDeadline_retires hstep).leaves.written) h k)
  | receive j bytes =>
      cases h
      exact .still rfl rfl
        (s.writtenOn_modifyConnection j (fun c => (c.receive_undisturbed bytes).written) k)
  | hangUp j =>
      cases h
      exact .still rfl rfl
        (s.writtenOn_modifyConnection j (fun c => c.hangUp_undisturbed.written) k)
  | breakPipe j =>
      cases h
      exact .still rfl rfl
        (s.writtenOn_modifyConnection j (fun c => c.breakPipe_undisturbed.written) k)
  | exit j code =>
      cases h
      exact .still rfl rfl
        (s.writtenOn_modifyConnection j (fun c => (c.exit_undisturbed code).written) k)
  | elapse ms =>
      cases h
      exact .still rfl rfl (writtenOn_congr rfl k)

end Session

namespace Moment

variable {D : Type} {k : Nat} {m : Moment D}

theorem writtenOn_of_connection? {s : Session D} {c : Connection}
    (h : s.connection? k = some c) :
    s.writtenOn k = c.written := by
  rw [Session.writtenOn, h]
  rfl

theorem letters_of_written {more : List Outgoing}
    (h : m.after.writtenOn k = m.before.writtenOn k ++ more) :
    m.letters k = more.map (⟨((m.served? k).bind Command.ticket?).map Ticket.call, ·⟩) := by
  rw [letters, h, List.drop_left]

theorem letters_of_still (h : m.after.writtenOn k = m.before.writtenOn k) : m.letters k = [] :=
  letters_of_written (h.trans (List.append_nil _).symm)

theorem letters_of_serves {c c' : Connection} {e : Emitted} {command : Command}
    {rest : List Command} (before : m.before.connection? k = some c)
    (served : m.served? k = some command)
    (step : Connection.serve m.before.now { c with commands := rest } command = (c', e))
    (after : m.after = (m.before.setConnection k c').emit e) :
    m.letters k = if c.writable then
      (c.utterance? command).toList.map (⟨command.ticket?.map Ticket.call, .message ·⟩)
        else [] := by
  have hwritten := Connection.serve_written m.before.now { c with commands := rest } command
  rw [step] at hwritten
  have hsame :
      Connection.utterance? { c with commands := rest } command = c.utterance? command := by
    cases command <;> rfl
  have hletters : m.letters k = _ := letters_of_written (by
    rw [after, Session.writtenOn_emit before, if_pos rfl, hwritten,
      writtenOn_of_connection? before])
  rw [hletters, served, hsame]
  cases c.writable with
  | true => simp
  | false => simp

theorem letters_of_takesIn {c c' : Connection} {e : Emitted} {message : Json}
    {rest : List Inbound} (before : m.before.connection? k = some c)
    (served : m.served? k = none)
    (step : Connection.dispatch m.before.folder { c with inbound := rest } message = (c', e))
    (after : m.after = (m.before.setConnection k c').emit e) :
    m.letters k = if c.writable then
      (Connection.replyTo? m.before.folder message).toList.map (⟨none, .reply ·⟩) else [] := by
  have hwritten :=
    Connection.dispatch_written m.before.folder { c with inbound := rest } message
  rw [step] at hwritten
  have hletters : m.letters k = _ := letters_of_written (by
    rw [after, Session.writtenOn_emit before, if_pos rfl, hwritten,
      writtenOn_of_connection? before])
  rw [hletters, served]
  cases c.writable with
  | true => simp
  | false => simp

/-- A moment never takes back what has been written. -/
theorem Fares.written (h : m.Fares k) :
    m.after.writtenOn k = m.before.writtenOn k ++ (m.letters k).map Letter.content := by
  have hbegins : m.before.writtenOn k <+: m.after.writtenOn k := by
    cases h with
    | still _ _ hwritten => exact hwritten ▸ List.prefix_refl _
    | serves c c' e command rest before served dispatched phase queue step after =>
        have hwritten :=
          Connection.serve_written m.before.now { c with commands := rest } command
        rw [step] at hwritten
        rw [after, Session.writtenOn_emit before, if_pos rfl, hwritten,
          writtenOn_of_connection? before]
        exact List.prefix_append _ _
    | takesIn c c' e message rest before served dispatched phase step after =>
        have hwritten :=
          Connection.dispatch_written m.before.folder { c with inbound := rest } message
        rw [step] at hwritten
        rw [after, Session.writtenOn_emit before, if_pos rfl, hwritten,
          writtenOn_of_connection? before]
        exact List.prefix_append _ _
  rcases hbegins with ⟨more, hmore⟩
  rw [letters_of_written hmore.symm, List.map_map, ← hmore]
  exact congrArg _ (List.map_id _).symm

end Moment

/-!
## Courses
-/

section

variable {D : Type}

def letters (k : Nat) (moments : List (Moment D)) : List Letter :=
  moments.flatMap (Moment.letters k)

/-- Everything that connection `k` says of its own accord: its letters, replies set aside. -/
def spoken (k : Nat) (moments : List (Moment D)) : List Letter :=
  (letters k moments).filter (!·.isReply)

theorem letters_append (k : Nat) (first second : List (Moment D)) :
    letters k (first ++ second) = letters k first ++ letters k second :=
  List.flatMap_append

theorem letters_concat (k : Nat) (moments : List (Moment D)) (m : Moment D) :
    letters k (moments ++ [m]) = letters k moments ++ m.letters k := by
  rw [letters_append, letters, letters, List.flatMap_singleton]

theorem spoken_concat (k : Nat) (moments : List (Moment D)) (m : Moment D) :
    spoken k (moments ++ [m]) = spoken k moments ++ (m.letters k).filter (!·.isReply) := by
  rw [spoken, letters_concat, List.filter_append, spoken]

/-- The letters of a course are what is written on the connection, and in this order. -/
theorem Session.Course.writtenOn [FileSystem D] {s u : Session D} {moments : List (Moment D)}
    (course : Session.Course s moments u) (k : Nat) :
    u.writtenOn k = s.writtenOn k ++ (letters k moments).map Letter.content := by
  induction course with
  | refl => exact (List.append_nil _).symm
  | act course a ha ih =>
      rw [(Session.fares_of_act ha k).written, ih, letters_concat, List.map_append,
        List.append_assoc]
  | touch course disk ih => exact ih

theorem Session.Course.fares [FileSystem D] {s u : Session D} {moments : List (Moment D)}
    (course : Session.Course s moments u) {m : Moment D} (hm : m ∈ moments) (k : Nat) :
    m.Fares k := by
  induction course with
  | refl => exact nomatch hm
  | act course a ha ih =>
      rcases List.mem_append.mp hm with hm | hm
      · exact ih hm
      · exact List.mem_singleton.mp hm ▸ Session.fares_of_act ha k
  | touch course disk ih => exact ih hm

end
end LanguageClient

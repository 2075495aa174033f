import LanguageClient.Proofs.Session.Connections

/-!
# How connections end

However a connection comes to its end, it ends in one way: its queue, its table and its
documents are emptied, every unanswered request fails with one error, every command still in
the queue is dropped, and one last event is published. As long as it goes on, it publishes
no such event. Either way it answers only tickets that it holds, and lets go of each ticket
that it answers.
-/

namespace LanguageClient

def Event.isTerminal : Event -> Bool
  | .exited _ | .stopped => true
  | _ => false

def Phase.ticket? : Phase -> Option Ticket
  | .terminating _ t _ _ => some t
  | _ => none

namespace Connection

def tickets (c : Connection) : List Ticket :=
  c.phase.ticket?.toList ++
    (c.pending.entries.map (·.2) ++ c.commands.filterMap Command.ticket?)

def exitCode (c : Connection) : Option Int :=
  match c.phase, c.process with
  | .draining _ code, _ => code
  | _, some (.exited code) => code
  | _, _ => none

/-- Nothing is left of the queue, the table and the documents. -/
structure IsOver (c : Connection) : Prop where
  phase : c.phase = .ended
  commands : c.commands = []
  pending : c.pending = .empty
  store : c.store = .empty

/-- A connection goes from `c` to its end `c'`. Of the commands in its queue, `unserved` are
left; `asker` is the ticket of the call that has asked for the end, if one has. -/
structure Ends (now : Nat) (c c' : Connection) (e : Emitted) (code : Option Int)
    (asker : Option Ticket) (unserved : List Command) : Prop where
  alive : c.isAlive = true
  gone : c'.IsOver
  initialized : c'.initialized = false
  written : c'.written = c.written
  /-- A process that does not report in time leaves no code. -/
  reported : code = c.exitCode ∨
    code = none ∧ exists deadline, c.phase = .reaping deadline ∧ deadline ≤ now
  queue : asker = c.phase.ticket? ∧ c.commands = unserved ∨
    exists force t, c.phase = .serving ∧ asker = some t ∧
      c.commands = .terminate force t :: unserved
  answers : e.answers = asker.toList.map (fun t => (t, .terminated)) ++
    (c.pending.entries.map (fun entry => (entry.2, .response (.error (c.endError code)))) ++
      (unserved.filterMap Command.ticket?).map fun t => (t, .dropped))
  events : e.events = [c.endEvent code]

/-- A connection takes a step from `c` to `c'`. -/
inductive Proceeds (now : Nat) (c c' : Connection) (e : Emitted) : Prop where
  | goesOn (alive : c'.isAlive = true) (stopping : c'.stopping = c.stopping)
      (events : forall event, event ∈ e.events -> event.isTerminal = false)
      (tickets : forall t,
        (e.answers.map Prod.fst).count t + c'.tickets.count t ≤ c.tickets.count t) :
      Proceeds now c c' e
  | ends (code : Option Int) (asker : Option Ticket) (unserved : List Command)
      (h : Ends now c c' e code asker unserved) : Proceeds now c c' e

/-!
## Tickets in tables
-/

theorem remove_put (number : Nat) (t : Ticket) (entries : List (Nat × Ticket)) :
    Table.remove number (Table.put number t entries) = Table.remove number entries := by
  induction entries with
  | nil => simp [Table.put, Table.remove]
  | cons entry rest ih =>
      rcases entry with ⟨n, u⟩
      by_cases hn : n = number
      · simp [Table.put, Table.remove, hn]
      · simp [Table.put, Table.remove, hn, ih]

theorem count_put {number : Nat} {t : Ticket} {entries : List (Nat × Ticket)}
    (h : Table.find? number entries = none) (u : Ticket) :
    ((Table.put number t entries).map (·.2)).count u =
      [t].count u + (entries.map (·.2)).count u := by
  induction entries with
  | nil => simp [Table.put]
  | cons entry rest ih =>
      rcases entry with ⟨n, v⟩
      by_cases hn : n = number
      · simp [Table.find?, hn] at h
      · simp only [Table.find?, hn, if_false] at h
        simp only [Table.put, hn, if_false, List.map_cons, List.count_cons, ih h]
        omega

theorem count_remove_le (number : Nat) (entries : List (Nat × Ticket)) (u : Ticket) :
    ((Table.remove number entries).map (·.2)).count u ≤ (entries.map (·.2)).count u := by
  induction entries with
  | nil => exact Nat.le_refl _
  | cons entry rest ih =>
      rcases entry with ⟨n, v⟩
      by_cases hn : n = number
      · simp only [Table.remove, hn, if_true, List.map_cons, List.count_cons]
        omega
      · simp only [Table.remove, hn, if_false, List.map_cons, List.count_cons]
        omega

theorem count_remove_of_find? {number : Nat} {t : Ticket} {entries : List (Nat × Ticket)}
    (h : Table.find? number entries = some t) (u : Ticket) :
    [t].count u + ((Table.remove number entries).map (·.2)).count u ≤
      (entries.map (·.2)).count u := by
  induction entries with
  | nil => contradiction
  | cons entry rest ih =>
      rcases entry with ⟨n, v⟩
      by_cases hn : n = number
      · simp only [Table.find?, hn, if_true] at h
        cases h
        have hrest := count_remove_le number rest u
        simp only [Table.remove, hn, if_true, List.map_cons, List.count_cons, List.count_nil]
        omega
      · simp only [Table.find?, hn, if_false] at h
        have hrest := ih h
        simp only [Table.remove, hn, if_false, List.map_cons, List.count_cons] at hrest ⊢
        omega

/-!
## Ending
-/

theorem Ends.count_tickets {now : Nat} {c c' : Connection} {e : Emitted} {code : Option Int}
    {asker : Option Ticket} {unserved : List Command} (h : Ends now c c' e code asker unserved)
    (t : Ticket) : (e.answers.map Prod.fst).count t = c.tickets.count t := by
  rw [h.answers]
  rcases h.queue with ⟨hasker, hqueue⟩ | ⟨force, t', hphase, hasker, hqueue⟩
  · rw [hasker, ← hqueue, tickets]
    simp [Function.comp_def]
  · simp [tickets, hphase, hasker, hqueue, Phase.ticket?, Command.ticket?, Function.comp_def,
      List.count_cons]
    omega

section

variable {now : Nat} {b c : Connection} {code : Option Int}

theorem teardown_ends (halive : c.isAlive = true) (hwritten : b.written = c.written)
    (hstopping : b.stopping = c.stopping) (htable : b.pending = c.pending)
    (hqueue : b.commands = c.commands) (hphase : c.phase.ticket? = none)
    (hcode : code = c.exitCode ∨
      code = none ∧ exists deadline, c.phase = .reaping deadline ∧ deadline ≤ now) :
    Ends now c (b.teardown code).1 (b.teardown code).2 code none c.commands where
  alive := halive
  gone := ⟨rfl, rfl, rfl, rfl⟩
  initialized := rfl
  written := hwritten
  reported := hcode
  queue := Or.inl ⟨hphase.symm, rfl⟩
  answers := by
    simp only [teardown, endError, hstopping, htable, hqueue]
    rfl
  events := by
    simp only [teardown, endEvent, hstopping]

theorem teardownFor_ends {t : Ticket} {unserved : List Command} (halive : c.isAlive = true)
    (hwritten : b.written = c.written) (hstopping : b.stopping = c.stopping)
    (htable : b.pending = c.pending) (hrest : b.commands = unserved)
    (hqueue : some t = c.phase.ticket? ∧ c.commands = unserved ∨
      exists force t', c.phase = .serving ∧ some t = some t' ∧
        c.commands = .terminate force t' :: unserved)
    (hcode : code = c.exitCode) :
    Ends now c (b.teardownFor t code).1 (b.teardownFor t code).2 code (some t) unserved where
  alive := halive
  gone := ⟨rfl, rfl, rfl, rfl⟩
  initialized := rfl
  written := hwritten
  reported := Or.inl hcode
  queue := hqueue
  answers := by
    simp only [teardownFor, teardown, endError, hstopping, htable, hrest]
    rfl
  events := by
    simp only [teardownFor, teardown, endEvent, hstopping]

end

/-!
## Serving a command
-/

theorem write_tickets (c : Connection) (out : Outgoing) :
    (c.write out).1.tickets = c.tickets := by
  unfold write
  split <;> rfl

theorem write_stopping (c : Connection) (out : Outgoing) :
    (c.write out).1.stopping = c.stopping := by
  unfold write
  split <;> rfl

section

variable {now : Nat} {c : Connection} {rest : List Command} {command : Command}

theorem count_tickets_cons (hcommands : c.commands = command :: rest) (t : Ticket) :
    c.tickets.count t =
      command.ticket?.toList.count t + ({ c with commands := rest }.tickets).count t := by
  simp only [tickets, hcommands, List.count_append]
  cases hticket : command.ticket? with
  | none => simp [hticket]
  | some u =>
      simp [hticket, List.count_cons]
      omega

theorem goesOn_of_tickets {c' : Connection} {e : Emitted}
    (hcommands : c.commands = command :: rest)
    (halive : c'.isAlive = true) (hstopping : c'.stopping = c.stopping)
    (htickets : c'.tickets = { c with commands := rest }.tickets) (hevents : e.events = [])
    (hanswers : e.answers.map Prod.fst = command.ticket?.toList) : Proceeds now c c' e := by
  refine .goesOn halive hstopping (fun event hevent => ?_) fun t => ?_
  · rw [hevents] at hevent
    exact absurd hevent List.not_mem_nil
  · rw [hanswers, htickets]
    exact Nat.le_of_eq (count_tickets_cons hcommands t).symm

theorem serve_request_proceeds {number : Nat} {method : String} {params : Json} {t : Ticket}
    (hserving : c.phase = .serving)
    (hcommands : c.commands = .request number method params t :: rest) :
    Proceeds now c (serve now { c with commands := rest } (.request number method params t)).1
      (serve now { c with commands := rest } (.request number method params t)).2 := by
  have halive : c.isAlive = true := isAlive_of_serving hserving
  by_cases htaken : c.pending.contains number = true
  · simp only [serve, htaken, if_true]
    exact goesOn_of_tickets hcommands halive rfl rfl rfl rfl
  · have hfresh : Table.find? number c.pending.entries = none := by
      simpa [Table.contains, Table.get?] using htaken
    rw [serve, if_neg htaken]
    by_cases hwritable : c.writable = true
    · simp only [write, if_pos hwritable]
      refine .goesOn halive rfl (fun _ hevent => absurd hevent List.not_mem_nil) fun u => ?_
      have hput := count_put (t := t) hfresh u
      rw [count_tickets_cons hcommands]
      simp only [Emitted.nothing, tickets, Table.insert, Command.ticket?,
        List.count_append, hput, List.map_nil, List.count_nil, Option.toList_some]
      omega
    · simp only [write, if_neg hwritable]
      refine .goesOn halive rfl (fun _ hevent => absurd hevent List.not_mem_nil) fun u => ?_
      have hremove := count_remove_le number c.pending.entries u
      rw [count_tickets_cons hcommands]
      simp only [Emitted.answer, tickets, Table.insert, Table.erase, remove_put,
        Command.ticket?, List.count_append, List.map_cons, List.map_nil, Option.toList_some]
      omega

theorem serve_abandon_proceeds {number : Nat} (hserving : c.phase = .serving)
    (hcommands : c.commands = .abandon number :: rest) :
    Proceeds now c (serve now { c with commands := rest } (.abandon number)).1
      (serve now { c with commands := rest } (.abandon number)).2 := by
  have halive : c.isAlive = true := isAlive_of_serving hserving
  by_cases hheld : c.pending.contains number = true
  · simp only [serve, hheld, if_true]
    refine .goesOn ((write_isAlive _ _).trans halive) (write_stopping _ _)
      (fun _ hevent => absurd hevent List.not_mem_nil) fun u => ?_
    have hremove := count_remove_le number c.pending.entries u
    rw [write_tickets, count_tickets_cons hcommands]
    simp only [Emitted.nothing, tickets, Table.erase, List.count_append, List.map_nil,
      List.count_nil]
    omega
  · rw [serve, if_neg hheld]
    exact goesOn_of_tickets hcommands halive rfl rfl rfl rfl

theorem serve_sync_proceeds {input : SyncInput} {t : Ticket} (hserving : c.phase = .serving)
    (hcommands : c.commands = .sync input t :: rest) :
    Proceeds now c (serve now { c with commands := rest } (.sync input t)).1
      (serve now { c with commands := rest } (.sync input t)).2 := by
  have halive : c.isAlive = true := isAlive_of_serving hserving
  rcases hsync : c.store.sync input with ⟨store, synced, notification⟩
  cases notification with
  | none =>
      simp only [serve, hsync]
      exact goesOn_of_tickets hcommands halive rfl rfl rfl rfl
  | some message =>
      simp only [serve, hsync]
      exact goesOn_of_tickets hcommands ((write_isAlive _ _).trans halive) (write_stopping _ _)
        (write_tickets _ _) rfl rfl

theorem serve_close_proceeds {uri : String} {t : Ticket} (hserving : c.phase = .serving)
    (hcommands : c.commands = .close uri t :: rest) :
    Proceeds now c (serve now { c with commands := rest } (.close uri t)).1
      (serve now { c with commands := rest } (.close uri t)).2 := by
  have halive : c.isAlive = true := isAlive_of_serving hserving
  rcases hclose : c.store.close uri with ⟨store, notification⟩
  cases notification with
  | none =>
      simp only [serve, hclose]
      exact goesOn_of_tickets hcommands halive rfl rfl rfl rfl
  | some message =>
      simp only [serve, hclose]
      exact goesOn_of_tickets hcommands ((write_isAlive _ _).trans halive) (write_stopping _ _)
        (write_tickets _ _) rfl rfl

theorem serve_terminate_proceeds {force : Bool} {t : Ticket} (hserving : c.phase = .serving)
    (hcommands : c.commands = .terminate force t :: rest) :
    Proceeds now c (serve now { c with commands := rest } (.terminate force t)).1
      (serve now { c with commands := rest } (.terminate force t)).2 := by
  have halive : c.isAlive = true := isAlive_of_serving hserving
  cases hprocess : c.process with
  | none =>
      simp only [serve]
      refine .ends none (some t) rest (teardownFor_ends halive rfl rfl rfl rfl ?_ ?_)
      · exact Or.inr ⟨force, t, hserving, rfl, hcommands⟩
      · simp only [exitCode, hserving, hprocess]
  | some process =>
      simp only [serve]
      refine .goesOn rfl rfl (fun _ hevent => absurd hevent List.not_mem_nil) fun u => ?_
      rw [count_tickets_cons hcommands]
      simp only [Emitted.nothing, tickets, hserving, Phase.ticket?, Command.ticket?,
        List.count_append, List.map_nil, List.count_nil, Option.toList_some,
        Option.toList_none]
      omega

theorem serve_proceeds (hserving : c.phase = .serving)
    (hcommands : c.commands = command :: rest) :
    Proceeds now c (serve now { c with commands := rest } command).1
      (serve now { c with commands := rest } command).2 := by
  have halive : c.isAlive = true := isAlive_of_serving hserving
  cases command with
  | request number method params t => exact serve_request_proceeds hserving hcommands
  | abandon number => exact serve_abandon_proceeds hserving hcommands
  | notify message t =>
      exact goesOn_of_tickets hcommands ((write_isAlive _ _).trans halive) (write_stopping _ _)
        (write_tickets _ _) rfl rfl
  | sync input t => exact serve_sync_proceeds hserving hcommands
  | close uri t => exact serve_close_proceeds hserving hcommands
  | isOpen uri t => exact goesOn_of_tickets hcommands halive rfl rfl rfl rfl
  | diagnostics uri t =>
      cases uri with
      | none => exact goesOn_of_tickets hcommands halive rfl rfl rfl rfl
      | some uri => exact goesOn_of_tickets hcommands halive rfl rfl rfl rfl
  | status t => exact goesOn_of_tickets hcommands halive rfl rfl rfl rfl
  | terminate force t => exact serve_terminate_proceeds hserving hcommands

end

theorem stepCommand_proceeds {now : Nat} {c c' : Connection} {e : Emitted}
    (h : c.stepCommand now = some (c', e)) : Proceeds now c c' e := by
  rcases stepCommand_serves h with ⟨command, rest, _, hserving, hcommands, hserve⟩
  have hproceeds : Proceeds now c _ _ := serve_proceeds hserving hcommands
  rwa [hserve] at hproceeds

/-!
## Taking in a message
-/

theorem takeNotification_proceeds {now : Nat} {c : Connection} (halive : c.isAlive = true)
    (rest : List Inbound) (method : String) (params : Json) :
    Proceeds now c (takeNotification { c with inbound := rest } method params).1
      (takeNotification { c with inbound := rest } method params).2 := by
  have hsame {c' : Connection} {e : Emitted} (halive' : c'.isAlive = true)
      (hstopping : c'.stopping = c.stopping) (htickets : c'.tickets = c.tickets)
      (hanswers : e.answers = [])
      (hevents : forall event, event ∈ e.events -> event.isTerminal = false) :
      Proceeds now c c' e := by
    refine .goesOn halive' hstopping hevents fun t => ?_
    rw [hanswers, htickets]
    simp
  have hone {event : Event} (h : event.isTerminal = false) :
      forall event', event' ∈ (Emitted.event event).events -> event'.isTerminal = false := by
    intro event' hevent
    rw [List.mem_singleton.mp hevent]
    exact h
  unfold takeNotification
  split
  · split
    · exact hsame halive rfl rfl rfl fun _ hevent => absurd hevent List.not_mem_nil
    · exact hsame halive rfl rfl rfl (hone rfl)
  · split
    · exact hsame halive rfl rfl rfl (hone rfl)
    · split
      · exact hsame halive rfl rfl rfl (hone rfl)
      · split
        · exact hsame halive rfl rfl rfl (hone rfl)
        · exact hsame halive rfl rfl rfl fun _ hevent => absurd hevent List.not_mem_nil

theorem dispatch_proceeds {now : Nat} {c : Connection} (folder : String × String)
    (halive : c.isAlive = true) (rest : List Inbound) (message : Json) :
    Proceeds now c (dispatch folder { c with inbound := rest } message).1
      (dispatch folder { c with inbound := rest } message).2 := by
  have hquiet {c' : Connection} (halive' : c'.isAlive = true)
      (hstopping : c'.stopping = c.stopping)
      (htickets : c'.tickets = c.tickets) : Proceeds now c c' .nothing := by
    refine .goesOn halive' hstopping (fun _ hevent => absurd hevent List.not_mem_nil) fun t =>
      ?_
    rw [htickets]
    simp [Emitted.nothing]
  unfold dispatch
  split
  case h_1 id outcome _ =>
    split
    case h_1 => exact hquiet halive rfl rfl
    case h_2 number _ =>
      split
      case h_1 => exact hquiet halive rfl rfl
      case h_2 t hheld =>
        refine .goesOn halive rfl (fun _ hevent => absurd hevent List.not_mem_nil) fun u => ?_
        have hremove := count_remove_of_find? hheld u
        simp only [Emitted.answer, tickets, Table.erase, List.count_append, List.map_cons,
          List.map_nil] at hremove ⊢
        omega
  case h_2 =>
    exact hquiet ((write_isAlive _ _).trans halive) (write_stopping _ _) (write_tickets _ _)
  case h_3 method params _ => exact takeNotification_proceeds halive rest method params
  case h_4 => exact hquiet halive rfl rfl

/-!
## Coming to an end
-/

theorem Closes.ends {now : Nat} {b c : Connection} {code : Option Int}
    (h : Closes now c b code) :
    Ends now c (b.teardown code).1 (b.teardown code).2 code none c.commands := by
  rcases h.same with ⟨hqueue, htable, hwritten, hstopping⟩
  refine teardown_ends h.isAlive hwritten hstopping htable hqueue ?_ ?_
  · cases h with
    | hungUp _ phase | drained _ _ _ phase | drainedLate _ _ phase | reaped _ _ phase
    | unreported _ phase =>
        rw [phase]
        rfl
  · cases h with
    | hungUp _ phase _ bare => exact Or.inl (by simp only [exitCode, phase, bare])
    | drained _ _ _ phase | drainedLate _ _ phase =>
        exact Or.inl (by simp only [exitCode, phase])
    | reaped _ _ phase exited => exact Or.inl (by simp only [exitCode, phase, exited])
    | unreported deadline phase due => exact Or.inr ⟨rfl, deadline, phase, due⟩

theorem Retires.proceeds {now : Nat} {c c' : Connection} {e : Emitted}
    (h : Retires now c c' e) :
    Proceeds now c c' e := by
  cases h with
  | reaps _ _ phase | drains _ phase | signals _ _ _ phase | kills _ _ _ phase =>
      refine .goesOn rfl rfl (fun _ hevent => absurd hevent List.not_mem_nil) fun u => ?_
      simp [Emitted.nothing, tickets, signal, phase, Phase.ticket?]
  | closes b code reason => exact .ends code none c.commands reason.ends
  | parts code force t grace deadline phase exited =>
      refine .ends code (some t) c.commands
        (teardownFor_ends (isAlive_of_phase phase nofun) rfl rfl rfl rfl (Or.inl ?_) ?_)
      · rw [phase]
        exact ⟨rfl, rfl⟩
      · simp only [exitCode, phase, exited]

theorem stepInbound_proceeds {now : Nat} {folder : String × String} {c c' : Connection}
    {e : Emitted} (h : c.stepInbound now folder = some (c', e)) : Proceeds now c c' e := by
  rcases stepInbound_cases h with ⟨message, rest, _, _, hphase, hdispatch⟩ | ⟨_, hretires⟩
  · have halive : c.isAlive = true := by
      rcases hphase with hserving | ⟨deadline, code, hdraining⟩
      · exact isAlive_of_serving hserving
      · exact isAlive_of_phase hdraining nofun
    have hproceeds : Proceeds now c _ _ := dispatch_proceeds folder halive rest message
    rwa [hdispatch] at hproceeds
  · exact hretires.proceeds

theorem stepExit_proceeds {now : Nat} {c c' : Connection} {e : Emitted}
    (h : c.stepExit now = some (c', e)) : Proceeds now c c' e :=
  (stepExit_retires h).proceeds

theorem stepDeadline_proceeds {now : Nat} {c c' : Connection} {e : Emitted}
    (h : c.stepDeadline now = some (c', e)) : Proceeds now c c' e :=
  (stepDeadline_retires h).proceeds

/-- Whatever a step does, it answers only tickets that the connection holds, each once. -/
theorem Proceeds.count_tickets {now : Nat} {c c' : Connection} {e : Emitted}
    (h : Proceeds now c c' e) (t : Ticket) :
    (e.answers.map Prod.fst).count t + c'.tickets.count t ≤ c.tickets.count t := by
  cases h with
  | goesOn _ _ _ htickets => exact htickets t
  | ends code asker unserved hends =>
      have hnone : c'.tickets = [] := by
        rw [tickets, hends.gone.phase, hends.gone.commands, hends.gone.pending]
        rfl
      rw [hends.count_tickets, hnone]
      exact Nat.le_refl _

/-!
## After the end
-/

section

variable {c : Connection} (h : c.phase = .ended)

include h

theorem stepCommand_of_ended (now : Nat) : c.stepCommand now = none := by
  rw [stepCommand, h]

theorem stepInbound_of_ended (now : Nat) (folder : String × String) :
    c.stepInbound now folder = none := by
  rw [stepInbound, h]

theorem stepExit_of_ended (now : Nat) : c.stepExit now = none := by
  unfold stepExit
  rw [h]
  split <;> first | rfl | contradiction

theorem stepDeadline_of_ended (now : Nat) : c.stepDeadline now = none := by
  rw [stepDeadline, h]

end

theorem phase_of_not_isAlive {c : Connection} (h : c.isAlive = false) : c.phase = .ended := by
  simpa [isAlive] using h

end Connection
end LanguageClient

import LanguageClient.Proofs.Session.Drift
import LanguageClient.Proofs.Session.Licences
import LanguageClient.Proofs.Session.Recorded

/-!
# What connections are asked to say

Calls queue commands, and a connection serves them in this order. So what a connection has
said, its replies set aside, is what the first of its commands had to say: nobody overtakes
anybody, and nothing is left out as long as the server reads.
-/

namespace LanguageClient

variable {D : Type}

/-!
## Commands that calls queue
-/

namespace Effect

def Orders (id k : Nat) (added : List Command) : Effect D -> Prop
  | .ask j question _ =>
      if j = k then exists serial, added = [question.command ⟨id, serial⟩] else added = []
  | .abandon j number => added = if j = k then [.abandon number] else []
  | _ => added = []

def AllOrder (id k : Nat) : List (Effect D) -> List Command -> Prop
  | [], added => added = []
  | e :: others, added =>
      exists first later, e.Orders id k first ∧ AllOrder id k others later ∧
      added = first ++ later

theorem lastTask?_concat (before : List (Effect D)) {e : Effect D} {task : Task}
    (h : e.task? = some task) : lastTask? (before ++ [e]) = some task := by
  rw [lastTask?_append, lastTask?, lastTask?, h]
  rfl

def isQuiet : Effect D -> Bool
  | .ask .. | .abandon .. => false
  | _ => true

inductive Hushed (k : Nat) : Effect D -> Prop where
  | elsewhere (j : Nat) (question : Question) (task : Task) (other : j ≠ k) :
      Hushed k (.ask j question task)
  | silent (j : Nat) (question : Question) (task : Task)
      (silent : forall t, (question.command t).isSilent = true) :
      Hushed k (.ask j question task)
  | spared (j number : Nat) (other : j ≠ k) : Hushed k (.abandon j number)
  | quiet (e : Effect D) (quiet : e.isQuiet = true) : Hushed k e

theorem Hushed.orders {id k : Nat} {e : Effect D} {added : List Command} (h : e.Hushed k)
    (horders : e.Orders id k added) : added.filter (!·.isSilent) = [] := by
  cases h with
  | elsewhere j question task other =>
      rw [Orders, if_neg other] at horders
      rw [horders]
      rfl
  | silent j question task silent =>
      rw [Orders] at horders
      split at horders
      · rcases horders with ⟨serial, rfl⟩
        exact List.filter_cons_of_neg (by simp [silent])
      · rw [horders]
        rfl
  | spared j number other =>
      rw [Orders, if_neg other] at horders
      rw [horders]
      rfl
  | quiet e quiet =>
      have hnothing : added = [] := by cases e <;> first | exact horders | contradiction
      rw [hnothing]
      rfl

theorem AllOrder.hushed {id k : Nat} {effects : List (Effect D)} {added : List Command}
    (horders : AllOrder id k effects added) (h : forall e, e ∈ effects -> e.Hushed k) :
    added.filter (!·.isSilent) = [] := by
  induction effects generalizing added with
  | nil =>
      cases horders
      rfl
  | cons e others ih =>
      rcases horders with ⟨first, later, hfirst, hlater, rfl⟩
      rw [List.filter_append, (h e List.mem_cons_self).orders hfirst,
        ih hlater fun e' he' => h e' (List.mem_cons_of_mem _ he')]
      rfl

theorem AllOrder.append_inv {id k : Nat} {first second : List (Effect D)}
    {added : List Command} (h : AllOrder id k (first ++ second) added) :
    exists earlier later, AllOrder id k first earlier ∧ AllOrder id k second later ∧
      added = earlier ++ later := by
  induction first generalizing added with
  | nil => exact ⟨[], added, rfl, h, rfl⟩
  | cons e others ih =>
      rcases h with ⟨one, more, hone, hmore, rfl⟩
      rcases ih hmore with ⟨earlier, later, hearlier, hlater, rfl⟩
      exact ⟨one ++ earlier, later, ⟨one, earlier, hone, hearlier, rfl⟩, hlater,
        (List.append_assoc ..).symm⟩

theorem AllOrder.question {id k : Nat} (before : List (Effect D)) {question : Question}
    {task : Task} {added : List Command}
    (h : AllOrder id k (before ++ [.ask k question task]) added)
    (hhushed : forall e, e ∈ before -> e.Hushed k)
    (hheard : forall t, (question.command t).isSilent = false) :
    exists serial, added.filter (!·.isSilent) = [question.command ⟨id, serial⟩] := by
  rcases h.append_inv with ⟨earlier, later, hearlier, ⟨one, more, hone, hmore, rfl⟩, rfl⟩
  cases hmore
  rw [Orders, if_pos rfl] at hone
  rcases hone with ⟨serial, rfl⟩
  refine ⟨serial, ?_⟩
  rw [List.filter_append, hearlier.hushed hhushed, List.append_nil,
    List.filter_cons_of_pos (by simp [hheard])]
  rfl

def welcomes (k : Nat) : Effect D -> Bool
  | .welcome j => j = k
  | _ => false

end Effect

structure Connection.Gets (added : List Command) (welcomed : Bool) (c c' : Connection) :
    Prop where
  phase : c'.phase = c.phase
  writable : c'.writable = c.writable
  commands : c'.commands = c.commands ++ added
  initialized : c'.initialized = (c.initialized || welcomed)

namespace Connection.Gets

theorem isAlive {added : List Command} {welcomed : Bool} {c c' : Connection}
    (h : Gets added welcomed c c') : c'.isAlive = c.isAlive := by
  rw [Connection.isAlive, h.phase, ← Connection.isAlive]

theorem isFluent {added : List Command} {welcomed : Bool} {c c' : Connection}
    (h : Gets added welcomed c c') : c'.isFluent = c.isFluent := by
  rw [Connection.isFluent, h.phase, h.writable, ← Connection.isFluent]

theorem trans {first later : List Command} {b b' : Bool} {c c' c'' : Connection}
    (h : Gets first b c c') (h' : Gets later b' c' c'') :
    Gets (first ++ later) (b || b') c c'' where
  phase := h'.phase.trans h.phase
  writable := h'.writable.trans h.writable
  commands := by rw [h'.commands, h.commands, List.append_assoc]
  initialized := by rw [h'.initialized, h.initialized, Bool.or_assoc]

theorem refl (c : Connection) : Gets [] false c c :=
  ⟨rfl, rfl, (List.append_nil _).symm, (Bool.or_false _).symm⟩

end Connection.Gets

namespace Session

theorem apply_gets {s : Session D} {id : Nat} (h : id < s.calls.length) (e : Effect D)
    {k : Nat} {c : Connection} (hc : s.connection? k = some c) :
    exists c' added, (e.apply id s).connection? k = some c' ∧
      Connection.Gets added (e.welcomes k) c c' ∧
      if c.isAlive = true then e.Orders id k added else added = [] := by
  have hsame (horders : e.Orders id k []) (hwelcomes : e.welcomes k = false)
      (hconnection : (e.apply id s).connection? k = some c) :
      exists c' added, (e.apply id s).connection? k = some c' ∧
        Connection.Gets added (e.welcomes k) c c' ∧
        if c.isAlive = true then e.Orders id k added else added = [] := by
    refine ⟨c, [], hconnection, hwelcomes ▸ .refl c, ?_⟩
    split
    · exact horders
    · rfl
  cases e with
  | ask j question task =>
      rcases call?_eq_some_of_lt h with ⟨call, hcall⟩
      rw [Effect.apply, connection?_ask hcall, hc, Option.map_some]
      by_cases hj : c.isAlive = true ∧ j = k
      · rw [if_pos hj]
        refine ⟨_, _, rfl, ⟨rfl, rfl, rfl, (Bool.or_false _).symm⟩, ?_⟩
        rw [if_pos hj.1, Effect.Orders, if_pos hj.2]
        exact ⟨_, rfl⟩
      · rw [if_neg hj]
        refine ⟨_, [], rfl, .refl c, ?_⟩
        split
        case isTrue halive =>
          rw [Effect.Orders, if_neg fun heq => hj ⟨halive, heq⟩]
        case isFalse => rfl
  | abandon j number =>
      rw [Effect.apply, connection?_enqueue, hc, Option.map_some]
      by_cases hj : c.isAlive = true ∧ j = k
      · rw [if_pos hj]
        refine ⟨_, [.abandon number], rfl, ⟨rfl, rfl, rfl, (Bool.or_false _).symm⟩, ?_⟩
        rw [if_pos hj.1, Effect.Orders, if_pos hj.2]
      · rw [if_neg hj]
        refine ⟨_, [], rfl, .refl c, ?_⟩
        split
        case isTrue halive =>
          rw [Effect.Orders, if_neg fun heq => hj ⟨halive, heq⟩]
        case isFalse => rfl
  | condemn j =>
      rw [Effect.apply, connection?_modifyConnection, hc]
      split
      · refine ⟨_, [], rfl, ⟨rfl, rfl, (List.append_nil _).symm, (Bool.or_false _).symm⟩, ?_⟩
        split <;> rfl
      · refine ⟨c, [], rfl, .refl c, ?_⟩
        split <;> rfl
  | welcome j =>
      rw [Effect.apply, connection?_modifyConnection, hc]
      split
      case isTrue hj =>
        refine ⟨_, [], rfl, ⟨rfl, rfl, (List.append_nil _).symm, ?_⟩, ?_⟩
        · simp [Effect.welcomes, hj]
        · split <;> rfl
      case isFalse hj =>
        refine ⟨c, [], rfl, ⟨rfl, rfl, (List.append_nil _).symm, ?_⟩, ?_⟩
        · simp [Effect.welcomes, hj]
        · split <;> rfl
  | launch launched =>
      refine hsame rfl rfl ?_
      have hlt : k < s.connections.length := (List.getElem?_eq_some_iff.mp hc).1
      rw [Effect.apply, Session.launch, connection?, List.getElem?_append_left hlt]
      exact hc
  | _ => exact hsame rfl rfl hc

theorem undergo_gets {s : Session D} {id : Nat} (h : id < s.calls.length)
    (effects : List (Effect D)) {k : Nat} {c : Connection} (hc : s.connection? k = some c) :
    exists c' added, (s.undergo id effects).connection? k = some c' ∧
      Connection.Gets added (effects.any (Effect.welcomes k)) c c' ∧
      if c.isAlive = true then Effect.AllOrder id k effects added else added = [] := by
  induction effects generalizing s c with
  | nil =>
      refine ⟨c, [], hc, .refl c, ?_⟩
      split
      · exact (rfl : ([] : List Command) = [])
      · rfl
  | cons e rest ih =>
      rcases apply_gets h e hc with ⟨c', first, hc', hgets, hfirst⟩
      rcases ih (s := e.apply id s) (by rwa [apply_calls_length]) hc' with
        ⟨c'', later, hc'', hgets', hlater⟩
      refine ⟨c'', first ++ later, hc'', hgets.trans hgets', ?_⟩
      rw [hgets.isAlive] at hlater
      split
      case isTrue halive =>
        rw [if_pos halive] at hfirst hlater
        exact ⟨first, later, hfirst, hlater, rfl⟩
      case isFalse hdead =>
        rw [if_neg hdead] at hfirst hlater
        rw [hfirst, hlater]
        rfl

def waiting (s : Session D) (k : Nat) : List Command :=
  ((s.connection? k).map Connection.commands).getD []

end Session

def Moment.asks (k : Nat) (m : Moment D) : List Command :=
  if m.ofCall then (m.after.waiting k).drop (m.before.waiting k).length else []

def asked (k : Nat) (moments : List (Moment D)) : List Command :=
  moments.flatMap (Moment.asks k)

theorem asked_concat (k : Nat) (moments : List (Moment D)) (m : Moment D) :
    asked k (moments ++ [m]) = asked k moments ++ m.asks k := by
  rw [asked, List.flatMap_append, List.flatMap_singleton, ← asked]

namespace Moment

variable {k : Nat} {m : Moment D}

theorem asks_of_gets (hcall : m.ofCall = true) {c c' : Connection} {added : List Command}
    {welcomed : Bool} (hc : m.before.connection? k = some c)
    (hc' : m.after.connection? k = some c') (hgets : Connection.Gets added welcomed c c') :
    m.asks k = added := by
  rw [asks, if_pos hcall, Session.waiting, Session.waiting, hc, hc']
  simp [hgets.commands]

theorem asks_of_absent (hcall : m.ofCall = true) (hc : m.before.connection? k = none) :
    m.asks k = m.after.waiting k := by
  rw [asks, if_pos hcall, Session.waiting, hc]
  rfl

end Moment

def errands (k : Nat) (moments : List (Moment D)) : List Command :=
  (asked k moments).filter (!·.isSilent)

theorem errands_concat (k : Nat) (moments : List (Moment D)) (m : Moment D) :
    errands k (moments ++ [m]) = errands k moments ++ (m.asks k).filter (!·.isSilent) := by
  rw [errands, asked_concat, List.filter_append, ← errands]

theorem errands_append (k : Nat) (first second : List (Moment D)) :
    errands k (first ++ second) = errands k first ++ errands k second := by
  rw [errands, asked, List.flatMap_append, List.filter_append, ← asked, ← errands, ← asked,
    ← errands]

/-!
## What comes of a command
-/

/-- What a connection says for a command while it is fluent. -/
inductive Command.Voices : Command -> List Letter -> Prop where
  | request (number : Nat) (method : String) (params : Json) (t : Ticket) :
      Voices (.request number method params t)
        [⟨some t.call, .message (.request number method params)⟩]
  | notify (message : Message) (t : Ticket) :
      Voices (.notify message t) [⟨some t.call, .message message⟩]
  | cancel (number : Nat) :
      Voices (.abandon number) [⟨none, .message (Connection.cancelNotice number)⟩]
  | spared (number : Nat) : Voices (.abandon number) []
  | opens (input : SyncInput) (t : Ticket) (d : Document) (text : Text) :
      Voices (.sync input t) [⟨some t.call, .message (d.didOpen text)⟩]
  | changes (input : SyncInput) (t : Ticket) (d : Document) (text : Text) :
      Voices (.sync input t) [⟨some t.call, .message (d.didChange text)⟩]
  | unchanged (input : SyncInput) (t : Ticket) : Voices (.sync input t) []
  | closes (uri : String) (t : Ticket) :
      Voices (.close uri t) [⟨some t.call, .message (Document.didClose uri)⟩]
  | closed (uri : String) (t : Ticket) : Voices (.close uri t) []
  | silent (command : Command) (silent : command.isSilent = true) : Voices command []

inductive Voiced : List Command -> List Letter -> Prop where
  | nil : Voiced [] []
  | concat {commands : List Command} {said : List Letter} {command : Command}
      {more : List Letter} (h : Voiced commands said) (voices : command.Voices more) :
      Voiced (commands ++ [command]) (said ++ more)

namespace Voiced

theorem concat_inv {commands : List Command} {command : Command} {said : List Letter}
    (h : Voiced (commands ++ [command]) said) :
    exists before more, said = before ++ more ∧ Voiced commands before ∧
      command.Voices more := by
  generalize hall : commands ++ [command] = all at h
  cases h with
  | nil => exact absurd hall (by simp)
  | concat h voices =>
      rcases List.append_inj' hall rfl with ⟨rfl, hlast⟩
      cases List.head_eq_of_cons_eq hlast
      exact ⟨_, _, rfl, h, voices⟩

theorem nil_inv {said : List Letter} (h : Voiced [] said) : said = [] := by
  generalize hall : [] = all at h
  cases h with
  | nil => rfl
  | concat h voices => exact absurd hall (by simp)

theorem singleton_inv {command : Command} {said : List Letter} (h : Voiced [command] said) :
    command.Voices said := by
  rcases concat_inv (List.nil_append [command] ▸ h) with ⟨before, more, rfl, hbefore, hmore⟩
  rwa [hbefore.nil_inv]

theorem heard {commands : List Command} {said : List Letter} (h : Voiced commands said) :
    Voiced (commands.filter (!·.isSilent)) said := by
  induction h with
  | nil => exact .nil
  | @concat commands said command more h voices ih =>
      rw [List.filter_append]
      cases hsilent : command.isSilent with
      | true =>
          have hmore : more = [] := by cases voices <;> first | rfl | contradiction
          rw [hmore, List.append_nil, List.filter_cons_of_neg (by simp [hsilent]),
            List.filter_nil, List.append_nil]
          exact ih
      | false =>
          rw [List.filter_cons_of_pos (by simp [hsilent]), List.filter_nil]
          exact ih.concat voices

end Voiced

theorem sync_voices (store : DocumentStore) (input : SyncInput) (t : Ticket) :
    (Command.sync input t).Voices
      ((store.sync input).2.2.toList.map (⟨some t.call, .message ·⟩)) := by
  unfold DocumentStore.sync
  split
  · exact .opens input t _ _
  · split
    · exact .unchanged input t
    · exact .changes input t _ _

theorem close_voices (store : DocumentStore) (uri : String) (t : Ticket) :
    (Command.close uri t).Voices
      ((store.close uri).2.toList.map (⟨some t.call, .message ·⟩)) := by
  unfold DocumentStore.close
  split
  · exact .closed uri t
  · exact .closes uri t

namespace Connection

/-- A fluent connection voices what it serves. No request that waits has the number of one
that is unanswered. -/
theorem utterance_voices (c : Connection) (command : Command)
    (hfree : forall number method params t, command = .request number method params t ->
      c.pending.contains number = false) :
    command.Voices
      ((c.utterance? command).toList.map (⟨command.ticket?.map Ticket.call, .message ·⟩)) := by
  cases command with
  | request number method params t =>
      simp only [utterance?, hfree number method params t rfl]
      exact .request number method params t
  | abandon number =>
      simp only [utterance?]
      split
      · exact .cancel number
      · exact .spared number
  | notify message t => exact .notify message t
  | sync input t => exact sync_voices c.store input t
  | close uri t => exact close_voices c.store uri t
  | isOpen uri t => exact .silent _ rfl
  | diagnostics uri t => exact .silent _ rfl
  | status t => exact .silent _ rfl
  | terminate force t => exact .silent _ rfl

end Connection

namespace Moment

variable {k : Nat} {m : Moment D}

theorem Fares.spoken_of_idle (h : m.Fares k) (hserved : m.served? k = none) :
    (m.letters k).filter (!·.isReply) = [] := by
  cases h with
  | still served dispatched written =>
      rw [letters_of_still written]
      rfl
  | serves c c' e command rest before served dispatched phase queue step after =>
      exact nomatch hserved.symm.trans served
  | takesIn c c' e message rest before served dispatched phase step after =>
      rw [letters_of_takesIn before served step after]
      split
      · refine List.filter_eq_nil_iff.mpr fun l hl => ?_
        rcases List.mem_map.mp hl with ⟨v, _, rfl⟩
        exact fun h => absurd h Bool.false_ne_true
      · rfl

theorem Fares.of_call (h : m.Fares k) (hcall : m.ofCall = true) :
    (m.letters k).filter (!·.isReply) = [] := by
  refine h.spoken_of_idle ?_
  rw [served?]
  unfold ofCall at hcall
  split at hcall
  case h_1 haction => rw [haction]
  case h_2 haction => rw [haction]
  case h_3 => contradiction

theorem Fares.spoken_of_served {log : List Happening} (hsound : Session.Sound m.before log)
    (h : m.Fares k) {c : Connection} {command : Command} (hc : m.before.connection? k = some c)
    (hserved : m.served? k = some command) :
    if c.isFluent = true then command.Voices ((m.letters k).filter (!·.isReply))
    else (m.letters k).filter (!·.isReply) = [] := by
  cases h with
  | still served dispatched written => exact nomatch hserved.symm.trans served
  | takesIn b b' e message rest before served dispatched phase step after =>
      exact nomatch hserved.symm.trans served
  | serves b b' e command' rest before served dispatched phase queue step after =>
      cases Option.some.inj (hserved.symm.trans served)
      cases Option.some.inj (hc.symm.trans before)
      rw [letters_of_serves before served step after]
      have hown (sender : Option Nat) (messages : List Message) :
          (messages.map (Letter.mk sender <| .message ·)).filter (!·.isReply) =
            messages.map (Letter.mk sender <| .message ·) := by
        refine List.filter_eq_self.mpr fun l hl => ?_
        rcases List.mem_map.mp hl with ⟨message, _, rfl⟩
        rfl
      by_cases hwritable : c.writable = true
      · rw [if_pos (Connection.isFluent_iff.mpr ⟨phase, hwritable⟩), if_pos hwritable, hown]
        refine c.utterance_voices command fun number method params t heq => ?_
        have hqueued : .request number method params t ∈ c.commands := by
          rw [queue, heq]
          exact List.mem_cons_self
        exact hsound.free before hqueued
      · rw [if_neg fun hfluent => hwritable (Connection.isFluent_iff.mp hfluent).2,
          if_neg hwritable]
        rfl

end Moment

/-!
## Courses
-/

/-- What connection `k` has said comes of the first commands that it has been asked; the
others still wait, as long as it is fluent. -/
def Told (k : Nat) (moments : List (Moment D)) (s : Session D) : Prop :=
  (s.connection? k = none -> asked k moments = []) ∧
    exists served, served <+: asked k moments ∧ Voiced served (spoken k moments) ∧
      forall c, s.connection? k = some c -> c.isFluent = true ->
        asked k moments = served ++ c.commands

namespace Told

variable {k : Nat} {moments : List (Moment D)} {m : Moment D}

theorem call (h : Told k moments m.before) (hcall : m.ofCall = true) (hfares : m.Fares k)
    (hgets : forall c, m.before.connection? k = some c -> exists c' added welcomed,
      m.after.connection? k = some c' ∧ Connection.Gets added welcomed c c') :
    Told k (moments ++ [m]) m.after := by
  rcases h with ⟨habsent, served, hbegins, hvoiced, hwaiting⟩
  rw [Told, asked_concat, spoken_concat, hfares.of_call hcall, List.append_nil]
  cases hc : m.before.connection? k with
  | none =>
      have hnothing : served = [] := by
        rw [habsent hc] at hbegins
        exact List.prefix_nil.mp hbegins
      rw [habsent hc, Moment.asks_of_absent hcall hc, List.nil_append]
      refine ⟨fun hnone => ?_, served, ?_, hvoiced, fun c' hc' _ => ?_⟩
      · rw [Session.waiting, hnone]
        rfl
      · rw [hnothing]
        exact List.nil_prefix
      · rw [Session.waiting, hc', hnothing]
        rfl
  | some c =>
      rcases hgets c hc with ⟨c', added, welcomed, hc', hgets⟩
      rw [Moment.asks_of_gets hcall hc hc' hgets]
      refine ⟨fun hnone => absurd (hnone.symm.trans hc') nofun, served,
        hbegins.trans (List.prefix_append _ _), hvoiced, fun b hb hfluent => ?_⟩
      cases Option.some.inj (hb.symm.trans hc')
      rw [hgets.isFluent] at hfluent
      rw [hwaiting c hc hfluent, hgets.commands, List.append_assoc]

theorem drift {log : List Happening} (h : Told k moments m.before)
    (hsound : Session.Sound m.before log) (hcall : m.ofCall = false) (hfares : m.Fares k)
    (hdrifts : m.Drifts k) : Told k (moments ++ [m]) m.after := by
  rcases h with ⟨habsent, served, hbegins, hvoiced, hwaiting⟩
  have hasks : m.asks k = [] := by rw [Moment.asks, if_neg (Bool.eq_false_iff.mp hcall)]
  rw [Told, asked_concat, hasks, List.append_nil, spoken_concat]
  rcases hdrifts with ⟨hc, hc'⟩ | ⟨c, c', hc, hc', hfades⟩
  · have hserved : m.served? k = none := by
      cases hserved : m.served? k with
      | none => rfl
      | some command =>
          have hnext := (Moment.action_of_served? hserved).2
          rw [hc] at hnext
          contradiction
    rw [hfares.spoken_of_idle hserved, List.append_nil]
    exact ⟨fun _ => habsent hc, served, hbegins, hvoiced, fun b hb _ =>
      absurd (hb.symm.trans hc') nofun⟩
  refine ⟨fun hnone => absurd (hnone.symm.trans hc') nofun, ?_⟩
  cases hserved : m.served? k with
  | none =>
      rw [hserved] at hfades
      rw [hfares.spoken_of_idle hserved, List.append_nil]
      refine ⟨served, hbegins, hvoiced, fun b hb hfluent => ?_⟩
      cases Option.some.inj (hb.symm.trans hc')
      rcases hfades.fluent hfluent with ⟨hfluent', hcommands⟩
      rw [hwaiting c hc hfluent', hcommands]
      rfl
  | some command =>
      rw [hserved] at hfades
      have hspoken := hfares.spoken_of_served hsound hc hserved
      by_cases hfluent : c.isFluent = true
      · rw [if_pos hfluent] at hspoken
        have hnext := (Moment.action_of_served? hserved).2
        rw [hc, Option.bind_some] at hnext
        rcases Connection.stepCommand_eq m.before.now hnext with
          ⟨rest, _, hqueue, _⟩
        have hall : asked k moments = (served ++ [command]) ++ rest := by
          rw [hwaiting c hc hfluent, hqueue, List.append_assoc]
          rfl
        refine ⟨served ++ [command], hall ▸ List.prefix_append _ _, hvoiced.concat hspoken,
          fun b hb hfluent' => ?_⟩
        cases Option.some.inj (hb.symm.trans hc')
        rw [hwaiting c hc hfluent, (hfades.fluent hfluent').2, List.append_assoc]
        rfl
      · rw [if_neg hfluent] at hspoken
        rw [hspoken, List.append_nil]
        refine ⟨served, hbegins, hvoiced, fun b hb hfluent' => ?_⟩
        cases Option.some.inj (hb.symm.trans hc')
        exact absurd (hfades.fluent hfluent').1 hfluent

end Told

namespace Session

theorem undergo_of_call [FileSystem D] {s u : Session D} {a : Action} (h : s.act a = some u)
    (hcall : Moment.ofCall (⟨s, a, u⟩ : Moment D) = true) :
    exists (t : Session D) (id : Nat) (effects : List (Effect D)),
      t.connections = s.connections ∧ id < t.calls.length ∧ u = t.undergo id effects := by
  cases a with
  | begin op =>
      cases h
      rcases s.beginCall_effects op with ⟨effects, _, hafter⟩
      exact ⟨s.addCall, _, effects, rfl, s.calls_length_lt_addCall, hafter⟩
  | goOn id =>
      rcases stepCall_effects h with ⟨call, effects, hcall, _, hafter⟩
      exact ⟨s, id, effects, rfl, lt_of_call? hcall, hafter⟩
  | _ => contradiction

variable [FileSystem D] {settings : Settings} {processId : Nat} {workspace : Workspace D}
  {moments : List (Moment D)} {s : Session D}

theorem Course.told (course : Course (Session.new settings processId workspace) moments s)
    (k : Nat) : Told k moments s := by
  induction course with
  | refl => exact ⟨fun _ => rfl, [], List.nil_prefix, .nil, fun c hc => nomatch hc⟩
  | touch course disk ih => exact ih
  | @act moments t u course a ha ih =>
      cases hcall : Moment.ofCall (⟨t, a, u⟩ : Moment D) with
      | false =>
          exact ih.drift course.sound hcall (fares_of_act ha k) (drifts_of_act ha hcall k)
      | true =>
          refine ih.call hcall (fares_of_act ha k) fun c hc => ?_
          rcases undergo_of_call ha hcall with ⟨t', id, effects, hsame, hid, hu⟩
          have hc' : t'.connection? k = some c := (congrArg (·[k]?) hsame).trans hc
          rcases undergo_gets hid effects hc' with ⟨c', added, hafter, hgets, _⟩
          exact ⟨c', added, _, (congrArg (·.connection? k) hu).trans hafter, hgets⟩

/-- What a connection has said comes of the first of its errands. -/
theorem Course.voiced (course : Course (Session.new settings processId workspace) moments s)
    (k : Nat) : exists served, served <+: errands k moments ∧
    Voiced served (spoken k moments) := by
  rcases (course.told k).2 with ⟨served, hbegins, hvoiced, _⟩
  exact ⟨_, hbegins.filter _, hvoiced.heard⟩

end Session
end LanguageClient

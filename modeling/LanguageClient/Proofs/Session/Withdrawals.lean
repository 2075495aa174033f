import LanguageClient.Proofs.Session.Notices

/-!
# When a server is told that an answer is no longer wanted

What stands on the wire of a connection about one request: the request itself, the responses
that come in after it, and the notice that the answer is no longer wanted. The notice is
written once at most, after the request, and only if no response has come in between.
-/

namespace LanguageClient

variable {D : Type}

def Letter.asks (number : Nat) (l : Letter) : Bool :=
  match l.content with
  | .message m => m.id = some (Json.ofNat number)
  | .reply _ => false

theorem Letter.asks_message {number : Nat} {sender : Option Nat} {m : Message} :
    (⟨sender, .message m⟩ : Letter).asks number = true <-> m.id = some (Json.ofNat number) :=
  decide_eq_true_iff

theorem Letter.not_asks_notification (number : Nat) (sender : Option Nat) (method : String)
    (params : Json) :
    ¬ (⟨sender, .message (.notification method params)⟩ : Letter).asks number = true :=
  fun h => Option.some_ne_none _ (Letter.asks_message.mp h).symm

def isWritten (k number : Nat) (moments : List (Moment D)) : Bool :=
  (letters k moments).any (Letter.asks number)

def Moment.response? (k number : Nat) (m : Moment D) : Option (Nat × Response) :=
  (m.hears? k number).map (m.before.now, ·)

def responses (k number : Nat) : List (Moment D) -> List (Nat × Response)
  | [] => []
  | m :: later =>
    if (m.letters k).any (Letter.asks number) then later.filterMap (Moment.response? k number)
    else responses k number later

theorem isWritten_append (k number : Nat) (first second : List (Moment D)) :
    isWritten k number (first ++ second) =
      (isWritten k number first || isWritten k number second) := by
  rw [isWritten, letters_append, List.any_append, isWritten, isWritten]

theorem isWritten_cons (k number : Nat) (m : Moment D) (later : List (Moment D)) :
    isWritten k number (m :: later) =
      ((m.letters k).any (Letter.asks number) || isWritten k number later) := by
  rw [isWritten, letters, List.flatMap_cons, List.any_append, ← letters, ← isWritten]

theorem responses_append (k number : Nat) (first second : List (Moment D)) :
    responses k number (first ++ second) = responses k number first ++
      if isWritten k number first then second.filterMap (Moment.response? k number)
      else responses k number second := by
  induction first with
  | nil => rfl
  | cons m rest ih =>
      rw [List.cons_append, responses, responses, isWritten_cons, ih]
      by_cases hasks : (m.letters k).any (Letter.asks number) = true
      · rw [if_pos hasks, if_pos hasks, hasks, Bool.true_or, if_pos rfl, List.filterMap_append]
      · rw [if_neg hasks, if_neg hasks, Bool.eq_false_iff.mpr hasks, Bool.false_or]

theorem responses_eq_nil {k number : Nat} {moments : List (Moment D)}
    (h : isWritten k number moments = false) : responses k number moments = [] := by
  induction moments with
  | nil => rfl
  | cons m rest ih =>
      rw [isWritten_cons, Bool.or_eq_false_iff] at h
      rw [responses, if_neg (Bool.eq_false_iff.mp h.1), ih h.2]

theorem responses_of_written {k number : Nat} {earlier later : List (Moment D)} {m : Moment D}
    (hearlier : isWritten k number earlier = false)
    (hm : (m.letters k).any (Letter.asks number) = true) :
    responses k number (earlier ++ m :: later) =
      later.filterMap (Moment.response? k number) := by
  rw [responses_append, responses_eq_nil hearlier, if_neg (Bool.eq_false_iff.mp hearlier),
    List.nil_append, responses, if_pos hm]

/-!
## Where letters come from
-/

namespace Moment

inductive Writes (k : Nat) (m : Moment D) : Letter -> Prop where
  | reply (v : Json) : Writes k m ⟨none, .reply v⟩
  | request (c : Connection) (number : Nat) (method : String) (params : Json) (t : Ticket)
      (before : m.before.connection? k = some c)
      (served : m.served? k = some (.request number method params t))
      (writable : c.writable = true) :
      Writes k m ⟨some t.call, .message (.request number method params)⟩
  | notice (c : Connection) (number : Nat) (before : m.before.connection? k = some c)
      (served : m.served? k = some (.abandon number))
      (held : c.pending.contains number = true) : Writes k m (.withdrawal number)
  | notify (message : Message) (t : Ticket) (served : m.served? k = some (.notify message t)) :
      Writes k m ⟨some t.call, .message message⟩
  | document (t : Ticket) (method : String) (params : Json)
      (other : method ≠ "$/cancelRequest") :
      Writes k m ⟨some t.call, .message (.notification method params)⟩

variable {k number : Nat} {m : Moment D} {l : Letter}

theorem writes_of_voices {command : Command} {t : Ticket} {letters : List Letter}
    (h : command.Voices letters) (hcommand : (exists input, command = .sync input t) ∨
      exists uri, command = .close uri t) (hl : l ∈ letters) : m.Writes k l := by
  cases h with
  | opens input t d text =>
      rw [List.mem_singleton.mp hl]
      exact .document t _ _ (by decide)
  | changes input t d text =>
      rw [List.mem_singleton.mp hl]
      exact .document t _ _ (by decide)
  | closes uri t =>
      rw [List.mem_singleton.mp hl]
      exact .document t _ _ (by decide)
  | unchanged | closed | spared => contradiction
  | silent _ silent => contradiction
  | request | notify | cancel =>
      rcases hcommand with ⟨_, hcommand⟩ | ⟨_, hcommand⟩ <;> cases hcommand

theorem Fares.writes (h : m.Fares k) (hl : l ∈ m.letters k) : m.Writes k l := by
  cases h with
  | still served dispatched written =>
      rw [letters_of_still written] at hl
      contradiction
  | takesIn c c' e message rest before served dispatched phase step after =>
      rw [letters_of_takesIn before served step after] at hl
      split at hl
      · rcases List.mem_map.mp hl with ⟨v, _, rfl⟩
        exact .reply v
      · contradiction
  | serves c c' e command rest before served dispatched phase queue step after =>
      rw [letters_of_serves before served step after] at hl
      split at hl
      case isFalse => contradiction
      case isTrue hwritable =>
        cases command with
        | request n method params t =>
            simp only [Connection.utterance?] at hl
            split at hl
            · contradiction
            · rw [List.mem_singleton.mp hl]
              exact .request c n method params t before served hwritable
        | abandon n =>
            simp only [Connection.utterance?] at hl
            split at hl
            case isTrue hheld =>
              rw [List.mem_singleton.mp hl]
              exact .notice c n before served hheld
            case isFalse => contradiction
        | notify message t =>
            rw [List.mem_singleton.mp hl]
            exact .notify message t served
        | sync input t =>
            exact writes_of_voices (sync_voices c.store input t) (Or.inl ⟨_, rfl⟩) hl
        | close uri t =>
            exact writes_of_voices (close_voices c.store uri t) (Or.inr ⟨_, rfl⟩) hl
        | _ => contradiction

theorem Fares.letters_eq (h : m.Fares k) (hl : l ∈ m.letters k) : m.letters k = [l] := by
  have hsingle {α : Type} (a : Option α) (f : α -> Letter) (hl : l ∈ a.toList.map f) :
      a.toList.map f = [l] := by
    cases a with
    | none => contradiction
    | some x => rw [List.mem_singleton.mp hl]; rfl
  cases h with
  | still served dispatched written =>
      rw [letters_of_still written] at hl
      contradiction
  | takesIn c c' e message rest before served dispatched phase step after =>
      rw [letters_of_takesIn before served step after] at hl ⊢
      split
      case isTrue hwritable => exact hsingle _ _ (by rwa [if_pos hwritable] at hl)
      case isFalse hwritable =>
        rw [if_neg hwritable] at hl
        contradiction
  | serves c c' e command rest before served dispatched phase queue step after =>
      rw [letters_of_serves before served step after] at hl ⊢
      split
      case isTrue hwritable => exact hsingle _ _ (by rwa [if_pos hwritable] at hl)
      case isFalse hwritable =>
        rw [if_neg hwritable] at hl
        contradiction

theorem waiting_of_served? {command : Command} (h : m.served? k = some command) :
    command ∈ m.before.waiting k := by
  rcases Option.bind_eq_some_iff.mp (action_of_served? h).2 with ⟨c, hc, hnext⟩
  rcases Connection.stepCommand_eq m.before.now hnext with ⟨rest, _, hqueue, _⟩
  rw [Session.waiting_of_connection? hc, hqueue]
  exact List.mem_cons_self

end Moment

theorem ofNat_injective {n n' : Nat} (h : Json.ofNat n = Json.ofNat n') : n = n' := by
  injection h with h
  exact Int.ofNat.inj h

theorem withdrawal_injective {n n' : Nat} (h : Letter.withdrawal n = .withdrawal n') :
    n = n' := by
  have hid (n : Nat) :
      (Connection.cancelNotice n).params.bind (·.get? "id") = some (Json.ofNat n) :=
    rfl
  injection h with _ hcontent
  injection hcontent with hnotice
  exact ofNat_injective (Option.some.inj ((hid n).symm.trans (hnotice ▸ hid n')))

namespace Session

variable [FileSystem D] {settings : Settings} {processId : Nat} {workspace : Workspace D}
  {moments : List (Moment D)} {s : Session D} {k number : Nat}

theorem Course.registered_of_asks {earlier later : List (Moment D)} {m : Moment D}
    (course : Course (Session.new settings processId workspace) (earlier ++ m :: later) s)
    (h : (m.letters k).any (Letter.asks number) = true) :
    exists t, .registered k number t ∈ m.happenings := by
  rcases course.split with ⟨hbefore, hact, _⟩
  have hfares : m.Fares k := fares_of_act hact k
  rcases List.any_eq_true.mp h with ⟨l, hl, hasks⟩
  cases hfares.writes hl with
  | reply v => contradiction
  | request c n method params t before served writable =>
      cases ofNat_injective (Option.some.inj (Letter.asks_message.mp hasks))
      refine ⟨t, hfares.served_mem before served ?_⟩
      rw [Command.meaning, writable]
      exact List.mem_singleton_self _
  | notice c n before served held =>
      exact absurd hasks (Letter.not_asks_notification number _ _ _)
  | notify message t served =>
      rcases (hbefore.waiting_due (Moment.waiting_of_served? served)).notified message t
        rfl with
        ⟨method, params, rfl, _⟩
      exact absurd hasks (Letter.not_asks_notification number _ _ _)
  | document t method params other =>
      exact absurd hasks (Letter.not_asks_notification number _ _ _)

theorem Course.registered_of_isWritten
    (course : Course (Session.new settings processId workspace) moments s)
    (h : isWritten k number moments = true) :
    exists t, .registered k number t ∈ chronicle moments := by
  rcases List.any_eq_true.mp h with ⟨l, hl, hasks⟩
  rcases List.mem_flatMap.mp hl with ⟨m, hm, hletter⟩
  rcases List.append_of_mem hm with ⟨earlier, later, rfl⟩
  rcases course.registered_of_asks (List.any_eq_true.mpr ⟨l, hletter, hasks⟩) with ⟨t, ht⟩
  exact ⟨t, mem_recorded hm ht⟩

/-!
## Notices
-/

/-- While a request stands in the table it has been written, and no
response to it has come in. -/
theorem Course.unanswered (course :
      Course (Session.new settings processId workspace) moments s)
    {t : Ticket} (h : s.held k number = some t) :
    isWritten k number moments = true ∧ responses k number moments = [] := by
  have hsound := course.sound
  rcases (hsound.faithful k number t).mp h with ⟨first, second, hrecord, hopen⟩
  rcases exists_moment_of_recorded hrecord with
    ⟨earlier, m, later, left, right, rfl, hm, rfl, rfl⟩
  rcases course.split with ⟨hbefore, hact, _⟩
  have hregistered : .registered k number t ∈ m.happenings := by
    rw [hm]
    exact List.mem_append_right _ List.mem_cons_self
  have hasks : (m.letters k).any (Letter.asks number) = true := by
    rcases Moment.letters_of_registered hbefore.sound (fares_of_act hact k) hregistered with
      ⟨method, params, hletters⟩
    rw [hletters, List.any_cons, Letter.asks_message.mpr rfl, Bool.true_or]
  -- A connection writes each request once.
  have hearlier : isWritten k number earlier = false := by
    refine Bool.eq_false_iff.mpr fun hwritten => ?_
    rcases hbefore.registered_of_isWritten hwritten with ⟨t', ht'⟩
    have hnodup := hsound.numbered.taken_nodup
    rw [hrecord, List.filterMap_append, List.nodup_append] at hnodup
    exact hnodup.2.2 number (List.mem_filterMap.mpr ⟨_, List.mem_append_left _ ht', rfl⟩)
      number (List.mem_filterMap.mpr ⟨_, List.mem_cons_self, rfl⟩) rfl
  refine ⟨by rw [isWritten_append, isWritten_cons, hasks, Bool.true_or, Bool.or_true], ?_⟩
  rw [responses_of_written hearlier hasks, List.filterMap_eq_nil_iff]
  intro m' hm'
  cases hhears : m'.hears? k number with
  | none => rw [Moment.response?, hhears, Option.map_none]
  | some r =>
      have hfares := course.fares (List.mem_append_right _ (List.mem_cons_of_mem _ hm')) k
      have hcloses :=
        hopen _ (List.mem_append_right _ (mem_recorded hm' (hfares.answered_mem hhears)))
      simp [Happening.closes] at hcloses

omit [FileSystem D] in
theorem held_of_withdrawal {m : Moment D} (hfares : m.Fares k)
    (h : .withdrawal number ∈ m.letters k) :
    m.served? k = some (.abandon number) ∧ exists t, m.before.held k number = some t := by
  generalize hl : Letter.withdrawal number = l at h
  cases hfares.writes h with
  | notice c n before served held =>
      cases withdrawal_injective hl
      refine ⟨served, Option.isSome_iff_exists.mp ?_⟩
      rw [Session.held, before]
      exact held
  | reply v => cases congrArg Letter.content hl
  | _ => cases congrArg Letter.sender hl

theorem Course.bygone_of_withdrawal {m : Moment D}
    (course : Course (Session.new settings processId workspace) moments m.before)
    (hact : m.before.act m.action = some m.after) (h : .withdrawal number ∈ m.letters k) :
    Bygone k number m.after := by
  have hfares : m.Fares k := fares_of_act hact k
  have hsound := course.sound
  rcases held_of_withdrawal hfares h with ⟨hserved, t, hheld⟩
  have htaken := hsound.faithful.taken hheld
  cases hfares with
  | still served dispatched written => cases hserved.symm.trans served
  | takesIn c c' e message rest before served dispatched phase step after =>
      cases hserved.symm.trans served
  | serves c c' e command rest before served dispatched phase queue step after =>
      cases Option.some.inj (hserved.symm.trans served)
      have hqueue : Connection.requests { c with commands := rest } = c.requests := by
        rw [Connection.requests, Connection.requests, queue]
        rfl
      have hmoves : Connection.Moves k c c' [.abandoned k number] e.answers := by
        have hserve : Connection.Moves k c
            (Connection.serve m.before.now { c with commands := rest } (.abandon number)).1
            [.abandoned k number]
            (Connection.serve m.before.now { c with commands := rest }
              (.abandon number)).2.answers :=
          Connection.serve_abandon_moves k m.before.now hqueue rfl
        rwa [step] at hserve
      have hmoved : Moved k c c' e.answers m.before m.after :=
        after ▸ m.before.moved_emit before e
      generalize e.answers = answers at hmoves hmoved
      cases hmoves with
      | refuse queue taken =>
          rw [Table.contains, (hsound.not_held_of_queued hmoved queue).2] at taken
          contradiction
      | abandon queue table =>
          refine ⟨?_, fun t' ht' => ?_, ?_⟩
          · have hregistered := ((hsound.faithful k number t).mp hheld).registered_mem
            have hsent := hsound.numbered.taken_sent _ k number t hregistered rfl
            rw [hmoved.nextNumber]
            exact hsound.numbered.drawn_lt number (List.mem_filterMap.mpr ⟨_, hsent, rfl⟩)
          · rw [hmoved.queued_same queue] at ht'
            exact hsound.numbered.queued_fresh k number t' ht' htaken
          · rw [hmoved.held, if_pos rfl, table, if_pos rfl]

/-- One notice about a request at most, and none after a connection is through with it. -/
theorem Course.withdrawal_once
    (course : Course (Session.new settings processId workspace) moments s) (k number : Nat) :
    (letters k moments).count (.withdrawal number) = 0 ∨
      (letters k moments).count (.withdrawal number) = 1 ∧ Bygone k number s := by
  induction course with
  | refl => exact Or.inl rfl
  | touch course disk ih =>
      exact ih.imp_right fun h => ⟨h.1, h.2.drawn, h.2.queued, h.2.held⟩
  | @act moments t u course a ha ih =>
      have hfares : Moment.Fares k ⟨t, a, u⟩ := fares_of_act ha k
      rw [letters_concat, List.count_append]
      by_cases hnow : .withdrawal number ∈ Moment.letters k ⟨t, a, u⟩
      · have hbefore : (letters k moments).count (.withdrawal number) = 0 := by
          refine ih.resolve_right fun hdone => ?_
          rcases (held_of_withdrawal hfares hnow).2 with ⟨ticket, hheld⟩
          exact Option.some_ne_none _ (hheld.symm.trans hdone.2.held)
        rw [hbefore, hfares.letters_eq hnow, List.count_singleton_self]
        exact Or.inr ⟨rfl, course.bygone_of_withdrawal ha hnow⟩
      · rw [List.count_eq_zero.mpr hnow, Nat.add_zero]
        exact ih.imp_right fun h => ⟨h.1, h.2.moment course.sound (deals_of_act ha)⟩

/-- What a server hears of giving up request `number`. -/
structure WithdrawsDuly (k number : Nat) (moments : List (Moment D)) : Prop where
  once : (letters k moments).count (.withdrawal number) ≤ 1
  /-- The request has been written before, no response to it has come in since, and a call
  has given it up. -/
  cause : forall earlier m later, moments = earlier ++ m :: later ->
    .withdrawal number ∈ m.letters k -> isWritten k number earlier = true ∧
      responses k number earlier = [] ∧ exists g, g ∈ earlier ∧ g.Renounces k number
  /-- Nothing is heard of a request that could not be written. -/
  unwritten : forall t, .unwritten k number t ∈ chronicle moments ->
    isWritten k number moments = false ∧ .withdrawal number ∉ letters k moments
  /-- Only a user who has asked for it says the same. -/
  others : forall l, l ∈ letters k moments ->
    l.content = .message (Connection.cancelNotice number) -> l = .withdrawal number ∨
      exists id params, l.sender = some id ∧
        Began moments id (.notify "$/cancelRequest" params)

theorem Course.withdrawal_cause {earlier later : List (Moment D)} {m : Moment D}
    (course : Course (Session.new settings processId workspace) (earlier ++ m :: later) s)
    (h : .withdrawal number ∈ m.letters k) : isWritten k number earlier = true ∧
      responses k number earlier = [] ∧ exists g, g ∈ earlier ∧ g.Renounces k number := by
  rcases course.split with ⟨hbefore, hact, _⟩
  rcases held_of_withdrawal (fares_of_act hact k) h with ⟨hserved, t, hheld⟩
  rcases hbefore.unanswered hheld with ⟨hwritten, hresponses⟩
  have hdue := hbefore.waiting_due (Moment.waiting_of_served? hserved)
  exact ⟨hwritten, hresponses, hdue.abandoned number rfl⟩

theorem Course.written_of_withdrawal
    (course : Course (Session.new settings processId workspace) moments s)
    (h : .withdrawal number ∈ letters k moments) : isWritten k number moments = true := by
  rcases List.mem_flatMap.mp h with ⟨m, hm, hletter⟩
  rcases List.append_of_mem hm with ⟨earlier, later, rfl⟩
  rw [isWritten_append, (course.withdrawal_cause hletter).1, Bool.true_or]

theorem Course.withdrawal_others
    (course : Course (Session.new settings processId workspace) moments s) {l : Letter}
    (hl : l ∈ letters k moments)
    (hcontent : l.content = .message (Connection.cancelNotice number)) :
    l = .withdrawal number ∨
      exists id params, l.sender = some id ∧
        Began moments id (.notify "$/cancelRequest" params) := by
  rcases List.mem_flatMap.mp hl with ⟨m, hm, hletter⟩
  rcases List.append_of_mem hm with ⟨earlier, later, rfl⟩
  rcases course.split with ⟨hbefore, hact, _⟩
  have hfares : m.Fares k := fares_of_act hact k
  cases hfares.writes hletter with
  | reply v => cases hcontent
  | request c n method params t before served writable =>
      injection hcontent with hmessage
      cases congrArg Message.id hmessage
  | notice c n before served held =>
      cases withdrawal_injective (congrArg (Letter.mk none) hcontent)
      exact Or.inl rfl
  | document t method params other =>
      injection hcontent with hmessage
      exact absurd (Option.some.inj (congrArg Message.method hmessage)) other
  | notify message t served =>
      injection hcontent with hmessage
      rcases (hbefore.waiting_due (Moment.waiting_of_served? served)).notified message t
        rfl with
        ⟨method, params, rfl, hbegan⟩
      cases Option.some.inj (congrArg Message.method hmessage)
      exact Or.inr ⟨t.call, params, rfl, (hbegan rfl).append _⟩

theorem Course.withdrawsDuly
    (course : Course (Session.new settings processId workspace) moments s) (k number : Nat) :
    WithdrawsDuly k number moments where
  once := by
    rcases course.withdrawal_once k number with hnone | ⟨hone, _⟩
    · exact hnone ▸ Nat.zero_le 1
    · exact Nat.le_of_eq hone
  cause earlier m later hsplit h := by
    subst hsplit
    exact course.withdrawal_cause h
  unwritten t ht := by
    have hwritten : isWritten k number moments = false := by
      refine Bool.eq_false_iff.mpr fun hwritten => ?_
      rcases course.registered_of_isWritten hwritten with ⟨t', ht'⟩
      -- A connection takes each request from its queue once.
      cases eq_of_nodup_filterMap course.sound.numbered.taken_nodup ht ht'
        (x := number) rfl rfl
    refine ⟨hwritten, fun h => ?_⟩
    rw [course.written_of_withdrawal h] at hwritten
    contradiction
  others l hl hcontent := course.withdrawal_others hl hcontent

end Session
end LanguageClient

import LanguageClient.Proofs.Session.Letters
import LanguageClient.Proofs.Session.Requests
import LanguageClient.Proofs.Session.Turns

/-!
# The record of a course

Every course is a run, and its record is what its moments leave behind, one after the other.
So what the record says of a request can be read off the moments: when its frame was
written, when an answer came in, and who has sent it.
-/

namespace LanguageClient

variable {D : Type}

def Moment.happenings (m : Moment D) : List Happening :=
  m.before.happenings m.action m.after

def chronicle (moments : List (Moment D)) : List Happening :=
  moments.flatMap Moment.happenings

theorem chronicle_append (first second : List (Moment D)) :
    chronicle (first ++ second) = chronicle first ++ chronicle second :=
  List.flatMap_append

theorem chronicle_concat (moments : List (Moment D)) (m : Moment D) :
    chronicle (moments ++ [m]) = chronicle moments ++ m.happenings := by
  rw [chronicle_append, chronicle, chronicle, List.flatMap_singleton]

theorem exists_moment_of_recorded {moments : List (Moment D)} {first second : List Happening}
    {h : Happening} (hrecorded : chronicle moments = first ++ h :: second) :
    exists earlier m later left right, moments = earlier ++ m :: later ∧
      m.happenings = left ++ h :: right ∧ first = chronicle earlier ++ left ∧
      second = right ++ chronicle later := by
  induction moments generalizing first with
  | nil =>
      rw [chronicle, List.flatMap_nil] at hrecorded
      exact absurd hrecorded.symm (by simp)
  | cons m rest ih =>
      rw [chronicle, List.flatMap_cons, ← chronicle] at hrecorded
      rcases List.append_eq_append_iff.mp hrecorded with
        ⟨left, hfirst, hrest⟩ | ⟨left, hm, hsecond⟩
      · rcases ih hrest with ⟨earlier, m', later, left', right, hmoments, hm', hleft, hright⟩
        refine ⟨m :: earlier, m', later, left', right, by rw [hmoments]; rfl, hm', ?_, hright⟩
        rw [hfirst, hleft, chronicle, chronicle, List.flatMap_cons, List.append_assoc]
      · cases left with
        | nil =>
            rw [List.nil_append] at hsecond
            rw [List.append_nil] at hm
            have hsecond : chronicle rest = [] ++ h :: second := hsecond.symm
            rcases ih hsecond with
              ⟨earlier, m', later, left', right, hmoments, hm', hleft, hright⟩
            refine ⟨m :: earlier, m', later, left', right, by rw [hmoments]; rfl, hm', ?_,
              hright⟩
            rw [chronicle, List.flatMap_cons, ← chronicle, List.append_assoc, ← hleft,
              List.append_nil, hm]
        | cons e left =>
            rcases List.cons.inj hsecond with ⟨rfl, hrest⟩
            exact ⟨[], m, rest, first, left, rfl, hm, rfl, hrest⟩

namespace Session

/-!
## Courses and runs
-/

theorem Course.run [FileSystem D] {s u : Session D} {moments : List (Moment D)}
    (course : Course s moments u) : Run s (chronicle moments) u := by
  induction course with
  | refl => exact .refl
  | act course a ha ih =>
      rw [chronicle_concat]
      exact ih.act a ha
  | touch course disk ih => exact ih.touch disk

theorem Course.sound [FileSystem D] {settings : Settings} {processId : Nat}
    {workspace : Workspace D} {moments : List (Moment D)} {s : Session D}
    (course : Course (Session.new settings processId workspace) moments s) :
    Sound s (chronicle moments) :=
  course.run.sound

theorem Course.append [FileSystem D] {s t u : Session D} {moments more : List (Moment D)}
    (course : Course s moments t) (h : Course t more u) : Course s (moments ++ more) u := by
  induction h with
  | refl => rwa [List.append_nil]
  | act _ a ha ih => exact List.append_assoc .. ▸ ih.act a ha
  | touch _ disk ih => exact ih.touch disk

theorem Course.split [FileSystem D] {s u : Session D} {earlier later : List (Moment D)}
    {m : Moment D} (course : Course s (earlier ++ m :: later) u) :
    Course s earlier m.before ∧ m.before.act m.action = some m.after ∧
      Course m.after later u := by
  generalize hmoments : earlier ++ m :: later = moments at course
  induction course generalizing later with
  | refl => exact absurd hmoments (by simp)
  | @act moments t u course a ha ih =>
      rcases split_of_concat hmoments.symm with ⟨rfl, rfl, rfl⟩ | ⟨later', rfl, hinit⟩
      · exact ⟨course, ha, .refl⟩
      · rcases ih hinit.symm with ⟨hbefore, hact, hafter⟩
        exact ⟨hbefore, hact, hafter.act a ha⟩
  | touch course disk ih =>
      rcases ih hmoments with ⟨hbefore, hact, hafter⟩
      exact ⟨hbefore, hact, hafter.touch disk⟩

end Session

/-!
## Single moments
-/

namespace Moment

variable {k number : Nat} {m : Moment D}

def hears? (k number : Nat) (m : Moment D) : Option Response :=
  (m.dispatched? k).bind fun message =>
    match Incoming.classify message with
    | .response id response =>
      if Incoming.number? id = some number then some response else none
    | _ => none

def Takes (k number : Nat) (t : Ticket) (m : Moment D) : Prop :=
  exists method params, m.served? k = some (.request number method params t)

theorem action_of_served? {command : Command} (h : m.served? k = some command) :
    m.action = .serve k ∧ (m.before.connection? k).bind Connection.next? = some command := by
  unfold served? at h
  split at h
  case h_2 => contradiction
  case h_1 j haction =>
    split at h
    case isFalse => contradiction
    case isTrue hj =>
      subst hj
      exact ⟨haction, h⟩

theorem action_of_dispatched? {message : Json} (h : m.dispatched? k = some message) :
    m.action = .takeIn k ∧ (m.before.connection? k).bind Connection.first? = some message := by
  unfold dispatched? at h
  split at h
  case h_2 => contradiction
  case h_1 j haction =>
    split at h
    case isFalse => contradiction
    case isTrue hj =>
      subst hj
      exact ⟨haction, h⟩

end Moment

namespace Connection

theorem ended_of_mem_ending {k : Nat} {c c' : Connection} {h : Happening}
    (hmem : h ∈ c.ending k c') : h = .ended k := by
  unfold ending at hmem
  split at hmem
  · exact List.mem_singleton.mp hmem
  · contradiction

end Connection

namespace Session

theorem mem_betweenStates {s u : Session D} {k : Nat}
    {what : Connection -> Connection -> List Happening} {h : Happening}
    (hmem : h ∈ s.betweenStates u k what) :
    exists c c', s.connection? k = some c ∧ u.connection? k = some c' ∧ h ∈ what c c' := by
  unfold betweenStates at hmem
  split at hmem
  case h_1 c c' hc hc' => exact ⟨c, c', hc, hc', hmem⟩
  case h_2 => contradiction

theorem isOfCall_of_mem_sending {s : Session D} {id : Nat} {h : Happening}
    (hmem : h ∈ s.sending id) : h.isOfCall = true := by
  unfold sending at hmem
  split at hmem
  · rw [List.mem_singleton.mp hmem]
    rfl
  · contradiction

theorem sent_mem_sending {s : Session D} {id k number : Nat} {task : Task}
    (htask : s.task? id = some task) (hrequest : task.request? = some (k, number)) :
    .sent id k number ∈ s.sending id := by
  rcases Option.map_eq_some_iff.mp htask with ⟨call, hcall, rfl⟩
  rw [sending, hcall, Option.bind_some, hrequest]
  exact List.mem_singleton_self _

end Session

namespace Moment

variable {k number : Nat} {t : Ticket} {m : Moment D}

/-- What can stand in the record of a moment, and why. -/
inductive Explains (m : Moment D) (h : Happening) : Prop where
  | call (ofCall : h.isOfCall = true)
  | ended (k : Nat) (eq : h = .ended k)
  | served (k : Nat) (c : Connection) (command : Command)
      (before : m.before.connection? k = some c)
      (served : m.served? k = some command) (meaning : h ∈ command.meaning k c.writable)
  | heard (k : Nat) (message : Json) (dispatched : m.dispatched? k = some message)
      (heard : h ∈ Connection.heard k message)

theorem explains {h : Happening} (hmem : h ∈ m.happenings) : m.Explains h := by
  rcases m with ⟨s, a, u⟩
  have hending {k : Nat} {c c' : Connection} (hmem : h ∈ c.ending k c') :
      Explains (⟨s, a, u⟩ : Moment D) h := .ended k (Connection.ended_of_mem_ending hmem)
  cases a with
  | begin op =>
      rcases List.mem_cons.mp hmem with rfl | hmem
      · exact .call rfl
      · exact .call (Session.isOfCall_of_mem_sending hmem)
  | goOn id => exact .call (Session.isOfCall_of_mem_sending hmem)
  | serve k =>
      rcases Session.mem_betweenStates hmem with ⟨c, c', hc, _, hmem⟩
      rcases List.mem_append.mp hmem with hmem | hmem
      · cases hnext : c.next? with
        | none =>
            rw [Connection.served_of_idle hnext] at hmem
            contradiction
        | some command =>
            rw [Connection.served_of_next? hnext] at hmem
            refine .served k c command hc ?_ hmem
            simp only [served?, if_true, hc, Option.bind_some, hnext]
      · exact hending hmem
  | takeIn k =>
      rcases Session.mem_betweenStates hmem with ⟨c, c', hc, _, hmem⟩
      rcases List.mem_append.mp hmem with hmem | hmem
      · cases hfirst : c.first? with
        | none =>
            rw [Connection.takenIn_of_idle hfirst] at hmem
            contradiction
        | some message =>
            rw [Connection.takenIn_of_first? hfirst] at hmem
            refine .heard k message ?_ hmem
            simp only [dispatched?, if_true, hc, Option.bind_some, hfirst]
      · exact hending hmem
  | noticeExit k =>
      rcases Session.mem_betweenStates hmem with ⟨c, c', _, _, hmem⟩
      exact hending hmem
  | expire k =>
      rcases Session.mem_betweenStates hmem with ⟨c, c', _, _, hmem⟩
      exact hending hmem
  | _ => contradiction

theorem served_of_registered (hmem : .registered k number t ∈ m.happenings) :
    exists c method params, m.before.connection? k = some c ∧
      m.served? k = some (.request number method params t) ∧ c.writable = true := by
  cases explains hmem with
  | call ofCall => contradiction
  | ended j eq => contradiction
  | heard j message dispatched heard =>
      unfold Connection.heard at heard
      repeat' split at heard
      all_goals simp at heard
  | served j c command before served meaning =>
      cases command with
      | request n method params t' =>
          rw [Command.meaning, List.mem_singleton] at meaning
          split at meaning
          case isTrue hwritable =>
            cases meaning
            exact ⟨c, method, params, before, served, hwritable⟩
          case isFalse => contradiction
      | abandon n => simp [Command.meaning] at meaning
      | _ => contradiction

theorem hears?_of_answered {r : Response} (hmem : .answered k number r ∈ m.happenings) :
    m.hears? k number = some r := by
  cases explains hmem with
  | call ofCall => contradiction
  | ended j eq => contradiction
  | heard j message dispatched heard =>
      unfold Connection.heard at heard
      split at heard
      case h_2 => contradiction
      case h_1 id response hclassify =>
        split at heard
        case h_2 => contradiction
        case h_1 n hnumber =>
          cases List.mem_singleton.mp heard
          rw [hears?, dispatched, Option.bind_some, hclassify]
          exact if_pos hnumber
  | served j c command before served meaning =>
      cases command with
      | request n method params t' =>
          rw [Command.meaning, List.mem_singleton] at meaning
          split at meaning <;> contradiction
      | abandon n => simp [Command.meaning] at meaning
      | _ => contradiction

theorem Fares.served_mem (h : m.Fares k) {c : Connection} {command : Command}
    (hc : m.before.connection? k = some c) (hserved : m.served? k = some command)
    {e : Happening} (he : e ∈ command.meaning k c.writable) : e ∈ m.happenings := by
  rcases action_of_served? hserved with ⟨haction, hnext⟩
  rw [hc, Option.bind_some] at hnext
  cases h with
  | still served dispatched written => exact nomatch hserved.symm.trans served
  | takesIn c b e message rest before served dispatched phase step after =>
      exact nomatch hserved.symm.trans served
  | serves b c' e command' rest before served dispatched phase queue step after =>
      have hafter : m.after.connection? k = some c' := by
        rw [after, Session.connection?_emit before, if_pos rfl]
      rw [happenings, haction, Session.happenings, Session.betweenStates, hc, hafter]
      exact List.mem_append_left _ (Connection.served_of_next? hnext ▸ he)

theorem Fares.heard_mem (h : m.Fares k) {message : Json}
    (hdispatched : m.dispatched? k = some message)
    {e : Happening} (he : e ∈ Connection.heard k message) : e ∈ m.happenings := by
  rcases action_of_dispatched? hdispatched with ⟨haction, hfirst⟩
  cases h with
  | still served dispatched written => exact nomatch hdispatched.symm.trans dispatched
  | serves b c' e command' rest before served dispatched phase queue step after =>
      exact nomatch hdispatched.symm.trans dispatched
  | takesIn c c' e message' rest before served dispatched phase step after =>
      rw [before, Option.bind_some] at hfirst
      have hafter : m.after.connection? k = some c' := by
        rw [after, Session.connection?_emit before, if_pos rfl]
      rw [happenings, haction, Session.happenings, Session.betweenStates, before, hafter]
      exact List.mem_append_left _ (Connection.takenIn_of_first? hfirst ▸ he)

theorem Fares.answered_mem (h : m.Fares k) {r : Response}
    (hhears : m.hears? k number = some r) :
    .answered k number r ∈ m.happenings := by
  rcases Option.bind_eq_some_iff.mp hhears with ⟨message, hdispatched, hresponse⟩
  refine h.heard_mem hdispatched ?_
  split at hresponse
  case h_2 => contradiction
  case h_1 id response hclassify =>
    split at hresponse
    case isFalse => contradiction
    case isTrue hnumber =>
      cases hresponse
      simp only [Connection.heard, hclassify, hnumber, List.mem_singleton]

theorem letters_of_registered {log : List Happening} (hsound : Session.Sound m.before log)
    (h : m.Fares k) (hmem : .registered k number t ∈ m.happenings) :
    exists method params,
      m.letters k = [⟨some t.call, .message (.request number method params)⟩] := by
  rcases served_of_registered hmem with ⟨c, method, params, hc, hserved, hwritable⟩
  cases h with
  | still served dispatched written => exact nomatch hserved.symm.trans served
  | takesIn c b e message rest before served dispatched phase step after =>
      exact nomatch hserved.symm.trans served
  | serves b c' e command rest before served dispatched phase queue step after =>
      cases Option.some.inj (hserved.symm.trans served)
      cases Option.some.inj (hc.symm.trans before)
      have hfree : c.pending.contains number = false :=
        hsound.free before (queue ▸ List.mem_cons_self)
      refine ⟨method, params, ?_⟩
      rw [letters_of_serves before served step after, if_pos hwritable, Connection.utterance?,
        hfree]
      rfl

end Moment

/-!
## Courses
-/

namespace Session

variable {settings : Settings} {processId : Nat} {workspace : Workspace D}
  {moments : List (Moment D)} {s : Session D}

theorem mem_recorded {m : Moment D} {h : Happening} (hm : m ∈ moments)
    (hh : h ∈ m.happenings) :
    h ∈ chronicle moments :=
  List.mem_flatMap.mpr ⟨m, hm, hh⟩

theorem task?_of_kind {m : Moment D} (h : m.Kind) (id : Nat) :
    m.after.task? id = m.before.task? id ∨ m.action = .goOn id ∨
      id = m.before.calls.length ∧ exists op, m.action = .begin op := by
  cases h with
  | connection j c c' e hemitted hc halive hproceeds hafter haction =>
      exact Or.inl (by rw [hafter, task?_emit])
  | begins op effects haction hfirst hafter =>
      by_cases hid : m.before.calls.length = id
      · exact Or.inr (Or.inr ⟨hid.symm, op, haction⟩)
      · refine Or.inl ?_
        rw [hafter, undergo_task? m.before.calls_length_lt_addCall, if_neg hid, task?_addCall,
          if_neg hid]
  | goesOn j call effects haction hcall hstep hafter =>
      by_cases hid : j = id
      · exact Or.inr (Or.inl (hid ▸ haction))
      · exact Or.inl (by rw [hafter, undergo_task? (lt_of_call? hcall), if_neg hid])
  | withdraws j haction hafter => exact Or.inl (by rw [hafter, task?_cancelled])
  | world j f hundisturbed hquiet haction hafter => exact Or.inl (by rw [hafter]; rfl)
  | elapses ms haction hafter => exact Or.inl (by rw [hafter]; rfl)

/-- A call that waits for the answer to a request has sent it. -/
theorem Course.sent [FileSystem D]
    (course : Course (Session.new settings processId workspace) moments s) {id k number : Nat}
    {task : Task} (htask : s.task? id = some task)
    (hrequest : task.request? = some (k, number)) :
    .sent id k number ∈ chronicle moments := by
  induction course generalizing id k number task with
  | refl => exact nomatch htask
  | touch course disk ih => exact ih htask hrequest
  | @act moments t u course a ha ih =>
      rw [chronicle_concat]
      rcases task?_of_kind (kind_of_act ha) id with hsame | haction | ⟨hid, op, haction⟩
      · exact List.mem_append_left _ (ih (hsame ▸ htask) hrequest)
      · change a = _ at haction
        subst haction
        exact List.mem_append_right _ (sent_mem_sending htask hrequest)
      · change a = _ at haction
        subst haction hid
        exact List.mem_append_right _
          (List.mem_cons_of_mem _ (sent_mem_sending htask hrequest))

/-- What stands in the record about a table has a moment at which the letter was written. -/
theorem Course.posted [FileSystem D]
    (course : Course (Session.new settings processId workspace) moments s) {k number : Nat}
    {t : Ticket} (h : .registered k number t ∈ chronicle moments) :
    exists m method params, m ∈ moments ∧
      m.letters k = [⟨some t.call, .message (.request number method params)⟩] := by
  rcases List.mem_flatMap.mp h with ⟨m, hm, hmem⟩
  rcases List.append_of_mem hm with ⟨earlier, later, rfl⟩
  rcases course.split with ⟨hbefore, hact, _⟩
  rcases Moment.letters_of_registered hbefore.sound (fares_of_act hact k) hmem with
    ⟨method, params, hletters⟩
  exact ⟨m, method, params, hm, hletters⟩

/-- A call that finds a response in its mailbox waits for the answer to a request whose
letter had been written when the response came in. -/
theorem Course.heard [FileSystem D]
    (course : Course (Session.new settings processId workspace) moments s) {id k number : Nat}
    {task : Task} (htask : s.task? id = some task)
    (hrequest : task.request? = some (k, number))
    {a : Answer} {r : Response} (hmail : s.mail? id = some a)
    (hr : carried? a.outcome = some r) :
    exists earlier m later t, moments = earlier ++ m :: later ∧ m.hears? k number = some r ∧
      .registered k number t ∈ chronicle earlier := by
  have hsound := course.sound
  rcases hsound.honest.mail id a r hmail hr with ⟨position, number', k', serial, hout, hat⟩
  -- The call has sent one request only, so this response is the answer to it.
  have hsame : k' = k ∧ number' = number := by
    have hsent := hsound.numbered.taken_sent _ k' number' _
      (List.mem_of_mem_take hout.registered_mem) rfl
    have heq := eq_of_nodup_filterMap hsound.honest.senders_nodup hsent
      (course.sent htask hrequest) (x := id) rfl rfl
    injection heq with _ hk hnumber
    exact ⟨hk, hnumber⟩
  rcases hsame with ⟨rfl, rfl⟩
  rcases List.getElem?_eq_some_iff.mp hat with ⟨hlt, hget⟩
  have hsplit : chronicle moments = (chronicle moments).take position ++
      .answered k' number' r :: (chronicle moments).drop (position + 1) := by
    rw [← hget, List.getElem_cons_drop, List.take_append_drop]
  rcases exists_moment_of_recorded hsplit with
    ⟨earlier, m, later, left, right, hmoments, hm, hfirst, _⟩
  have hanswered : .answered k' number' r ∈ m.happenings := by
    rw [hm]
    exact List.mem_append_right _ List.mem_cons_self
  have hhears := Moment.hears?_of_answered hanswered
  refine ⟨earlier, m, later, ⟨id, serial⟩, hmoments, hhears, ?_⟩
  have hregistered := hout.registered_mem
  rw [hfirst] at hregistered
  rcases List.mem_append.mp hregistered with hregistered | hleft
  · exact hregistered
  · -- A moment that takes in a response serves no request.
    have hmem : .registered k' number' ⟨id, serial⟩ ∈ m.happenings := by
      rw [hm]
      exact List.mem_append_left _ hleft
    rcases Moment.served_of_registered hmem with ⟨c, method, params, _, hserved, _⟩
    rcases Option.bind_eq_some_iff.mp hhears with ⟨message, hdispatched, _⟩
    have haction := (Moment.action_of_served? hserved).1
    rw [(Moment.action_of_dispatched? hdispatched).1] at haction
    contradiction

end Session
end LanguageClient

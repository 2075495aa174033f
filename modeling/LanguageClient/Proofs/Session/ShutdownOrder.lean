import LanguageClient.Proofs.Session.Handshake

/-!
# How a conversation ends

When a call that stops the server has asked it to shut down, no other call starts or stops
anything there: all that follows of starting and stopping is that this call tells the server
to exit. Notices and replies still go out, and so does what calls of users have to say, for
they are not kept waiting while the server is being stopped. A connection that has ceased to
serve says nothing more.
-/

namespace LanguageClient

variable {D : Type}

def Letter.shutdown (stopper number : Nat) : Letter :=
  ⟨some stopper, .message (.request number "shutdown" .null)⟩

def Letter.exit (stopper : Nat) : Letter :=
  ⟨some stopper, .message (.notification "exit" .null)⟩

namespace Letter

/-- What there is to write to a server that call `stopper` stops. -/
inductive IsParting (stopper : Nat) : Letter -> Prop where
  | exit : IsParting stopper (.exit stopper)
  | withdrawal (number : Nat) : IsParting stopper (.withdrawal number)
  | reply (l : Letter) (reply : l.isReply = true) : IsParting stopper l

def IsOfUser (moments : List (Moment D)) (l : Letter) : Prop :=
  exists id op, l.sender = some id ∧ Began moments id op ∧ op.role = .other

theorem IsOfUser.sender_ne {moments : List (Moment D)} {l : Letter} (h : l.IsOfUser moments)
    {stopper : Nat} {force : Bool} (began : Began moments stopper (.stop force)) :
    l.sender ≠ some stopper := by
  rcases h with ⟨id, op, hsender, hop, hrole⟩
  intro hstopper
  cases Option.some.inj (hsender.symm.trans hstopper)
  cases Option.some.inj (hop.symm.trans began)
  contradiction

end Letter

/-- What is written after call `stopper` has asked the server to shut down. -/
structure Parts (moments : List (Moment D)) (stopper : Nat) (after : List Letter) : Prop where
  only : forall l, l ∈ after -> l.IsParting stopper ∨ l.IsOfUser moments
  /-- This call says one thing more at most. -/
  once : after.countP (fun l => l.sender = some stopper) ≤ 1

theorem countP_sender_concat {stopper : Nat} {after : List Letter} {l : Letter}
    (h : l.sender ≠ some stopper) :
    (after ++ [l]).countP (fun l => l.sender = some stopper) =
      after.countP (fun l => l.sender = some stopper) := by
  rw [List.countP_append, List.countP_singleton, if_neg (by simpa using h), Nat.add_zero]

namespace Parts

variable {moments : List (Moment D)} {stopper : Nat} {after : List Letter}

theorem nil : Parts moments stopper [] where
  only _ hl := nomatch hl
  once := Nat.zero_le 1

theorem concat (h : Parts moments stopper after) {l : Letter}
    (hl : l.IsParting stopper ∨ l.IsOfUser moments) (hsender : l.sender ≠ some stopper) :
    Parts moments stopper (after ++ [l]) where
  only l' hl' := by
    rcases List.mem_append.mp hl' with hl' | hl'
    · exact h.only l' hl'
    · exact List.mem_singleton.mp hl' ▸ hl
  once := by
    rw [countP_sender_concat hsender]
    exact h.once

end Parts

/-!
## What the protocol allows
-/

def Command.method? : Command -> Option String
  | .request _ method _ _ => some method
  | .notify message _ => message.method
  | _ => none

namespace Command.Voices

variable {command : Command} {letters : List Letter}

theorem nil_or_singleton (h : command.Voices letters) :
    letters = [] ∨ exists l, letters = [l] := by
  cases h with
  | spared | unchanged | closed | silent => exact Or.inl rfl
  | request | notify | cancel | opens | changes | closes => exact Or.inr ⟨_, rfl⟩

theorem shutdown {stopper number : Nat} (h : command.Voices letters)
    (hl : .shutdown stopper number ∈ letters) : command.method? = some "shutdown" := by
  cases h with
  | request number' method params t =>
      injection List.mem_singleton.mp hl with _ hcontent
      injection hcontent with hmessage
      exact (congrArg Message.method hmessage).symm
  | notify message t =>
      injection List.mem_singleton.mp hl with _ hcontent
      injection hcontent with hmessage
      exact (congrArg Message.method hmessage).symm
  | cancel | opens | changes | closes =>
      injection List.mem_singleton.mp hl with _ hcontent
      injection hcontent with hmessage
      exact absurd (Option.some.inj (congrArg Message.method hmessage)) (by decide)
  | spared | unchanged | closed | silent => exact nomatch hl

theorem sender (h : command.Voices letters) {t : Ticket} (hown : command.ticket? = some t)
    {l : Letter} (hl : l ∈ letters) : l.sender = some t.call := by
  cases h with
  | request | notify | opens | changes | closes =>
      cases hown
      rw [List.mem_singleton.mp hl]
  | cancel | spared => exact nomatch hown
  | unchanged | closed | silent => exact nomatch hl

end Command.Voices

theorem Voiced.mem {commands : List Command} {said : List Letter} (h : Voiced commands said)
    {l : Letter} (hl : l ∈ said) :
    exists command letters, command ∈ commands ∧ command.Voices letters ∧ l ∈ letters := by
  induction h with
  | nil => exact nomatch hl
  | concat h voices ih =>
      rcases List.mem_append.mp hl with hl | hl
      · rcases ih hl with ⟨command, letters, hmem, hvoices, hin⟩
        exact ⟨command, letters, List.mem_append_left _ hmem, hvoices, hin⟩
      · exact ⟨_, _, List.mem_append_right _ (List.mem_singleton_self _), voices, hl⟩

namespace Talks

variable {k : Nat} {moments : List (Moment D)} {p : Progress} {commands : List Command}
  {said before after : List Letter} {stopper number : Nat} {force : Bool}

theorem letter_of_free {command : Command} (h : command.IsFree moments)
    (hvoices : command.Voices said) {l : Letter} (hl : l ∈ said) :
    (exists number, l = .withdrawal number) ∨ l.IsOfUser moments := by
  cases h with
  | abandon number =>
      cases hvoices with
      | cancel => exact Or.inl ⟨number, List.mem_singleton.mp hl⟩
      | spared | silent => exact nomatch hl
  | user _ t op own began role =>
      exact Or.inr ⟨t.call, op, hvoices.sender own hl, began, role⟩

theorem not_shutdown (hvoiced : Voiced commands said)
    (hother : forall command, command ∈ commands -> command.method? ≠ some "shutdown") :
    said ≠ before ++ .shutdown stopper number :: after := by
  intro hsaid
  have hmem : .shutdown stopper number ∈ said :=
    hsaid ▸ List.mem_append_right before List.mem_cons_self
  rcases hvoiced.mem hmem with ⟨command, letters, hcommand, hvoices, hin⟩
  exact hother command hcommand (hvoices.shutdown hin)

/-- After a call has asked the server to shut down, the protocol has come to this call. -/
theorem parts (h : Talks k moments p commands) (hvoiced : Voiced commands said)
    (began : Began moments stopper (.stop force))
    (hsaid : said = before ++ .shutdown stopper number :: after) :
    Parts moments stopper after ∧
      (p = .leaving stopper ∧ after.countP (fun l => l.sender = some stopper) = 0 ∨
        p = .left stopper) := by
  induction h generalizing said before after with
  | silent => exact absurd hsaid (not_shutdown hvoiced nofun)
  | asked => exact absurd hsaid (not_shutdown hvoiced (by simp [Command.method?]))
  | withdrawn => exact absurd hsaid (not_shutdown hvoiced (by simp [Command.method?]))
  | opened =>
      exact absurd hsaid
        (not_shutdown hvoiced (by simp [Command.method?, Message.notification]))
  | free p commands command h ready free ih =>
      rcases hvoiced.concat_inv with ⟨earlier, more, rfl, hearlier, hmore⟩
      rcases hmore.nil_or_singleton with rfl | ⟨l, rfl⟩
      · exact ih hearlier ((List.append_nil earlier).symm.trans hsaid)
      have hl := letter_of_free free hmore (List.mem_singleton_self l)
      have hsender : l.sender ≠ some stopper := by
        rcases hl with ⟨number', rfl⟩ | huser
        · exact nofun
        · exact huser.sender_ne began
      rcases split_of_concat hsaid with ⟨_, rfl, _⟩ | ⟨after', rfl, hbefore⟩
      · exact absurd rfl hsender
      rcases ih hearlier hbefore with ⟨hparts, hcome⟩
      refine ⟨hparts.concat (hl.imp_left fun ⟨number', h⟩ =>
        h ▸ .withdrawal number') hsender, ?_⟩
      rw [countP_sender_concat hsender]
      exact hcome
  | shutdown stopper' number' serial force' commands h began' ih =>
      rcases hvoiced.concat_inv with ⟨earlier, more, rfl, hearlier, hmore⟩
      cases hmore with
      | silent _ hsilent => contradiction
      | request =>
          rcases split_of_concat hsaid with ⟨_, hsame, rfl⟩ | ⟨after', rfl, hbefore⟩
          · cases Option.some.inj (congrArg Letter.sender hsame)
            exact ⟨.nil, Or.inl ⟨rfl, rfl⟩⟩
          · rcases ih hearlier hbefore with ⟨_, ⟨hcome, _⟩ | hcome⟩ <;> contradiction
  | exit stopper' serial commands h ih =>
      rcases hvoiced.concat_inv with ⟨earlier, more, rfl, hearlier, hmore⟩
      cases hmore with
      | silent _ hsilent => contradiction
      | notify =>
          rcases split_of_concat hsaid with ⟨_, hsame, _⟩ | ⟨after', rfl, hbefore⟩
          · injection hsame with _ hcontent
            injection hcontent with hmessage
            exact nomatch congrArg Message.id hmessage
          · rcases ih hearlier hbefore with ⟨hparts, ⟨hcome, hcount⟩ | hcome⟩
            case inr => contradiction
            cases hcome
            refine ⟨⟨fun l hl => ?_, ?_⟩, Or.inr rfl⟩
            · rcases List.mem_append.mp hl with hl | hl
              · exact hparts.only l hl
              · exact Or.inl (List.mem_singleton.mp hl ▸ .exit)
            · rw [List.countP_append, hcount, Nat.zero_add]
              exact List.countP_le_length

end Talks

/-!
## Connections that have ceased to serve
-/

namespace Moment

variable {k : Nat} {m : Moment D}

theorem Fares.sender_of_reply (h : m.Fares k) {l : Letter} (hl : l ∈ m.letters k)
    (hreply : l.isReply = true) : l.sender = none := by
  cases h with
  | still served dispatched written =>
      rw [letters_of_still written] at hl
      exact nomatch hl
  | serves c c' e command rest before served dispatched phase queue step after =>
      rw [letters_of_serves before served step after] at hl
      split at hl
      · rcases List.mem_map.mp hl with ⟨message, _, rfl⟩
        contradiction
      · exact nomatch hl
  | takesIn c c' e message rest before served dispatched phase step after =>
      rw [letters_of_takesIn before served step after] at hl
      split at hl
      · rcases List.mem_map.mp hl with ⟨v, _, rfl⟩
        rfl
      · exact nomatch hl

theorem Fares.spoken_of_silent (h : m.Fares k) {c : Connection}
    (hc : m.before.connection? k = some c) (hfluent : c.isFluent = false) :
    (m.letters k).filter (!·.isReply) = [] := by
  cases hserved : m.served? k with
  | none => exact h.spoken_of_idle hserved
  | some command =>
      cases h with
      | still served => exact nomatch served.symm.trans hserved
      | takesIn b b' e message rest before served => exact nomatch served.symm.trans hserved
      | serves b b' e command' rest before served dispatched phase queue step after =>
          cases Option.some.inj (hc.symm.trans before)
          have hwritable : ¬ c.writable = true := fun hwritable =>
            Bool.false_ne_true
              (hfluent.symm.trans (Connection.isFluent_iff.mpr ⟨phase, hwritable⟩))
          rw [letters_of_serves before served step after, if_neg hwritable]
          rfl

end Moment

namespace Session

/-- A connection that serves no more, or is not heard any more, stays silent. -/
theorem Course.silent [FileSystem D] {s u : Session D} {moments : List (Moment D)}
    (course : Course s moments u) {k : Nat} {c : Connection} (hc : s.connection? k = some c)
    (hfluent : c.isFluent = false) :
    spoken k moments = [] ∧ exists c', u.connection? k = some c' ∧ c'.isFluent = false := by
  induction course with
  | refl => exact ⟨rfl, c, hc, hfluent⟩
  | touch course disk ih => exact ih
  | @act moments t u course a ha ih =>
      rcases ih with ⟨hspoken, b, hb, hsilent⟩
      rw [spoken_concat, hspoken, (fares_of_act ha k).spoken_of_silent hb hsilent]
      refine ⟨rfl, ?_⟩
      cases hcall : Moment.ofCall (⟨t, a, u⟩ : Moment D) with
      | true =>
          rcases undergo_of_call ha hcall with ⟨t', id, effects, hsame, hid, rfl⟩
          have hb' : t'.connection? k = some b := (congrArg (·[k]?) hsame).trans hb
          rcases undergo_gets hid effects hb' with ⟨b', _, hafter, hgets, _⟩
          exact ⟨b', hafter, hgets.isFluent.trans hsilent⟩
      | false =>
          rcases drifts_of_act ha hcall k with ⟨hnone, _⟩ | ⟨d, d', hd, hd', hfades⟩
          · exact nomatch hnone.symm.trans hb
          · cases Option.some.inj (hd.symm.trans hb)
            refine ⟨d', hd', Bool.eq_false_iff.mpr fun hfluent' => ?_⟩
            exact Bool.false_ne_true (hsilent.symm.trans (hfades.fluent hfluent').1)

/-!
## The order of shutting down
-/

variable [FileSystem D] {settings : Settings} {processId : Nat} {workspace : Workspace D}
  {moments : List (Moment D)} {s : Session D}

/-- How connection `k` parts from its server. -/
structure PartsOrderly (k : Nat) (moments : List (Moment D)) : Prop where
  /-- Once a call that stops the server has asked it to shut down, it is the only one to say
  anything that starts or stops, and it says one thing more at most. -/
  parts : forall stopper number force before after, Began moments stopper (.stop force) ->
    letters k moments = before ++ .shutdown stopper number :: after ->
    Parts moments stopper after
  /-- A connection that does not serve any more, because it is being terminated or has
  ended, writes nothing but replies. -/
  silent : forall earlier m later c, moments = earlier ++ m :: later ->
    m.before.connection? k = some c -> c.phase ≠ .serving ->
    forall l, l ∈ letters k (m :: later) -> l.isReply = true

theorem Course.parts (course : Course (Session.new settings processId workspace) moments s)
    {k stopper number : Nat} {force : Bool} {before after : List Letter}
    (began : Began moments stopper (.stop force))
    (hletters : letters k moments = before ++ .shutdown stopper number :: after) :
    Parts moments stopper after := by
  have hspoken : spoken k moments =
      before.filter (!·.isReply) ++ .shutdown stopper number :: after.filter (!·.isReply) := by
    rw [spoken, hletters, List.filter_append, List.filter_cons_of_pos rfl]
  rcases course.voiced k with ⟨served, hserved, hvoiced⟩
  rcases course.follows k with ⟨p, htalks, _⟩
  rcases htalks.of_prefix hserved with ⟨p', htalks'⟩
  have hparts := (htalks'.parts hvoiced began hspoken).1
  constructor
  case only =>
    intro l hl
    cases hreply : l.isReply with
    | true => exact Or.inl (.reply l hreply)
    | false => exact hparts.only l (List.mem_filter.mpr ⟨hl, by rw [hreply]; rfl⟩)
  case once =>
    have hsame : after.countP (fun l => l.sender = some stopper) =
        (after.filter (!·.isReply)).countP (fun l => l.sender = some stopper) := by
      rw [List.countP_filter]
      refine List.countP_congr fun l hl => ?_
      have hmem : l ∈ letters k moments :=
        hletters ▸ List.mem_append_right _ (List.mem_cons_of_mem _ hl)
      rcases List.mem_flatMap.mp hmem with ⟨m, hm, hlm⟩
      cases hreply : l.isReply with
      | true =>
          rw [(course.fares hm k).sender_of_reply hlm hreply]
          simp
      | false => simp
    rw [hsame]
    exact hparts.once

/-- Over every course of a new session, however the calls of users interleave with a call
that stops the server, each connection parts from its server in this order. -/
theorem course_partsOrderly (course :
      Course (Session.new settings processId workspace) moments s)
    (k : Nat) : PartsOrderly k moments where
  parts _ _ _ _ _ began hletters := course.parts began hletters
  silent earlier m later c hmoments hc hphase l hl := by
    subst hmoments
    rcases course.split with ⟨_, hact, hlater⟩
    have hfluent : c.isFluent = false := Bool.eq_false_iff.mpr fun hfluent =>
      hphase (Connection.isFluent_iff.mp hfluent).1
    have hrest : Course m.before (m :: later) s :=
      (Course.refl.act m.action hact).append hlater
    have hspoken := (hrest.silent hc hfluent).1
    have hnot := List.filter_eq_nil_iff.mp hspoken l hl
    rwa [Bool.not_eq_true', Bool.not_eq_false] at hnot

/-- The server does not answer when it is asked to shut down, and while it is waited for a
user talks to it. -/
def lateWord : List Action :=
  [.begin (.start .streams), .goOn 0, .serve 0,
    .receive 0 (framed "\x7b\"id\":1,\"result\":\x7b\x7d\x7d"), .takeIn 0, .goOn 0, .serve 0,
    .goOn 0, .begin (.stop false), .goOn 1, .serve 0, .begin (.notify "late" .null), .serve 0,
    .elapse 5000, .goOn 1, .serve 0, .serve 0, .goOn 1, .serve 0]

def late : Letter :=
  ⟨some 2, .message (.notification "late" .null)⟩

theorem proceed_lateWord :
    exists moments s,
      Course (Session.new default 0 (Workspace.new default Memory.empty)) moments s ∧
      (exists force, Began moments 1 (.stop force)) ∧
      exists before, letters 0 moments =
        before ++ .shutdown 1 2 :: [late, .withdrawal 2, .exit 1] := by
  have hcourse : ((Session.new default 0 (Workspace.new default Memory.empty)).proceed
      lateWord).map (fun (moments, _) => ((begun moments)[1]?.map Operation.role,
        (letters 0 moments).drop 2)) =
      some (some .stop, [.shutdown 1 2, late, .withdrawal 2, .exit 1]) := by
    decide +kernel
  rcases Option.map_eq_some_iff.mp hcourse with ⟨⟨moments, s⟩, hproceed, heq⟩
  rcases Prod.mk.inj heq with ⟨hrole, hletters⟩
  have course := Course.refl.proceed hproceed
  rw [List.nil_append] at course
  rcases Option.map_eq_some_iff.mp hrole with ⟨op, hop, hstop⟩
  rcases Operation.eq_stop_of_role hstop with ⟨force, rfl⟩
  exact ⟨moments, s, course, ⟨force, hop⟩, (letters 0 moments).take 2,
    hletters ▸ (List.take_append_drop 2 _).symm⟩

theorem course_partsOrderly_lateWord :
    exists moments s,
      Course (Session.new default 0 (Workspace.new default Memory.empty)) moments s ∧
      (exists before, letters 0 moments =
        before ++ .shutdown 1 2 :: [late, .withdrawal 2, .exit 1]) ∧
      PartsOrderly 0 moments := by
  rcases proceed_lateWord with ⟨moments, s, course, _, hletters⟩
  exact ⟨moments, s, course, hletters, course_partsOrderly course 0⟩

/-- Not all that is written to a server that has been asked to shut down
belongs to parting from it. -/
theorem not_parting_only :
    ¬ forall (moments : List (Moment Memory)) (s : Session Memory),
      Course (Session.new default 0 (Workspace.new default Memory.empty)) moments s ->
      forall k stopper number force before after, Began moments stopper (.stop force) ->
        letters k moments = before ++ .shutdown stopper number :: after ->
        forall l, l ∈ after -> l.IsParting stopper := by
  intro hparting
  rcases proceed_lateWord with ⟨moments, s, course, ⟨force, began⟩, before, hletters⟩
  have hlate :=
    hparting moments s course 0 1 2 force before _ began hletters late List.mem_cons_self
  generalize hl : late = l at hlate
  cases hlate with
  | exit => exact absurd (congrArg Letter.sender hl) (by decide)
  | withdrawal number => exact absurd (congrArg Letter.sender hl) nofun
  | reply l hreply =>
      rw [← hl] at hreply
      contradiction

end Session
end LanguageClient

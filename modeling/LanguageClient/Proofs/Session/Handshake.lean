import LanguageClient.Proofs.Session.Conversations

/-!
# How a conversation begins

Replies set aside, the first thing that a client says to a server is its introduction.
Before the server has accepted it nothing else is said, except that the client may withdraw
the introduction, and then nothing else is ever said. What is said to a server that has
accepted begins with the notification that the client is ready.
-/

namespace LanguageClient

variable {D : Type}

def Letter.introduction (starter number : Nat) (params : Json) : Letter :=
  ⟨some starter, .message (.request number "initialize" params)⟩

def Letter.readiness (starter : Nat) : Letter :=
  ⟨some starter, .message (.notification "initialized" (Json.ofMembers []))⟩

def Letter.withdrawal (number : Nat) : Letter :=
  ⟨none, .message (Connection.cancelNotice number)⟩

/-- The server of connection `k` has accepted the introduction at one of these moments, when
nothing but the introduction had been said. -/
def Accepted (k : Nat) (moments : List (Moment D)) (starter number : Nat) (params : Json) :
    Prop :=
  exists earlier m later result, moments = earlier ++ m :: later ∧
    m.hears? k number = some (.ok result) ∧
    spoken k earlier = [.introduction starter number params]

/-- Only a user who says so itself says that the client is ready. -/
def Letter.Spares (moments : List (Moment D)) (l : Letter) : Prop :=
  forall params, l.content = .message (.notification "initialized" params) ->
    exists id params', l.sender = some id ∧ Began moments id (.notify "initialized" params')

/-- What is said to a server that has accepted the introduction. -/
inductive Opens (k : Nat) (moments : List (Moment D)) : List Letter -> Prop where
  | intro (starter number : Nat) (params : Json) (launch : Launch) (rest : List Letter)
      (began : Began moments starter (.start launch))
      (accepted : Accepted k moments starter number params)
      (once : forall l, l ∈ rest -> l.Spares moments) :
      Opens k moments (.introduction starter number params :: .readiness starter :: rest)

/-- What is said on connection `k` begins with the introduction. -/
inductive Introduces (k : Nat) (moments : List (Moment D)) : List Letter -> Prop where
  | silent : Introduces k moments []
  | asked (starter number : Nat) (params : Json) (launch : Launch)
      (began : Began moments starter (.start launch)) :
      Introduces k moments [.introduction starter number params]
  | withdrawn (starter number : Nat) (params : Json) (launch : Launch)
      (began : Began moments starter (.start launch)) :
      Introduces k moments [.introduction starter number params, .withdrawal number]
  | opened (said : List Letter) (opens : Opens k moments said) : Introduces k moments said

theorem Opens.append {k : Nat} {moments : List (Moment D)} {said more : List Letter}
    (h : Opens k moments said) (hmore : forall l, l ∈ more -> l.Spares moments) :
    Opens k moments (said ++ more) := by
  cases h with
  | intro starter number params launch rest began accepted once =>
      exact .intro starter number params launch (rest ++ more) began accepted fun l hl =>
        (List.mem_append.mp hl).elim (once l) (hmore l)

theorem Command.Voices.readiness {command : Command} {letters : List Letter}
    (h : command.Voices letters) {l : Letter} (hl : l ∈ letters) {params : Json}
    (hcontent : l.content = .message (.notification "initialized" params)) :
    exists t, command = .notify (.notification "initialized" params) t ∧
      l.sender = some t.call := by
  cases h with
  | notify message t =>
      cases List.mem_singleton.mp hl
      cases hcontent
      exact ⟨t, rfl, rfl⟩
  | request number method params t =>
      cases List.mem_singleton.mp hl
      injection hcontent with hmessage
      injection hmessage with _ hid
      exact nomatch hid
  | cancel | opens | changes | closes =>
      cases List.mem_singleton.mp hl
      injection hcontent with hmessage
      injection hmessage with _ _ hmethod
      exact absurd (Option.some.inj hmethod) (by decide)
  | spared | unchanged | closed | silent => exact nomatch hl

namespace Talks

variable {k : Nat} {moments : List (Moment D)} {p : Progress} {commands served : List Command}
  {said : List Letter}

theorem of_prefix_introduction {starter number serial : Nat} {params : Json} {launch : Launch}
    (began : Began moments starter (.start launch))
    (h : served <+: [.request number "initialize" params ⟨starter, serial⟩]) :
    exists p', Talks k moments p' served := by
  rcases List.prefix_cons_iff.mp h with rfl | ⟨rest, rfl, hrest⟩
  · exact ⟨.silent, .silent⟩
  · cases List.prefix_nil.mp hrest
    exact ⟨_, .asked starter number serial params launch began⟩

theorem of_prefix (h : Talks k moments p commands) (hbegins : served <+: commands) :
    exists p', Talks k moments p' served := by
  induction h with
  | silent => exact ⟨.silent, List.prefix_nil.mp hbegins ▸ .silent⟩
  | asked starter number serial params launch began =>
      exact of_prefix_introduction began hbegins
  | withdrawn starter number serial params launch began =>
      have hbegins : served <+: [_] ++ [_] := hbegins
      rcases List.prefix_concat_iff.mp hbegins with rfl | hbegins
      · exact ⟨_, .withdrawn starter number serial params launch began⟩
      · exact of_prefix_introduction began hbegins
  | opened starter number serial serial' params launch began answered =>
      have hbegins : served <+: [_] ++ [_] := hbegins
      rcases List.prefix_concat_iff.mp hbegins with rfl | hbegins
      · exact ⟨_, .opened starter number serial serial' params launch began answered⟩
      · exact of_prefix_introduction began hbegins
  | free p commands command h ready free ih =>
      rcases List.prefix_concat_iff.mp hbegins with rfl | hbegins
      · exact ⟨p, .free p commands command h ready free⟩
      · exact ih hbegins
  | shutdown stopper number serial force commands h began ih =>
      rcases List.prefix_concat_iff.mp hbegins with rfl | hbegins
      · exact ⟨_, .shutdown stopper number serial force commands h began⟩
      · exact ih hbegins
  | exit stopper serial commands h ih =>
      rcases List.prefix_concat_iff.mp hbegins with rfl | hbegins
      · exact ⟨_, .exit stopper serial commands h⟩
      · exact ih hbegins

theorem spares_of_free {command : Command} (h : command.IsFree moments)
    (hvoices : command.Voices said) {l : Letter} (hl : l ∈ said) : l.Spares moments := by
  intro params hcontent
  rcases hvoices.readiness hl hcontent with ⟨t, rfl, hsender⟩
  cases h with
  | user _ t' op own began role utters =>
      rcases utters params t rfl with ⟨params', rfl⟩
      cases own
      exact ⟨_, params', hsender, began⟩

theorem opens (h : Talks k moments p commands) (hopen : p.isOpen = true)
    (hvoiced : Voiced commands said) : Opens k moments said := by
  induction h generalizing said with
  | silent | asked | withdrawn => contradiction
  | opened starter number serial serial' params launch began answered =>
      have hvoiced : Voiced ([_] ++ [_]) said := hvoiced
      rcases hvoiced.concat_inv with ⟨before, more, rfl, hbefore, hmore⟩
      cases hbefore.singleton_inv with
      | silent _ hsilent => contradiction
      | request =>
          cases hmore with
          | notify => exact .intro starter number params launch [] began answered nofun
          | silent _ hsilent => contradiction
  | free p commands command h ready free ih =>
      rcases hvoiced.concat_inv with ⟨before, more, rfl, hbefore, hmore⟩
      exact (ih ready hbefore).append fun l hl => spares_of_free free hmore hl
  | shutdown stopper number serial force commands h began ih =>
      rcases hvoiced.concat_inv with ⟨before, more, rfl, hbefore, hmore⟩
      refine (ih rfl hbefore).append fun l hl params hcontent => ?_
      rcases hmore.readiness hl hcontent with ⟨t, hcommand, _⟩
      exact nomatch (hcommand : Command.request .. = .notify ..)
  | exit stopper serial commands h ih =>
      rcases hvoiced.concat_inv with ⟨before, more, rfl, hbefore, hmore⟩
      refine (ih rfl hbefore).append fun l hl params hcontent => ?_
      rcases hmore.readiness hl hcontent with ⟨t, hcommand, _⟩
      injection hcommand with hmessage
      injection hmessage with _ _ hmethod
      exact absurd (Option.some.inj hmethod) (by decide)

theorem introduces (h : Talks k moments p commands) (hvoiced : Voiced commands said) :
    Introduces k moments said := by
  cases h with
  | silent => exact hvoiced.nil_inv ▸ .silent
  | asked starter number serial params launch began =>
      cases hvoiced.singleton_inv with
      | request => exact .asked starter number params launch began
      | silent _ hsilent => contradiction
  | withdrawn starter number serial params launch began =>
      have hvoiced : Voiced ([_] ++ [_]) said := hvoiced
      rcases hvoiced.concat_inv with ⟨before, more, rfl, hbefore, hmore⟩
      cases hbefore.singleton_inv with
      | silent _ hsilent => contradiction
      | request =>
          cases hmore with
          | cancel => exact .withdrawn starter number params launch began
          | spared => exact .asked starter number params launch began
          | silent _ hsilent => contradiction
  | opened starter number serial serial' params launch began answered =>
      exact .opened said
        (opens (.opened starter number serial serial' params launch began answered)
        rfl hvoiced)
  | free _ commands command h ready free =>
      exact .opened said (opens (.free p commands command h ready free) ready hvoiced)
  | shutdown stopper number serial force commands h began =>
      exact .opened said
        (opens (.shutdown stopper number serial force commands h began) rfl hvoiced)
  | exit stopper serial commands h =>
      exact .opened said (opens (.exit stopper serial commands h) rfl hvoiced)

end Talks

namespace Session

/-- Over every course of a new session, whatever calls there are and however they interleave
with the server, what has been written to each connection begins with the introduction,
replies set aside. -/
theorem course_introducesFirst [FileSystem D] {settings : Settings} {processId : Nat}
    {workspace : Workspace D} {moments : List (Moment D)} {s : Session D}
    (course : Course (Session.new settings processId workspace) moments s) (k : Nat) :
    (s.writtenOn k).filter (fun out => out.reply?.isNone) =
    (spoken k moments).map Letter.content ∧
      Introduces k moments (spoken k moments) := by
  constructor
  · have hwritten : s.writtenOn k = (letters k moments).map Letter.content :=
      course.writtenOn k
    rw [hwritten, List.filter_map, spoken]
    refine congrArg (List.map Letter.content) (List.filter_congr fun l _ => ?_)
    simp [Letter.isReply]
  · rcases course.voiced k with ⟨served, hbegins, hvoiced⟩
    rcases course.follows k with ⟨p, htalks, _⟩
    rcases htalks.of_prefix hbegins with ⟨p', htalks'⟩
    exact htalks'.introduces hvoiced

/-- While a server is being started a user talks to it in vain. When it has started, the
user says for itself that the client is ready. -/
def impatience : List Action :=
  [.begin (.start .streams), .goOn 0, .begin (.notify "early" .null), .serve 0,
    .receive 0 (framed "\x7b\"id\":1,\"result\":\x7b\x7d\x7d"), .takeIn 0, .goOn 0,
    .begin (.notify "early" .null), .serve 0, .goOn 0, .begin (.notify "initialized" .null),
    .serve 0]

theorem course_introducesFirst_impatience :
    exists moments s,
      Course (Session.new default 0 (Workspace.new default Memory.empty)) moments s ∧
      (spoken 0 moments).map Letter.sender = [some 0, some 0, some 3] ∧
      Introduces 0 moments (spoken 0 moments) := by
  have hcourse : ((Session.new default 0 (Workspace.new default Memory.empty)).proceed
      impatience).map (fun (moments, _) => (spoken 0 moments).map Letter.sender) =
      some [some 0, some 0, some 3] := by
    decide +kernel
  rcases Option.map_eq_some_iff.mp hcourse with ⟨⟨moments, s⟩, hproceed, hsenders⟩
  have course := Course.refl.proceed hproceed
  rw [List.nil_append] at course
  exact ⟨moments, s, course, hsenders, (course_introducesFirst course 0).2⟩

end Session
end LanguageClient

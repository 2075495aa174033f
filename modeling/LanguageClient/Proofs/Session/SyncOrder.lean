import LanguageClient.Proofs.Session.SyncedEndings

/-!
# The order of syncs

A sync reads a file in one step and hands over what it has read in another, and nothing ties
the order in which several syncs read to the order in which a connection serves them. So it
is the sync that is served last that says what the server is left with, whether it has read
last or not. The main statement is that nothing else does: as long as no notice has been
refused, the server has the current text of a file if and only if the sync that was served
last has read it.
-/

namespace LanguageClient

variable {D : Type}

/-- No two texts of a history share a fingerprint. -/
def History.Distinct (history : List DocumentOperation) : Prop :=
  forall a b, .sync a ∈ history -> .sync b ∈ history -> contentHash a.text =
    contentHash b.text ->
    a.text = b.text

/-- Connection `k` has served document `uri` last at moment `v`, with a sync for call `id`,
which had read `content` in file `name`. The server has last been sent the text of `source`.
This was read before `v`, by this call or by another one, and its text is the one of
`content`, unless it just has the same fingerprint. -/
structure LeavesWith [FileSystem D] (k : Nat) (uri : String) (id : Nat)
    (name content source : Text)
    (earlier : List (Moment D)) (v : Moment D) (later : List (Moment D)) : Prop where
  read : exists r input t, r ∈ earlier ∧ r.Reads id k name input ∧
    r.before.fileText? name = some content ∧ v.served? k = some (.sync input t) ∧ t.call = id ∧
      input.uri = uri
  last : forall op, op ∈ operations k later -> op.uri ≠ uri
  found : exists r caller name' settled, r ∈ earlier ∧ r.Reads caller k name' settled ∧
    settled.uri = uri ∧ r.before.fileText? name' = some source
  sent : History.lastText? uri (notices k (earlier ++ v :: later)) =
    some (String.ofList (LineEnding.normalize source).1)
  fingerprint : contentHash (LineEnding.normalize source).1 =
    contentHash (LineEnding.normalize content).1
  exactly : History.Distinct (operations k (earlier ++ v :: later)) ->
    (LineEnding.normalize source).1 = (LineEnding.normalize content).1

namespace Session

/-- Whoever syncs, edits and closes files in whatever order: as long as no notice has been
refused, the sync that was served last for a document on record says what the server has
been sent last. If no two texts share a fingerprint, the server has the current text of the
file if and only if this sync has read it, however many others have read it since. -/
theorem course_lastServedSync [FileSystem D] {settings : Settings} {processId : Nat}
    {workspace : Workspace D} {moments : List (Moment D)} {s : Session D}
    (course : Course (Session.new settings processId workspace) moments s) {k : Nat}
    (unrefused : Unrefused k moments) {uri : String} {d : Document}
    (recorded : (History.store (operations k moments)).documents.get? uri = some d) :
    exists id name content source earlier v later, moments = earlier ++ v :: later ∧
      LeavesWith k uri id name content source earlier v later ∧
      (History.Distinct (operations k moments) -> forall now, s.fileText? name = some now ->
        (History.lastText? uri (notices k moments) =
            some (String.ofList (LineEnding.normalize now).1) <->
          (LineEnding.normalize content).1 = (LineEnding.normalize now).1)) := by
  have hview := History.settles_run (operations k moments) uri
  rw [recorded] at hview
  rcases hview with ⟨settled, hstands⟩
  rcases History.exists_lastSync hstands.settled with
    ⟨past, input, rest, hsplit, huri, hhash, hmem, hrest⟩
  have hsent :
      History.lastText? uri (notices k moments) = some (String.ofList settled.text) := by
    rw [course.notices_eq unrefused, History.lastText?_of_settled hstands.settled]
  rcases split_of_operations hsplit with ⟨earlier, v, later, rfl, hpast, hop, hlater⟩
  rcases v.served_of_operation? hop with ⟨t, hserved⟩
  rcases course.reads_of_served hserved with ⟨r, name, hr, hreads⟩
  rcases renders_of_readFile hreads.content with ⟨content, hcontent, hrenders⟩
  rw [← hpast, ← operations_concat_some hop] at hmem
  rcases course.reads_of_operation hmem with ⟨r', caller, name', hr', hreads'⟩
  rcases renders_of_readFile hreads'.content with ⟨source, hsource, hrenders'⟩
  have hexactly (hdistinct : History.Distinct (operations k (earlier ++ v :: later))) :
      (LineEnding.normalize source).1 = (LineEnding.normalize content).1 := by
    rw [← hrenders.text, ← hrenders'.text]
    refine hdistinct settled input hstands.synced ?_ ?_
    · exact hsplit ▸ List.mem_append_right _ List.mem_cons_self
    · rw [← hrenders.hash, ← hrenders'.hash, hhash]
  rw [hrenders'.text] at hsent
  refine ⟨t.call, name, content, source, earlier, v, later, rfl, {
    read := ⟨r, input, t, hr, hreads, hcontent, hserved, rfl, huri⟩
    last := hlater ▸ hrest
    found := ⟨r', caller, name', settled, hr', hreads', hstands.uri, hsource⟩
    sent := hsent
    fingerprint := by rw [← hrenders.text, ← hrenders'.text, ← hrenders.hash, ← hrenders'.hash,
      hhash]
    exactly := hexactly }, fun hdistinct now _ => ?_⟩
  rw [hsent, ← hexactly hdistinct, Option.some.injEq, String.ofList_inj]

end Session

/-!
## What syncs do not do

One might expect more: that a file which has been synced after it was written for the last
time is what the server has, once all syncs have succeeded. This fails in two ways.
-/

def Moment.startsAlone (m : Moment D) : Bool :=
  match m.action with
  | .begin _ => m.before.calls.all (·.outcome?.isSome)
  | _ => true

def Operation.startsOrEdits : Operation -> Bool
  | .start _ | .applyEdits .. => true
  | _ => false

namespace Session

/-- File `name` is synced and edited, and every sync has succeeded. -/
def AllSynced (name : Text) (moments : List (Moment D)) (s : Session D) : Prop :=
  forall id op, Began moments id op ->
    op.startsOrEdits = true ∨
      op = .sync name ∧ exists d, s.outcome? id = some (.ok (.synced d))

/-- Call `id` reads file `name`, and `now` is what is found in it from then on. -/
def ReadsLast [FileSystem D] (id k : Nat) (name : Text) (input : SyncInput) (now : Text)
    (moments : List (Moment D)) (s : Session D) : Prop :=
  exists earlier r later, moments = earlier ++ r :: later ∧ r.Reads id k name input ∧
    (forall m, m ∈ r :: later -> m.before.fileText? name = some now) ∧ s.fileText? name =
    some now

/-- In every course that is `fair`, a file that has been synced since it was written last is
what the server has. -/
def SyncsSettle (fair : List (Moment Memory) -> Prop) : Prop :=
  forall (settings : Settings) (workspace : Workspace Memory) moments s,
    Course (Session.new settings 0 workspace) moments s -> fair moments ->
    forall name, AllSynced name moments s ->
    forall id, Began moments id (.sync name) ->
    forall k input now, ReadsLast id k name input now moments s ->
      History.lastText? input.uri (notices k moments) =
        some (String.ofList (LineEnding.normalize now).1)

def documentRead? (id : Nat) (m : Moment Memory) : Option String :=
  match m.action, m.before.task? id with
  | .goOn j, some (.reading 0 ['f'] _) =>
    if j = id then (m.before.readFile ['f']).toOption.map (·.uri) else none
  | _, _ => none

theorem reads_of_documentRead? {id : Nat} {m : Moment Memory} {uri : String}
    (h : documentRead? id m = some uri) :
    exists input, m.Reads id 0 ['f'] input ∧ input.uri = uri := by
  unfold documentRead? at h
  split at h
  case h_2 => contradiction
  case h_1 j next haction htask =>
    split at h
    case isFalse => contradiction
    case isTrue hj =>
      cases hread : m.before.readFile ['f'] with
      | error e =>
          rw [hread] at h
          contradiction
      | ok input =>
          rw [hread] at h
          exact ⟨input, ⟨hj ▸ haction, ⟨next, htask⟩, hread⟩, Option.some.inj h⟩

def keepsSynced (s : Session Memory) (op : Operation) (id : Nat) : Bool :=
  op.startsOrEdits || op == .sync ['f'] && ((s.task? id).bind Task.synced?).isSome

/-- What is to be seen of a course: whether call `id` is a sync and all syncs have
succeeded, which document call `id` reads file `f` for after `n` moments, whether the
content from then on is `now`, and what the server has been sent last. -/
def survey (n id : Nat) (now : Text) (moments : List (Moment Memory)) (s : Session Memory) :
    Bool × Option String × Bool × Option String :=
  ((begun moments)[id]? == some (.sync ['f']) &&
      (begun moments).zipIdx.all fun x => keepsSynced s x.1 x.2,
    (moments.drop n).head?.bind (documentRead? id),
    (moments.drop n).all (·.before.fileText? ['f'] == some now) && s.fileText? ['f'] ==
    some now, History.lastText? "file:///w/f" (notices 0 moments))

theorem allSynced_of_survey {moments : List (Moment Memory)} {s : Session Memory}
    (h : ((begun moments).zipIdx.all fun x => keepsSynced s x.1 x.2) = true) :
    AllSynced ['f'] moments s := by
  intro id op hbegan
  have hmem : (op, id) ∈ (begun moments).zipIdx := List.mem_zipIdx_iff_getElem?.mpr hbegan
  have hkeeps := List.all_eq_true.mp h (op, id) hmem
  simp only [keepsSynced, Bool.or_eq_true, Bool.and_eq_true, beq_iff_eq] at hkeeps
  refine hkeeps.imp_right ?_
  rintro ⟨rfl, hsynced⟩
  refine ⟨rfl, ?_⟩
  rcases Option.isSome_iff_exists.mp hsynced with ⟨d, hd⟩
  rcases Option.bind_eq_some_iff.mp hd with ⟨task, htask, hreport⟩
  exact ⟨d, by rw [outcome?_eq_some, htask, Task.synced?_eq_some.mp hreport]⟩

theorem not_syncsSettle_of_survey {fair : List (Moment Memory) -> Prop} {settings : Settings}
    {workspace : Workspace Memory} {moments : List (Moment Memory)} {s : Session Memory}
    (course : Course (Session.new settings 0 workspace) moments s) (hfair : fair moments)
    {n id : Nat} {now : Text} {sent : String}
    (h : survey n id now moments s = (true, some "file:///w/f", true, some sent))
    (hstale : sent ≠ String.ofList (LineEnding.normalize now).1) : ¬ SyncsSettle fair := by
  intro hsettle
  simp only [survey, Prod.mk.injEq, Bool.and_eq_true, beq_iff_eq] at h
  rcases h with ⟨⟨hbegan, hsynced⟩, hread, ⟨hall, hnow⟩, hsent⟩
  rcases Option.bind_eq_some_iff.mp hread with ⟨r, hr, hdocument⟩
  rcases List.head?_eq_some_iff.mp hr with ⟨later, hdrop⟩
  rcases reads_of_documentRead? hdocument with ⟨input, hreads, huri⟩
  have hlast : ReadsLast id 0 ['f'] input now moments s :=
    ⟨moments.take n, r, later, by rw [← hdrop, List.take_append_drop], hreads,
      fun m hm => by simpa using List.all_eq_true.mp hall m (hdrop ▸ hm), hnow⟩
  have hcurrent :=
    hsettle _ _ _ _ course hfair _ (allSynced_of_survey hsynced) id hbegan _ _ _ hlast
  rw [huri, hsent] at hcurrent
  exact hstale (Option.some.inj hcurrent)

theorem unrefused_of_all {k : Nat} {moments : List (Moment D)}
    (h : (moments.all fun m => m.answers.all fun x => !x.2.isRefusal) = true) :
    Unrefused k moments := by
  intro m hm _ t a ha
  have hanswer := List.all_eq_true.mp (List.all_eq_true.mp h m hm) (t, a) ha
  simpa using hanswer

/-- A call reads a file, somebody rewrites it, another call syncs it, and only then the
first call hands over what it has read. -/
def racing : List (Memory ⊕ Action) :=
  opening.map .inr ++ [.inr (.begin (.sync ['f'])), .inr (.goOn 1), .inl (shelf "y")] ++
    (wholeSync 2).map .inr ++ [.inr (.goOn 1), .inr (.serve 0), .inr (.goOn 1)]

/-- A file is synced, the server stops reading, the file is edited, and
then it is synced again. -/
def unheard : List (Memory ⊕ Action) :=
  let edit : TextEdit := ⟨⟨⟨0, 0⟩, ⟨0, 1⟩⟩, ['y']⟩
  let edits : List Action :=
    [.breakPipe 0, .begin (.applyEdits ['f'] [edit] default), .goOn 2, .goOn 2, .goOn 2,
      .goOn 2, .serve 0, .goOn 2, .goOn 2, .goOn 2, .serve 0, .goOn 2]
  (opening ++ wholeSync 1 ++ edits ++ wholeSync 3).map .inr

def editable : Settings :=
  { roomy with allowWrites := true }

theorem exists_racing :
    exists moments s,
      Course (Session.new roomy 0 (Workspace.new (.ofString "/w") (shelf "x"))) moments s ∧
      Unrefused 0 moments ∧
      ((History.store (operations 0 moments)).documents.get? "file:///w/f").isSome = true ∧
      survey 11 2 ['y'] moments s = (true, some "file:///w/f", true, some "x") := by
  have hcourse :
      ((Session.new roomy 0 (Workspace.new (.ofString "/w") (shelf "x"))).play racing).map
      (fun (moments, s) =>
        ((moments.all fun m => m.answers.all fun x => !x.2.isRefusal) &&
            ((History.store (operations 0 moments)).documents.get? "file:///w/f").isSome,
          survey 11 2 ['y'] moments s)) =
      some (true, true, some "file:///w/f", true, some "x") := by
    decide +kernel
  rcases exists_course_of_play hcourse with ⟨moments, s, course, heq⟩
  rcases Prod.mk.inj heq with ⟨hboth, hsurvey⟩
  rcases (Bool.and_eq_true _ _).mp hboth with ⟨hanswers, hrecorded⟩
  exact ⟨moments, s, course, unrefused_of_all hanswers, hrecorded, hsurvey⟩

theorem exists_unheard :
    exists moments s,
      Course (Session.new editable 0 (Workspace.new (.ofString "/w") (shelf "x"))) moments s ∧
      moments.all Moment.startsAlone = true ∧
      survey 26 3 ['y'] moments s = (true, some "file:///w/f", true, some "x") := by
  have hcourse : ((Session.new editable 0
      (Workspace.new (.ofString "/w") (shelf "x"))).play unheard).map (fun (moments, s) =>
        (moments.all Moment.startsAlone, survey 26 3 ['y'] moments s)) =
      some (true, true, some "file:///w/f", true, some "x") := by
    decide +kernel
  rcases exists_course_of_play hcourse with ⟨moments, s, course, heq⟩
  rcases Prod.mk.inj heq with ⟨halone, hsurvey⟩
  exact ⟨moments, s, course, halone, hsurvey⟩

theorem course_lastServedSync_racing :
    exists moments s d,
      Course (Session.new roomy 0 (Workspace.new (.ofString "/w") (shelf "x"))) moments s ∧
      Unrefused 0 moments ∧
      (History.store (operations 0 moments)).documents.get? "file:///w/f" = some d ∧
      exists id name content source earlier v later, moments = earlier ++ v :: later ∧
        LeavesWith 0 "file:///w/f" id name content source earlier v later ∧
        (History.Distinct (operations 0 moments) -> forall now, s.fileText? name = some now ->
          (History.lastText? "file:///w/f" (notices 0 moments) =
              some (String.ofList (LineEnding.normalize now).1) <->
            (LineEnding.normalize content).1 = (LineEnding.normalize now).1)) := by
  rcases exists_racing with ⟨moments, s, course, unrefused, hrecorded, _⟩
  rcases Option.isSome_iff_exists.mp hrecorded with ⟨d, recorded⟩
  exact ⟨moments, s, d, course, unrefused, recorded,
    course_lastServedSync course unrefused recorded⟩

/-- Syncs that overlap can leave the server with what an earlier one has read, even if it is
told everything. If it is not, one call after the other is not enough either: what it was
not told is on record all the same, and the next sync finds that nothing has changed. -/
theorem not_syncsSettle :
    ¬ SyncsSettle (Unrefused 0) ∧
      ¬ SyncsSettle fun moments => moments.all Moment.startsAlone = true := by
  have hstale : "x" ≠ String.ofList (LineEnding.normalize ['y']).1 := by decide
  constructor
  · rcases exists_racing with ⟨moments, s, course, unrefused, _, hsurvey⟩
    exact not_syncsSettle_of_survey course unrefused hsurvey hstale
  · rcases exists_unheard with ⟨moments, s, course, halone, hsurvey⟩
    exact not_syncsSettle_of_survey course halone hsurvey hstale

end Session
end LanguageClient

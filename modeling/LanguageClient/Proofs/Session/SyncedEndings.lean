import LanguageClient.Proofs.Document.Settled
import LanguageClient.Proofs.Session.SyncCalls

/-!
# The line ending that a sync reports

Whether a document has changed is decided by the fingerprint of its text with line feeds
alone, so a file that is rewritten with other line endings has not changed. A sync reports
the line ending on record, and this is the one of the content that opened the document or
changed it last. The main statement says so for every sync that succeeds, with the content
that the sync has read and the content it reports on.
-/

namespace LanguageClient

variable {D : Type}

/-- Call `id` has synced file `name`: it has read `content` as `input`, and connection `k`,
which serves it at moment `v`, takes it down as `d`. The document then stands at `source`,
which was read before, by this call or by another one. -/
structure ReportsOn [FileSystem D] (id k : Nat) (name : Text) (input : SyncInput)
    (content source : Text) (earlier : List (Moment D)) (v : Moment D) (d : SyncedDocument) :
    Prop where
  read : exists r, r ∈ earlier ∧ r.Reads id k name input ∧ r.before.fileText? name =
    some content
  served : exists t, v.served? k = some (.sync input t) ∧ t.call = id
  report : d = ((History.store (operations k earlier)).sync input).2.1
  stands : exists r caller name' settled, r ∈ earlier ∧ r.Reads caller k name' settled ∧
    r.before.fileText? name' = some source ∧
    History.settled? input.uri (operations k (earlier ++ [v])) = some settled
  fingerprint : contentHash (LineEnding.normalize source).1 =
    contentHash (LineEnding.normalize content).1
  moved : d.action ≠ .unchanged -> source = content
  ending : d.document.lineEnding = LineEnding.detect source

namespace Session

/-- Every sync that succeeds reports the line ending of the content that the document stands
at. This is what the sync has read if it has opened or changed the document, and else it may
be another content of the same fingerprint; so the report is right if and only if the two
have the same line ending. -/
theorem course_reportsEndings [FileSystem D] {settings : Settings} {processId : Nat}
    {workspace : Workspace D} {moments : List (Moment D)} {s : Session D}
    (course : Course (Session.new settings processId workspace) moments s) {id : Nat}
    {name : Text} (began : Began moments id (.sync name)) {d : SyncedDocument}
    (returned : s.outcome? id = some (.ok (.synced d))) :
    exists k input content source earlier v later, moments = earlier ++ v :: later ∧
      ReportsOn id k name input content source earlier v d ∧
      (forall r j name' input', r ∈ moments -> r.Reads id j name' input' -> input' = input) ∧
      (d.document.lineEnding = LineEnding.detect content <->
        LineEnding.detect source = LineEnding.detect content) := by
  rcases course.serves_of_report began (outcome?_eq_some.mp returned) with
    ⟨k, input, t, earlier, v, later, rfl, hserved, rfl, hreport⟩
  rcases course.reads_of_served hserved with ⟨r, name', hr, hreads⟩
  have hname : name' = name := by
    rcases List.append_of_mem hr with ⟨first, second, rfl⟩
    rw [List.append_assoc, List.cons_append] at course began
    exact course.name_of_reads began hreads
  subst hname
  rcases renders_of_readFile hreads.content with ⟨content, hcontent, hrenders⟩
  have honce : forall r' j name'' input', r' ∈ earlier ++ v :: later ->
      r'.Reads t.call j name'' input' -> input' = input :=
    fun r' j name'' input' hr' hreads' =>
      course.reads_once began hr' (List.mem_append_left _ hr) hreads' hreads
  rcases History.stands_of_report (operations k earlier) input with
    ⟨settled, hstands, hhash, hmoved⟩
  rw [← hreport, ← operations_concat_some (Moment.operation?_of_served hserved)] at hstands
  rw [← hreport] at hmoved
  suffices exists source, ReportsOn t.call k name' input content source earlier v d by
    rcases this with ⟨source, h⟩
    exact ⟨k, input, content, source, earlier, v, later, rfl, h, honce, by rw [h.ending]⟩
  by_cases hsame : settled = input
  · subst hsame
    exact ⟨content, {
      read := ⟨r, hr, hreads, hcontent⟩
      served := ⟨t, hserved, rfl⟩
      report := hreport
      stands := ⟨r, t.call, name', settled, hr, hreads, hcontent, hstands.settled⟩
      fingerprint := rfl
      moved := fun _ => rfl
      ending := hstands.lineEnding.trans hrenders.lineEnding }⟩
  · rcases course.reads_of_operation hstands.synced with ⟨r', caller, other, hr', hreads'⟩
    rcases renders_of_readFile hreads'.content with ⟨source, hsource, hrenders'⟩
    exact ⟨source, {
      read := ⟨r, hr, hreads, hcontent⟩
      served := ⟨t, hserved, rfl⟩
      report := hreport
      stands := ⟨r', caller, other, settled, hr', hreads', hsource, hstands.settled⟩
      fingerprint := by rw [← hrenders.text, ← hrenders'.text, ← hrenders.hash,
        ← hrenders'.hash, hhash]
      moved := fun haction => absurd (hmoved haction) hsame
      ending := hstands.lineEnding.trans hrenders'.lineEnding }⟩

/-!
## A file with other line endings
-/

def shelf (content : String) : Memory :=
  Memory.empty.set (.ofString "/w/f") (some (.file content.toList))

def roomy : Settings :=
  { (default : Settings) with maxFileBytes := 10 }

def opening : List Action :=
  [.begin (.start .streams), .goOn 0, .serve 0,
    .receive 0 (framed "\x7b\"id\":1,\"result\":null\x7d"), .takeIn 0, .goOn 0, .serve 0,
    .goOn 0]

def wholeSync (id : Nat) : List Action :=
  [.begin (.sync ['f']), .goOn id, .goOn id, .serve 0, .goOn id]

/-- Somebody rewrites a file with other line endings between two syncs. -/
def rewriting : List (Memory ⊕ Action) :=
  (opening ++ wholeSync 1).map .inr ++ .inl (shelf "a\r\n") :: (wholeSync 2).map .inr

def findsOnly (id : Nat) (content : Text) (m : Moment Memory) : Bool :=
  match m.action, m.before.task? id with
  | .goOn j, some (.reading _ name _) => j != id || m.before.fileText? name == some content
  | _, _ => true

theorem fileText?_of_findsOnly {id k : Nat} {name content : Text} {input : SyncInput}
    {r : Moment Memory} (h : findsOnly id content r = true)
    (hreads : r.Reads id k name input) :
    r.before.fileText? name = some content := by
  rcases hreads.task with ⟨next, htask⟩
  simpa [findsOnly, hreads.action, htask] using h

theorem exists_rewriting :
    exists moments s d,
      Course (Session.new roomy 0 (Workspace.new (.ofString "/w") (shelf "a\n"))) moments s ∧
      Began moments 2 (.sync ['f']) ∧ s.outcome? 2 = some (.ok (.synced d)) ∧
      d.document.lineEnding = .lf ∧
      forall r k name input, r ∈ moments -> r.Reads 2 k name input ->
        r.before.fileText? name = some "a\r\n".toList := by
  have hcourse : ((Session.new roomy 0
      (Workspace.new (.ofString "/w") (shelf "a\n"))).play rewriting).map (fun (moments, s) =>
        (((s.task? 2).bind Task.synced?).map (·.document.lineEnding), (begun moments)[2]?,
          moments.all (findsOnly 2 "a\r\n".toList))) =
      some (some .lf, some (.sync ['f']), true) := by
    decide +kernel
  rcases exists_course_of_play hcourse with ⟨moments, s, course, heq⟩
  simp only [Prod.mk.injEq] at heq
  rcases heq with ⟨hending, hbegan, hreads⟩
  rcases Option.map_eq_some_iff.mp hending with ⟨d, hd, hlf⟩
  rcases Option.bind_eq_some_iff.mp hd with ⟨task, htask, hreport⟩
  refine ⟨moments, s, d, course, hbegan, ?_, hlf, fun r k name input hr h => ?_⟩
  · rw [outcome?_eq_some, htask, Task.synced?_eq_some.mp hreport]
  · exact fileText?_of_findsOnly (List.all_eq_true.mp hreads r hr) h

theorem course_reportsEndings_rewriting :
    exists moments s d,
      Course (Session.new roomy 0 (Workspace.new (.ofString "/w") (shelf "a\n"))) moments s ∧
      Began moments 2 (.sync ['f']) ∧ s.outcome? 2 = some (.ok (.synced d)) ∧
      exists k input content source earlier v later, moments = earlier ++ v :: later ∧
        ReportsOn 2 k ['f'] input content source earlier v d ∧
        (forall r j name' input', r ∈ moments -> r.Reads 2 j name' input' -> input' = input) ∧
        (d.document.lineEnding = LineEnding.detect content <->
          LineEnding.detect source = LineEnding.detect content) := by
  rcases exists_rewriting with ⟨moments, s, d, course, began, returned, _⟩
  exact ⟨moments, s, d, course, began, returned, course_reportsEndings course began returned⟩

/-- Not every sync that succeeds reports the line ending of what it has read. -/
theorem not_reportsOwnEnding :
    ¬ forall (settings : Settings) (workspace : Workspace Memory) moments s,
      Course (Session.new settings 0 workspace) moments s ->
      forall id name d, Began moments id (.sync name) ->
      s.outcome? id = some (.ok (.synced d)) ->
      forall r k name' input content, r ∈ moments -> r.Reads id k name' input ->
        r.before.fileText? name' = some content ->
          d.document.lineEnding = LineEnding.detect content := by
  intro hright
  rcases exists_rewriting with ⟨moments, s, d, course, began, returned, hlf, hreads⟩
  rcases course.serves_of_report began (outcome?_eq_some.mp returned) with
    ⟨k, input, t, earlier, v, later, rfl, hserved, hid, _⟩
  rcases course.reads_of_served hserved with ⟨r, name, hr, hread⟩
  rw [hid] at hread
  have hmem : r ∈ earlier ++ v :: later := List.mem_append_left _ hr
  have hending := hright _ _ _ _ course 2 _ d began returned r k name input _ hmem hread
    (hreads r k name input hmem hread)
  rw [hlf] at hending
  exact absurd hending (by decide)

end Session
end LanguageClient

import LanguageClient.Proofs.Document.History
import LanguageClient.Session.Connection

/-!
# Notices that cannot be written

A connection brings its record of the open documents up to date before it tells the server.
When the notice cannot be written, the caller gets a failure and the record stays as if the
server had been told: a second sync of the same content finds nothing to do, and a second
close finds nothing open. The main statement says that this is what happens after every
failed sync and every failed close.
-/

namespace LanguageClient
namespace Connection

open History

/-!
# Writing
-/

theorem write_eq_error {c after : Connection} {out : Outgoing} {e : Failure}
    (h : c.write out = (after, .error e)) :
    c.writable = false ∧ after = c ∧ e = .transport .brokenPipe := by
  unfold write at h
  split at h
  · cases h
  · rename_i hwritable
    cases h
    exact ⟨by simpa using hwritable, rfl, rfl⟩

theorem write_of_not_writable {c : Connection} (out : Outgoing) (h : c.writable = false) :
    c.write out = (c, .error (.transport .brokenPipe)) := by
  rw [write, if_neg (by simp [h])]

def withStore (c : Connection) (store : DocumentStore) : Connection :=
  { c with store }

@[simp] theorem withStore_writable (c : Connection) (store : DocumentStore) :
    (c.withStore store).writable = c.writable := rfl

/-!
# Records that have moved
-/

theorem store_sync_ne {s : DocumentStore} {input : SyncInput} {m : Message}
    (h : (s.sync input).2.2 = some m) : (s.sync input).1 ≠ s := by
  intro heq
  have hafter := get?_store_sync s input
  rw [heq] at hafter
  cases hopen : s.documents.get? input.uri with
  | none =>
      rw [hopen] at hafter
      cases hafter
  | some d =>
      by_cases hsame : d.hash = input.hash
      · rw [sync_of_same hopen hsame] at h
        cases h
      · rw [hopen, sync_of_moved hopen hsame] at hafter
        have hhash := congrArg Document.hash (Option.some.inj hafter)
        exact hsame hhash

theorem sync_again (s : DocumentStore) (input : SyncInput) :
    exists d : Document, d.hash = input.hash ∧
      (s.sync input).1.sync input = ((s.sync input).1, ⟨d, .unchanged⟩, none) := by
  have hafter := get?_store_sync s input
  have hhash : (s.sync input).2.1.document.hash = input.hash := by
    cases hopen : s.documents.get? input.uri with
    | none =>
        rw [sync_of_closed hopen]
        rfl
    | some d =>
        by_cases hsame : d.hash = input.hash
        · rw [sync_of_same hopen hsame]
          exact hsame
        · rw [sync_of_moved hopen hsame]
          rfl
  exact ⟨_, hhash, sync_of_same hafter hhash⟩

/-!
# Serving
-/

theorem serve_sync_quiet {c : Connection} {input : SyncInput} {store : DocumentStore}
    {synced : SyncedDocument} (now : Nat) (t : Ticket)
    (h : c.store.sync input = (store, synced, none)) :
    serve now c (.sync input t) = (c.withStore store, .answer t (.synced (.ok synced))) := by
  rw [serve, h]
  rfl

theorem serve_sync_noticed {c : Connection} {input : SyncInput} {store : DocumentStore}
    {synced : SyncedDocument} {m : Message} (now : Nat) (t : Ticket)
    (h : c.store.sync input = (store, synced, some m)) :
    serve now c (.sync input t) =
      (((c.withStore store).write (.message m)).1,
        .answer t (.synced (((c.withStore store).write (.message m)).2.map
          fun () => synced))) := by
  rw [serve, h]
  rfl

theorem serve_close_quiet {c : Connection} {uri : String} (now : Nat) (t : Ticket)
    (h : c.store.isOpen uri = false) :
    serve now c (.close uri t) = (c, .answer t (.closed (.ok false))) := by
  rw [serve, close_of_closed h]

theorem serve_close_noticed {c : Connection} {uri : String} (now : Nat) (t : Ticket)
    (h : c.store.isOpen uri = true) :
    serve now c (.close uri t) =
      (((c.withStore (c.store.close uri).1).write
          (.message (Document.didClose uri))).1,
        .answer t (.closed (((c.withStore (c.store.close uri).1).write
          (.message (Document.didClose uri))).2.map fun () => true))) := by
  rw [serve, close_of_open h]
  rfl

/-- How a failed sync ends: the record has moved, and syncing the same content once more
finds it there. -/
structure SyncRecorded (c after : Connection) (input : SyncInput) (e : Failure) : Prop where
  cause : e = .transport .brokenPipe
  moved : after = c.withStore (c.store.sync input).1 ∧ after.store ≠ c.store
  again : forall now t, exists d : Document, d.hash = input.hash ∧
    serve now after (.sync input t) = (after, .answer t (.synced (.ok ⟨d, .unchanged⟩)))

/-- How a failed close ends: the document is forgotten, and closing it
once more finds it closed. -/
structure CloseRecorded (c after : Connection) (uri : String) (e : Failure) : Prop where
  cause : e = .transport .brokenPipe
  moved : after = c.withStore (c.store.close uri).1 ∧ c.store.isOpen uri = true ∧
    after.store.isOpen uri = false
  again : forall now t,
    serve now after (.close uri t) = (after, .answer t (.closed (.ok false)))

theorem answer_inj {t : Ticket} {a b : Answer} (h : Emitted.answer t a = Emitted.answer t b) :
    a = b := by
  have hanswers := congrArg Emitted.answers h
  exact (Prod.mk.inj (List.cons.inj hanswers).left).right

theorem syncRecorded_of_error {now : Nat} {c after : Connection} {input : SyncInput}
    {t : Ticket}
    {e : Failure} (h : serve now c (.sync input t) = (after, .answer t (.synced (.error e)))) :
    SyncRecorded c after input e := by
  rcases hsync : c.store.sync input with ⟨store, synced, notification⟩
  cases notification with
  | none =>
      rw [serve_sync_quiet now t hsync] at h
      cases answer_inj (Prod.mk.inj h).right
  | some m =>
      rw [serve_sync_noticed now t hsync] at h
      rcases Prod.mk.inj h with ⟨hafter, hanswer⟩
      have hresult := Answer.synced.inj (answer_inj hanswer)
      cases hwrite : (c.withStore store).write (.message m) with
      | mk written result =>
          rw [hwrite] at hafter hresult
          cases result with
          | ok => cases hresult
          | error reason =>
              cases hresult
              rcases write_eq_error hwrite with ⟨-, hsame, hcause⟩
              have hstore : (c.store.sync input).1 = store := by
                rw [hsync]
              have heq : after = c.withStore (c.store.sync input).1 := by
                rw [← hafter, hsame, hstore]
              refine ⟨hcause, ⟨heq, ?_⟩, ?_⟩
              · rw [heq]
                exact store_sync_ne (m := m) (by rw [hsync])
              · intro later u
                rcases sync_again c.store input with ⟨d, hhash, hagain⟩
                refine ⟨d, hhash, ?_⟩
                rw [heq]
                exact serve_sync_quiet later u hagain

theorem closeRecorded_of_error {now : Nat} {c after : Connection} {uri : String} {t : Ticket}
    {e : Failure} (h : serve now c (.close uri t) = (after, .answer t (.closed (.error e)))) :
    CloseRecorded c after uri e := by
  cases hopen : c.store.isOpen uri with
  | false =>
      rw [serve_close_quiet now t hopen] at h
      cases answer_inj (Prod.mk.inj h).right
  | true =>
      rw [serve_close_noticed now t hopen] at h
      rcases Prod.mk.inj h with ⟨hafter, hanswer⟩
      have hresult := Answer.closed.inj (answer_inj hanswer)
      cases hwrite : (c.withStore (c.store.close uri).1).write
          (.message (Document.didClose uri)) with
      | mk written result =>
          rw [hwrite] at hafter hresult
          cases result with
          | ok => cases hresult
          | error reason =>
              cases hresult
              rcases write_eq_error hwrite with ⟨-, hsame, hcause⟩
              have heq : after = c.withStore (c.store.close uri).1 := by
                rw [← hafter, hsame]
              have hclosed : after.store.isOpen uri = false := by
                rw [heq]
                exact isOpen_close c.store uri
              exact ⟨hcause, ⟨heq, hopen, hclosed⟩, fun later u =>
                serve_close_quiet later u hclosed⟩

/-!
# Failed notices stay on record
-/

/-- Whether a failed sync or close leaves the record as it was. -/
def UndoesFailedNotices (c : Connection) : Prop :=
  forall (now : Nat) (t : Ticket) (after : Connection) (e : Failure),
    (forall input, serve now c (.sync input t) = (after, .answer t (.synced (.error e))) ->
      after.store = c.store) ∧
    (forall uri, serve now c (.close uri t) = (after, .answer t (.closed (.error e))) ->
      after.store = c.store)

theorem exists_noticed (s : DocumentStore) (uri : String) :
    exists input : SyncInput, exists m, input.uri = uri ∧ (s.sync input).2.2 = some m := by
  cases hopen : s.documents.get? uri with
  | none => exact ⟨⟨uri, default, [], "", "", .lf⟩, _, rfl, by rw [sync_of_closed hopen]⟩
  | some d =>
      have hmoved : d.hash ≠ d.hash ++ "+" := by
        intro heq
        have hlength := congrArg String.length heq
        rw [String.length_append] at hlength
        simp at hlength
      exact ⟨⟨uri, default, [], d.hash ++ "+", "", .lf⟩, _, rfl,
        by rw [sync_of_moved hopen hmoved]⟩

theorem undoesFailedNotices_iff (c : Connection) :
    c.UndoesFailedNotices ↔ c.writable = true := by
  constructor
  · intro hundoes
    by_contra hwritable
    rw [Bool.not_eq_true] at hwritable
    rcases exists_noticed c.store "" with ⟨input, m, -, hm⟩
    have hsync : c.store.sync input =
        ((c.store.sync input).1, (c.store.sync input).2.1, some m) := by
      rw [← hm]
    have hserve := serve_sync_noticed 0 ⟨0, 0⟩ hsync
    rw [write_of_not_writable _ ((withStore_writable ..).trans hwritable)] at hserve
    exact store_sync_ne hm ((hundoes 0 ⟨0, 0⟩ _ _).left input hserve)
  · intro hwritable now t after e
    constructor
    · intro input h
      rcases hsync : c.store.sync input with ⟨store, synced, notification⟩
      cases notification with
      | none =>
          rw [serve_sync_quiet now t hsync] at h
          cases answer_inj (Prod.mk.inj h).right
      | some m =>
          rw [serve_sync_noticed now t hsync, write, withStore_writable,
            if_pos hwritable] at h
          cases answer_inj (Prod.mk.inj h).right
    · intro uri h
      cases hopen : c.store.isOpen uri with
      | false =>
          rw [serve_close_quiet now t hopen] at h
          cases answer_inj (Prod.mk.inj h).right
      | true =>
          rw [serve_close_noticed now t hopen, write, withStore_writable,
            if_pos hwritable] at h
          cases answer_inj (Prod.mk.inj h).right

/-- Every failed sync and every failed close stays on record: the failed change has been
made, and asking for it again finds it made. So the record is left as it was only where
nothing can fail. -/
theorem failedNotices_recorded (now : Nat) (c after : Connection) (t : Ticket) (e : Failure) :
    (forall input, serve now c (.sync input t) = (after, .answer t (.synced (.error e))) ->
        SyncRecorded c after input e) ∧
      (forall uri, serve now c (.close uri t) = (after, .answer t (.closed (.error e))) ->
        CloseRecorded c after uri e) ∧
      (c.UndoesFailedNotices ↔ c.writable = true) :=
  ⟨fun _ => syncRecorded_of_error, fun _ => closeRecorded_of_error, undoesFailedNotices_iff c⟩

def unread : Connection :=
  (Connection.new false).breakPipe

def firstDraft : SyncInput :=
  ⟨"file:///work/a.ts", .ofString "/work/a.ts", ['x'], "x", "typescript", .lf⟩

theorem failedNotices_recorded_firstDraft :
    serve 0 unread (.sync firstDraft ⟨0, 1⟩) =
        (unread.withStore (unread.store.sync firstDraft).1,
          .answer ⟨0, 1⟩ (.synced (.error (.transport .brokenPipe)))) ∧
      SyncRecorded unread (unread.withStore (unread.store.sync firstDraft).1) firstDraft
        (.transport .brokenPipe) := by
  have hserve : serve 0 unread (.sync firstDraft ⟨0, 1⟩) =
      (unread.withStore (unread.store.sync firstDraft).1,
        .answer ⟨0, 1⟩ (.synced (.error (.transport .brokenPipe)))) := by
    rfl
  exact ⟨hserve, (failedNotices_recorded 0 unread _ ⟨0, 1⟩ _).left firstDraft hserve⟩

/-- The sync fails, one document is on record all the same, and syncing it again answers
that there is nothing to do. -/
theorem firstDraft_not_undone :
    ¬ unread.UndoesFailedNotices ∧
      exists after d,
        serve 0 unread (.sync firstDraft ⟨0, 1⟩) =
          (after, .answer ⟨0, 1⟩ (.synced (.error (.transport .brokenPipe)))) ∧
        unread.store.size = 0 ∧ after.store.size = 1 ∧
        serve 0 after (.sync firstDraft ⟨1, 1⟩) =
          (after, .answer ⟨1, 1⟩ (.synced (.ok ⟨d, .unchanged⟩))) := by
  have hserve : serve 0 unread (.sync firstDraft ⟨0, 1⟩) =
      (unread.withStore (unread.store.sync firstDraft).1,
        .answer ⟨0, 1⟩ (.synced (.error (.transport .brokenPipe)))) := by
    rfl
  constructor
  · intro hundoes
    have hsize := congrArg DocumentStore.size ((hundoes 0 ⟨0, 1⟩ _ _).left firstDraft hserve)
    exact absurd hsize (by decide)
  · exact ⟨_, _, hserve, rfl, rfl, rfl⟩

end Connection
end LanguageClient

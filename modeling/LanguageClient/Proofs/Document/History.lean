import LanguageClient.Proofs.Document.ServerCopy
import Mathlib.Data.List.Induction

/-!
# Histories of open documents

The record of open documents says what to tell the server. This module follows the record and
the server's copy over any history of syncs and closes: the server is never told something it
cannot take, and its copy holds the documents of the record, with the texts last synced.

Versions on the wire are integers of 31 bits and a sign, so a document may change only so
often before it is closed. Changes are noticed by the fingerprints of texts alone, so two
texts of one history must not share a fingerprint.
-/

namespace LanguageClient

/-!
# Histories

A history is what has been asked of the record of open documents, the oldest first.
-/

theorem split_of_concat {α : Type} {l before after : List α} {x y : α}
    (h : l ++ [x] = before ++ y :: after) :
    (l = before ∧ x = y ∧ after = []) ∨
      exists after', after = after' ++ [x] ∧ l = before ++ y :: after' := by
  rcases List.eq_nil_or_concat after with rfl | ⟨after', last, rfl⟩
  · rcases List.append_inj' h rfl with ⟨hbefore, hlast⟩
    exact Or.inl ⟨hbefore, List.head_eq_of_cons_eq hlast, rfl⟩
  · rw [List.concat_eq_append, ← List.cons_append, ← List.append_assoc] at h
    rcases List.append_inj' h rfl with ⟨rfl, hlast⟩
    cases List.head_eq_of_cons_eq hlast
    exact Or.inr ⟨after', List.concat_eq_append, rfl⟩

theorem split_of_filterMap {α β : Type} {f : α -> Option β} {l : List α} {past rest : List β}
    {y : β} (h : l.filterMap f = past ++ y :: rest) :
    exists before x after,
      l = before ++ x :: after ∧ before.filterMap f = past ∧ f x = some y ∧
      after.filterMap f = rest := by
  rcases List.filterMap_eq_append_iff.mp h with ⟨first, second, rfl, hfirst, hsecond⟩
  rcases List.filterMap_eq_cons_iff.mp hsecond with ⟨idle, x, after, rfl, hidle, hx, hafter⟩
  refine ⟨first ++ idle, x, after, by simp, ?_, hx, hafter⟩
  rw [List.filterMap_append, hfirst, List.filterMap_eq_nil_iff.mpr hidle, List.append_nil]

inductive DocumentOperation where
  | sync (input : SyncInput)
  | close (uri : String)

namespace DocumentOperation

def apply (s : DocumentStore) : DocumentOperation -> DocumentStore × Option Message
  | .sync input => ((s.sync input).1, (s.sync input).2.2)
  | .close uri => s.close uri

/-- The texts synced to `uri` since it was last opened, after one more operation. -/
def addText (uri : String) (texts : List Text) : DocumentOperation -> List Text
  | .sync input => if input.uri = uri then texts ++ [input.text] else texts
  | .close other => if other = uri then [] else texts

end DocumentOperation

namespace History

def store (history : List DocumentOperation) : DocumentStore :=
  history.foldl (fun s op => (op.apply s).1) .empty

def notices (history : List DocumentOperation) : List Message :=
  (history.foldl (fun (s, said) op => ((op.apply s).1, said ++ (op.apply s).2.toList))
    (DocumentStore.empty, [])).2

def texts (uri : String) (history : List DocumentOperation) : List Text :=
  history.foldl (DocumentOperation.addText uri) []

def changes : List Text -> Nat
  | first :: second :: rest => (if first = second then 0 else 1) + changes (second :: rest)
  | _ => 0

/-!
## One more operation
-/

@[simp] theorem store_append (history : List DocumentOperation) (op : DocumentOperation) :
    store (history ++ [op]) = (op.apply (store history)).1 := by
  simp [store, List.foldl_append]

theorem foldl_notices (history : List DocumentOperation) (s : DocumentStore)
    (said : List Message) :
    (history.foldl (fun (s, said) op => ((op.apply s).1, said ++ (op.apply s).2.toList))
      (s, said)).1 = history.foldl (fun s op => (op.apply s).1) s := by
  induction history generalizing s said with
  | nil => rfl
  | cons op rest ih => exact ih _ _

@[simp] theorem notices_append (history : List DocumentOperation) (op : DocumentOperation) :
    notices (history ++ [op]) = notices history ++ (op.apply (store history)).2.toList := by
  rw [notices, List.foldl_append, notices, store, ← foldl_notices history .empty []]
  rfl

@[simp] theorem texts_append (uri : String) (history : List DocumentOperation)
    (op : DocumentOperation) :
    texts uri (history ++ [op]) = op.addText uri (texts uri history) := by
  simp [texts, List.foldl_append]

theorem changes_append {texts : List Text} {last : Text} (text : Text)
    (h : texts.getLast? = some last) :
    changes (texts ++ [text]) = changes texts + if last = text then 0 else 1 := by
  fun_induction changes texts with
  | case1 first second rest ih =>
      rw [List.cons_append, List.cons_append, changes, ← List.cons_append,
        ih (by rwa [List.getLast?_cons_cons] at h)]
      omega
  | case2 texts hshort =>
      match texts, h with
      | [only], h =>
          have hlast : only = last := by simpa using h
          simp [changes, hlast]
      | first :: second :: rest, _ => exact absurd rfl (hshort first second rest)

theorem changes_le_length (texts : List Text) : changes texts ≤ texts.length := by
  fun_induction changes texts with
  | case1 first second rest ih =>
      rw [List.length_cons]
      split <;> omega
  | case2 => exact Nat.zero_le _

theorem length_texts_le (uri : String) (history : List DocumentOperation) :
    (texts uri history).length ≤ history.length := by
  induction history using List.reverseRecOn with
  | nil => simp [texts]
  | append_singleton past op ih =>
      rw [texts_append, List.length_append, List.length_singleton]
      cases op with
      | sync input =>
          rw [DocumentOperation.addText]
          split
          · rw [List.length_append, List.length_singleton]
            omega
          · omega
      | close other =>
          rw [DocumentOperation.addText]
          split
          · exact Nat.zero_le _
          · omega

/-!
# What a history has to keep to
-/

/-- Fingerprints are those of the texts and tell them apart, and no document changes so
often that its version leaves the 31 bits. -/
structure Regular (history : List DocumentOperation) : Prop where
  hash : forall input, .sync input ∈ history -> input.hash = contentHash input.text
  distinct : forall a b, .sync a ∈ history -> .sync b ∈ history ->
    contentHash a.text = contentHash b.text -> a.text = b.text
  changes_lt : forall past uri, past <+: history ->
    changes (texts uri past) + 1 < ServerCopy.versionBound

theorem Regular.past {history past : List DocumentOperation} (h : Regular history)
    (hpast : past <+: history) : Regular past where
  hash input hin := h.hash input (hpast.mem hin)
  distinct a b ha hb := h.distinct a b (hpast.mem ha) (hpast.mem hb)
  changes_lt before uri hbefore := h.changes_lt before uri (hbefore.trans hpast)

theorem mem_of_mem_texts {uri : String} {history : List DocumentOperation} {text : Text}
    (h : text ∈ texts uri history) :
    exists input, .sync input ∈ history ∧ input.text = text := by
  induction history using List.reverseRecOn with
  | nil => simp [texts] at h
  | append_singleton past op ih =>
      have hpast : text ∈ texts uri past ->
          exists input, DocumentOperation.sync input ∈ past ++ [op] ∧ input.text = text := by
        intro hin
        rcases ih hin with ⟨input, hmem, htext⟩
        exact ⟨input, List.mem_append_left _ hmem, htext⟩
      rw [texts_append] at h
      cases op with
      | sync input =>
          rw [DocumentOperation.addText] at h
          split at h
          · rcases List.mem_append.mp h with hin | hnew
            · exact hpast hin
            · exact ⟨input, by simp, (List.mem_singleton.mp hnew).symm⟩
          · exact hpast h
      | close other =>
          rw [DocumentOperation.addText] at h
          split at h
          · cases h
          · exact hpast h

/-!
# Record, server and history

The three views of one document are compared URI by URI. An operation touches the views of
its own URI alone, so a step has to be checked there only.
-/

/-- What the record and the server hold of a document to which `texts` were
synced since it was opened. -/
def Agree (uri : String) (texts : List Text) (held : Option ServerDocument) :
    Option Document -> Prop
  | none => texts = [] ∧ held = none
  | some d =>
      d.uri = uri ∧ d.version = 1 + changes texts ∧
        exists text, texts.getLast? = some text ∧ d.hash = contentHash text ∧
          held = some ⟨d.version, String.ofList text⟩

/-- The server's copy holds the documents of the record, in their last version. -/
def Follows (history : List DocumentOperation) (copy : ServerCopy) : Prop :=
  forall uri, Agree uri (texts uri history) (copy.get? uri)
    ((store history).documents.get? uri)

theorem follows_empty : Follows [] .empty := by
  intro uri
  exact ⟨rfl, rfl⟩

theorem follows_of_agree {past : List DocumentOperation} {copy next : ServerCopy}
    {op : DocumentOperation} (uri : String) (h : Follows past copy)
    (hrecord : forall other, uri ≠ other ->
      (op.apply (store past)).1.documents.get? other = (store past).documents.get? other)
    (htexts : forall other, uri ≠ other ->
      op.addText other (texts other past) = texts other past)
    (hcopy : forall other, uri ≠ other -> next.get? other = copy.get? other)
    (hagree : Agree uri (op.addText uri (texts uri past)) (next.get? uri)
      ((op.apply (store past)).1.documents.get? uri)) :
    Follows (past ++ [op]) next := by
  intro other
  rw [texts_append, store_append]
  by_cases hother : uri = other
  · rw [← hother]
    exact hagree
  · rw [htexts other hother, hcopy other hother, hrecord other hother]
    exact h other

theorem addText_sync_self (input : SyncInput) (texts : List Text) :
    DocumentOperation.addText input.uri texts (.sync input) = texts ++ [input.text] :=
  if_pos rfl

theorem addText_sync_other {input : SyncInput} {uri : String} (h : input.uri ≠ uri)
    (texts : List Text) : DocumentOperation.addText uri texts (.sync input) = texts :=
  if_neg h

/-!
## Syncs

A sync opens a closed document, leaves an open one with the same fingerprint alone, and
changes it otherwise.
-/

def opened (input : SyncInput) : Document :=
  ⟨input.uri, input.path, 1, input.hash, input.languageId, input.lineEnding⟩

def moved (d : Document) (input : SyncInput) : Document :=
  { d with version := d.version + 1, hash := input.hash, lineEnding := input.lineEnding }

theorem sync_of_closed {s : DocumentStore} {input : SyncInput}
    (h : s.documents.get? input.uri = none) :
    s.sync input =
      ({ s with documents := s.documents.insert input.uri (opened input) },
        ⟨opened input, .opened⟩, some ((opened input).didOpen input.text)) := by
  rw [DocumentStore.sync, h]
  rfl

theorem sync_of_same {s : DocumentStore} {input : SyncInput} {d : Document}
    (h : s.documents.get? input.uri = some d) (hsame : d.hash = input.hash) :
    s.sync input = (s, ⟨d, .unchanged⟩, none) := by
  rw [DocumentStore.sync, h]
  exact if_pos hsame

theorem sync_of_moved {s : DocumentStore} {input : SyncInput} {d : Document}
    (h : s.documents.get? input.uri = some d) (hmoved : d.hash ≠ input.hash) :
    s.sync input =
      ({ s with documents := s.documents.insert input.uri (moved d input) },
        ⟨moved d input, .changed⟩, some ((moved d input).didChange input.text)) := by
  rw [DocumentStore.sync, h]
  exact if_neg hmoved

theorem follows_sync_closed {past : List DocumentOperation} {copy : ServerCopy}
    {input : SyncInput} (h : Follows past copy) (hhash : input.hash = contentHash input.text)
    (hclosed : (store past).documents.get? input.uri = none) :
    exists next, copy.replay ((store past).sync input).2.2.toList = some next ∧
      Follows (past ++ [.sync input]) next := by
  have hview := h input.uri
  rw [hclosed] at hview
  rcases hview with ⟨htexts, hheld⟩
  have hsync := sync_of_closed hclosed
  refine ⟨copy.insert input.uri ⟨1, String.ofList input.text⟩, ?_, ?_⟩
  · rw [hsync]
    have htaken : copy.receive ((opened input).didOpen input.text) =
        some (copy.insert input.uri ⟨1, String.ofList input.text⟩) := by
      apply ServerCopy.receive_didOpen input.text hheld
      change 1 < ServerCopy.versionBound
      decide
    simp [ServerCopy.replay, htaken]
  · apply follows_of_agree input.uri h
    · intro other hother
      simp [DocumentOperation.apply, hsync, hother]
    · intro other hother
      exact addText_sync_other hother _
    · intro other hother
      simp [hother]
    · rw [addText_sync_self, htexts]
      simp [DocumentOperation.apply, hsync, Agree, opened, changes, hhash]

theorem follows_sync_same {past : List DocumentOperation} {copy : ServerCopy}
    {input : SyncInput} {d : Document} (h : Follows past copy)
    (hopen : (store past).documents.get? input.uri = some d) (hsame : d.hash = input.hash)
    (hlast : (texts input.uri past).getLast? = some input.text) :
    exists next, copy.replay ((store past).sync input).2.2.toList = some next ∧
      Follows (past ++ [.sync input]) next := by
  have hview := h input.uri
  rw [hopen] at hview
  rcases hview with ⟨huri, hversion, text, htext, hhash, hheld⟩
  have hsync := sync_of_same hopen hsame
  refine ⟨copy, ?_, ?_⟩
  · rw [hsync]
    rfl
  · apply follows_of_agree input.uri h
    · intro other _
      simp [DocumentOperation.apply, hsync]
    · intro other hother
      exact addText_sync_other hother _
    · intro other _
      rfl
    · have heq : text = input.text := by
        rw [hlast] at htext
        exact (Option.some.inj htext).symm
      have hrecord : (DocumentOperation.apply (store past) (.sync input)).1.documents.get?
          input.uri = some d := by
        simp [DocumentOperation.apply, hsync, hopen]
      rw [addText_sync_self, hrecord]
      refine ⟨huri, ?_, input.text, List.getLast?_concat, heq ▸ hhash, heq ▸ hheld⟩
      rw [changes_append _ hlast, if_pos rfl, hversion, Nat.add_zero]

theorem follows_sync_moved {past : List DocumentOperation} {copy : ServerCopy}
    {input : SyncInput}
    {d : Document} (h : Follows past copy) (hhash : input.hash = contentHash input.text)
    (hopen : (store past).documents.get? input.uri = some d) (hmoved : d.hash ≠ input.hash)
    (hbound : changes (texts input.uri past ++ [input.text]) + 1 < ServerCopy.versionBound) :
    exists next, copy.replay ((store past).sync input).2.2.toList = some next ∧
      Follows (past ++ [.sync input]) next := by
  have hview := h input.uri
  rw [hopen] at hview
  rcases hview with ⟨huri, hversion, text, htext, hdhash, hheld⟩
  have hsync := sync_of_moved hopen hmoved
  have hne : text ≠ input.text := by
    intro heq
    exact hmoved (by rw [hdhash, heq, hhash])
  have hchanges : changes (texts input.uri past ++ [input.text]) =
      changes (texts input.uri past) + 1 := by
    rw [changes_append _ htext, if_neg hne]
  have hmovedVersion : (moved d input).version =
      1 + changes (texts input.uri past ++ [input.text]) := by
    rw [hchanges]
    change d.version + 1 = _
    omega
  refine ⟨copy.insert input.uri ⟨(moved d input).version, String.ofList input.text⟩, ?_, ?_⟩
  · rw [hsync]
    have hold : copy.get? (moved d input).uri = some ⟨d.version, String.ofList text⟩ := by
      rw [moved, huri, hheld]
    have htaken : copy.receive ((moved d input).didChange input.text) =
        some (copy.insert (moved d input).uri
          ⟨(moved d input).version, String.ofList input.text⟩) := by
      apply ServerCopy.receive_didChange input.text hold
      · rfl
      · omega
    have hmovedUri : (moved d input).uri = input.uri := huri
    simp [ServerCopy.replay, htaken, hmovedUri]
  · apply follows_of_agree input.uri h
    · intro other hother
      simp [DocumentOperation.apply, hsync, hother]
    · intro other hother
      exact addText_sync_other hother _
    · intro other hother
      simp [hother]
    · have hrecord : (DocumentOperation.apply (store past) (.sync input)).1.documents.get?
          input.uri = some (moved d input) := by
        simp [DocumentOperation.apply, hsync]
      rw [addText_sync_self, hrecord]
      exact ⟨huri, hmovedVersion, input.text, List.getLast?_concat, hhash, by simp⟩

/-!
## Closes
-/

theorem close_of_open {s : DocumentStore} {uri : String} (h : s.isOpen uri = true) :
    s.close uri = (⟨s.documents.erase uri, s.diagnostics.erase uri⟩,
      some (Document.didClose uri)) := by
  rcases Option.isSome_iff_exists.mp h with ⟨d, hd⟩
  rw [DocumentStore.close, hd]

theorem close_of_closed {s : DocumentStore} {uri : String} (h : s.isOpen uri = false) :
    s.close uri = (s, none) := by
  have hnone : s.documents.get? uri = none := by
    simpa [DocumentStore.isOpen, Table.contains] using h
  rw [DocumentStore.close, hnone]

theorem isOpen_close (s : DocumentStore) (uri : String) :
    (s.close uri).1.isOpen uri = false := by
  cases hopen : s.isOpen uri with
  | true =>
      rw [close_of_open hopen]
      simp [DocumentStore.isOpen, Table.contains]
  | false => rw [close_of_closed hopen, hopen]

theorem follows_close {past : List DocumentOperation} {copy : ServerCopy} (uri : String)
    (h : Follows past copy) :
    exists next, copy.replay ((store past).close uri).2.toList = some next ∧
      Follows (past ++ [.close uri]) next := by
  have hview := h uri
  cases hopen : (store past).documents.get? uri with
  | none =>
      rw [hopen] at hview
      rcases hview with ⟨htexts, hheld⟩
      have hclose : (store past).close uri = (store past, none) := by
        rw [DocumentStore.close, hopen]
      refine ⟨copy, ?_, ?_⟩
      · rw [hclose]
        rfl
      · apply follows_of_agree uri h
        · intro other _
          simp [DocumentOperation.apply, hclose]
        · intro other hother
          exact if_neg hother
        · intro other _
          rfl
        · simp [DocumentOperation.apply, hclose, hopen, DocumentOperation.addText, Agree,
            hheld]
  | some d =>
      rw [hopen] at hview
      rcases hview with ⟨huri, hversion, text, htext, hhash, hheld⟩
      have hclose : (store past).close uri =
          (⟨(store past).documents.erase uri, (store past).diagnostics.erase uri⟩,
            some (Document.didClose uri)) := by
        rw [DocumentStore.close, hopen]
      refine ⟨copy.erase uri, ?_, ?_⟩
      · rw [hclose]
        simp [ServerCopy.replay, ServerCopy.receive_didClose hheld]
      · apply follows_of_agree uri h
        · intro other hother
          simp [DocumentOperation.apply, hclose, hother]
        · intro other hother
          exact if_neg hother
        · intro other hother
          simp [hother]
        · simp [DocumentOperation.apply, hclose, DocumentOperation.addText, Agree]

/-!
# Runs
-/

/-- The last text synced and the fingerprint on record tell the same about a new text. -/
theorem hash_eq_iff {past : List DocumentOperation} {copy : ServerCopy} {input : SyncInput}
    {d : Document} {text : Text} (hregular : Regular (past ++ [.sync input]))
    (h : Follows past copy) (hopen : (store past).documents.get? input.uri = some d)
    (htext : (texts input.uri past).getLast? = some text) :
    d.hash = input.hash ↔ text = input.text := by
  have hview := h input.uri
  rw [hopen] at hview
  rcases hview with ⟨_, _, last, hlast, hhash, _⟩
  have heq : last = text := by
    rw [hlast] at htext
    exact Option.some.inj htext
  have hinput : DocumentOperation.sync input ∈ past ++ [.sync input] := by simp
  rw [hhash, heq, hregular.hash input hinput]
  constructor
  · intro hsame
    rcases mem_of_mem_texts (List.mem_of_getLast? htext) with ⟨earlier, hmem, hearlier⟩
    rw [← hearlier] at hsame ⊢
    exact hregular.distinct earlier input (List.mem_append_left _ hmem) hinput hsame
  · intro hsame
    rw [hsame]

theorem follows_sync {past : List DocumentOperation} {copy : ServerCopy} {input : SyncInput}
    (hregular : Regular (past ++ [.sync input])) (h : Follows past copy) :
    exists next, copy.replay ((store past).sync input).2.2.toList = some next ∧
      Follows (past ++ [.sync input]) next := by
  have hhash := hregular.hash input (by simp)
  cases hopen : (store past).documents.get? input.uri with
  | none => exact follows_sync_closed h hhash hopen
  | some d =>
      have hview := h input.uri
      rw [hopen] at hview
      rcases hview with ⟨_, _, text, htext, _, _⟩
      by_cases hsame : d.hash = input.hash
      · have heq := (hash_eq_iff hregular h hopen htext).mp hsame
        exact follows_sync_same h hopen hsame (heq ▸ htext)
      · have hbound := hregular.changes_lt _ input.uri (List.prefix_refl _)
        rw [texts_append, addText_sync_self] at hbound
        exact follows_sync_moved h hhash hopen hsame hbound

theorem follows_run {history : List DocumentOperation} (hregular : Regular history) :
    exists copy, ServerCopy.replay .empty (notices history) = some copy ∧
      Follows history copy := by
  induction history using List.reverseRecOn with
  | nil => exact ⟨.empty, rfl, follows_empty⟩
  | append_singleton past op ih =>
      rcases ih (hregular.past (List.prefix_append past [op])) with ⟨copy, hreplay, hfollows⟩
      have hstep : exists next, copy.replay (op.apply (store past)).2.toList = some next ∧
          Follows (past ++ [op]) next := by
        cases op with
        | sync input => exact follows_sync hregular hfollows
        | close uri => exact follows_close uri hfollows
      rcases hstep with ⟨next, htaken, hnext⟩
      refine ⟨next, ?_, hnext⟩
      rw [notices_append, ServerCopy.replay_append, hreplay, Option.bind_some, htaken]

theorem get?_store_sync (s : DocumentStore) (input : SyncInput) :
    (s.sync input).1.documents.get? input.uri = some (s.sync input).2.1.document := by
  cases hopen : s.documents.get? input.uri with
  | none => simp [sync_of_closed hopen]
  | some d =>
      by_cases hsame : d.hash = input.hash
      · simp [sync_of_same hopen hsame, hopen]
      · simp [sync_of_moved hopen hsame]

/-- The server can take every notice in order. After each operation it holds just the
documents on record, each with the text last synced and in the version on record, which
counts the changes since the document was opened. A sync reports that version, and says
nothing to the server when it brings the text that was last synced. -/
theorem serverCopy_follows_store {history : List DocumentOperation}
    (hregular : Regular history) :
    (forall past, past <+: history ->
      exists copy, ServerCopy.replay .empty (notices past) = some copy ∧ Follows past copy) ∧
    forall past input, past ++ [.sync input] <+: history ->
      ((store past).sync input).2.1.document.version =
          1 + changes (texts input.uri (past ++ [.sync input])) ∧
        (store (past ++ [.sync input])).documents.get? input.uri =
          some ((store past).sync input).2.1.document ∧
        ((texts input.uri past).getLast? = some input.text ->
          ((store past).sync input).2.2 = none) := by
  constructor
  · intro past hpast
    exact follows_run (hregular.past hpast)
  · intro past input hpast
    have hstep := hregular.past hpast
    have hrecord : (store (past ++ [.sync input])).documents.get? input.uri =
        some ((store past).sync input).2.1.document := by
      rw [store_append]
      exact get?_store_sync (store past) input
    refine ⟨?_, hrecord, ?_⟩
    · rcases follows_run hstep with ⟨copy, _, hfollows⟩
      have hview := hfollows input.uri
      rw [hrecord] at hview
      exact hview.2.1
    · intro hlast
      rcases follows_run (hstep.past (List.prefix_append past _)) with ⟨copy, _, hfollows⟩
      have hview := hfollows input.uri
      cases hopen : (store past).documents.get? input.uri with
      | none =>
          rw [hopen] at hview
          rw [hview.1] at hlast
          cases hlast
      | some d =>
          have hsame := (hash_eq_iff hstep hfollows hopen hlast).mpr rfl
          rw [sync_of_same hopen hsame]

def draft (uri : String) (text : Text) : SyncInput :=
  ⟨uri, .ofString uri, text, contentHash text, "plaintext", .lf⟩

def reopening : List DocumentOperation :=
  [.sync (draft "a" ['x']), .sync (draft "a" ['y']), .sync (draft "b" ['x']),
    .sync (draft "a" ['x']), .sync (draft "a" ['x']), .close "a", .sync (draft "a" ['y'])]

theorem regular_reopening : Regular reopening where
  hash := by
    intro input hin
    simp only [reopening, List.mem_cons, DocumentOperation.sync.injEq, reduceCtorEq, false_or,
      List.not_mem_nil, or_false] at hin
    rcases hin with rfl | rfl | rfl | rfl | rfl | rfl <;> rfl
  distinct := by
    have hxy : contentHash ['x'] ≠ contentHash ['y'] := by decide +kernel
    have htexts : forall input, DocumentOperation.sync input ∈ reopening ->
        input.text = ['x'] ∨ input.text = ['y'] := by
      intro input hin
      simp only [reopening, List.mem_cons, DocumentOperation.sync.injEq, reduceCtorEq,
        false_or, List.not_mem_nil, or_false] at hin
      rcases hin with rfl | rfl | rfl | rfl | rfl | rfl <;> simp [draft]
    intro a b ha hb hsame
    rcases htexts a ha with hax | hay <;> rcases htexts b hb with hbx | hby
    · rw [hax, hbx]
    · rw [hax, hby] at hsame
      exact absurd hsame hxy
    · rw [hay, hbx] at hsame
      exact absurd hsame.symm hxy
    · rw [hay, hby]
  changes_lt := by
    intro past uri hpast
    have hchanges := changes_le_length (texts uri past)
    have htexts := length_texts_le uri past
    have hlength : past.length ≤ 7 := hpast.length_le
    have hbound : 8 < ServerCopy.versionBound := by decide
    omega

theorem serverCopy_follows_reopening :
    Regular reopening ∧
      (exists copy, ServerCopy.replay .empty (notices reopening) = some copy ∧
        Follows reopening copy) ∧
      (notices reopening).length = 6 :=
  ⟨regular_reopening,
    (serverCopy_follows_store regular_reopening).left reopening (List.prefix_refl reopening),
    by decide +kernel⟩

end History
end LanguageClient

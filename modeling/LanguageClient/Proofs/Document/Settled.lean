import LanguageClient.Proofs.Document.History

/-!
# What a document owes its state to

Only a sync with another fingerprint moves an open document. So a document stands at the
last content that opened or moved it, however often contents of the same fingerprint have
been synced since; and what the record says of the file, its line ending above all, is what
that content said. It is also the content whose text the server has been sent last.
-/

namespace LanguageClient

def DocumentOperation.uri : DocumentOperation -> String
  | .sync input => input.uri
  | .close uri => uri

def DocumentOperation.settle (uri : String) (held : Option SyncInput) :
    DocumentOperation -> Option SyncInput
  | .sync input =>
    if input.uri = uri then
      match held with
      | none => some input
      | some before => if before.hash = input.hash then some before else some input
    else held
  | .close other => if other = uri then none else held

namespace History

/-- The content that document `uri` stands at; nothing if it is not open. -/
def settled? (uri : String) (history : List DocumentOperation) : Option SyncInput :=
  history.foldl (DocumentOperation.settle uri) none

@[simp] theorem settled?_append (uri : String) (history : List DocumentOperation)
    (op : DocumentOperation) :
    settled? uri (history ++ [op]) = op.settle uri (settled? uri history) := by
  simp [settled?, List.foldl_append]

structure Stands (uri : String) (history : List DocumentOperation) (d : Document)
    (input : SyncInput) : Prop where
  settled : settled? uri history = some input
  synced : .sync input ∈ history
  named : d.uri = uri
  uri : input.uri = uri
  hash : d.hash = input.hash
  lineEnding : d.lineEnding = input.lineEnding

theorem Stands.keep {uri : String} {history : List DocumentOperation} {d : Document}
    {input : SyncInput} (h : Stands uri history d input) {op : DocumentOperation}
    (hkeeps : op.settle uri (some input) = some input) :
    Stands uri (history ++ [op]) d input where
  settled := by rw [settled?_append, h.settled, hkeeps]
  synced := List.mem_append_left _ h.synced
  named := h.named
  uri := h.uri
  hash := h.hash
  lineEnding := h.lineEnding

theorem stands_of_sync {history : List DocumentOperation} {input : SyncInput} {d : Document}
    (hsettles : (DocumentOperation.sync input).settle input.uri (settled? input.uri history) =
      some input)
    (hnamed : d.uri = input.uri) (hhash : d.hash = input.hash)
    (hending : d.lineEnding = input.lineEnding) :
    Stands input.uri (history ++ [.sync input]) d input where
  settled := by rw [settled?_append, hsettles]
  synced := List.mem_append_right _ (List.mem_singleton.mpr rfl)
  named := hnamed
  uri := rfl
  hash := hhash
  lineEnding := hending

theorem settle_sync_none (input : SyncInput) :
    (DocumentOperation.sync input).settle input.uri none = some input :=
  if_pos rfl

theorem settle_sync_same {before input : SyncInput} (h : before.hash = input.hash) :
    (DocumentOperation.sync input).settle input.uri (some before) = some before := by
  rw [DocumentOperation.settle, if_pos rfl]
  exact if_pos h

theorem settle_sync_moved {before input : SyncInput} (h : before.hash ≠ input.hash) :
    (DocumentOperation.sync input).settle input.uri (some before) = some input := by
  rw [DocumentOperation.settle, if_pos rfl]
  exact if_neg h

/-- The record has the documents that stand at something, and says of them what that says. -/
def Settles (uri : String) (history : List DocumentOperation) : Option Document -> Prop
  | none => settled? uri history = none
  | some d => exists input, Stands uri history d input

theorem Settles.keep {past : List DocumentOperation} {uri : String} {op : DocumentOperation}
    (h : Settles uri past ((store past).documents.get? uri))
    (hsame : (op.apply (store past)).1.documents.get? uri = (store past).documents.get? uri)
    (hsettle : forall held, op.settle uri held = held) :
    Settles uri (past ++ [op]) ((store (past ++ [op])).documents.get? uri) := by
  rw [store_append, hsame]
  cases hopen : (store past).documents.get? uri with
  | none =>
      rw [hopen] at h
      exact (settled?_append uri past op).trans ((hsettle _).trans h)
  | some d =>
      rw [hopen] at h
      rcases h with ⟨before, hstands⟩
      exact ⟨before, hstands.keep (hsettle _)⟩

theorem settles_sync_self {past : List DocumentOperation} (input : SyncInput)
    (h : Settles input.uri past ((store past).documents.get? input.uri)) :
    Settles input.uri (past ++ [.sync input])
      ((store (past ++ [.sync input])).documents.get? input.uri) := by
  rw [show store (past ++ [.sync input]) =
    ((store past).sync input).1 from store_append past _, get?_store_sync]
  cases hopen : (store past).documents.get? input.uri with
  | none =>
      rw [hopen] at h
      have hclosed : settled? input.uri past = none := h
      rw [sync_of_closed hopen]
      exact ⟨input, stands_of_sync (by rw [hclosed, settle_sync_none]) rfl rfl rfl⟩
  | some d =>
      rw [hopen] at h
      rcases h with ⟨before, hstands⟩
      by_cases hsame : d.hash = input.hash
      · rw [sync_of_same hopen hsame]
        exact ⟨before, hstands.keep (settle_sync_same (hstands.hash.symm.trans hsame))⟩
      · rw [sync_of_moved hopen hsame]
        refine ⟨input, stands_of_sync ?_ hstands.named rfl rfl⟩
        rw [hstands.settled, settle_sync_moved fun h => hsame (hstands.hash.trans h)]

theorem settles_close_self {past : List DocumentOperation} (uri : String) :
    Settles uri (past ++ [.close uri])
      ((store (past ++ [.close uri])).documents.get? uri) := by
  have hgone : ((store past).close uri).1.documents.get? uri = none := by
    rw [DocumentStore.close]
    cases hopen : (store past).documents.get? uri with
    | none => exact hopen
    | some d => simp
  rw [show store (past ++ [.close uri]) = ((store past).close uri).1 from store_append past _,
    hgone]
  exact (settled?_append uri past _).trans (if_pos rfl)

theorem settles_run (history : List DocumentOperation) (uri : String) :
    Settles uri history ((store history).documents.get? uri) := by
  induction history using List.reverseRecOn generalizing uri with
  | nil => rfl
  | append_singleton past op ih =>
      cases op with
      | sync input =>
          by_cases huri : input.uri = uri
          · subst huri
            exact settles_sync_self input (ih input.uri)
          · refine (ih uri).keep ?_ fun held => if_neg huri
            change ((store past).sync input).1.documents.get? uri = _
            cases hopen : (store past).documents.get? input.uri with
            | none =>
                rw [sync_of_closed hopen]
                simp [huri]
            | some d =>
                by_cases hsame : d.hash = input.hash
                · rw [sync_of_same hopen hsame]
                · rw [sync_of_moved hopen hsame]
                  simp [huri]
      | close other =>
          by_cases huri : other = uri
          · subst huri
            exact settles_close_self other
          · refine (ih uri).keep ?_ fun held => if_neg huri
            change ((store past).close other).1.documents.get? uri = _
            rw [DocumentStore.close]
            cases hopen : (store past).documents.get? other with
            | none => rfl
            | some d => simp [huri]

theorem stands_of_report (past : List DocumentOperation) (input : SyncInput) :
    exists settled,
      Stands input.uri (past ++ [.sync input]) ((store past).sync input).2.1.document settled ∧
        settled.hash = input.hash ∧
        (((store past).sync input).2.1.action ≠ .unchanged -> settled = input) := by
  have hafter := settles_run (past ++ [.sync input]) input.uri
  rw [show store (past ++ [.sync input]) =
    ((store past).sync input).1 from store_append past _, get?_store_sync] at hafter
  rcases hafter with ⟨settled, hstands⟩
  have hbefore := settles_run past input.uri
  have hhash : ((store past).sync input).2.1.document.hash = input.hash ∧
      (((store past).sync input).2.1.action ≠ .unchanged -> settled = input) := by
    have hsettled := hstands.settled
    rw [settled?_append] at hsettled
    cases hopen : (store past).documents.get? input.uri with
    | none =>
        rw [hopen] at hbefore
        rw [sync_of_closed hopen]
        rw [show settled? input.uri past = none from hbefore, settle_sync_none] at hsettled
        exact ⟨rfl, fun _ => (Option.some.inj hsettled).symm⟩
    | some d =>
        rw [hopen] at hbefore
        rcases hbefore with ⟨before, hold⟩
        by_cases hsame : d.hash = input.hash
        · rw [sync_of_same hopen hsame]
          exact ⟨hsame, fun hmoved => absurd rfl hmoved⟩
        · rw [sync_of_moved hopen hsame]
          rw [hold.settled, settle_sync_moved fun h => hsame (hold.hash.trans h)] at hsettled
          exact ⟨rfl, fun _ => (Option.some.inj hsettled).symm⟩
  exact ⟨settled, hstands, hstands.hash.symm.trans hhash.1, hhash.2⟩

/-!
## The text sent last
-/

def textAbout? (uri : String) (params : Json) (text : Option String) : Option String :=
  if ServerCopy.uri? params = some uri then text else none

def textOf? (uri : String) (m : Message) : Option String :=
  match m.method, m.params with
  | some "textDocument/didOpen", some params =>
    textAbout? uri params ((ServerCopy.field? params "textDocument" "text").bind Json.str?)
  | some "textDocument/didChange", some params =>
    textAbout? uri params
      (((params.get? "contentChanges").bind Json.items?).bind ServerCopy.changedText?)
  | _, _ => none

def lastText? (uri : String) (messages : List Message) : Option String :=
  (messages.filterMap (textOf? uri)).getLast?

theorem textOf?_didOpen (uri : String) (d : Document) (text : Text) :
    textOf? uri (d.didOpen text) = if d.uri = uri then some (String.ofList text)
      else none := by
  change textAbout? uri (Json.ofMembers _) _ = _
  simp [textAbout?, ServerCopy.uri?, ServerCopy.field?, Json.get?_ofMembers, Json.str?]

theorem textOf?_didChange (uri : String) (d : Document) (text : Text) :
    textOf? uri (d.didChange text) = if d.uri = uri then some (String.ofList text)
      else none := by
  change textAbout? uri (Json.ofMembers _) _ = _
  simp [textAbout?, ServerCopy.uri?, ServerCopy.field?, ServerCopy.changedText?,
    Json.get?_ofMembers, Json.str?, Json.items?]

theorem textOf?_didClose (uri other : String) : textOf? uri (Document.didClose other) = none :=
  rfl

theorem lastText?_append (uri : String) (first second : List Message) :
    lastText? uri (first ++ second) = (lastText? uri second).or (lastText? uri first) := by
  rw [lastText?, List.filterMap_append, List.getLast?_append]
  rfl

theorem lastText?_toList (uri : String) (notice : Option Message) :
    lastText? uri notice.toList = notice.bind (textOf? uri) := by
  cases notice with
  | none => rfl
  | some m => cases h : textOf? uri m <;> simp [lastText?, h]

theorem lastText?_notices (uri : String) (past : List DocumentOperation)
    (op : DocumentOperation) :
    lastText? uri (notices (past ++ [op])) =
      ((op.apply (store past)).2.bind (textOf? uri)).or (lastText? uri (notices past)) := by
  rw [notices_append, lastText?_append, lastText?_toList]

theorem sends_sync_self {past : List DocumentOperation} {input settled : SyncInput}
    (h : (DocumentOperation.sync input).settle input.uri (settled? input.uri past) =
      some settled)
    (ih : forall before, settled? input.uri past = some before ->
      lastText? input.uri (notices past) = some (String.ofList before.text)) :
    lastText? input.uri (notices (past ++ [.sync input])) =
      some (String.ofList settled.text) := by
  rw [lastText?_notices]
  change (((store past).sync input).2.2.bind _).or _ = _
  have hview := settles_run past input.uri
  cases hopen : (store past).documents.get? input.uri with
  | none =>
      rw [hopen] at hview
      rw [show settled? input.uri past = none from hview, settle_sync_none] at h
      cases h
      rw [sync_of_closed hopen, Option.bind_some, textOf?_didOpen]
      exact congrArg (Option.or · _) (if_pos rfl)
  | some d =>
      rw [hopen] at hview
      rcases hview with ⟨before, hstands⟩
      rw [hstands.settled] at h
      by_cases hsame : d.hash = input.hash
      · rw [settle_sync_same (hstands.hash.symm.trans hsame)] at h
        cases h
        rw [sync_of_same hopen hsame, Option.bind_none, Option.none_or]
        exact ih _ hstands.settled
      · rw [settle_sync_moved fun h => hsame (hstands.hash.trans h)] at h
        cases h
        rw [sync_of_moved hopen hsame, Option.bind_some, textOf?_didChange]
        exact congrArg (Option.or · _) (if_pos hstands.named)

theorem sends_sync_other (past : List DocumentOperation) {input : SyncInput} {uri : String}
    (h : input.uri ≠ uri) :
    lastText? uri (notices (past ++ [.sync input])) = lastText? uri (notices past) := by
  rw [lastText?_notices]
  change (((store past).sync input).2.2.bind _).or _ = _
  cases hopen : (store past).documents.get? input.uri with
  | none =>
      rw [sync_of_closed hopen, Option.bind_some, textOf?_didOpen]
      exact congrArg (Option.or · _) (if_neg h)
  | some d =>
      by_cases hsame : d.hash = input.hash
      · rw [sync_of_same hopen hsame, Option.bind_none, Option.none_or]
      · have hview := settles_run past input.uri
        rw [hopen] at hview
        rcases hview with ⟨before, hstands⟩
        rw [sync_of_moved hopen hsame, Option.bind_some, textOf?_didChange]
        exact congrArg (Option.or · _) (if_neg fun hsame => h (hstands.named.symm.trans hsame))

theorem sends_close (past : List DocumentOperation) (uri other : String) :
    lastText? uri (notices (past ++ [.close other])) = lastText? uri (notices past) := by
  rw [lastText?_notices]
  change (((store past).close other).2.bind _).or _ = _
  rw [DocumentStore.close]
  cases (store past).documents.get? other with
  | none => rfl
  | some d => simp [textOf?_didClose]

/-- The server has last been sent the text that a document stands at. -/
theorem lastText?_of_settled {history : List DocumentOperation} {uri : String}
    {settled : SyncInput} (h : settled? uri history = some settled) :
    lastText? uri (notices history) = some (String.ofList settled.text) := by
  induction history using List.reverseRecOn generalizing settled with
  | nil => contradiction
  | append_singleton past op ih =>
      rw [settled?_append] at h
      cases op with
      | sync input =>
          by_cases huri : input.uri = uri
          · subst huri
            exact sends_sync_self h fun _ => ih
          · rw [sends_sync_other past huri]
            exact ih ((if_neg huri).symm.trans h)
      | close other =>
          rw [sends_close]
          by_cases huri : other = uri
          · cases (if_pos huri).symm.trans h
          · exact ih ((if_neg huri).symm.trans h)

/-- A document that stands at a content has last been synced with a
content of its fingerprint. -/
theorem exists_lastSync {history : List DocumentOperation} {uri : String} {settled : SyncInput}
    (h : settled? uri history = some settled) :
    exists past input rest, history = past ++ .sync input :: rest ∧ input.uri = uri ∧
      settled.hash = input.hash ∧ .sync settled ∈ past ++ [.sync input] ∧
        forall op, op ∈ rest -> op.uri ≠ uri := by
  induction history using List.reverseRecOn generalizing settled with
  | nil => contradiction
  | append_singleton past op ih =>
      have hother (huri : op.uri ≠ uri) (hsettle : op.settle uri (settled? uri past) =
          settled? uri past) : exists first input rest,
            past ++ [op] = first ++ .sync input :: rest ∧
            input.uri = uri ∧ settled.hash = input.hash ∧ .sync settled ∈ first ++
            [.sync input] ∧
              forall op, op ∈ rest -> op.uri ≠ uri := by
        rw [settled?_append, hsettle] at h
        rcases ih h with ⟨first, input, rest, rfl, hinput, hhash, hmem, hrest⟩
        refine ⟨first, input, rest ++ [op], by simp, hinput, hhash, hmem, fun op' hop' => ?_⟩
        rcases List.mem_append.mp hop' with hold | hnew
        · exact hrest op' hold
        · exact List.mem_singleton.mp hnew ▸ huri
      cases op with
      | sync input =>
          by_cases huri : input.uri = uri
          · subst huri
            rcases stands_of_report past input with ⟨before, hstands, hhash, _⟩
            cases Option.some.inj (hstands.settled.symm.trans h)
            exact ⟨past, input, [], rfl, rfl, hhash, hstands.synced, fun _ => by simp⟩
          · exact hother huri (if_neg huri)
      | close other =>
          by_cases huri : other = uri
          · rw [settled?_append] at h
            cases (if_pos huri).symm.trans h
          · exact hother huri (if_neg huri)

end History
end LanguageClient

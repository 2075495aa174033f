import LanguageClient.Proofs.Document.History
import LanguageClient.Session.Connection

/-!
# What has been published about documents

A connection's record holds two tables under the same keys: the open documents, and the
diagnostics that the server has published. Diagnostics may be published for documents that
are not open, and stay when one is opened; they go when an open document is closed. This
module reads both tables off any history of the record: the diagnostics for a URI are those
last published for exactly this URI, unless an open document with this URI has been closed
since, or everything forgotten.
-/

namespace LanguageClient

inductive RecordOperation where
  | document (op : DocumentOperation)
  | publish (params : Json)
  | clear

def Json.Names (uri : String) (params : Json) : Prop :=
  params.get? "uri" = some (.str uri)

def Json.published (params : Json) : List Json :=
  match params.get? "diagnostics" with
  | some (.arr items) => items
  | _ => []

def Json.publication? (message : Json) : Option Json :=
  match Incoming.classify message with
  | .notification method params =>
    if method = "textDocument/publishDiagnostics" then some params else none
  | _ => none

namespace RecordOperation

def apply (s : DocumentStore) : RecordOperation -> DocumentStore
  | .document op => (op.apply s).1
  | .publish params => (s.publish params).1
  | .clear => .empty

inductive Concerns (uri : String) : RecordOperation -> Prop where
  | sync {input : SyncInput} (same : input.uri = uri) : Concerns uri (.document (.sync input))
  | close : Concerns uri (.document (.close uri))
  | publish {params : Json} (names : params.Names uri) : Concerns uri (.publish params)
  | clear : Concerns uri .clear

def document? : RecordOperation -> Option DocumentOperation
  | .document op => some op
  | _ => none

end RecordOperation

/-- A sync looks at the documents alone, not at what has been published about them. -/
theorem DocumentStore.sync_congr {s s' : DocumentStore} (h : s'.documents = s.documents)
    (input : SyncInput) :
    (s'.sync input).1.documents = (s.sync input).1.documents ∧
      (s'.sync input).2 = (s.sync input).2 := by
  simp only [DocumentStore.sync, h]
  cases s.documents.get? input.uri with
  | none => exact ⟨rfl, rfl⟩
  | some d =>
      by_cases hsame : d.hash = input.hash
      · simp only [if_pos hsame]
        exact ⟨h, trivial⟩
      · simp only [if_neg hsame, and_self]

theorem DocumentOperation.apply_congr {s s' : DocumentStore} (h : s'.documents = s.documents)
    (op : DocumentOperation) :
    (op.apply s').1.documents = (op.apply s).1.documents ∧ (op.apply s').2 =
    (op.apply s).2 := by
  cases op with
  | sync input =>
      rcases DocumentStore.sync_congr h input with ⟨hdocuments, hsync⟩
      refine ⟨hdocuments, ?_⟩
      change (s'.sync input).2.2 = (s.sync input).2.2
      rw [hsync]
  | close uri =>
      simp only [DocumentOperation.apply, DocumentStore.close, h]
      cases s.documents.get? uri with
      | none => exact ⟨h, rfl⟩
      | some d => exact ⟨rfl, rfl⟩

namespace RecordHistory

open RecordOperation

def store (history : List RecordOperation) : DocumentStore :=
  history.foldl RecordOperation.apply .empty

@[simp] theorem store_append (history : List RecordOperation) (op : RecordOperation) :
    store (history ++ [op]) = op.apply (store history) := by
  simp [store]

/-- A document is tracked: it was synced, and neither closed nor forgotten
with everything since. -/
def IsTracked (uri : String) (history : List RecordOperation) : Prop :=
  exists past input since, history = past ++ .document (.sync input) :: since ∧
    input.uri = uri ∧
    .document (.close uri) ∉ since ∧ .clear ∉ since

/-- An operation after `past` that puts an end to what was published for `uri` before. -/
inductive Replaces (uri : String) (past : List RecordOperation) : RecordOperation -> Prop where
  | publish {params : Json} (names : params.Names uri) : Replaces uri past (.publish params)
  | close (tracked : IsTracked uri past) : Replaces uri past (.document (.close uri))
  | clear : Replaces uri past .clear

/-- The list is the one last published for `uri`, and nothing has put an end to it. -/
def LastPublished (uri : String) (history : List RecordOperation) (list : List Json) : Prop :=
  exists past params since, history = past ++ .publish params :: since ∧ params.Names uri ∧
    list = params.published ∧
    forall between op rest, since = between ++ op :: rest ->
      ¬ Replaces uri (past ++ .publish params :: between) op

/-!
## One more operation
-/

section

variable {uri : String} {past : List RecordOperation} {op : RecordOperation}

theorem isTracked_append_sync {input : SyncInput} (h : input.uri = uri) :
    IsTracked uri (past ++ [.document (.sync input)]) :=
  ⟨past, input, [], rfl, h, List.not_mem_nil, List.not_mem_nil⟩

theorem isTracked_append_iff (h : forall input, op = .document (.sync input) ->
      input.uri ≠ uri) :
    IsTracked uri (past ++ [op]) <->
      IsTracked uri past ∧ op ≠ .document (.close uri) ∧ op ≠ .clear := by
  constructor
  · rintro ⟨before, input, since, hsplit, huri, hclose, hclear⟩
    rcases split_of_concat hsplit with ⟨_, hop, _⟩ | ⟨since', rfl, hpast⟩
    · exact absurd huri (h input hop)
    · rw [List.mem_append, List.mem_singleton, not_or] at hclose hclear
      exact ⟨⟨before, input, since', hpast, huri, hclose.1, hclear.1⟩, Ne.symm hclose.2,
        Ne.symm hclear.2⟩
  · rintro ⟨⟨before, input, since, rfl, huri, hclose, hclear⟩, hopClose, hopClear⟩
    refine ⟨before, input, since ++ [op], by simp, huri, ?_, ?_⟩
    · rw [List.mem_append, List.mem_singleton, not_or]
      exact ⟨hclose, hopClose.symm⟩
    · rw [List.mem_append, List.mem_singleton, not_or]
      exact ⟨hclear, hopClear.symm⟩

theorem lastPublished_append_publish {params : Json} (h : params.Names uri)
    (list : List Json) :
    LastPublished uri (past ++ [.publish params]) list <-> list = params.published := by
  constructor
  · rintro ⟨before, other, since, hsplit, _, hlist, hkept⟩
    rcases split_of_concat hsplit with ⟨_, hop, _⟩ | ⟨since', rfl, _⟩
    · cases hop
      exact hlist
    · exact absurd (.publish h) (hkept since' _ [] rfl)
  · intro hlist
    exact ⟨past, params, [], rfl, h, hlist, fun between op rest hnil => by simp at hnil⟩

theorem not_lastPublished_append (h : Replaces uri past op)
    (hother : forall params, op = .publish params -> ¬ params.Names uri) (list : List Json) :
    ¬ LastPublished uri (past ++ [op]) list := by
  rintro ⟨before, params, since, hsplit, hnames, _, hkept⟩
  rcases split_of_concat hsplit with ⟨_, hop, _⟩ | ⟨since', rfl, rfl⟩
  · exact hother params hop hnames
  · exact hkept since' op [] rfl h

theorem lastPublished_append_iff (h : ¬ Replaces uri past op) (list : List Json) :
    LastPublished uri (past ++ [op]) list <-> LastPublished uri past list := by
  constructor
  · rintro ⟨before, params, since, hsplit, hnames, hlist, hkept⟩
    rcases split_of_concat hsplit with ⟨rfl, rfl, _⟩ | ⟨since', rfl, rfl⟩
    · exact absurd (.publish hnames) h
    · refine ⟨before, params, since', rfl, hnames, hlist, fun between op' rest hsince => ?_⟩
      exact hkept between op' (rest ++ [op]) (by simp [hsince])
  · rintro ⟨before, params, since, rfl, hnames, hlist, hkept⟩
    refine ⟨before, params, since ++ [op], by simp, hnames, hlist,
      fun between op' rest hsince => ?_⟩
    rcases split_of_concat hsince with ⟨rfl, rfl, _⟩ | ⟨rest', rfl, hbetween⟩
    · exact h
    · exact hkept between op' rest' hbetween

end

/-!
## The two tables after one operation
-/

section

variable (s : DocumentStore)

theorem sync_diagnostics (input : SyncInput) :
    (s.sync input).1.diagnostics = s.diagnostics := by
  cases hopen : s.documents.get? input.uri with
  | none => rw [History.sync_of_closed hopen]
  | some d =>
      by_cases hsame : d.hash = input.hash
      · rw [History.sync_of_same hopen hsame]
      · rw [History.sync_of_moved hopen hsame]

theorem get?_sync_of_ne {input : SyncInput} {uri : String} (h : input.uri ≠ uri) :
    (s.sync input).1.documents.get? uri = s.documents.get? uri := by
  cases hopen : s.documents.get? input.uri with
  | none => simp [History.sync_of_closed hopen, h]
  | some d =>
      by_cases hsame : d.hash = input.hash
      · rw [History.sync_of_same hopen hsame]
      · simp [History.sync_of_moved hopen hsame, h]

theorem isOpen_sync (input : SyncInput) : (s.sync input).1.isOpen input.uri = true := by
  rw [DocumentStore.isOpen, Table.contains, History.get?_store_sync]
  rfl

theorem publish_of_names {uri : String} {params : Json} (h : params.Names uri) :
    s.publish params = ({ s with diagnostics := s.diagnostics.insert uri params.published },
      some ⟨uri, (params.get? "version").bind Json.signed?, params.published.length⟩) := by
  have hlist : ((params.get? "diagnostics").bind Json.items?).getD [] = params.published := by
    rw [Json.published]
    split
    case h_1 items heq =>
      rw [heq]
      rfl
    case h_2 hother =>
      cases hget : params.get? "diagnostics" with
      | none => rfl
      | some v =>
          cases v with
          | arr items => exact absurd hget (hother items)
          | _ => rfl
  rw [DocumentStore.publish, h]
  simp only [Option.bind_some, Json.str?, hlist]

theorem publish_of_nameless {params : Json} (h : forall uri, ¬ params.Names uri) :
    s.publish params = (s, none) := by
  have hnone : (params.get? "uri").bind Json.str? = none := by
    cases hget : params.get? "uri" with
    | none => rfl
    | some v =>
        cases v with
        | str uri => exact absurd hget (h uri)
        | _ => rfl
  rw [DocumentStore.publish, hnone]

theorem publish_documents (params : Json) : (s.publish params).1.documents = s.documents := by
  by_cases h : exists uri, params.Names uri
  · rcases h with ⟨uri, h⟩
    rw [publish_of_names s h]
  · rw [publish_of_nameless s fun uri hnames => h ⟨uri, hnames⟩]

end

theorem apply_of_not_concerns {uri : String} {op : RecordOperation} (h : ¬ op.Concerns uri)
    (s : DocumentStore) :
    (op.apply s).documents.get? uri = s.documents.get? uri ∧
      (op.apply s).diagnostics.get? uri = s.diagnostics.get? uri := by
  cases op with
  | document op =>
      cases op with
      | sync input =>
          exact ⟨get?_sync_of_ne s fun huri => h (.sync huri),
            congrArg (Table.get? · uri) (sync_diagnostics s input)⟩
      | close other =>
          have hne : other ≠ uri := fun huri => h (huri ▸ .close)
          change (s.close other).1.documents.get? uri = _ ∧
            (s.close other).1.diagnostics.get? uri = _
          cases hopen : s.isOpen other with
          | true => simp [History.close_of_open hopen, hne]
          | false => simp [History.close_of_closed hopen]
  | publish params =>
      refine ⟨congrArg (Table.get? · uri) (publish_documents s params), ?_⟩
      change (s.publish params).1.diagnostics.get? uri = _
      by_cases hnamed : exists other, params.Names other
      · rcases hnamed with ⟨other, hother⟩
        have hne : other ≠ uri := fun huri => h (.publish (huri ▸ hother))
        simp [publish_of_names s hother, hne]
      · rw [publish_of_nameless s fun other hother => hnamed ⟨other, hother⟩]
  | clear => exact absurd .clear h

theorem diagnostics_apply_of_kept {uri : String} {op : RecordOperation} {s : DocumentStore}
    (hpublish : forall params, op = .publish params -> ¬ params.Names uri)
    (hclose : op = .document (.close uri) -> s.isOpen uri = false) (hclear : op ≠ .clear) :
    (op.apply s).diagnostics.get? uri = s.diagnostics.get? uri := by
  by_cases hconcerns : op.Concerns uri
  · cases hconcerns with
    | @sync input same =>
        change (s.sync input).1.diagnostics.get? uri = _
        rw [sync_diagnostics]
    | close =>
        change (s.close uri).1.diagnostics.get? uri = _
        rw [History.close_of_closed (hclose rfl)]
    | publish names => exact absurd names (hpublish _ rfl)
    | clear => exact absurd rfl hclear
  · exact (apply_of_not_concerns hconcerns s).2

/-!
## The tables after a history
-/

theorem isOpen_store_iff (uri : String) (history : List RecordOperation) :
    (store history).isOpen uri = true <-> IsTracked uri history := by
  induction history using List.reverseRecOn with
  | nil =>
      refine iff_of_false Bool.false_ne_true ?_
      rintro ⟨past, input, since, hnil, _⟩
      simp at hnil
  | append_singleton past op ih =>
      rw [store_append]
      by_cases hconcerns : op.Concerns uri
      · cases hconcerns with
        | @sync input same =>
            refine iff_of_true ?_ (isTracked_append_sync same)
            rw [← same]
            exact isOpen_sync (store past) input
        | close =>
            rw [isTracked_append_iff (by simp)]
            refine iff_of_false ?_ (by simp)
            rw [Bool.not_eq_true]
            exact History.isOpen_close (store past) uri
        | publish names =>
            rw [isTracked_append_iff (by simp)]
            change ((store past).publish _).1.isOpen uri = true <-> _
            rw [DocumentStore.isOpen, publish_documents, ← DocumentStore.isOpen, ih]
            simp
        | clear =>
            rw [isTracked_append_iff (by simp)]
            exact iff_of_false Bool.false_ne_true (by simp)
      · have hclose : op ≠ .document (.close uri) := fun h => hconcerns (h ▸ .close)
        have hclear : op ≠ .clear := fun h => hconcerns (h ▸ .clear)
        have hsync : forall input, op = .document (.sync input) -> input.uri ≠ uri :=
          fun input h huri => hconcerns (h ▸ .sync huri)
        rw [isTracked_append_iff hsync, DocumentStore.isOpen, Table.contains,
          (apply_of_not_concerns hconcerns (store past)).1, ← Table.contains,
          ← DocumentStore.isOpen, ih]
        simp [hclose, hclear]

theorem diagnostics_store_iff (uri : String) (history : List RecordOperation)
    (list : List Json) :
    (store history).diagnostics.get? uri = some list <-> LastPublished uri history list := by
  induction history using List.reverseRecOn with
  | nil =>
      refine iff_of_false nofun ?_
      rintro ⟨past, params, since, hnil, _⟩
      simp at hnil
  | append_singleton past op ih =>
      rw [store_append]
      by_cases hreplaces : Replaces uri past op
      · cases hreplaces with
        | publish names =>
            rw [lastPublished_append_publish names]
            change ((store past).publish _).1.diagnostics.get? uri = some list <-> _
            rw [publish_of_names _ names]
            simp [eq_comm]
        | close tracked =>
            refine iff_of_false ?_ (not_lastPublished_append (.close tracked) (by simp) list)
            change ¬ ((store past).close uri).1.diagnostics.get? uri = some list
            rw [History.close_of_open ((isOpen_store_iff uri past).mpr tracked)]
            simp
        | clear =>
            refine iff_of_false ?_ (not_lastPublished_append .clear (by simp) list)
            exact (Option.some_ne_none list).symm
      · rw [lastPublished_append_iff hreplaces, ← ih, diagnostics_apply_of_kept]
        · exact fun params hop names => hreplaces (hop ▸ .publish names)
        · intro hop
          rw [← Bool.not_eq_true, isOpen_store_iff]
          exact fun tracked => hreplaces (hop ▸ .close tracked)
        · exact fun hop => hreplaces (hop ▸ .clear)

theorem counted_publish {s : DocumentStore} {params : Json} {p : DocumentStore.Published}
    (h : (s.publish params).2 = some p) :
    params.Names p.uri ∧ p.count = ((s.publish params).1.diagnosticsOf p.uri).length := by
  by_cases hnamed : exists uri, params.Names uri
  · rcases hnamed with ⟨uri, hnames⟩
    rw [publish_of_names s hnames] at h ⊢
    cases h
    exact ⟨hnames, by simp [DocumentStore.diagnosticsOf]⟩
  · rw [publish_of_nameless s fun uri hnames => hnamed ⟨uri, hnames⟩] at h
    contradiction

theorem documents_store {history : List RecordOperation} (h : .clear ∉ history) :
    (store history).documents = (History.store (history.filterMap document?)).documents := by
  induction history using List.reverseRecOn with
  | nil => rfl
  | append_singleton past op ih =>
      rw [List.mem_append, List.mem_singleton, not_or] at h
      rw [store_append, List.filterMap_append]
      cases op with
      | document op =>
          have hlast : [RecordOperation.document op].filterMap document? = [op] := rfl
          rw [hlast, History.store_append]
          exact (op.apply_congr (ih h.1)).1
      | publish params =>
          have hlast : [RecordOperation.publish params].filterMap document? = [] := rfl
          rw [hlast, List.append_nil, ← ih h.1]
          exact publish_documents (store past) params
      | clear => exact absurd rfl h.2

/-- What the record holds after a history, and after one more operation. -/
structure Holds (history : List RecordOperation) : Prop where
  tracked : forall uri, (store history).isOpen uri = true <-> IsTracked uri history
  published : forall uri list, LastPublished uri history list ->
    (store history).diagnosticsOf uri = list
  unpublished : forall uri, (forall list, ¬ LastPublished uri history list) ->
    (store history).diagnosticsOf uri = []
  untracked : forall uri, ¬ IsTracked uri history ->
    store (history ++ [.document (.close uri)]) = store history
  nameless : forall params : Json, (forall uri, ¬ params.Names uri) ->
    store (history ++ [.publish params]) = store history
  others : forall uri op, ¬ op.Concerns uri ->
    (store (history ++ [op])).documents.get? uri = (store history).documents.get? uri ∧
      (store (history ++ [op])).diagnosticsOf uri = (store history).diagnosticsOf uri
  counted : forall params p, ((store history).publish params).2 = some p ->
    params.Names p.uri ∧
      p.count = ((store (history ++ [.publish params])).diagnosticsOf p.uri).length

theorem holds_history (history : List RecordOperation) : Holds history where
  tracked uri := isOpen_store_iff uri history
  published uri list h := by
    rw [DocumentStore.diagnosticsOf, (diagnostics_store_iff uri history list).mpr h]
    rfl
  unpublished uri h := by
    rw [DocumentStore.diagnosticsOf]
    cases hget : (store history).diagnostics.get? uri with
    | none => rfl
    | some list => exact absurd ((diagnostics_store_iff uri history list).mp hget) (h list)
  untracked uri h := by
    have hclosed : (store history).isOpen uri = false := by
      rw [← Bool.not_eq_true, isOpen_store_iff]
      exact h
    rw [store_append]
    exact congrArg Prod.fst (History.close_of_closed hclosed)
  nameless params h := by
    rw [store_append]
    exact congrArg Prod.fst (publish_of_nameless (store history) h)
  others uri op h := by
    rcases apply_of_not_concerns h (store history) with ⟨hdocuments, hdiagnostics⟩
    rw [store_append, DocumentStore.diagnosticsOf, DocumentStore.diagnosticsOf, hdiagnostics]
    exact ⟨hdocuments, rfl⟩
  counted params p h := by
    rw [store_append]
    exact counted_publish h

/-!
## Announcements
-/

/-- What taking in a message tells the subscribers of diagnostics: nothing but what is then
on record, and all that a publication has put there. -/
structure Broadcasts (c : Connection) (message : Json) (after : Connection)
    (events : List Event) :
    Prop where
  told : forall params p,
    Incoming.classify message = .notification "textDocument/publishDiagnostics" params ->
    (c.store.publish params).2 = some p -> events = [.diagnostics p.uri p.version p.count]
  kept : forall uri version count, .diagnostics uri version count ∈ events ->
    exists params,
      Incoming.classify message = .notification "textDocument/publishDiagnostics" params ∧
      params.Names uri ∧ after.store = (c.store.publish params).1 ∧
      count = (after.store.diagnosticsOf uri).length

theorem publication?_eq_some_iff {message params : Json} :
    message.publication? = some params <->
    Incoming.classify message = .notification "textDocument/publishDiagnostics" params := by
  rw [Json.publication?]
  constructor
  · intro h
    split at h
    case h_2 => contradiction
    case h_1 method params' hclass =>
      split at h
      case isFalse => contradiction
      case isTrue hmethod =>
        cases h
        rw [hclass, hmethod]
  · intro h
    rw [h]
    exact if_pos rfl

section

variable (folder : String × String) (c : Connection) {message : Json}

/-- Taking in a publication takes the record to where the publication
leads, and announces it. -/
theorem dispatch_of_publication {params : Json} (h : message.publication? = some params) :
    c.dispatch folder message =
      ({ c with store := (c.store.publish params).1 }, ⟨[], ((c.store.publish params).2.map
        fun p => .diagnostics p.uri p.version p.count).toList⟩) := by
  simp only [Connection.dispatch, publication?_eq_some_iff.mp h]
  rw [Connection.takeNotification, if_pos rfl]
  by_cases hnamed : exists uri, params.Names uri
  · rcases hnamed with ⟨uri, hnames⟩
    rw [publish_of_names c.store hnames]
    rfl
  · rw [publish_of_nameless c.store fun uri hnames => hnamed ⟨uri, hnames⟩]
    rfl

theorem takeNotification_other {method : String} (params : Json)
    (h : method ≠ "textDocument/publishDiagnostics") :
    (c.takeNotification method params).1 = c ∧ forall uri version count,
      .diagnostics uri version count ∉ (c.takeNotification method params).2.events := by
  rw [Connection.takeNotification, if_neg h]
  repeat' split
  all_goals simp [Emitted.event, Emitted.nothing, Connection.userMessage]

theorem dispatch_of_other (h : message.publication? = none) :
    (c.dispatch folder message).1.store = c.store ∧ forall uri version count,
      .diagnostics uri version count ∉ (c.dispatch folder message).2.events := by
  cases hclass : Incoming.classify message with
  | notification method params =>
      have hmethod : method ≠ "textDocument/publishDiagnostics" := by
        rintro rfl
        exact nomatch h.symm.trans (publication?_eq_some_iff.mpr hclass)
      rcases takeNotification_other c params hmethod with ⟨hsame, hsilent⟩
      simp only [Connection.dispatch, hclass]
      exact ⟨congrArg Connection.store hsame, hsilent⟩
  | response id outcome =>
      simp only [Connection.dispatch, hclass]
      cases Incoming.number? id with
      | none => exact ⟨rfl, fun _ _ _ => List.not_mem_nil⟩
      | some number =>
          dsimp only
          split
          all_goals exact ⟨rfl, fun _ _ _ => List.not_mem_nil⟩
  | request id method params =>
      simp only [Connection.dispatch, hclass, Connection.write]
      split
      all_goals exact ⟨rfl, fun _ _ _ => List.not_mem_nil⟩
  | invalid =>
      have hdispatch : c.dispatch folder message = (c, .nothing) := by
        rw [Connection.dispatch, hclass]
      rw [hdispatch]
      exact ⟨rfl, fun _ _ _ => List.not_mem_nil⟩

end

theorem broadcasts_dispatch (folder : String × String) (c : Connection) (message : Json) :
    Broadcasts c message (c.dispatch folder message).1
      (c.dispatch folder message).2.events := by
  cases hpublication : message.publication? with
  | none =>
      refine ⟨fun params p hclass _ => ?_, fun uri version count hin => ?_⟩
      · exact nomatch hpublication.symm.trans (publication?_eq_some_iff.mpr hclass)
      · exact absurd hin ((dispatch_of_other folder c hpublication).2 uri version count)
  | some params =>
      rw [dispatch_of_publication folder c hpublication]
      refine ⟨fun params' p hclass hp => ?_, fun uri version count hin => ?_⟩
      · cases hpublication.symm.trans (publication?_eq_some_iff.mpr hclass)
        simp [hp]
      · cases hp : (c.store.publish params).2 with
        | none =>
            rw [hp] at hin
            contradiction
        | some p =>
            rw [hp] at hin
            cases List.mem_singleton.mp hin
            rcases counted_publish hp with ⟨hnames, hcount⟩
            exact ⟨params, publication?_eq_some_iff.mp hpublication, hnames, rfl, hcount⟩

/-- The diagnostics on record for a URI are those last published for it, unless the
document was closed while it was tracked or everything was forgotten since; nothing done
for one URI touches another; and a publication is announced with the number of diagnostics
that are then on record. -/
theorem record_follows_history (history : List RecordOperation) :
    Holds history ∧ forall folder c message,
      Broadcasts c message (Connection.dispatch folder c message).1
        (Connection.dispatch folder c message).2.events :=
  ⟨holds_history history, broadcasts_dispatch⟩

end RecordHistory
end LanguageClient

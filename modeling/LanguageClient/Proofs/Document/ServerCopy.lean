import LanguageClient.Document.Store
import LanguageClient.Proofs.Json.Members

/-!
# The server's copy of the open documents

A server that takes the notices about open documents in order has a copy of its own. It
reads a notice from its parameters and refuses what cannot be: opening an open document,
changing or closing a closed one, a change to any version but the next. This module defines
such a server and shows how it takes the three notices that the client gives.
-/

namespace LanguageClient

/-!
# A server

## What it holds
-/

structure ServerDocument where
  version : Int
  text : String
  deriving DecidableEq, Repr

abbrev ServerCopy := Table String ServerDocument

namespace ServerCopy

/-!
## What it is told
-/

def field? (params : Json) (first second : String) : Option Json :=
  (params.get? first).bind (·.get? second)

def uri? (params : Json) : Option String :=
  (field? params "textDocument" "uri").bind Json.str?

def versionBound : Nat := 2147483648

def version? (params : Json) : Option Int :=
  ((field? params "textDocument" "version").bind Json.signed?).filter fun n =>
    -(versionBound : Int) ≤ n ∧ n < versionBound

def changedText? (changes : List Json) : Option String :=
  if changes.all fun change => (change.get? "range").isNone then
    (changes.getLast?.bind (·.get? "text")).bind Json.str?
  else none

/-- A document can be opened only while it is closed. -/
def didOpen (copy : ServerCopy) (params : Json) : Option ServerCopy := do
  let uri ← uri? params
  let version ← version? params
  let text ← (field? params "textDocument" "text").bind Json.str?
  if copy.contains uri then none else return copy.insert uri ⟨version, text⟩

/-- A document can be changed only while it is open, and only to the next version. -/
def didChange (copy : ServerCopy) (params : Json) : Option ServerCopy := do
  let uri ← uri? params
  let version ← version? params
  let text ← ((params.get? "contentChanges").bind Json.items?).bind changedText?
  let d ← copy.get? uri
  if d.version + 1 = version then return copy.insert uri ⟨version, text⟩ else none

def didClose (copy : ServerCopy) (params : Json) : Option ServerCopy := do
  let uri ← uri? params
  if copy.contains uri then return copy.erase uri else none

def receive (copy : ServerCopy) (m : Message) : Option ServerCopy :=
  match m.method, m.params with
  | some "textDocument/didOpen", some params => copy.didOpen params
  | some "textDocument/didChange", some params => copy.didChange params
  | some "textDocument/didClose", some params => copy.didClose params
  | _, _ => none

def replay (copy : ServerCopy) : List Message -> Option ServerCopy
  | [] => some copy
  | m :: rest => (copy.receive m).bind fun copy => replay copy rest

theorem replay_append (copy : ServerCopy) (first second : List Message) :
    copy.replay (first ++ second) = (copy.replay first).bind fun copy =>
      copy.replay second := by
  induction first generalizing copy with
  | nil => rfl
  | cons m rest ih =>
      rw [List.cons_append, replay, replay]
      cases copy.receive m with
      | none => rfl
      | some next => exact ih next

/-!
## The three notices

How a server takes the notices that the record gives.
-/

theorem signed?_ofNat {n : Nat} (h : n < versionBound) :
    (Json.ofNat n).signed? = some (n : Int) := by
  have hword : (versionBound : Int) ≤ Int.pow 2 63 := by
    decide
  have hbounds : -Int.pow 2 63 ≤ (n : Int) ∧ (n : Int) < Int.pow 2 63 := by
    constructor <;> omega
  rw [Json.ofNat, Json.signed?, Int.ofNat_eq_natCast, if_pos hbounds]

theorem version?_of_field {params : Json} {n : Nat}
    (hfield : field? params "textDocument" "version" = some (Json.ofNat n))
    (h : n < versionBound) :
    version? params = some (n : Int) := by
  have hbounds : -(versionBound : Int) ≤ n ∧ (n : Int) < versionBound := by
    constructor <;> omega
  rw [version?, hfield, Option.bind_some, signed?_ofNat h, Option.filter_some, if_pos]
  exact decide_eq_true hbounds

theorem receive_didOpen {copy : ServerCopy} {d : Document} (text : Text)
    (hclosed : copy.get? d.uri = none) (hversion : d.version < versionBound) :
    copy.receive (d.didOpen text) =
      some (copy.insert d.uri ⟨d.version, String.ofList text⟩) := by
  have didOpen_of_version : forall params, version? params = some (d.version : Int) ->
      uri? params = some d.uri ->
      (field? params "textDocument" "text").bind Json.str? = some (String.ofList text) ->
      didOpen copy params = some (copy.insert d.uri ⟨d.version, String.ofList text⟩) := by
    intro params hv huri htext
    simp [didOpen, hv, huri, htext, Table.contains, hclosed]
  apply didOpen_of_version
  · apply version?_of_field _ hversion
    simp [field?, Json.get?_ofMembers]
  · simp [uri?, field?, Json.get?_ofMembers, Json.str?]
  · simp [field?, Json.get?_ofMembers, Json.str?]

theorem receive_didChange {copy : ServerCopy} {d : Document} {old : ServerDocument}
    (text : Text) (hopen : copy.get? d.uri = some old) (hnext : old.version + 1 = d.version)
    (hversion : d.version < versionBound) :
    copy.receive (d.didChange text) =
      some (copy.insert d.uri ⟨d.version, String.ofList text⟩) := by
  have didChange_of_version : forall params, version? params = some (d.version : Int) ->
      uri? params = some d.uri ->
      ((params.get? "contentChanges").bind Json.items?).bind changedText? =
        some (String.ofList text) ->
      didChange copy params = some (copy.insert d.uri ⟨d.version, String.ofList text⟩) := by
    intro params hv huri htext
    simp [didChange, hv, huri, htext, hopen, hnext]
  apply didChange_of_version
  · apply version?_of_field _ hversion
    simp [field?, Json.get?_ofMembers]
  · simp [uri?, field?, Json.get?_ofMembers, Json.str?]
  · simp [changedText?, Json.get?_ofMembers, Json.str?, Json.items?]

theorem receive_didClose {copy : ServerCopy} {uri : String} {old : ServerDocument}
    (hopen : copy.get? uri = some old) :
    copy.receive (Document.didClose uri) = some (copy.erase uri) := by
  change didClose copy (Json.ofMembers _) = _
  simp [didClose, uri?, field?, Json.get?_ofMembers, Json.str?, Table.contains, hopen]

end ServerCopy

end LanguageClient

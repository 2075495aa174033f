import LanguageClient.Proofs.Frame.Single
import LanguageClient.Proofs.Message.Members
import LanguageClient.Session.Connection

/-!
# Built messages are classified as what they were built from

A message that is built, written as a frame, decoded and classified gives back its id, its
method and what it carries. Null parameters are left out when a message is written and are
null again when it is read; a null result is written. A frame comes back just if the decoder
accepts its size. A response whose id denotes the number of an unanswered request settles
that request and no other.
-/

namespace LanguageClient

/-!
# Records
-/

namespace Json

theorem record?_ofMembers (least : Nat) (names : List String)
    (members : List (String × Json)) :
    record? least (names.map ([·])) (ofMembers members) =
      some (names.map fun name => (ofMembers members).get? name) := by
  have hfield : forall (kept : List (String × Json)) (name : String),
      fieldValue? kept [name] = some (lookup name kept) := by
    intro kept name
    cases hlookup : lookup name kept <;> simp [fieldValue?, hlookup]
  rw [ofMembers, record?]
  induction names with
  | nil => rfl
  | cons name names ih =>
      rw [List.map_cons, List.mapM_cons, hfield, ih]
      rfl

theorem optional_some_of_ne_null {v : Option Json} (h : v ≠ some .null) :
    optional some v = some v := by
  cases v with
  | none => rfl
  | some v =>
      cases v with
      | null => exact absurd rfl h
      | _ => rfl

end Json

namespace ResponseError

/-- An error that can be read back: its code has 64 bits, and what it
carries besides is no null. -/
structure IsModest (depth : Nat) (e : ResponseError) : Prop where
  code : -Int.pow 2 63 ≤ e.code ∧ e.code < Int.pow 2 63
  data : forall v, e.data = some v -> v.IsModest depth
  present : e.data ≠ some .null

theorem ofJson?_toJson {depth : Nat} {e : ResponseError} (h : e.IsModest depth) :
    ofJson? e.toJson = some e := by
  rcases get?_toJson e with ⟨hcode, hmessage, hdata⟩
  have hrecord : Json.record? 2 [["code"], ["message"], ["data"]] e.toJson =
      some [some (.int e.code), some (.str e.message), e.data] := by
    rw [← hcode, ← hmessage, ← hdata]
    exact Json.record?_ofMembers 2 ["code", "message", "data"] e.members
  have hsigned : Json.signed? (.int e.code) = some e.code := if_pos h.code
  unfold ofJson?
  rw [hrecord]
  simp only [Option.bind_eq_bind, Option.bind_some, Json.required, Json.str?, hsigned,
    Json.optional_some_of_ne_null h.present]
  rfl

theorem isModest_toJson {depth : Nat} {e : ResponseError} (h : e.IsModest depth) :
    e.toJson.IsModest (depth + 1) := by
  apply Json.isModest_ofMembers
  rcases e with ⟨code, message, data⟩
  have hcode : Json.IsModest depth (.int code) :=
    ⟨⟨h.code.left, Int.lt_trans h.code.right (by decide)⟩, Nat.zero_le depth⟩
  have hmessage : Json.IsModest depth (.str message) := ⟨trivial, Nat.zero_le depth⟩
  intro m hm
  cases data with
  | none =>
      simp only [members, Option.toList_none, List.map_nil, List.append_nil, List.mem_cons,
        List.not_mem_nil, or_false] at hm
      rcases hm with rfl | rfl
      · exact hcode
      · exact hmessage
  | some data =>
      simp only [members, Option.toList_some, List.map_cons, List.map_nil, List.cons_append,
        List.nil_append, List.mem_cons, List.not_mem_nil, or_false] at hm
      rcases hm with rfl | rfl | rfl
      · exact hcode
      · exact hmessage
      · exact h.data data rfl

end ResponseError

/-!
# What is built
-/

namespace Outgoing

/-- What the builders build, and what it says. Values have no floats and
nest at most 120 deep. -/
inductive Says : Outgoing -> Incoming -> Prop where
  | request {id : Nat} (method : String) {params : Json} (hid : id < Unsigned.wordBound)
      (hparams : params.IsModest 120) :
      Says (.message (.request id method params)) (.request (Json.ofNat id) method params)
  | notification (method : String) {params : Json} (hparams : params.IsModest 120) :
      Says (.message (.notification method params)) (.notification method params)
  | reply {id result : Json} (hpresent : id ≠ .null) (hid : id.IsModest 120)
      (hresult : result.IsModest 120) :
      Says (.reply (Message.reply id result)) (.response id (.ok result))
  | replyError {id : Json} {e : ResponseError} (hpresent : id ≠ .null) (hid : id.IsModest 120)
      (he : e.IsModest 120) :
      Says (.reply (Message.replyError id e)) (.response id (.error e))

end Outgoing

/-!
# What is classified
-/

namespace Incoming

theorem classify_ofMembers (members : List (String × Json)) :
    classify (Json.ofMembers members) =
      match (Json.ofMembers members).present? "id",
          ((Json.ofMembers members).get? "method").bind Json.str? with
      | some id, some method =>
          .request id method (((Json.ofMembers members).get? "params").getD .null)
      | some id, none =>
          match (Json.ofMembers members).present? "error" with
          | some e => .response id (.error (errorOf e))
          | none => .response id (.ok (((Json.ofMembers members).get? "result").getD .null))
      | none, some method =>
          .notification method (((Json.ofMembers members).get? "params").getD .null)
      | none, none => .invalid :=
  rfl

theorem getD_params? (params : Json) : (Message.params? params).getD .null = params := by
  cases params <;> rfl

theorem classify_request (id : Nat) (method : String) (params : Json) :
    classify (Message.request id method params).toJson =
      .request (Json.ofNat id) method params := by
  rcases Message.get?_call (some (Json.ofNat id)) method (Message.params? params) with
    ⟨hid, hmethod, hparams⟩
  have hpresent := Json.present?_of_get? hid nofun
  rw [Message.toJson] at hpresent hmethod hparams
  rw [Message.request, Message.toJson, classify_ofMembers, hpresent, hmethod, hparams,
    getD_params?]
  rfl

theorem classify_notification (method : String) (params : Json) :
    classify (Message.notification method params).toJson = .notification method params := by
  rcases Message.get?_call none method (Message.params? params) with ⟨hid, hmethod, hparams⟩
  have habsent := Json.present?_of_get?_none hid
  rw [Message.toJson] at habsent hmethod hparams
  rw [Message.notification, Message.toJson, classify_ofMembers, habsent, hmethod, hparams,
    getD_params?]
  rfl

theorem classify_reply {id : Json} (result : Json) (h : id ≠ .null) :
    classify (Message.reply id result) = .response id (.ok result) := by
  have hget := Message.get?_reply id result
  have hpresent := Json.present?_of_get? (hget "id") h
  have habsent := Json.present?_of_get?_none (hget "error")
  rw [Message.reply] at hget hpresent habsent
  rw [Message.reply, classify_ofMembers, hpresent, hget "method", hget "result"]
  simp only [String.reduceEq, if_false, if_true, Option.bind_none, Option.getD_some, habsent]

theorem classify_replyError {depth : Nat} {id : Json} {e : ResponseError} (h : id ≠ .null)
    (he : e.IsModest depth) :
    classify (Message.replyError id e) = .response id (.error e) := by
  have hget := Message.get?_replyError id e
  have hpresent := Json.present?_of_get? (hget "id") h
  have hfailed := Json.present?_of_get? (hget "error") nofun
  rw [Message.replyError] at hget hpresent hfailed
  rw [Message.replyError, classify_ofMembers, hpresent, hget "method"]
  simp only [String.reduceEq, if_false, Option.bind_none, hfailed]
  rw [errorOf, ResponseError.ofJson?_toJson he]

end Incoming

/-!
# What is written
-/

namespace Outgoing

theorem isModest_ofNat {id : Nat} (depth : Nat) (h : id < Unsigned.wordBound) :
    (Json.ofNat id).IsModest depth := by
  have hword : Json.IsWord (Int.ofNat id) :=
    ⟨Int.le_trans (by decide) (Int.natCast_nonneg id), Int.ofNat_lt.mpr h⟩
  exact ⟨hword, Nat.zero_le depth⟩

theorem isModest_str (depth : Nat) (text : String) : (Json.str text).IsModest depth :=
  ⟨trivial, Nat.zero_le depth⟩

structure Writes (out : Outgoing) : Prop where
  text : Json.HasNoControls out.print
  value : Json.parseBytes? (Utf8.encode out.print) = some out.toJson

theorem writes_message {m : Message} (depth : Nat) (herror : m.error = none)
    (h : forall member, member ∈ m.members -> member.2.IsModest depth)
    (hdepth : depth + 1 < Json.depthLimit) : Writes (.message m) := by
  have hplain : Json.MembersPlain m.members :=
    Json.membersPlain_iff.mpr fun l hl => (h l hl).left
  have htext : Json.HasNoControls (Message.print m) :=
    Json.hasNoControls_print_obj m.members hplain
  refine ⟨htext, ?_⟩
  rw [print, Message.print, Json.parseBytes?_of_isModest h hdepth, toJson, Message.toJson,
    Message.members, herror]
  rfl

theorem writes_reply {v : Json} {depth : Nat} (h : v.IsModest depth)
    (hdepth : depth < Json.depthLimit) : Writes (.reply v) :=
  ⟨Json.hasNoControls_print v h.left,
    Json.parseBytes?_encode_print h.left (Nat.lt_of_le_of_lt h.right hdepth)⟩

theorem isModest_params? {params v : Json} {depth : Nat} (hparams : params.IsModest depth)
    (hv : v ∈ (Message.params? params).toList) : v.IsModest depth := by
  rw [Option.mem_toList, Message.params?] at hv
  split at hv
  · cases hv
  · cases hv
    exact hparams

theorem writes_call {id : Option Json} (method : String) {params : Json}
    (hid : forall v, id = some v -> v.IsModest 120) (hparams : params.IsModest 120) :
    Writes (.message ⟨"2.0", id, some method, Message.params? params, none, none⟩) := by
  refine writes_message 120 rfl ?_ (by decide)
  intro member hmember
  simp only [Message.members, Option.toList_some, Option.toList_none, List.map_cons,
    List.map_nil, List.append_nil, List.mem_append, List.mem_singleton,
    List.mem_map] at hmember
  rcases hmember with ((rfl | ⟨v, hv, rfl⟩) | rfl) | ⟨v, hv, rfl⟩
  · exact isModest_str 120 "2.0"
  · exact hid v (Option.mem_toList.mp hv)
  · exact isModest_str 120 method
  · exact isModest_params? hparams hv

theorem Says.writes {out : Outgoing} {incoming : Incoming} (h : Says out incoming) :
    out.Writes := by
  cases h with
  | @request id method params hid hparams =>
      refine writes_call method ?_ hparams
      intro v hv
      cases hv
      exact isModest_ofNat 120 hid
  | @notification method params hparams =>
      refine writes_call method ?_ hparams
      intro v hv
      cases hv
  | @reply id result _ hid hresult =>
      refine writes_reply (Json.isModest_ofMembers 120 ?_) (by decide)
      simp only [List.forall_mem_cons]
      exact ⟨isModest_str 120 "2.0", hid, hresult, List.forall_mem_nil _⟩
  | @replyError id e _ hid he =>
      refine writes_reply (Json.isModest_ofMembers 121 ?_) (by decide)
      simp only [List.forall_mem_cons]
      exact ⟨isModest_str 121 "2.0", hid.mono (by decide), ResponseError.isModest_toJson he,
        List.forall_mem_nil _⟩

theorem Says.classify_toJson {out : Outgoing} {incoming : Incoming} (h : Says out incoming) :
    Incoming.classify out.toJson = incoming := by
  cases h with
  | request method => exact Incoming.classify_request _ method _
  | notification method => exact Incoming.classify_notification method _
  | reply hpresent => exact Incoming.classify_reply _ hpresent
  | replyError hpresent _ he => exact Incoming.classify_replyError hpresent he

/-- A decoder that is given the frame of `out` and nothing else takes it off whole, as a
message that is classified as `incoming`. -/
def ComesBackAs (limit : Nat) (out : Outgoing) (incoming : Incoming) : Prop :=
  exists v, Frame.decode limit out.frame = .message v [] ∧ Incoming.classify v = incoming

theorem Says.comesBackAs_iff {out : Outgoing} {incoming : Incoming} (h : Says out incoming)
    (limit : Nat) :
    out.ComesBackAs limit incoming <->
      (Utf8.encode out.print).length ≤ limit ∧ out.frame.length < Unsigned.wordBound := by
  have hdecode : forall v, Frame.decode limit out.frame = .message v [] <->
      (v = out.toJson ∧ [] = []) ∧ (Utf8.encode out.print).length ≤ limit ∧
        out.frame.length < Unsigned.wordBound :=
    fun v => Frame.decode_encode_eq_message_iff h.writes.text h.writes.value
  constructor
  · rintro ⟨v, hv, -⟩
    exact ((hdecode v).mp hv).right
  · intro hsizes
    exact ⟨out.toJson, (hdecode out.toJson).mpr ⟨⟨rfl, rfl⟩, hsizes⟩, h.classify_toJson⟩

end Outgoing

/-!
# What is settled
-/

namespace Incoming

/-- An id that denotes the number `n`: the number itself or its decimal text. -/
def Denotes (id : Json) (n : Nat) : Prop :=
  id = Json.ofNat n ∨ id = .str (toString n)

theorem number?_of_denotes {id : Json} {n : Nat} (hword : n < Unsigned.wordBound)
    (h : Denotes id n) : number? id = some n := by
  rcases h with rfl | rfl
  · have hbounds : 0 ≤ Int.ofNat n ∧ Int.ofNat n < Int.pow 2 64 :=
      ⟨Int.natCast_nonneg n, Int.ofNat_lt.mpr hword⟩
    rw [Json.ofNat, number?, Json.word?, if_pos hbounds]
    · rfl
    · exact nofun
  · rw [number?, Nat.toString_eq_repr, Nat.repr_eq_ofList_toDigits, String.toList_ofList]
    exact Unsigned.read?_of_isNumeral hword (Unsigned.isNumeral_toDigits n)

end Incoming

namespace Connection

/-- What follows `c` answers the caller `t` of request `n` with what the server says,
strikes the request off, and differs in nothing else. -/
structure Settles (c : Connection) (n : Nat) (t : Ticket) (outcome : Except ResponseError Json)
    (next : Connection × Emitted) : Prop where
  answers : next.2 =
    .answer t (.response (outcome.mapError fun e => .serverError e.code e.message e.data))
  pending : forall m, next.1.pending.get? m = if n = m then none else c.pending.get? m
  rest : next.1 = { c with pending := next.1.pending }

theorem settles_dispatch (folder : String × String) {c : Connection} {message id : Json}
    {n : Nat}
    {t : Ticket} {outcome : Except ResponseError Json} (hword : n < Unsigned.wordBound)
    (hmessage : Incoming.classify message = .response id outcome) (hid : Incoming.Denotes id n)
    (hpending : c.pending.get? n = some t) :
    c.Settles n t outcome (c.dispatch folder message) := by
  have hnumber := Incoming.number?_of_denotes hword hid
  have hdispatch : c.dispatch folder message =
      ({ c with pending := c.pending.erase n },
        .answer t (.response (outcome.mapError fun e =>
          .serverError e.code e.message e.data))) := by
    simp only [dispatch, hmessage, hnumber, hpending]
  rw [hdispatch]
  exact ⟨rfl, Table.get?_erase c.pending n, rfl⟩

end Connection

/-!
# Builders and classifier
-/

namespace Incoming

/-- What is built comes back as what it was built from, just if the decoder accepts its size. A
response whose id denotes the number of an unanswered request settles that request alone. -/
theorem classify_built (limit : Nat) :
    (forall {out : Outgoing} {incoming : Incoming}, out.Says incoming ->
        (out.ComesBackAs limit incoming <->
          (Utf8.encode out.print).length ≤ limit ∧ out.frame.length < Unsigned.wordBound)) ∧
      forall (folder : String × String) (c : Connection) {message id : Json} {n : Nat}
      {t : Ticket} {outcome : Except ResponseError Json}, n < Unsigned.wordBound ->
        classify message = .response id outcome -> Denotes id n ->
        c.pending.get? n = some t -> c.Settles n t outcome (c.dispatch folder message) :=
  ⟨fun h => h.comesBackAs_iff limit, fun folder _ => Connection.settles_dispatch folder⟩

def plainError : ResponseError := ⟨-32603, "no", none⟩

def asking : Connection :=
  { Connection.new false with pending := (Table.empty.insert 6 ⟨0, 2⟩).insert 7 ⟨0, 3⟩ }

theorem classify_built_shapes :
    Outgoing.ComesBackAs 64 (.message (.request 18446744073709551615 "m" .null))
        (.request (.int 18446744073709551615) "m" .null) ∧
      Outgoing.ComesBackAs 64 (.message (.notification "m" (.arr [.null, .obj []])))
        (.notification "m" (.arr [.null, .obj []])) ∧
      Outgoing.ComesBackAs 64 (.reply (Message.reply (.str "7") .null))
        (.response (.str "7") (.ok .null)) ∧
      Outgoing.ComesBackAs 80 (.reply (Message.replyError (.int (-1)) plainError))
        (.response (.int (-1)) (.error plainError)) ∧
      asking.Settles 7 ⟨0, 3⟩ (.ok .null)
        (asking.dispatch ("file:///w", "w") (Message.reply (.str "7") .null)) := by
  have hnull : Json.IsModest 120 .null := ⟨trivial, by decide⟩
  have hparams : Json.IsModest 120 (.arr [.null, .obj []]) :=
    ⟨⟨trivial, ⟨List.Pairwise.nil, trivial⟩, trivial⟩, by decide⟩
  have htext : Json.IsModest 120 (.str "7") := ⟨trivial, by decide⟩
  have htextPresent : Json.str "7" ≠ .null := nofun
  have hnumber : Json.IsModest 120 (.int (-1)) := ⟨⟨by decide, by decide⟩, by decide⟩
  have hnumberPresent : Json.int (-1) ≠ .null := nofun
  have herror : plainError.IsModest 120 := ⟨by decide, nofun, nofun⟩
  refine ⟨?_, ?_, ?_, ?_, ?_⟩
  · exact ((classify_built 64).left (.request "m" (by decide) hnull)).mpr
      ⟨by decide +kernel, by decide +kernel⟩
  · exact ((classify_built 64).left (.notification "m" hparams)).mpr
      ⟨by decide +kernel, by decide +kernel⟩
  · exact ((classify_built 64).left (.reply htextPresent htext hnull)).mpr
      ⟨by decide +kernel, by decide +kernel⟩
  · exact ((classify_built 80).left (.replyError hnumberPresent hnumber herror)).mpr
      ⟨by decide +kernel, by decide +kernel⟩
  · exact (classify_built 64).right ("file:///w", "w") asking (by decide)
      (classify_reply .null htextPresent) (Or.inr (by decide)) rfl

end Incoming

namespace Outgoing

def longNotice (n : Nat) : Message :=
  .notification "m" (.str (String.ofList (List.replicate n 'a')))

theorem says_longNotice (n : Nat) :
    Says (.message (longNotice n))
      (.notification "m" (.str (String.ofList (List.replicate n 'a')))) :=
  .notification "m" ⟨trivial, Nat.zero_le 120⟩

theorem length_le_length_encode (text : Text) : text.length ≤ (Utf8.encode text).length := by
  induction text with
  | nil => exact Nat.le_refl 0
  | cons c text ih =>
      have hsize := c.utf8Size_pos
      rw [Utf8.encode_cons, List.length_append, String.length_utf8EncodeChar, List.length_cons]
      omega

theorem lt_length_longNotice (n : Nat) :
    n < (Utf8.encode (Outgoing.message (longNotice n)).print).length := by
  have hletters : (List.replicate n 'a').flatMap Json.escape = List.replicate n 'a' := by
    induction n with
    | zero => rfl
    | succ n ih =>
        rw [List.replicate_succ, List.flatMap_cons, ih]
        rfl
  have hprint : (Outgoing.message (longNotice n)).print =
      Json.print (.obj [("jsonrpc", .str "2.0"), ("method", .str "m"),
        ("params", .str (String.ofList (List.replicate n 'a')))]) := rfl
  refine Nat.lt_of_lt_of_le ?_ (length_le_length_encode _)
  rw [hprint]
  simp only [Json.print, Json.printMembers, Json.quoted, String.toList_ofList, hletters,
    List.length_cons, List.length_append, List.length_replicate]
  omega

/-- Not every message comes back: a short one does not from a decoder that accepts less, and
a long one not even from a decoder that accepts what is accepted unless told otherwise. -/
theorem not_all_come_back :
    (Says (.message (.notification "exit" .null)) (.notification "exit" .null) ∧
        ¬ ComesBackAs 4 (.message (.notification "exit" .null)) (.notification "exit" .null)) ∧
      Says (.message (longNotice Frame.defaultLimit))
          (.notification "m" (.str (String.ofList (List.replicate Frame.defaultLimit 'a')))) ∧
        ¬ ComesBackAs Frame.defaultLimit (.message (longNotice Frame.defaultLimit))
          (.notification "m"
            (.str (String.ofList (List.replicate Frame.defaultLimit 'a')))) := by
  have hexit : Says (.message (.notification "exit" .null)) (.notification "exit" .null) :=
    .notification "exit" ⟨trivial, by decide⟩
  have hlong := says_longNotice Frame.defaultLimit
  refine ⟨⟨hexit, ?_⟩, hlong, ?_⟩
  · rw [hexit.comesBackAs_iff 4]
    decide +kernel
  · rw [hlong.comesBackAs_iff Frame.defaultLimit]
    rintro ⟨hlimit, -⟩
    exact absurd hlimit (Nat.not_le_of_lt (lt_length_longNotice Frame.defaultLimit))

end Outgoing
end LanguageClient

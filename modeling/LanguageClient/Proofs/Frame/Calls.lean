import LanguageClient.Proofs.Frame.Stream

/-!
# Calls of the decoder

A call of the decoder goes over its buffer piece by piece. Headers without a usable length
and frames whose body is not JSON are dropped whole, until a message, an incomplete frame or
a frame whose sizes do not add up stands at the front. So a call takes whole pieces and
nothing else. It gives up just at a header whose sum does not fit in 64 bits, and a limit of
64 bits does not exclude that.
-/

namespace LanguageClient
namespace Frame

/-!
# Where a header ends
-/

theorem exists_blankLine_of_splitBlock {bytes : Bytes} {block : Block}
    (h : splitBlock bytes = some block) :
    exists blank : BlankLine, block.separator = blank.bytes.length ∧
      bytes = block.header ++ blank.bytes ++ block.rest := by
  induction bytes generalizing block with
  | nil => simp [splitBlock] at h
  | cons b rest ih =>
      rw [splitBlock] at h
      cases hblank : blankLine? (b :: rest) with
      | some found =>
          rw [hblank] at h
          cases h
          rcases exists_of_blankLine? hblank with ⟨blank, hbytes⟩
          have hsize := (size_of_blankLine hblank).left
          rw [hbytes, List.length_append, Nat.add_right_cancel_iff] at hsize
          exact ⟨blank, hsize.symm, hbytes⟩
      | none =>
          rw [hblank] at h
          cases hinner : splitBlock rest with
          | none => simp [hinner] at h
          | some inner =>
              simp only [hinner, Option.some.injEq] at h
              subst h
              rcases ih hinner with ⟨blank, hsize, hrest⟩
              exact ⟨blank, hsize, congrArg (List.cons b) hrest⟩

theorem splitBlock_of_append {header : Bytes} {blank : BlankLine} (rest : Bytes)
    (h : EndsFirst header blank) :
    splitBlock (header ++ blank.bytes ++ rest) = some ⟨header, blank.bytes.length, rest⟩ :=
  splitBlock_append rest (splitBlock_of_endsFirst h)

theorem endsFirst_of_splitBlock {header rest : Bytes} {blank : BlankLine}
    (h : splitBlock (header ++ blank.bytes ++ rest) = some ⟨header, blank.bytes.length,
      rest⟩) :
    EndsFirst header blank := by
  -- The blank line behind the header ends a block already in what comes before `rest`.
  rcases splitBlock_blankLine_within header blank [] with ⟨block, hblock, -⟩
  rw [List.append_nil] at hblock
  rw [splitBlock_append rest hblock, Option.some.injEq, Block.mk.injEq] at h
  rcases h with ⟨hheader, hsize, hrest⟩
  rw [List.append_left_eq_self] at hrest
  rw [endsFirst_iff, hblock, ← hheader, ← hsize, ← hrest]

/-- A block is cut off at the first blank line of either kind. -/
theorem splitBlock_eq_some_iff {bytes header rest : Bytes} {size : Nat} :
    splitBlock bytes = some ⟨header, size, rest⟩ <->
      exists blank : BlankLine, size = blank.bytes.length ∧
        bytes = header ++ blank.bytes ++ rest ∧ EndsFirst header blank := by
  constructor
  · intro h
    rcases exists_blankLine_of_splitBlock h with ⟨blank, hsize, hbytes⟩
    dsimp only at hsize hbytes
    rw [hbytes, hsize] at h
    exact ⟨blank, hsize, hbytes, endsFirst_of_splitBlock h⟩
  · rintro ⟨blank, rfl, rfl, hends⟩
    exact splitBlock_of_append rest hends

theorem splitBlock_eq_none_iff {bytes : Bytes} :
    splitBlock bytes = none <->
      forall (blank : BlankLine) (before after : Bytes), bytes ≠ before ++ blank.bytes ++
      after := by
  constructor
  · intro h blank before after heq
    rcases splitBlock_blankLine_within before blank after with ⟨block, hblock, -⟩
    rw [← heq, h] at hblock
    cases hblock
  · intro h
    cases hblock : splitBlock bytes with
    | none => rfl
    | some block =>
        rcases exists_blankLine_of_splitBlock hblock with ⟨blank, -, hbytes⟩
        exact absurd hbytes (h blank block.header block.rest)

/-!
# Fronts
-/

theorem filter_bodyLength?_eq_some_iff {limit n : Nat} {header : Bytes} :
    (bodyLength? header).filter (· ≤ limit) = some n <-> Declares header n ∧ n ≤ limit := by
  rw [Option.filter_eq_some_iff, bodyLength?_eq_some_iff, decide_eq_true_eq]

theorem front_of_declares {limit n : Nat} {header : Bytes} {blank : BlankLine} (rest : Bytes)
    (hends : EndsFirst header blank) (hdeclares : Declares header n) (hlimit : n ≤ limit) :
    front limit (header ++ blank.bytes ++ rest) =
      if Unsigned.wordBound ≤ header.length + blank.bytes.length + n then .overflow
      else if rest.length < n then .wait
      else .body (rest.take n) (rest.drop n) := by
  rw [front, splitBlock_of_append rest hends]
  simp only [filter_bodyLength?_eq_some_iff.mpr ⟨hdeclares, hlimit⟩]

/-- A header that declares a body within the limit makes a sum that does not fit in 64 bits. -/
def Overflows (limit : Nat) (buffer : Bytes) : Prop :=
  exists header blank n rest, buffer = header ++ BlankLine.bytes blank ++ rest ∧
    EndsFirst header blank ∧ Declares header n ∧ n ≤ limit ∧
    Unsigned.wordBound ≤ header.length + blank.bytes.length + n

/-- Either no blank line of either kind has come yet, or the first header declares a body
within the limit of which fewer bytes have come. -/
def Incomplete (limit : Nat) (buffer : Bytes) : Prop :=
  (forall (blank : BlankLine) (before after : Bytes), buffer ≠ before ++ blank.bytes ++
    after) ∨
    exists header blank n received, buffer = header ++ BlankLine.bytes blank ++ received ∧
      EndsFirst header blank ∧ Declares header n ∧ n ≤ limit ∧ received.length < n

theorem incomplete_of_splitBlock_none {limit : Nat} {buffer : Bytes}
    (h : splitBlock buffer = none) :
    Incomplete limit buffer ∧ ¬ Overflows limit buffer := by
  have hnone := splitBlock_eq_none_iff.mp h
  refine ⟨Or.inl hnone, ?_⟩
  rintro ⟨header, blank, n, rest, hbuffer, -⟩
  exact hnone blank header rest hbuffer

theorem overflows_iff_of_declares {limit n : Nat} {header : Bytes} {blank : BlankLine}
    (rest : Bytes)
    (hends : EndsFirst header blank) (hdeclares : Declares header n) (hlimit : n ≤ limit) :
    Overflows limit (header ++ blank.bytes ++ rest) <->
      Unsigned.wordBound ≤ header.length + blank.bytes.length + n := by
  constructor
  · rintro ⟨other, kind, m, more, hother, hfirst, hm, -, hlarge⟩
    have hblock := splitBlock_of_append rest hends
    rw [hother, splitBlock_of_append more hfirst, Option.some.injEq, Block.mk.injEq] at hblock
    rcases hblock with ⟨rfl, hkind, -⟩
    rw [← bodyLength?_eq_some_iff] at hm hdeclares
    rw [hdeclares, Option.some.injEq] at hm
    rwa [hkind, ← hm] at hlarge
  · intro hlarge
    exact ⟨header, blank, n, rest, rfl, hends, hdeclares, hlimit, hlarge⟩

inductive FrontOf (limit : Nat) : Bytes -> Front -> Prop where
  | wait {buffer : Bytes} (hincomplete : Incomplete limit buffer)
      (hfits : ¬ Overflows limit buffer) :
      FrontOf limit buffer .wait
  | overflow {buffer : Bytes} (hoverflows : Overflows limit buffer) :
      FrontOf limit buffer .overflow
  | skip {header : Bytes} {blank : BlankLine} (rest : Bytes)
      (hjunk : (Piece.junk header blank).WellFormed limit) :
      FrontOf limit ((Piece.junk header blank).bytes ++ rest) (.skip rest)
  | body {header body : Bytes} {blank : BlankLine} (rest : Bytes)
      (hframe : (Piece.frame header blank body).WellFormed limit) :
      FrontOf limit ((Piece.frame header blank body).bytes ++ rest) (.body body rest)

theorem frontOf_of_declares {limit n : Nat} {header : Bytes} {blank : BlankLine} (rest : Bytes)
    (hends : EndsFirst header blank) (hdeclares : Declares header n) (hlimit : n ≤ limit) :
    FrontOf limit (header ++ blank.bytes ++ rest)
      (front limit (header ++ blank.bytes ++ rest)) := by
  have hoverflows := overflows_iff_of_declares rest hends hdeclares hlimit
  rw [front_of_declares rest hends hdeclares hlimit]
  by_cases hwide : Unsigned.wordBound ≤ header.length + blank.bytes.length + n
  · rw [if_pos hwide]
    exact .overflow (hoverflows.mpr hwide)
  rw [if_neg hwide]
  by_cases hshort : rest.length < n
  · rw [if_pos hshort]
    exact .wait (Or.inr ⟨header, blank, n, rest, rfl, hends, hdeclares, hlimit, hshort⟩)
      (mt hoverflows.mp hwide)
  rw [if_neg hshort]
  have hlong : (rest.take n).length = n := List.length_take_of_le (Nat.le_of_not_lt hshort)
  have hframe : (Piece.frame header blank (rest.take n)).WellFormed limit := by
    refine ⟨hends, ?_, ?_, ?_⟩ <;> rw [hlong]
    · exact hdeclares
    · exact hlimit
    · exact Nat.lt_of_not_le hwide
  have hfront := FrontOf.body (rest.drop n) hframe
  rwa [Piece.bytes, List.append_assoc, List.take_append_drop] at hfront

theorem frontOf_front (limit : Nat) (buffer : Bytes) :
    FrontOf limit buffer (front limit buffer) := by
  cases hblock : splitBlock buffer with
  | none =>
      rcases incomplete_of_splitBlock_none hblock with ⟨hincomplete, hfits⟩
      rw [front, hblock]
      exact .wait hincomplete hfits
  | some block =>
      rcases block with ⟨header, size, rest⟩
      rcases splitBlock_eq_some_iff.mp hblock with ⟨blank, -, rfl, hends⟩
      cases hlength : (bodyLength? header).filter (· ≤ limit) with
      | none =>
          have hjunk : (Piece.junk header blank).WellFormed limit :=
            ⟨hends, unusable_iff.mpr hlength⟩
          rw [front_junk rest hjunk]
          exact .skip rest hjunk
      | some n =>
          rcases filter_bodyLength?_eq_some_iff.mp hlength with ⟨hdeclares, hlimit⟩
          exact frontOf_of_declares rest hends hdeclares hlimit

/-!
# Calls
-/

def Piece.IsDropped (limit : Nat) (piece : Piece) : Prop :=
  piece.WellFormed limit ∧ piece.message? = none

theorem decode_of_isDropped {limit : Nat} {piece : Piece} (rest : Bytes)
    (h : piece.IsDropped limit) : decode limit (piece.bytes ++ rest) = decode limit rest := by
  cases piece with
  | frame header blank body => exact decode_of_dropped (front_frame rest h.left) h.right
  | junk header blank => exact decode_of_skip (front_junk rest h.left)

theorem decode_flatMap_bytes {limit : Nat} {pieces : List Piece} (rest : Bytes)
    (h : forall piece, piece ∈ pieces -> piece.IsDropped limit) :
    decode limit (pieces.flatMap Piece.bytes ++ rest) = decode limit rest := by
  induction pieces with
  | nil => rfl
  | cons piece pieces ih =>
      rw [List.flatMap_cons, List.append_assoc,
        decode_of_isDropped _ (h piece List.mem_cons_self),
        ih fun other hother => h other (List.mem_cons_of_mem piece hother)]

theorem two_le_length_bytes (piece : Piece) : 2 ≤ piece.bytes.length := by
  have hblank : forall blank : BlankLine, 2 ≤ blank.bytes.length := by
    intro blank
    cases blank <;> decide
  cases piece with
  | frame header blank body =>
      have hsize := hblank blank
      rw [Piece.bytes, List.length_append, List.length_append]
      omega
  | junk header blank =>
      have hsize := hblank blank
      rw [Piece.bytes, List.length_append]
      omega

theorem two_mul_length_le (pieces : List Piece) :
    2 * pieces.length ≤ (pieces.flatMap Piece.bytes).length := by
  induction pieces with
  | nil => exact Nat.le_refl 0
  | cons piece pieces ih =>
      have hpiece := two_le_length_bytes piece
      rw [List.flatMap_cons, List.length_append, List.length_cons]
      omega

/-- How a call ends, at a front that is not dropped. -/
inductive EndsCall (limit : Nat) : Bytes -> Decoded -> Prop where
  | wait {tail : Bytes} (hincomplete : Incomplete limit tail)
      (hfits : ¬ Overflows limit tail) :
      EndsCall limit tail (.wait tail)
  | overflow {tail : Bytes} (hoverflows : Overflows limit tail) : EndsCall limit tail .overflow
  | message {header body : Bytes} {blank : BlankLine} {v : Json} (rest : Bytes)
      (hframe : (Piece.frame header blank body).WellFormed limit)
      (hv : Json.parseBytes? body = some v) :
      EndsCall limit ((Piece.frame header blank body).bytes ++ rest) (.message v rest)

/-- A call drops pieces from the front of its buffer and ends at what stands behind them. -/
theorem exists_endsCall (limit : Nat) (buffer : Bytes) :
    exists (dropped : List Piece) (tail : Bytes),
      buffer = dropped.flatMap Piece.bytes ++ tail ∧
      (forall piece, piece ∈ dropped -> piece.IsDropped limit) ∧
      EndsCall limit tail (decode limit buffer) := by
  have hfront := frontOf_front limit buffer
  fun_induction decode limit buffer with
  | case1 buffer hf =>
      rw [hf] at hfront
      cases hfront with
      | wait hincomplete hfits =>
          exact ⟨[], buffer, rfl, List.forall_mem_nil _, .wait hincomplete hfits⟩
  | case2 buffer hf =>
      rw [hf] at hfront
      cases hfront with
      | overflow hoverflows =>
          exact ⟨[], buffer, rfl, List.forall_mem_nil _, .overflow hoverflows⟩
  | case3 buffer next hf ih =>
      rw [hf] at hfront
      cases hfront with
      | @skip header blank _ hjunk =>
          rcases ih (frontOf_front limit next) with ⟨dropped, tail, hnext, hdropped, hend⟩
          refine ⟨.junk header blank :: dropped, tail, ?_, ?_, hend⟩
          · rw [List.flatMap_cons, List.append_assoc, ← hnext]
          · exact List.forall_mem_cons.mpr ⟨⟨hjunk, rfl⟩, hdropped⟩
  | case4 buffer bytes next hf v hv =>
      rw [hf] at hfront
      cases hfront with
      | body _ hframe => exact ⟨[], _, rfl, List.forall_mem_nil _, .message next hframe hv⟩
  | case5 buffer bytes next hf hv ih =>
      rw [hf] at hfront
      cases hfront with
      | @body header _ blank _ hframe =>
          rcases ih (frontOf_front limit next) with ⟨dropped, tail, hnext, hdropped, hend⟩
          refine ⟨.frame header blank bytes :: dropped, tail, ?_, ?_, hend⟩
          · rw [List.flatMap_cons, List.append_assoc, ← hnext]
          · exact List.forall_mem_cons.mpr ⟨⟨hframe, hv⟩, hdropped⟩

theorem front_of_incomplete {limit : Nat} {buffer : Bytes}
    (hincomplete : Incomplete limit buffer)
    (hfits : ¬ Overflows limit buffer) : front limit buffer = .wait := by
  rcases hincomplete with hnone | ⟨header, blank, n, received, rfl, hends, hdeclares, hlimit,
    hshort⟩
  · rw [front, splitBlock_eq_none_iff.mpr hnone]
  · rw [overflows_iff_of_declares received hends hdeclares hlimit] at hfits
    rw [front_of_declares received hends hdeclares hlimit, if_neg hfits, if_pos hshort]

theorem front_of_overflows {limit : Nat} {buffer : Bytes} (h : Overflows limit buffer) :
    front limit buffer = .overflow := by
  rcases h with ⟨header, blank, n, rest, rfl, hends, hdeclares, hlimit, hlarge⟩
  rw [front_of_declares rest hends hdeclares hlimit, if_pos hlarge]

theorem EndsCall.decode_eq {limit : Nat} {tail : Bytes} {outcome : Decoded}
    (h : EndsCall limit tail outcome) : decode limit tail = outcome := by
  cases h with
  | wait hincomplete hfits => exact decode_of_wait (front_of_incomplete hincomplete hfits)
  | overflow hoverflows => exact decode_of_overflow (front_of_overflows hoverflows)
  | message rest hframe hv => exact decode_of_message (front_frame rest hframe) hv

/-- The pieces that are dropped and what stands behind them decide a call. -/
theorem decode_eq_iff {limit : Nat} {buffer : Bytes} {outcome : Decoded} :
    decode limit buffer = outcome <->
      exists (dropped : List Piece) (tail : Bytes),
        buffer = dropped.flatMap Piece.bytes ++ tail ∧
        (forall piece, piece ∈ dropped -> piece.IsDropped limit) ∧
        EndsCall limit tail outcome := by
  constructor
  · rintro rfl
    exact exists_endsCall limit buffer
  · rintro ⟨dropped, tail, rfl, hdropped, hend⟩
    rw [decode_flatMap_bytes tail hdropped, hend.decode_eq]

/-!
# Sums beyond 64 bits
-/

theorem Overflows.room {limit : Nat} {buffer : Bytes} (h : Overflows limit buffer) :
    Unsigned.wordBound ≤ limit + buffer.length := by
  rcases h with ⟨header, blank, n, rest, rfl, -, -, hlimit, hlarge⟩
  rw [List.length_append, List.length_append]
  omega

theorem overflows_header {limit : Nat} (hword : limit < Unsigned.wordBound)
    (hlarge : Unsigned.wordBound ≤ limit + (Utf8.encode (header limit)).length) :
    Overflows limit (Utf8.encode (header limit)) := by
  rw [encode_header, List.length_append] at hlarge
  refine ⟨Utf8.encode (lengthField limit), .crlf, limit, [], ?_,
    endsFirst_lengthField limit .crlf, declares_lengthField hword, Nat.le_refl limit, by omega⟩
  rw [encode_header, List.append_nil]

/-- A call gives up just if a header that it comes to declares a body within the limit that
makes the sum too large; so it never does if the limit leaves room for the buffer. Otherwise
all that it takes is there: what it took and what it leaves make up the buffer, and a body
has the declared length. -/
theorem decode_overflow_iff (limit : Nat) (buffer : Bytes) :
    (decode limit buffer = .overflow <->
        exists (dropped : List Piece) (tail : Bytes),
          buffer = dropped.flatMap Piece.bytes ++ tail ∧
          (forall piece, piece ∈ dropped -> piece.IsDropped limit) ∧ Overflows limit tail) ∧
      (limit + buffer.length < Unsigned.wordBound -> decode limit buffer ≠ .overflow) ∧
      (decode limit buffer ≠ .overflow ->
        exists taken rest, buffer = taken ++ rest ∧
          (decode limit buffer = .wait rest ∨
            exists v header blank body, decode limit buffer = .message v rest ∧
              header ++ BlankLine.bytes blank ++ body <:+ taken ∧ Declares header body.length ∧
              header.length + blank.bytes.length + body.length < Unsigned.wordBound)) := by
  have hoverflow : decode limit buffer = .overflow <->
      exists (dropped : List Piece) (tail : Bytes),
        buffer = dropped.flatMap Piece.bytes ++ tail ∧
        (forall piece, piece ∈ dropped -> piece.IsDropped limit) ∧ Overflows limit tail := by
    rw [decode_eq_iff]
    constructor
    · rintro ⟨dropped, tail, hbuffer, hdropped, hend⟩
      cases hend with
      | overflow hoverflows => exact ⟨dropped, tail, hbuffer, hdropped, hoverflows⟩
    · rintro ⟨dropped, tail, hbuffer, hdropped, hoverflows⟩
      exact ⟨dropped, tail, hbuffer, hdropped, .overflow hoverflows⟩
  refine ⟨hoverflow, ?_, ?_⟩
  · intro hroom hgivesUp
    rcases hoverflow.mp hgivesUp with ⟨dropped, tail, rfl, -, hoverflows⟩
    have htail := hoverflows.room
    rw [List.length_append] at hroom
    omega
  · intro hne
    rcases exists_endsCall limit buffer with ⟨dropped, tail, hbuffer, -, hend⟩
    cases houtcome : decode limit buffer with
    | message v rest =>
        rw [houtcome] at hend
        cases hend with
        | @message header body blank _ _ hframe hv =>
            rcases hframe with ⟨-, hdeclares, -, hsum⟩
            rw [← List.append_assoc] at hbuffer
            exact ⟨_, rest, hbuffer, Or.inr ⟨v, header, blank, body, rfl,
              List.suffix_append _ _, hdeclares, hsum⟩⟩
    | wait rest =>
        rw [houtcome] at hend
        cases hend with
        | wait => exact ⟨_, tail, hbuffer, Or.inl rfl⟩
    | overflow => exact absurd houtcome hne

theorem decode_overflow_iff_largest :
    decode (Unsigned.wordBound - 1) (Utf8.encode (header (Unsigned.wordBound - 1))) =
      .overflow ∧
      64 + (Utf8.encode (header (Unsigned.wordBound - 1))).length < Unsigned.wordBound ∧
      decode 64 (Utf8.encode (header (Unsigned.wordBound - 1))) ≠ .overflow ∧
      exists taken rest, Utf8.encode (header (Unsigned.wordBound - 1)) = taken ++ rest ∧
        (decode 64 (Utf8.encode (header (Unsigned.wordBound - 1))) = .wait rest ∨
          exists v header blank body,
            decode 64 (Utf8.encode (Frame.header (Unsigned.wordBound - 1))) = .message v rest ∧
              header ++ BlankLine.bytes blank ++ body <:+ taken ∧ Declares header body.length ∧
              header.length + blank.bytes.length + body.length < Unsigned.wordBound) := by
  have hlarge :
      Overflows (Unsigned.wordBound - 1) (Utf8.encode (header (Unsigned.wordBound - 1))) :=
    overflows_header (by decide) (by decide +kernel)
  have hroom :
      64 + (Utf8.encode (header (Unsigned.wordBound - 1))).length < Unsigned.wordBound := by
    decide +kernel
  have hsmall := (decode_overflow_iff 64 (Utf8.encode (header (Unsigned.wordBound - 1)))).right
  exact ⟨(decode_overflow_iff _ _).left.mpr ⟨[], _, rfl, nofun, hlarge⟩, hroom,
    hsmall.left hroom, hsmall.right (hsmall.left hroom)⟩

/-- A limit of 64 bits does not keep the sum within 64 bits. -/
theorem not_all_sums_fit :
    ¬ forall limit, limit < Unsigned.wordBound -> forall buffer, decode limit buffer ≠
      .overflow := by
  intro h
  have hlarge :
      Overflows (Unsigned.wordBound - 1) (Utf8.encode (header (Unsigned.wordBound - 1))) :=
    overflows_header (by decide) (by decide +kernel)
  exact h (Unsigned.wordBound - 1)
    (by decide) _ (decode_of_overflow (front_of_overflows hlarge))

end Frame
end LanguageClient

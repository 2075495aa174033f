import LanguageClient.Frame.Encoder
import LanguageClient.Proofs.Frame.Chunks
import LanguageClient.Proofs.Frame.Lengths
import LanguageClient.Proofs.Json.RoundTrip

/-!
# Streams of frames and junk

A stream is put together from frames and from headers without a usable length. The
decoder takes it apart at the same places: of every piece it sees the header, the blank
line and the body, and none of the bytes of one piece is taken for a part of another.
So junk between frames does no harm, and what the encoder writes comes back whatever
stands between its frames.
-/

namespace LanguageClient
namespace Frame

/-!
# Blank lines
-/

inductive BlankLine where
  | crlf
  | lf
  deriving DecidableEq, Repr

def BlankLine.bytes : BlankLine -> Bytes
  | .crlf => [0x0D, 0x0A, 0x0D, 0x0A]
  | .lf => [0x0A, 0x0A]

/-- No blank line of either kind starts in the header, also none that the blank line behind
the header would complete. -/
def EndsFirst (header : Bytes) (blank : BlankLine) : Prop :=
  forall (other : BlankLine) (before after : Bytes),
    header ++ blank.bytes = before ++ other.bytes ++ after -> header.length ≤ before.length

theorem exists_of_blankLine? {bytes rest : Bytes} {size : Nat}
    (h : blankLine? bytes = some (size, rest)) : exists blank :
    BlankLine, bytes = blank.bytes ++ rest := by
  unfold blankLine? at h
  split at h
  · cases h
    exact ⟨.crlf, rfl⟩
  · cases h
    exact ⟨.lf, rfl⟩
  · cases h

theorem splitBlock_blankLine (blank : BlankLine) (rest : Bytes) :
    splitBlock (blank.bytes ++ rest) = some ⟨[], blank.bytes.length, rest⟩ := by
  cases blank <;> rfl

theorem splitBlock_of_endsFirst {header : Bytes} {blank : BlankLine}
    (h : EndsFirst header blank) :
    splitBlock (header ++ blank.bytes) = some ⟨header, blank.bytes.length, []⟩ := by
  induction header with
  | nil =>
      have hblank := splitBlock_blankLine blank []
      rw [List.append_nil] at hblank
      exact hblank
  | cons b header ih =>
      -- A blank line at the front would start before the end of the header.
      have hnone : blankLine? (b :: (header ++ blank.bytes)) = none := by
        cases hblank : blankLine? (b :: (header ++ blank.bytes)) with
        | none => rfl
        | some found =>
            rcases exists_of_blankLine? hblank with ⟨other, hother⟩
            exact absurd (h other [] found.2 hother) (by simp)
      have hrest : EndsFirst header blank := by
        intro other before after heq
        have hle := h other (b :: before) after (congrArg (List.cons b) heq)
        exact Nat.le_of_succ_le_succ hle
      rw [List.cons_append, splitBlock, hnone, ih hrest]

theorem splitBlock_blankLine_within (before : Bytes) (blank : BlankLine) (after : Bytes) :
    exists block, splitBlock (before ++ blank.bytes ++ after) = some block ∧
      block.header.length ≤ before.length := by
  induction before with
  | nil => exact ⟨_, splitBlock_blankLine blank after, Nat.le_refl 0⟩
  | cons b before ih =>
      rcases ih with ⟨block, hblock, hle⟩
      rw [List.cons_append, List.cons_append, splitBlock]
      cases blankLine? (b :: (before ++ blank.bytes ++ after)) with
      | some found => exact ⟨_, rfl, Nat.zero_le _⟩
      | none =>
          rw [hblock]
          exact ⟨_, rfl, Nat.succ_le_succ hle⟩

theorem endsFirst_iff {header : Bytes} {blank : BlankLine} :
    EndsFirst header blank <->
      splitBlock (header ++ blank.bytes) = some ⟨header, blank.bytes.length, []⟩ := by
  constructor
  · exact splitBlock_of_endsFirst
  · intro h other before after heq
    rcases splitBlock_blankLine_within before other after with ⟨block, hblock, hle⟩
    rw [← heq, h] at hblock
    cases hblock
    exact hle

instance (header : Bytes) (blank : BlankLine) : Decidable (EndsFirst header blank) :=
  decidable_of_iff _ endsFirst_iff.symm

theorem endsFirst_of_no_break {header : Bytes} (blank : BlankLine)
    (h : forall b, b ∈ header -> b ≠ 0x0D ∧ b ≠ 0x0A) : EndsFirst header blank := by
  intro other before after heq
  rw [List.append_assoc] at heq
  rcases List.append_eq_append_iff.mp heq with ⟨more, rfl, -⟩ | ⟨more, rfl, hmore⟩
  · simp
  · cases more with
    | nil => simp
    | cons b more =>
        have hb := h b (by simp)
        cases other with
        | crlf => exact absurd (List.cons.inj hmore).left.symm hb.left
        | lf => exact absurd (List.cons.inj hmore).left.symm hb.right

/-!
# Pieces
-/

def Unusable (limit : Nat) (header : Bytes) : Prop :=
  forall n, Declares header n -> limit < n

theorem unusable_iff {limit : Nat} {header : Bytes} :
    Unusable limit header <-> (bodyLength? header).filter (· ≤ limit) = none := by
  rw [Option.filter_eq_none_iff]
  constructor
  · intro h n hn
    have hlt := h n (bodyLength?_eq_some_iff.mp hn)
    simp [hlt]
  · intro h n hn
    have hle := h n (bodyLength?_eq_some_iff.mpr hn)
    simpa using hle

instance (limit : Nat) (header : Bytes) : Decidable (Unusable limit header) :=
  decidable_of_iff _ unusable_iff.symm

instance (header : Bytes) (n : Nat) : Decidable (Declares header n) :=
  decidable_of_iff _ bodyLength?_eq_some_iff

/-- A piece of a stream: a frame, or a header that no body follows. -/
inductive Piece where
  | frame (header : Bytes) (blank : BlankLine) (body : Bytes)
  | junk (header : Bytes) (blank : BlankLine)
  deriving DecidableEq, Repr

namespace Piece

def bytes : Piece -> Bytes
  | .frame header blank body => header ++ blank.bytes ++ body
  | .junk header blank => header ++ blank.bytes

def message? : Piece -> Option Json
  | .frame _ _ body => Json.parseBytes? body
  | .junk _ _ => none

/-- The header of a frame declares the length of the body, within the limit, and the sizes
of the frame add up within 64 bits; the header of junk declares no such length. -/
def WellFormed (limit : Nat) : Piece -> Prop
  | .frame header blank body =>
      EndsFirst header blank ∧ Declares header body.length ∧ body.length ≤ limit ∧
        header.length + blank.bytes.length + body.length < Unsigned.wordBound
  | .junk header blank => EndsFirst header blank ∧ Unusable limit header

instance (limit : Nat) : (piece : Piece) -> Decidable (piece.WellFormed limit)
  | .frame header blank body =>
      inferInstanceAs (Decidable (EndsFirst header blank ∧ Declares header body.length ∧
        body.length ≤ limit ∧
        header.length + blank.bytes.length + body.length < Unsigned.wordBound))
  | .junk header blank =>
    inferInstanceAs (Decidable (EndsFirst header blank ∧ Unusable limit header))

end Piece

theorem front_frame {limit : Nat} {header body : Bytes} {blank : BlankLine} (rest : Bytes)
    (h : (Piece.frame header blank body).WellFormed limit) :
    front limit (header ++ blank.bytes ++ body ++ rest) = .body body rest := by
  rcases h with ⟨hends, hlength, hlimit, hsizes⟩
  -- The header and its blank line decide where the block ends, whatever the body holds.
  have hsplit := splitBlock_append (body ++ rest) (splitBlock_of_endsFirst hends)
  have hfilter : (bodyLength? header).filter (· ≤ limit) = some body.length := by
    rw [bodyLength?_eq_some_iff.mpr hlength]
    simp [hlimit]
  rw [List.append_assoc, front, hsplit]
  simp only [hfilter, List.nil_append]
  rw [if_neg (Nat.not_le_of_lt hsizes), if_neg (by simp), List.take_left, List.drop_left]

theorem front_junk {limit : Nat} {header : Bytes} {blank : BlankLine} (rest : Bytes)
    (h : (Piece.junk header blank).WellFormed limit) :
    front limit (header ++ blank.bytes ++ rest) = .skip rest := by
  rcases h with ⟨hends, hunusable⟩
  have hsplit := splitBlock_append rest (splitBlock_of_endsFirst hends)
  rw [front, hsplit]
  simp only [unusable_iff.mp hunusable, List.nil_append]

theorem drain_piece {limit : Nat} {piece : Piece} (rest : Bytes) (h : piece.WellFormed limit) :
    drain limit (piece.bytes ++ rest) =
      (drain limit rest).map fun (messages, left) => (piece.message?.toList ++ messages,
        left) := by
  cases piece with
  | frame header blank body =>
      have hfront := front_frame rest h
      cases hv : Json.parseBytes? body with
      | some v =>
          rw [Piece.bytes, drain_of_message (decode_of_message hfront hv), Piece.message?, hv]
          rfl
      | none =>
          rw [Piece.bytes, drain_congr (decode_of_dropped hfront hv), Piece.message?, hv]
          simp
  | junk header blank =>
      rw [Piece.bytes, drain_congr (decode_of_skip (front_junk rest h)), Piece.message?]
      simp

theorem drain_pieces {limit : Nat} {pieces : List Piece} (rest : Bytes)
    (h : forall piece, piece ∈ pieces -> piece.WellFormed limit) :
    drain limit (pieces.flatMap Piece.bytes ++ rest) =
      (drain limit rest).map fun (messages, left) =>
        (pieces.filterMap Piece.message? ++ messages, left) := by
  induction pieces with
  | nil => simp
  | cons piece pieces ih =>
      have hrest := ih fun other hother => h other (List.mem_cons_of_mem piece hother)
      rw [List.flatMap_cons, List.append_assoc, drain_piece _ (h piece List.mem_cons_self),
        hrest, List.filterMap_cons]
      cases drain limit rest with
      | none => rfl
      | some found => cases piece.message? <;> rfl

theorem drain_nil (limit : Nat) : drain limit [] = some ([], []) :=
  drain_of_wait (decode_of_wait rfl)

theorem drain_pieces_nil {limit : Nat} {pieces : List Piece}
    (h : forall piece, piece ∈ pieces -> piece.WellFormed limit) :
    drain limit (pieces.flatMap Piece.bytes) = some (pieces.filterMap Piece.message?, []) := by
  have hdrain := drain_pieces [] h
  rw [drain_nil, List.append_nil] at hdrain
  simpa using hdrain

/-!
# What the encoder writes
-/

def lengthField (size : Nat) : Text :=
  "Content-Length: ".toList ++ Nat.toDigits 10 size

theorem header_eq (size : Nat) :
    header size = lengthField size ++ ['\r', '\n', '\r', '\n'] := by
  have hdigits : (toString size).toList = Nat.toDigits 10 size := by
    rw [Nat.toString_eq_repr, Nat.repr_eq_ofList_toDigits, String.toList_ofList]
  unfold header lengthField
  generalize "Content-Length: ".toList = name
  rw [hdigits, List.append_assoc]

theorem encode_header (size : Nat) :
    Utf8.encode (header size) = Utf8.encode (lengthField size) ++ BlankLine.crlf.bytes := by
  rw [header_eq, Utf8.encode_append]
  rfl

theorem ascii_of_mem_lengthField {size : Nat} {c : Char} (h : c ∈ lengthField size) :
    32 ≤ c.toNat ∧ c.toNat < 128 := by
  rcases List.mem_append.mp h with hname | hdigit
  · have hall :
      "Content-Length: ".toList.all (fun d => 32 ≤ d.toNat ∧ d.toNat < 128) = true := by
      decide
    exact of_decide_eq_true (List.all_eq_true.mp hall c hname)
  · rcases Unsigned.isDigit_iff.mp (Unsigned.isDigit_of_mem_digits hdigit) with ⟨hleast, hmost⟩
    have hleast : 48 ≤ c.toNat := UInt32.le_iff_toNat_le.mp hleast
    have hmost : c.toNat ≤ 57 := UInt32.le_iff_toNat_le.mp hmost
    omega

theorem endsFirst_lengthField (size : Nat) (blank : BlankLine) :
    EndsFirst (Utf8.encode (lengthField size)) blank := by
  apply endsFirst_of_no_break
  intro b hb
  rcases List.mem_flatMap.mp hb with ⟨c, hc, hbc⟩
  rcases ascii_of_mem_lengthField hc with ⟨hleast, hmost⟩
  rw [← Char.ofNat_toNat c, Utf8.encodeChar_one hmost, List.mem_singleton] at hbc
  subst hbc
  have hbyte : (UInt8.ofNat c.toNat).toNat = c.toNat := by
    rw [UInt8.toNat_ofNat', Nat.mod_eq_of_lt (by omega)]
  constructor
  · intro hreturn
    rw [hreturn] at hbyte
    exact absurd (hbyte ▸ hleast) (by decide)
  · intro hfeed
    rw [hfeed] at hbyte
    exact absurd (hbyte ▸ hleast) (by decide)

theorem declares_lengthField {size : Nat} (h : size < Unsigned.wordBound) :
    Declares (Utf8.encode (lengthField size)) size := by
  refine ⟨[], lengthField size, [], rfl, ?_, ?_, ?_⟩
  · intro other hother hbreak
    rw [List.mem_singleton.mp hother] at hbreak
    exact absurd (ascii_of_mem_lengthField hbreak).left (by decide)
  · refine ⟨[], "Content-Length".toList, [], [' '], Nat.toDigits 10 size, [], ?_, ?_, ?_, ?_,
      ?_, ?_, h, Unsigned.isNumeral_toDigits size⟩
    · have hname : "Content-Length: ".toList = "Content-Length".toList ++ [':', ' '] := by
        decide
      unfold lengthField
      rw [hname]
      generalize "Content-Length".toList = name
      simp
    · exact nofun
    · exact nofun
    · intro c hc
      rw [List.mem_singleton.mp hc]
      decide
    · exact nofun
    · decide
  · intro other hother
    cases hother

theorem encodeOnto_eq (buffer : Bytes) (body : Text) :
    encodeOnto buffer body = buffer ++ encode body := by
  rw [encodeOnto, encode, List.append_assoc]

/-- What may be written to a stream: a message, or junk that comes from elsewhere. -/
inductive Entry where
  | message (v : Json)
  | junk (header : Bytes) (blank : BlankLine)
  deriving DecidableEq

namespace Entry

def writeTo (buffer : Bytes) : Entry -> Bytes
  | .message v => encodeOnto buffer v.print
  | .junk header blank => buffer ++ (header ++ blank.bytes)

def message? : Entry -> Option Json
  | .message v => some v
  | .junk _ _ => none

def piece : Entry -> Piece
  | .message v =>
      let body := Utf8.encode v.print
      .frame (Utf8.encode (lengthField body.length)) .crlf body
  | .junk header blank => .junk header blank

/-- A message is a value without floats that nests at most 127 deep, and its body lies
within the limit. -/
def WellFormed (limit : Nat) : Entry -> Prop
  | .message v =>
      v.IsPlain ∧ v.nesting ≤ 127 ∧ (Utf8.encode v.print).length ≤ limit ∧
        (encode v.print).length < Unsigned.wordBound
  | .junk header blank => EndsFirst header blank ∧ Unusable limit header

end Entry

theorem writeTo_eq (buffer : Bytes) (entry : Entry) :
    entry.writeTo buffer = buffer ++ entry.piece.bytes := by
  cases entry with
  | message v =>
      rw [Entry.writeTo, encodeOnto_eq, encode, encode_header]
      rfl
  | junk header blank => rfl

theorem foldl_writeTo (buffer : Bytes) (entries : List Entry) :
    entries.foldl Entry.writeTo buffer = buffer ++
      (entries.map Entry.piece).flatMap Piece.bytes := by
  induction entries generalizing buffer with
  | nil => simp
  | cons entry entries ih =>
      rw [List.foldl_cons, ih, writeTo_eq, List.map_cons, List.flatMap_cons, List.append_assoc]

theorem piece_wellFormed {limit : Nat} {entry : Entry} (h : entry.WellFormed limit) :
    entry.piece.WellFormed limit := by
  cases entry with
  | message v =>
      rcases h with ⟨-, -, hlimit, hsize⟩
      rw [encode, encode_header, List.length_append, List.length_append] at hsize
      exact ⟨endsFirst_lengthField _ _, declares_lengthField (by omega), hlimit, hsize⟩
  | junk header blank => exact h

theorem piece_message? {limit : Nat} {entry : Entry} (h : entry.WellFormed limit) :
    entry.piece.message? = entry.message? := by
  cases entry with
  | message v => exact Json.parseBytes?_encode_print h.left (Nat.lt_succ_of_le h.right.left)
  | junk header blank => rfl

theorem drain_written {limit : Nat} {entries : List Entry}
    (h : forall entry, entry ∈ entries -> entry.WellFormed limit) :
    drain limit (entries.foldl Entry.writeTo []) =
      some (entries.filterMap Entry.message?, []) := by
  have hpieces : forall piece, piece ∈ entries.map Entry.piece -> piece.WellFormed limit := by
    intro piece hpiece
    rcases List.mem_map.mp hpiece with ⟨entry, hentry, rfl⟩
    exact piece_wellFormed (h entry hentry)
  rw [foldl_writeTo, List.nil_append, drain_pieces_nil hpieces, List.filterMap_map]
  have hmessages := List.filterMap_congr fun entry hentry => piece_message? (h entry hentry)
  exact congrArg (fun messages => some (messages, [])) hmessages

/-!
# Resynchronisation
-/

/-- Draining a stream of frames and junk gives what the frames say and leaves nothing. The
stream may come from the encoder, which writes the same bytes behind any buffer; then it
gives the messages that were written. -/
theorem drain_resynchronises (limit : Nat) :
    (forall pieces : List Piece, (forall piece, piece ∈ pieces -> piece.WellFormed limit) ->
        drain limit (pieces.flatMap Piece.bytes) = some (pieces.filterMap Piece.message?,
          [])) ∧
      (forall entries : List Entry, (forall entry, entry ∈ entries ->
        entry.WellFormed limit) ->
        drain limit (entries.foldl Entry.writeTo []) =
          some (entries.filterMap Entry.message?, [])) ∧
      forall (buffer : Bytes) (body : Text), encodeOnto buffer body = buffer ++ encode body :=
  ⟨fun _ => drain_pieces_nil, fun _ => drain_written, encodeOnto_eq⟩

def mixedStream : List Piece :=
  [.junk (Utf8.encode "X: y".toList) .crlf,
    .frame (Utf8.encode "content-LENGTH : +2 \r\nContent-Length: 7".toList) .lf
      (Utf8.encode ['\x7b', '\x7d']),
    .frame (Utf8.encode "Content-Length: no\nContent-Length:6\nX: 1".toList) .crlf
      (Utf8.encode "a\n\nb: ".toList),
    .junk (0xFF :: Utf8.encode "\nContent-Length: 2".toList) .lf,
    .junk (Utf8.encode "Content-Length: 65".toList) .crlf,
    .frame (Utf8.encode "Content-Length: 4\r".toList) .lf (Utf8.encode "null".toList)]

def mixedEntries : List Entry :=
  [.junk (Utf8.encode "X: y".toList) .lf,
    .message (.obj [("a\n\n", .arr [.int (-5), .str "\u00e9\""]), ("b", .obj [])]),
    .junk (Utf8.encode "Content-Length: 65".toList) .crlf,
    .message (.int 18446744073709551615)]

theorem drain_resynchronises_mixed :
    drain 64 (mixedStream.flatMap Piece.bytes) = some ([.obj [], .null], []) ∧
      drain 64 (mixedEntries.foldl Entry.writeTo []) =
        some ([.obj [("a\n\n", .arr [.int (-5), .str "\u00e9\""]), ("b", .obj [])],
          .int 18446744073709551615], []) := by
  have hpieces : forall piece, piece ∈ mixedStream -> piece.WellFormed 64 := by
    decide +kernel
  have hobject : Json.IsPlain
      (.obj [("a\n\n", .arr [.int (-5), .str "\u00e9\""]), ("b", .obj [])]) :=
    ⟨by decide, ⟨⟨by decide, by decide⟩, trivial, trivial⟩, ⟨List.Pairwise.nil, trivial⟩,
      trivial⟩
  have hentries : forall entry, entry ∈ mixedEntries -> entry.WellFormed 64 := by
    simp only [mixedEntries, List.forall_mem_cons]
    refine ⟨?_, ?_, ?_, ?_, nofun⟩
    · exact ⟨by decide +kernel, by decide +kernel⟩
    · exact ⟨hobject, by decide, by decide +kernel, by decide +kernel⟩
    · exact ⟨by decide +kernel, by decide +kernel⟩
    · exact ⟨⟨by decide, by decide⟩, by decide, by decide +kernel, by decide +kernel⟩
  constructor
  · rw [(drain_resynchronises 64).left mixedStream hpieces]
    decide +kernel
  · rw [(drain_resynchronises 64).right.left mixedEntries hentries]
    rfl

end Frame
end LanguageClient

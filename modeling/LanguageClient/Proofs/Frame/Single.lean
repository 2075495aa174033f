import LanguageClient.Proofs.Frame.Calls
import LanguageClient.Proofs.Json.Objects

/-!
# One frame

A decoder that is given the frame of one JSON text and nothing else gives the value of the
text and leaves nothing, as long as the body lies within the limit and the sizes add up
within 64 bits. Otherwise it gives no message: the header of a larger body is skipped, and
no frame starts in the body.
-/

namespace LanguageClient
namespace Frame

/-!
# The encoder's header
-/

theorem lineLength?_lengthField (size : Nat) :
    lineLength? (lengthField size) = Unsigned.read? (Nat.toDigits 10 size) := by
  have hnumeral := Unsigned.isNumeral_toDigits size
  have hfield : lengthField size =
      "Content-Length".toList ++ ':' :: ([' '] ++ Nat.toDigits 10 size ++ []) := by
    have hname : "Content-Length: ".toList = "Content-Length".toList ++ [':', ' '] := by decide
    unfold lengthField
    rw [hname]
    generalize "Content-Length".toList = name
    simp
  have hline : dropReturns (lengthField size) =
      "Content-Length".toList ++ ':' :: ([' '] ++ Nat.toDigits 10 size ++ []) := by
    rw [hfield]
    exact dropReturns_numeral "Content-Length".toList [' '] [] hnumeral
  have hgap : Blank.IsMargin [' '] := by
    intro c hc
    rw [List.mem_singleton.mp hc]
    decide
  have hend : Blank.IsMargin [] := nofun
  have htrim := Blank.trim_margins hgap (fun c hc => not_blank_of_mem_numeral hnumeral hc)
    hnumeral.ne_nil hend
  rw [lineLength?_of_colon hline (by decide), if_pos (by decide), htrim]

theorem bodyLength?_lengthField (size : Nat) :
    bodyLength? (Utf8.encode (lengthField size)) = Unsigned.read? (Nat.toDigits 10 size) := by
  have hbreak : '\n' ∉ lengthField size := fun hmem =>
    absurd (ascii_of_mem_lengthField hmem).left (by decide)
  rw [bodyLength?, Utf8.decode?_encode, Option.bind_some, Lines.split_line hbreak,
    List.findSome?_singleton, lineLength?_lengthField]

theorem eq_of_declares_lengthField {size n : Nat}
    (h : Declares (Utf8.encode (lengthField size)) n) : n = size := by
  rw [← bodyLength?_eq_some_iff, bodyLength?_lengthField, Unsigned.read?_eq_some_iff] at h
  rcases h with ⟨-, digits, hdigits | hplus, -, hall, hvalue⟩
  · rw [← hvalue, ← hdigits, Nat.ofDigitChars_ten_toDigits]
  · have hmem : '+' ∈ Nat.toDigits 10 size := hplus ▸ List.mem_cons_self
    exact absurd (Unsigned.isDigit_of_mem_digits hmem) (by decide)

/-!
# Bodies without breaks
-/

theorem toNat_of_mem_utf8EncodeChar {c : Char} {b : UInt8} (h : b ∈ String.utf8EncodeChar c) :
    b.toNat = c.toNat ∨ 128 ≤ b.toNat := by
  have hhigh : forall n, 128 ≤ n -> n < 256 -> b = UInt8.ofNat n -> 128 ≤ b.toNat := by
    rintro n hlow hbyte rfl
    rwa [UInt8.toNat_ofNat', Nat.mod_eq_of_lt hbyte]
  have hvalue : c.val.toNat = c.toNat := rfl
  simp only [String.utf8EncodeChar, hvalue] at h
  by_cases hone : c.toNat ≤ 127
  · rw [if_pos hone, List.mem_singleton] at h
    rw [h, UInt8.toNat_ofNat', Nat.mod_eq_of_lt (by omega)]
    exact Or.inl rfl
  rw [if_neg hone] at h
  refine Or.inr ?_
  split at h
  · simp only [List.mem_cons, List.not_mem_nil, or_false] at h
    rcases h with h | h <;> exact hhigh _ (by omega) (by omega) h
  split at h
  · simp only [List.mem_cons, List.not_mem_nil, or_false] at h
    rcases h with h | h | h <;> exact hhigh _ (by omega) (by omega) h
  · simp only [List.mem_cons, List.not_mem_nil, or_false] at h
    rcases h with h | h | h | h <;> exact hhigh _ (by omega) (by omega) h

/-- No frame starts in a text without control characters. -/
theorem decode_of_hasNoControls (limit : Nat) {text : Text} (h : Json.HasNoControls text) :
    decode limit (Utf8.encode text) = .wait (Utf8.encode text) := by
  apply decode_of_wait
  rw [front, splitBlock_eq_none_iff.mpr]
  intro blank before after heq
  have hfeed : (0x0A : UInt8) ∈ Utf8.encode text := by
    rw [heq]
    cases blank <;> simp [BlankLine.bytes]
  rcases List.mem_flatMap.mp hfeed with ⟨c, hc, hb⟩
  have hleast := h c hc
  rcases toNat_of_mem_utf8EncodeChar hb with hbyte | hbyte
  · rw [← hbyte] at hleast
    exact absurd hleast (by decide)
  · exact absurd hbyte (by decide)

/-!
# The frame of a text
-/

theorem decode_unusable_text {limit : Nat} {text : Text} (htext : Json.HasNoControls text)
    (h : limit < (Utf8.encode text).length ∨ Unsigned.wordBound ≤ (Utf8.encode text).length) :
    decode limit (encode text) = .wait (Utf8.encode text) := by
  have hunusable : Unusable limit (Utf8.encode (lengthField (Utf8.encode text).length)) := by
    intro n hn
    have hword := hn
    rw [← bodyLength?_eq_some_iff, bodyLength?_lengthField,
      Unsigned.read?_eq_some_iff] at hword
    have hsize := eq_of_declares_lengthField hn
    omega
  rw [encode, encode_header,
    decode_of_skip (front_junk _ ⟨endsFirst_lengthField _ .crlf, hunusable⟩)]
  exact decode_of_hasNoControls limit htext

/-- What a decoder makes of the frame of a text: the text's value, just if the body lies
within the limit and the sizes add up. -/
theorem decode_encode_eq_message_iff {limit : Nat} {text : Text} {v w : Json} {rest : Bytes}
    (htext : Json.HasNoControls text) (hv : Json.parseBytes? (Utf8.encode text) = some v) :
    decode limit (encode text) = .message w rest <->
      (w = v ∧ rest = []) ∧ (Utf8.encode text).length ≤ limit ∧
        (encode text).length < Unsigned.wordBound := by
  -- A header whose length is usable waits for the body; any other leaves the body behind as
  -- junk.
  by_cases hunusable : limit < (Utf8.encode text).length ∨
      Unsigned.wordBound ≤ (Utf8.encode text).length
  · have hlength : (Utf8.encode text).length ≤ (encode text).length := by
      rw [encode, List.length_append]
      omega
    rw [decode_unusable_text htext hunusable]
    constructor
    · intro h
      cases h
    · rintro ⟨-, hlimit, hsize⟩
      omega
  rw [not_or, Nat.not_lt, Nat.not_le] at hunusable
  rcases hunusable with ⟨hlimit, hword⟩
  have hends := endsFirst_lengthField (Utf8.encode text).length .crlf
  have hdeclares := declares_lengthField hword
  rw [encode, encode_header]
  generalize Utf8.encode text = body at *
  by_cases hsize :
    (Utf8.encode (lengthField body.length) ++ BlankLine.crlf.bytes ++ body).length <
      Unsigned.wordBound
  · have hframe :
        (Piece.frame (Utf8.encode (lengthField body.length)) .crlf body).WellFormed limit :=
      ⟨hends, hdeclares, hlimit, by simpa only [List.length_append] using hsize⟩
    have hfront := front_frame [] hframe
    rw [List.append_nil] at hfront
    rw [decode_of_message hfront hv, Decoded.message.injEq]
    constructor
    · rintro ⟨rfl, rfl⟩
      exact ⟨⟨rfl, rfl⟩, hlimit, hsize⟩
    · rintro ⟨⟨rfl, rfl⟩, -⟩
      exact ⟨rfl, rfl⟩
  · have hlarge : Overflows limit
        (Utf8.encode (lengthField body.length) ++ BlankLine.crlf.bytes ++ body) := by
      refine ⟨_, .crlf, body.length, body, rfl, hends, hdeclares, hlimit, ?_⟩
      simpa only [List.length_append, Nat.not_lt] using hsize
    rw [decode_of_overflow (front_of_overflows hlarge)]
    constructor
    · intro h
      cases h
    · rintro ⟨-, -, h⟩
      exact absurd h hsize

end Frame
end LanguageClient

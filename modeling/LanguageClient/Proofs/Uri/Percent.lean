import LanguageClient.Proofs.Text.Utf8
import LanguageClient.Uri.Percent

/-!
# Percent encoding read back

Whatever bytes are written, reading gives them back: a byte that is written as a triple
comes from its triple, and every other byte is not a percent sign. What is written is
visible ASCII without any of the characters that end a segment or a path.
-/

namespace LanguageClient
namespace Percent

/-!
# Single bytes
-/

theorem forall_byte {P : UInt8 -> Prop} (h : forall n, n < 256 -> P (UInt8.ofNat n))
    (b : UInt8) :
    P b := by
  have hb := h b.toNat b.toNat_lt
  rwa [UInt8.ofNat_toNat] at hb

theorem pair?_digits (b : UInt8) :
    pair? (digit (b.toNat / 16)) (digit (b.toNat % 16)) = some b := by
  revert b
  exact forall_byte (by decide +kernel)

theorem decode_triple {high low b : UInt8} (rest : Bytes) (h : pair? high low = some b) :
    decode (percent :: high :: low :: rest) = b :: decode rest := by
  rw [decode, if_pos rfl, h]

/-- A byte that is no percent sign stands for itself. -/
theorem decode_cons {b : UInt8} (rest : Bytes) (h : b ≠ percent) :
    decode (b :: rest) = b :: decode rest := by
  cases rest with
  | nil => rfl
  | cons high rest =>
      cases rest with
      | nil => rfl
      | cons low rest => rw [decode, if_neg h]

theorem decode_encodeByte (b : UInt8) (rest : Bytes) :
    decode (encodeByte b ++ rest) = b :: decode rest := by
  unfold encodeByte
  split
  · exact decode_triple rest (pair?_digits b)
  · rename_i hreserved
    refine decode_cons rest ?_
    rintro rfl
    exact hreserved rfl

/-!
# Byte sequences
-/

theorem decode_encode_append (bytes rest : Bytes) :
    decode (encode bytes ++ rest) = bytes ++ decode rest := by
  induction bytes with
  | nil => rfl
  | cons b bytes ih =>
      have hcons : encode (b :: bytes) ++ rest = encodeByte b ++ (encode bytes ++ rest) := by
        rw [encode, List.flatMap_cons, List.append_assoc]
        rfl
      rw [hcons, decode_encodeByte, ih, List.cons_append]

theorem decode_encode (bytes : Bytes) : decode (encode bytes) = bytes := by
  have hwhole := decode_encode_append bytes []
  rwa [List.append_nil, decode, List.append_nil] at hwhole

/-!
# Written texts
-/

def char (b : UInt8) : Char :=
  Char.ofNat b.toNat

def text (bytes : Bytes) : Text :=
  (encode bytes).map char

def IsPlain (c : Char) : Prop :=
  0x20 < c.toNat ∧ c.toNat < 0x7F ∧ c ≠ '/' ∧ c ≠ '\\' ∧ c ≠ '?' ∧ c ≠ '#'

instance (c : Char) : Decidable (IsPlain c) :=
  inferInstanceAs (Decidable (0x20 < c.toNat ∧ c.toNat < 0x7F ∧ c ≠ '/' ∧ c ≠ '\\' ∧ c ≠ '?' ∧
    c ≠ '#'))

theorem isPlain_encodeByte (b : UInt8) :
    (encodeByte b).all (fun d => d < 0x80 ∧ IsPlain (char d)) = true := by
  revert b
  exact forall_byte (by decide +kernel)

theorem isPlain_of_mem_encode {bytes : Bytes} {b : UInt8} (h : b ∈ encode bytes) :
    b < 0x80 ∧ IsPlain (char b) := by
  rcases List.mem_flatMap.mp h with ⟨c, -, hc⟩
  exact of_decide_eq_true (List.all_eq_true.mp (isPlain_encodeByte c) b hc)

theorem isPlain_of_mem_text {bytes : Bytes} {c : Char} (h : c ∈ text bytes) : IsPlain c := by
  rcases List.mem_map.mp h with ⟨b, hb, rfl⟩
  exact (isPlain_of_mem_encode hb).right

theorem utf8_encode_map_char {bytes : Bytes} (h : forall b, b ∈ bytes -> b < 0x80) :
    Utf8.encode (bytes.map char) = bytes := by
  induction bytes with
  | nil => rfl
  | cons b bytes ih =>
      rcases List.forall_mem_cons.mp h with ⟨hb, hbytes⟩
      have hbyte : b.toNat < 128 := UInt8.lt_iff_toNat_lt.mp hb
      rw [List.map_cons, Utf8.encode_cons, ih hbytes, char, Utf8.encodeChar_one hbyte,
        UInt8.ofNat_toNat, List.singleton_append]

theorem utf8_encode_text (bytes : Bytes) : Utf8.encode (text bytes) = encode bytes :=
  utf8_encode_map_char fun _ hb => (isPlain_of_mem_encode hb).left

theorem text_cons (b : UInt8) (bytes : Bytes) :
    text (b :: bytes) = (encodeByte b).map char ++ text bytes := by
  rw [text, text, encode, encode, List.flatMap_cons, List.map_append]

theorem decode_utf8_encode_text (bytes : Bytes) :
    decode (Utf8.encode (text bytes)) = bytes := by
  rw [utf8_encode_text, decode_encode]

end Percent
end LanguageClient

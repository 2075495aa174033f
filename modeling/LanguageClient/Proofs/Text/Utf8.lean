import LanguageClient.Text.Utf8

/-!
# Reading what was written in UTF-8

Both readers take the bytes of a character as that character and go on behind it. So a text
survives being written and read, strictly or loosely. The strict reader accepts nothing
else: what it reads as a text are the bytes of that text.
-/

namespace LanguageClient
namespace Utf8

/-!
# Single bytes
-/

theorem lead_ofNat {n : Nat} (h : n < 256) :
    lead (UInt8.ofNat n) =
      if n < 128 then .whole (Char.ofNat n)
      else if n < 194 then .bad
      else if n < 224 then .more ⟨1, n % 32, 0x80, 0xBF⟩
      else if n = 224 then .more ⟨2, 0, 0xA0, 0xBF⟩
      else if n = 237 then .more ⟨2, 13, 0x80, 0x9F⟩
      else if n < 240 then .more ⟨2, n % 16, 0x80, 0xBF⟩
      else if n = 240 then .more ⟨3, 0, 0x90, 0xBF⟩
      else if n < 244 then .more ⟨3, n % 8, 0x80, 0xBF⟩
      else if n = 244 then .more ⟨3, 4, 0x80, 0x8F⟩
      else .bad := by
  simp [lead, UInt8.lt_iff_toNat_lt, ← UInt8.toNat_inj, Nat.mod_eq_of_lt h]

theorem take_ofNat {p : Partial} {n : Nat} (h : n < 256) :
    p.take (UInt8.ofNat n) =
      if p.low.toNat ≤ n ∧ n ≤ p.high.toNat then
        if p.need ≤ 1 then some (.whole (Char.ofNat (p.bits * 64 + n % 64)))
        else some (.more ⟨p.need - 1, p.bits * 64 + n % 64, 0x80, 0xBF⟩)
      else none := by
  simp [Partial.take, UInt8.le_iff_toNat_le, Nat.mod_eq_of_lt h]

/-!
# Characters
-/

theorem toNat_range (c : Char) : c.toNat < 0xD800 ∨ 0xDFFF < c.toNat ∧ c.toNat < 0x110000 :=
  c.valid

inductive Spells (c : Char) : Lead -> Bytes -> Prop where
  | whole : Spells c (.whole c) []
  | more {p : Partial} {b : UInt8} {next : Lead} {rest : Bytes} (h : p.take b = some next)
      (hrest : Spells c next rest) : Spells c (.more p) (b :: rest)

theorem spells_last {c : Char} {p : Partial} {r : Nat} (hr : r < 64) (hneed : p.need = 1)
    (hlow : p.low.toNat ≤ r + 128) (hhigh : r + 128 ≤ p.high.toNat)
    (hbits : p.bits * 64 + r = c.toNat) : Spells c (.more p) [UInt8.ofNat (r + 128)] := by
  have hmod : (r + 128) % 64 = r := by
    omega
  refine Spells.more ?_ Spells.whole
  rw [take_ofNat (by omega), if_pos ⟨hlow, hhigh⟩, if_pos (by omega), hmod, hbits,
    Char.ofNat_toNat]

theorem spells_step {c : Char} {p : Partial} {r : Nat} {rest : Bytes} (hr : r < 64)
    (hneed : 1 < p.need) (hlow : p.low.toNat ≤ r + 128) (hhigh : r + 128 ≤ p.high.toNat)
    (hrest : Spells c (.more ⟨p.need - 1, p.bits * 64 + r, 0x80, 0xBF⟩) rest) :
    Spells c (.more p) (UInt8.ofNat (r + 128) :: rest) := by
  have hmod : (r + 128) % 64 = r := by
    omega
  refine Spells.more ?_ hrest
  rw [take_ofNat (by omega), if_pos ⟨hlow, hhigh⟩, if_neg (by omega), hmod]

/-- A first byte of three leaves the second byte the range that keeps out
overlong forms and surrogates. -/
theorem lead_three {n : Nat} (hlow : 224 ≤ n) (hhigh : n < 240) :
    lead (UInt8.ofNat n) =
      .more ⟨2, n % 16, if n = 224 then 0xA0 else 0x80, if n = 237 then 0x9F else 0xBF⟩ := by
  rw [lead_ofNat (by omega), if_neg (by omega), if_neg (by omega), if_neg (by omega)]
  by_cases h224 : n = 224
  · simp [h224]
  · by_cases h237 : n = 237
    · simp [h237]
    · simp [h224, h237, hhigh]

theorem lead_four {n : Nat} (hlow : 240 ≤ n) (hhigh : n < 245) :
    lead (UInt8.ofNat n) =
      .more ⟨3, n % 8, if n = 240 then 0x90 else 0x80, if n = 244 then 0x8F else 0xBF⟩ := by
  have h224 : n ≠ 224 := by omega
  have h237 : n ≠ 237 := by omega
  rw [lead_ofNat (by omega), if_neg (by omega), if_neg (by omega), if_neg (by omega),
    if_neg h224, if_neg h237, if_neg (by omega)]
  by_cases h240 : n = 240
  · simp [h240]
  · by_cases h244 : n = 244
    · simp [h244]
    · have hless : n < 244 := by omega
      simp [h240, h244, hless]

theorem exists_spells (c : Char) :
    exists b rest, String.utf8EncodeChar c = b :: rest ∧ Spells c (lead b) rest := by
  have hrange := toNat_range c
  have hvalue : c.val.toNat = c.toNat := rfl
  simp only [String.utf8EncodeChar, hvalue]
  by_cases hone : c.toNat ≤ 127
  · refine ⟨_, _, if_pos hone, ?_⟩
    rw [lead_ofNat (by omega), if_pos (by omega), Char.ofNat_toNat]
    exact Spells.whole
  rw [if_neg hone]
  by_cases htwo : c.toNat ≤ 2047
  · refine ⟨_, _, if_pos htwo, ?_⟩
    rw [lead_ofNat (by omega), if_neg (by omega), if_neg (by omega), if_pos (by omega)]
    exact spells_last (by omega) rfl (by simp) (by simp; omega) (by dsimp only; omega)
  rw [if_neg htwo]
  by_cases hthree : c.toNat ≤ 65535
  · refine ⟨_, _, if_pos hthree, ?_⟩
    rw [lead_three (by omega) (by omega)]
    apply spells_step (by omega) (by simp)
    · dsimp only
      split <;> simp
      omega
    · dsimp only
      split
      · simp
        omega
      · simp
        omega
    · exact spells_last (by omega) rfl (by simp) (by simp; omega) (by dsimp only; omega)
  · refine ⟨_, _, if_neg hthree, ?_⟩
    rw [lead_four (by omega) (by omega)]
    apply spells_step (by omega) (by simp)
    · dsimp only
      split <;> simp
      omega
    · dsimp only
      split
      · simp
        omega
      · simp
        omega
    · apply spells_step (by omega) (by simp) (by simp) (by simp; omega)
      exact spells_last (by omega) rfl (by simp) (by simp; omega) (by dsimp only; omega)

/-!
# Texts
-/

theorem encode_cons (c : Char) (text : Text) :
    encode (c :: text) = String.utf8EncodeChar c ++ encode text :=
  List.flatMap_cons

theorem encode_append (front back : Text) :
    encode (front ++ back) = encode front ++ encode back :=
  List.flatMap_append

theorem decodeFrom_spells {c : Char} {p : Partial} {bytes : Bytes} (rest : Bytes)
    (h : Spells c (.more p) bytes) :
    decodeFrom (some p) (bytes ++ rest) = (decodeFrom none rest).map (c :: ·) := by
  generalize hstart : Lead.more p = start at h
  induction h generalizing p with
  | whole => cases hstart
  | @more q b next tail htake hrest ih =>
      cases hstart
      rw [List.cons_append, decodeFrom, htake]
      cases hrest with
      | whole => rfl
      | more => exact ih rfl

theorem displayFrom_spells {c : Char} {p : Partial} {bytes : Bytes} (rest : Bytes)
    (h : Spells c (.more p) bytes) :
    displayFrom (some p) (bytes ++ rest) = c :: displayFrom none rest := by
  generalize hstart : Lead.more p = start at h
  induction h generalizing p with
  | whole => cases hstart
  | @more q b next tail htake hrest ih =>
      cases hstart
      rw [List.cons_append, displayFrom, htake]
      cases hrest with
      | whole => rfl
      | more => exact ih rfl

@[simp] theorem decode?_encode (text : Text) : decode? (encode text) = some text := by
  unfold decode?
  induction text with
  | nil => rfl
  | cons c text ih =>
      rcases exists_spells c with ⟨b, bytes, hbytes, hspells⟩
      rw [encode_cons, hbytes, List.cons_append, decodeFrom]
      cases hlead : lead b with
      | whole d =>
          rw [hlead] at hspells
          cases hspells
          rw [List.nil_append, ih]
          rfl
      | more p =>
          rw [hlead] at hspells
          dsimp only
          rw [decodeFrom_spells _ hspells, ih]
          rfl
      | bad =>
          rw [hlead] at hspells
          cases hspells

@[simp] theorem display_encode (text : Text) : display (encode text) = text := by
  unfold display
  induction text with
  | nil => rfl
  | cons c text ih =>
      rcases exists_spells c with ⟨b, bytes, hbytes, hspells⟩
      rw [encode_cons, hbytes, List.cons_append, displayFrom]
      cases hlead : lead b with
      | whole d =>
          rw [hlead] at hspells
          cases hspells
          rw [List.nil_append, ih]
      | more p =>
          rw [hlead] at hspells
          dsimp only
          rw [displayFrom_spells _ hspells, ih]
      | bad =>
          rw [hlead] at hspells
          cases hspells

theorem encode_injective {text other : Text} (h : encode text = encode other) :
    text = other := by
  have hdecode := congrArg decode? h
  rw [decode?_encode, decode?_encode] at hdecode
  exact Option.some.inj hdecode

/-!
# The order of texts
-/

theorem cons_ofNat_lt {m n : Nat} {front back : Bytes} (hn : n < 256) (hle : m ≤ n)
    (h : m = n -> front < back) : UInt8.ofNat m :: front < UInt8.ofNat n :: back := by
  rw [List.cons_lt_cons_iff]
  rcases Nat.lt_or_eq_of_le hle with hlt | rfl
  · refine Or.inl ?_
    rw [UInt8.lt_iff_toNat_lt, UInt8.toNat_ofNat', UInt8.toNat_ofNat']
    omega
  · exact Or.inr ⟨rfl, h rfl⟩

theorem encodeChar_append_lt {c d : Char} (h : c < d) (front back : Bytes) :
    String.utf8EncodeChar c ++ front < String.utf8EncodeChar d ++ back := by
  have hlt : c.val.toNat < d.val.toNat := h
  have hd : d.val.toNat < 0x110000 := by
    rcases toNat_range d with h | h <;> (simp only [Char.toNat] at h; omega)
  simp only [String.utf8EncodeChar]
  generalize c.val.toNat = m at hlt
  generalize d.val.toNat = n at hlt hd
  -- No byte is smaller than the one at its place, and if all are the same, so are the
  -- characters.
  repeat' split
  all_goals
    simp only [List.cons_append, List.nil_append]
    repeat refine cons_ofNat_lt (by omega) (by omega) fun _ => ?_
    exfalso
    omega

theorem encode_lt_encode {text other : Text} (h : text < other) :
    encode text < encode other := by
  induction text generalizing other with
  | nil =>
      cases other with
      | nil => exact absurd h (List.not_lt_nil _)
      | cons d other =>
          rw [encode_cons]
          cases hd : String.utf8EncodeChar d with
          | nil => exact absurd hd String.utf8EncodeChar_ne_nil
          | cons b bytes => exact List.nil_lt_cons _ _
  | cons c text ih =>
      cases other with
      | nil => exact absurd h (List.not_lt_nil _)
      | cons d other =>
          rw [encode_cons, encode_cons]
          rcases List.cons_lt_cons_iff.mp h with hlt | ⟨rfl, htail⟩
          · exact encodeChar_append_lt hlt _ _
          · exact List.append_left_lt (ih htail)

/-!
# Bytes that are no text
-/

theorem val_ofNat {n : Nat} (h : n.isValidChar) : (Char.ofNat n).val.toNat = n := by
  rw [Char.ofNat, dif_pos h]
  rfl

theorem encodeChar_one {n : Nat} (h : n < 128) :
    String.utf8EncodeChar (Char.ofNat n) = [UInt8.ofNat n] := by
  have hvalid : n.isValidChar := Or.inl (by omega)
  simp only [String.utf8EncodeChar, val_ofNat hvalid]
  rw [if_pos (by omega)]

theorem encodeChar_two {q r : Nat} (hq : 2 ≤ q ∧ q < 32) (hr : r < 64) :
    String.utf8EncodeChar (Char.ofNat (q * 64 + r)) =
      [UInt8.ofNat (q + 192), UInt8.ofNat (r + 128)] := by
  have hlead : (q * 64 + r) / 64 % 32 = q := by omega
  have hlast : (q * 64 + r) % 64 = r := by omega
  have hvalid : (q * 64 + r).isValidChar := Or.inl (by omega)
  simp only [String.utf8EncodeChar, val_ofNat hvalid]
  rw [if_neg (by omega), if_pos (by omega), hlead, hlast]

theorem encodeChar_three {q r s : Nat} (hq : q < 16) (hr : r < 64) (hs : s < 64)
    (hshort : q = 0 -> 32 ≤ r) (hsurrogate : q = 13 -> r < 32) :
    String.utf8EncodeChar (Char.ofNat ((q * 64 + r) * 64 + s)) =
      [UInt8.ofNat (q + 224), UInt8.ofNat (r + 128), UInt8.ofNat (s + 128)] := by
  have hvalid : ((q * 64 + r) * 64 + s).isValidChar := by
    unfold Nat.isValidChar
    omega
  have hlead : ((q * 64 + r) * 64 + s) / 4096 % 16 = q := by omega
  have hnext : ((q * 64 + r) * 64 + s) / 64 % 64 = r := by omega
  have hlast : ((q * 64 + r) * 64 + s) % 64 = s := by omega
  simp only [String.utf8EncodeChar, val_ofNat hvalid]
  rw [if_neg (by omega), if_neg (by omega), if_pos (by omega), hlead, hnext, hlast]

theorem encodeChar_four {q r s t : Nat} (hq : q < 5) (hr : r < 64) (hs : s < 64) (ht : t < 64)
    (hshort : q = 0 -> 16 ≤ r) (hlarge : q = 4 -> r < 16) :
    String.utf8EncodeChar (Char.ofNat (((q * 64 + r) * 64 + s) * 64 + t)) =
      [UInt8.ofNat (q + 240), UInt8.ofNat (r + 128), UInt8.ofNat (s + 128),
        UInt8.ofNat (t + 128)] := by
  have hvalid : (((q * 64 + r) * 64 + s) * 64 + t).isValidChar := by
    unfold Nat.isValidChar
    omega
  have hlead : (((q * 64 + r) * 64 + s) * 64 + t) / 262144 % 8 = q := by omega
  have hsecond : (((q * 64 + r) * 64 + s) * 64 + t) / 4096 % 64 = r := by omega
  have hthird : (((q * 64 + r) * 64 + s) * 64 + t) / 64 % 64 = s := by omega
  have hlast : (((q * 64 + r) * 64 + s) * 64 + t) % 64 = t := by omega
  simp only [String.utf8EncodeChar, val_ofNat hvalid]
  rw [if_neg (by omega), if_neg (by omega), if_neg (by omega), hlead, hsecond, hthird, hlast]

theorem exists_of_take {p : Partial} {b : UInt8} {next : Lead} (hlow : 128 ≤ p.low.toNat)
    (hhigh : p.high.toNat < 192) (h : p.take b = some next) :
    exists r, r < 64 ∧ b = UInt8.ofNat (r + 128) ∧ p.low.toNat ≤ r + 128 ∧
      r + 128 ≤ p.high.toNat ∧
      next = if p.need ≤ 1 then .whole (Char.ofNat (p.bits * 64 + r))
        else .more ⟨p.need - 1, p.bits * 64 + r, 0x80, 0xBF⟩ := by
  rw [← UInt8.ofNat_toNat (x := b), take_ofNat b.toNat_lt] at h
  by_cases hrange : p.low.toNat ≤ b.toNat ∧ b.toNat ≤ p.high.toNat
  · rw [if_pos hrange] at h
    have hbits : b.toNat % 64 = b.toNat - 128 := by omega
    refine ⟨b.toNat - 128, by omega, ?_, by omega, by omega, ?_⟩
    · rw [Nat.sub_add_cancel (by omega), UInt8.ofNat_toNat]
    · rw [hbits] at h
      split at h
      next hneed =>
        rw [if_pos hneed]
        exact (Option.some.inj h).symm
      next hneed =>
        rw [if_neg hneed]
        exact (Option.some.inj h).symm
  · rw [if_neg hrange] at h
    cases h

theorem exists_of_spells_last {c : Char} {p : Partial} {bytes : Bytes} (hneed : p.need = 1)
    (hlow : 128 ≤ p.low.toNat) (hhigh : p.high.toNat < 192) (h : Spells c (.more p) bytes) :
    exists r, r < 64 ∧ bytes = [UInt8.ofNat (r + 128)] ∧ c = Char.ofNat (p.bits * 64 + r) := by
  cases h with
  | more htake hrest =>
      rcases exists_of_take hlow hhigh htake with ⟨r, hr, hb, -, -, hnext⟩
      rw [if_pos (by omega)] at hnext
      subst hnext
      cases hrest
      exact ⟨r, hr, by rw [hb], rfl⟩

theorem exists_of_spells_step {c : Char} {p : Partial} {bytes : Bytes} (hneed : 1 < p.need)
    (hlow : 128 ≤ p.low.toNat) (hhigh : p.high.toNat < 192) (h : Spells c (.more p) bytes) :
    exists r rest, r < 64 ∧ bytes = UInt8.ofNat (r + 128) :: rest ∧ p.low.toNat ≤ r + 128 ∧
      r + 128 ≤ p.high.toNat ∧
      Spells c (.more ⟨p.need - 1, p.bits * 64 + r, 0x80, 0xBF⟩) rest := by
  cases h with
  | more htake hrest =>
      rcases exists_of_take hlow hhigh htake with ⟨r, hr, hb, hleast, hmost, hnext⟩
      rw [if_neg (by omega)] at hnext
      subst hnext
      exact ⟨r, _, hr, by rw [hb], hleast, hmost, hrest⟩

theorem lead_two {n : Nat} (hlow : 194 ≤ n) (hhigh : n < 224) :
    lead (UInt8.ofNat n) = .more ⟨1, n % 32, 0x80, 0xBF⟩ := by
  rw [lead_ofNat (by omega), if_neg (by omega), if_neg (by omega), if_pos hhigh]

theorem encodeChar_of_spells {c : Char} {b : UInt8} {rest : Bytes}
    (h : Spells c (lead b) rest) :
    String.utf8EncodeChar c = b :: rest := by
  have hb : UInt8.ofNat b.toNat = b := UInt8.ofNat_toNat
  have hbyte := b.toNat_lt
  generalize b.toNat = n at hb hbyte
  subst hb
  by_cases hone : n < 128
  · rw [lead_ofNat hbyte, if_pos hone] at h
    cases h
    exact encodeChar_one hone
  by_cases htwo : 194 ≤ n ∧ n < 224
  · rw [lead_two htwo.left htwo.right] at h
    rcases exists_of_spells_last rfl (by simp) (by simp) h with ⟨r, hr, rfl, rfl⟩
    dsimp only
    rw [encodeChar_two (by omega) hr, show n % 32 + 192 = n by omega]
  by_cases hthree : 224 ≤ n ∧ n < 240
  · rw [lead_three hthree.left hthree.right] at h
    rcases exists_of_spells_step (by simp) (by dsimp only; split <;> simp)
      (by dsimp only; split <;> simp) h with ⟨r, tail, hr, rfl, hleast, hmost, htail⟩
    rcases exists_of_spells_last rfl (by simp) (by simp) htail with ⟨s, hs, rfl, rfl⟩
    dsimp only at hleast hmost ⊢
    rw [encodeChar_three (by omega) hr hs, show n % 16 + 224 = n by omega]
    · intro hzero
      rw [if_pos (by omega)] at hleast
      simp at hleast
      omega
    · intro hsurrogate
      rw [if_pos (by omega)] at hmost
      simp at hmost
      omega
  by_cases hfour : 240 ≤ n ∧ n < 245
  · rw [lead_four hfour.left hfour.right] at h
    rcases exists_of_spells_step (by simp) (by dsimp only; split <;> simp)
      (by dsimp only; split <;> simp) h with ⟨r, tail, hr, rfl, hleast, hmost, htail⟩
    rcases exists_of_spells_step (by simp) (by simp) (by simp) htail with
      ⟨s, tail, hs, rfl, -, -, htail⟩
    rcases exists_of_spells_last rfl (by simp) (by simp) htail with ⟨t, ht, rfl, rfl⟩
    dsimp only at hleast hmost ⊢
    rw [encodeChar_four (by omega) hr hs ht, show n % 8 + 240 = n by omega]
    · intro hzero
      rw [if_pos (by omega)] at hleast
      simp at hleast
      omega
    · intro hlarge
      rw [if_pos (by omega)] at hmost
      simp at hmost
      omega
  · have hbad : lead (UInt8.ofNat n) = .bad := by
      rw [lead_ofNat hbyte, if_neg hone]
      split
      · rfl
      · rw [if_neg (by omega), if_neg (by omega), if_neg (by omega), if_neg (by omega),
          if_neg (by omega), if_neg (by omega), if_neg (by omega)]
    rw [hbad] at h
    cases h

theorem exists_of_decodeFrom_more {p : Partial} {bytes : Bytes} {text : Text}
    (h : decodeFrom (some p) bytes = some text) :
    exists c tail rest more, bytes = tail ++ rest ∧ Spells c (.more p) tail ∧
      text = c :: more ∧
      decodeFrom none rest = some more := by
  induction bytes generalizing p with
  | nil => cases h
  | cons b bytes ih =>
      rw [decodeFrom] at h
      cases htake : p.take b with
      | none => simp [htake] at h
      | some next =>
          rw [htake] at h
          cases next with
          | whole c =>
              rcases Option.map_eq_some_iff.mp h with ⟨more, hmore, rfl⟩
              exact ⟨c, [b], bytes, more, rfl, .more htake .whole, rfl, hmore⟩
          | more q =>
              rcases ih h with ⟨c, tail, rest, more, rfl, hspells, rfl, hmore⟩
              exact ⟨c, b :: tail, rest, more, rfl, .more htake hspells, rfl, hmore⟩
          | bad => cases h

theorem exists_of_decodeFrom_cons {b : UInt8} {bytes : Bytes} {text : Text}
    (h : decodeFrom none (b :: bytes) = some text) :
    exists c tail rest more, bytes = tail ++ rest ∧ Spells c (lead b) tail ∧ text = c :: more ∧
      decodeFrom none rest = some more := by
  rw [decodeFrom] at h
  cases hlead : lead b with
  | whole c =>
      rw [hlead] at h
      rcases Option.map_eq_some_iff.mp h with ⟨more, hmore, rfl⟩
      exact ⟨c, [], bytes, more, rfl, .whole, rfl, hmore⟩
  | more p =>
      rw [hlead] at h
      exact exists_of_decodeFrom_more h
  | bad =>
      rw [hlead] at h
      cases h

theorem encode_of_decode? {bytes : Bytes} {text : Text} (h : decode? bytes = some text) :
    encode text = bytes := by
  unfold decode? at h
  induction text generalizing bytes with
  | nil =>
      cases bytes with
      | nil => rfl
      | cons b bytes =>
          rcases exists_of_decodeFrom_cons h with ⟨c, tail, rest, more, -, -, htext, -⟩
          cases htext
  | cons c text ih =>
      cases bytes with
      | nil => cases h
      | cons b bytes =>
          rcases exists_of_decodeFrom_cons h with
            ⟨d, tail, rest, more, rfl, hspells, htext, hmore⟩
          cases htext
          rw [encode_cons, encodeChar_of_spells hspells, ih hmore, List.cons_append]

theorem decode?_eq_some_iff {bytes : Bytes} {text : Text} :
    decode? bytes = some text <-> bytes = encode text := by
  constructor
  · intro h
    exact (encode_of_decode? h).symm
  · rintro rfl
    exact decode?_encode text

end Utf8
end LanguageClient

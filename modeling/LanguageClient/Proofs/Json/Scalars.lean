import LanguageClient.Json.Printer
import LanguageClient.Json.Reader
import LanguageClient.Proofs.Number.Decimal

/-!
# Scalars read back

The reader takes a printed string up to its closing quote, whatever the string holds, and a
printed integer up to the first character that cannot continue a number.
-/

namespace LanguageClient
namespace Json

/-!
# Strings
-/

theorem readString_quote (acc rest : List Char) :
    readString none acc ('"' :: rest) = some (String.ofList acc.reverse, rest) := by
  rw [readString.eq_def]
  rfl

theorem readString_simpleEscape {e c : Char} (acc rest : List Char)
    (h : simpleEscape? e = some c) :
    readString none acc ('\\' :: e :: rest) = readString none (c :: acc) rest := by
  have hu : e ≠ 'u' := by
    rintro rfl
    cases h
  rw [readString.eq_def]
  simp [hu, h]

theorem readString_plain {c : Char} (acc rest : List Char) (hquote : c ≠ '"')
    (hbackslash : c ≠ '\\') (hcontrol : ¬ c.toNat < 0x20) :
    readString none acc (c :: rest) = readString none (c :: acc) rest := by
  rw [readString.eq_def]
  simp [hquote, hbackslash, hcontrol]

theorem hexQuad?_control :
    forall n, n < 0x20 -> hexQuad? '0' '0' (hexDigit (n / 16)) (hexDigit (n % 16)) =
      some n := by
  decide

theorem readString_control {c : Char} (acc rest : List Char) (h : c.toNat < 0x20) :
    readString none acc ('\\' :: 'u' :: '0' :: '0' :: hexDigit (c.toNat / 16) ::
        hexDigit (c.toNat % 16) :: rest) =
      readString none (c :: acc) rest := by
  have hlow : c.toNat < 0xD800 := by
    omega
  rw [readString.eq_4 _ _ _ _ _ _ _ (hexQuad?_control c.toNat h), if_pos (Or.inl hlow),
    Char.ofNat_toNat]

theorem readString_escape (c : Char) (acc rest : List Char) :
    readString none acc (escape c ++ rest) = readString none (c :: acc) rest := by
  unfold escape
  split
  · subst c
    exact readString_simpleEscape acc rest rfl
  split
  · subst c
    exact readString_simpleEscape acc rest rfl
  split
  · subst c
    exact readString_simpleEscape acc rest rfl
  split
  · subst c
    exact readString_simpleEscape acc rest rfl
  split
  · subst c
    exact readString_simpleEscape acc rest rfl
  split
  · subst c
    exact readString_simpleEscape acc rest rfl
  split
  · subst c
    exact readString_simpleEscape acc rest rfl
  split
  · rename_i hcontrol
    exact readString_control acc rest hcontrol
  · rename_i hquote hbackslash _ _ _ _ _ hcontrol
    exact readString_plain acc rest hquote hbackslash hcontrol

theorem readString_flatMap_escape (text acc rest : List Char) :
    readString none acc (text.flatMap escape ++ '"' :: rest) =
      some (String.ofList (acc.reverse ++ text), rest) := by
  induction text generalizing acc with
  | nil =>
      rw [List.flatMap_nil, List.nil_append, readString_quote, List.append_nil]
  | cons c text ih =>
      rw [List.flatMap_cons, List.append_assoc, readString_escape, ih, List.reverse_cons,
        List.append_assoc, List.singleton_append]

theorem readString_quoted (s : String) (rest : List Char) :
    readString none [] (s.toList.flatMap escape ++ '"' :: rest) = some (s, rest) := by
  rw [readString_flatMap_escape, List.reverse_nil, List.nil_append, String.ofList_toList]

/-!
# Integers
-/

def EndsNumber (rest : List Char) : Prop :=
  forall c, rest.head? = some c -> Unsigned.digit? c = none ∧ c ≠ '.' ∧ c ≠ 'e' ∧ c ≠ 'E'

theorem takeDigits_of_endsNumber {rest : List Char} (h : EndsNumber rest) :
    takeDigits rest = ([], rest) := by
  cases rest with
  | nil => rfl
  | cons c rest => rw [takeDigits, (h c rfl).left]

theorem takeDigits_append {digits rest : List Char}
    (hdigits : forall c, c ∈ digits -> c.isDigit = true) (hrest : EndsNumber rest) :
    takeDigits (digits ++ rest) = (digits.map Unsigned.digitValue, rest) := by
  induction digits with
  | nil => exact takeDigits_of_endsNumber hrest
  | cons c digits ih =>
      have hc := Unsigned.digit?_of_isDigit (hdigits c List.mem_cons_self)
      have htail := ih fun d hd => hdigits d (List.mem_cons_of_mem c hd)
      rw [List.cons_append, takeDigits, hc, htail]
      rfl

theorem le_ofDigitChars (digits : List Char) (n : Nat) : n ≤ Nat.ofDigitChars 10 digits n := by
  induction digits generalizing n with
  | nil => exact Nat.le_refl n
  | cons c digits ih =>
      rw [Nat.ofDigitChars_cons]
      exact Nat.le_trans (by omega) (ih _)

theorem gatherWhole_of_lt (digits : List Char) {n : Nat}
    (h : Nat.ofDigitChars 10 digits n < Unsigned.wordBound) :
    gatherWhole false ⟨n, 0⟩ (digits.map Unsigned.digitValue) =
      (false, ⟨Nat.ofDigitChars 10 digits n, 0⟩) := by
  induction digits generalizing n with
  | nil => rfl
  | cons c digits ih =>
      rw [Nat.ofDigitChars_cons, Nat.mul_comm 10 n] at h ⊢
      have hfits : fits n (Unsigned.digitValue c) = true :=
        decide_eq_true (Nat.lt_of_le_of_lt (le_ofDigitChars digits _) h)
      rw [List.map_cons, gatherWhole, if_neg Bool.false_ne_true, if_pos hfits]
      exact ih h

theorem gatherWhole_toDigits {n : Nat} (h : n < Unsigned.wordBound) :
    gatherWhole false ⟨0, 0⟩ ((Nat.toDigits 10 n).map Unsigned.digitValue) =
      (false, ⟨n, 0⟩) := by
  have hvalue : Nat.ofDigitChars 10 (Nat.toDigits 10 n) 0 = n := Nat.ofDigitChars_ten_toDigits
  rw [gatherWhole_of_lt _ (by rw [hvalue]; exact h), hvalue]

def sign (negative : Bool) : List Char :=
  if negative then ['-'] else []

theorem readNumber_zero (negative : Bool) {rest : List Char} (hrest : EndsNumber rest) :
    readNumber (sign negative ++ ('0' :: rest)) =
      (numberOf negative [0] none none).map (·, rest) := by
  cases rest with
  | nil => cases negative <;> rfl
  | cons c rest =>
      rcases hrest c rfl with ⟨hdigit, hpoint, hlower, hupper⟩
      cases negative <;>
        simp [readNumber, sign, hdigit, hpoint, hlower, hupper] <;>
        cases numberOf _ [0] none none <;> rfl

theorem readNumber_nonzero (negative : Bool) {c : Char} {digits rest : List Char}
    (hdigits : forall d, d ∈ c :: digits -> d.isDigit = true) (hzero : c ≠ '0')
    (hrest : EndsNumber rest) :
    readNumber (sign negative ++ (c :: digits ++ rest)) =
      (numberOf negative ((c :: digits).map Unsigned.digitValue) none none).map (·, rest) := by
  have htake := takeDigits_append hdigits hrest
  have hminus : c ≠ '-' := by
    rintro rfl
    exact absurd (hdigits '-' List.mem_cons_self) (by decide)
  rw [List.cons_append] at htake ⊢
  generalize digits ++ rest = text at htake
  cases rest with
  | nil =>
      cases negative <;>
        simp [readNumber, sign, hzero, hminus, htake] <;>
        cases numberOf _ _ none none <;> rfl
  | cons d rest =>
      rcases hrest d rfl with ⟨-, hpoint, hlower, hupper⟩
      cases negative <;>
        simp [readNumber, sign, hzero, hminus, htake, hpoint, hlower, hupper] <;>
        cases numberOf _ _ none none <;> rfl

theorem readNumber_toDigits (negative : Bool) (n : Nat) {rest : List Char}
    (hrest : EndsNumber rest) :
    readNumber (sign negative ++ (Nat.toDigits 10 n ++ rest)) =
      (numberOf negative ((Nat.toDigits 10 n).map Unsigned.digitValue) none none).map
      (·, rest) := by
  by_cases hn : n = 0
  · subst hn
    exact readNumber_zero negative hrest
  · rcases Unsigned.toDigits_head_ne hn with ⟨c, digits, hdigits, hc⟩
    have hall : forall d, d ∈ c :: digits -> d.isDigit = true := fun d hd =>
      Unsigned.isDigit_of_mem_digits (by rw [hdigits]; exact hd)
    rw [hdigits]
    exact readNumber_nonzero negative hall hc hrest

def IsWord (n : Int) : Prop :=
  -Int.pow 2 63 ≤ n ∧ n < Int.pow 2 64

theorem print_ofNat (n : Nat) : print (.int (Int.ofNat n)) = Nat.toDigits 10 n := by
  simp [print, Int.toString_eq_repr, Int.repr_eq_if]

theorem print_negSucc (n : Nat) :
    print (.int (Int.negSucc n)) = '-' :: Nat.toDigits 10 (n + 1) := by
  simp [print, Int.toString_eq_repr, Int.repr_eq_if]

theorem print_int_head (n : Int) :
    exists c text, print (.int n) = c :: text ∧ (c = '-' ∨ c.isDigit = true) := by
  cases n with
  | ofNat n =>
      rw [print_ofNat]
      cases htext : Nat.toDigits 10 n with
      | nil => exact absurd htext Nat.toDigits_ne_nil
      | cons c text =>
          exact ⟨c, text, rfl,
            Or.inr (Unsigned.isDigit_of_mem_digits (htext ▸ List.mem_cons_self))⟩
  | negSucc n => exact ⟨_, _, print_negSucc n, Or.inl rfl⟩

theorem readNumber_print {n : Int} {rest : List Char} (h : IsWord n)
    (hrest : EndsNumber rest) :
    readNumber (print (.int n) ++ rest) = some (.int n, rest) := by
  cases n with
  | ofNat n =>
      have hword : n < Unsigned.wordBound := by
        have hbound := h.right
        exact Int.ofNat_lt.mp hbound
      have hread := readNumber_toDigits false n hrest
      rw [numberOf, gatherWhole_toDigits hword] at hread
      rw [print_ofNat]
      exact hread
  | negSucc n =>
      have hhalf : n + 1 ≤ Nat.pow 2 63 := by
        have hbound : -(9223372036854775808 : Int) ≤ Int.negSucc n := h.left
        have hpow : Nat.pow 2 63 = 9223372036854775808 := by decide
        omega
      have hword : n + 1 < Unsigned.wordBound := Nat.lt_of_le_of_lt hhalf (by decide)
      have hread := readNumber_toDigits true (n + 1) hrest
      rw [numberOf, gatherWhole_toDigits hword] at hread
      simp only [Bool.false_eq_true, if_false, Bool.not_true, Nat.add_one_ne_zero, false_or,
        Nat.not_lt_of_le hhalf, Option.map_some] at hread
      rw [print_negSucc]
      exact hread

end Json
end LanguageClient

import LanguageClient.Number.Unsigned

/-!
# Decimal naturals as they are read and printed

What counts as a numeral, and that the printed digits of a natural number are one. Only zero is
printed with a zero in front.
-/

namespace LanguageClient
namespace Unsigned

def digitValue (c : Char) : Nat :=
  c.toNat - '0'.toNat

theorem isDigit_iff {c : Char} : c.isDigit = true <-> '0' ≤ c ∧ c ≤ '9' := by
  simp only [Char.isDigit, Bool.and_eq_true, decide_eq_true_eq]
  exact Iff.rfl

theorem digit?_of_isDigit {c : Char} (h : c.isDigit = true) :
    digit? c = some (digitValue c) := by
  rw [digit?, if_pos (isDigit_iff.mp h)]
  rfl

theorem digit?_of_not_isDigit {c : Char} (h : ¬ c.isDigit = true) : digit? c = none := by
  rw [digit?, if_neg (fun hc => h (isDigit_iff.mpr hc))]

def IsNumeral (text : List Char) (n : Nat) : Prop :=
  exists digits, (text = digits ∨ text = '+' :: digits) ∧ digits ≠ [] ∧
    (forall c, c ∈ digits -> c.isDigit = true) ∧ Nat.ofDigitChars 10 digits 0 = n

theorem IsNumeral.ne_nil {text : List Char} {n : Nat} (h : IsNumeral text n) : text ≠ [] := by
  rcases h with ⟨digits, rfl | rfl, hne, -⟩
  · exact hne
  · exact List.cons_ne_nil '+' digits

theorem digits?_eq_some_iff {text : List Char} {acc n : Nat} :
    digits? acc text = some n <->
      (forall c, c ∈ text -> c.isDigit = true) ∧ Nat.ofDigitChars 10 text acc = n := by
  induction text generalizing acc with
  | nil => simp [digits?]
  | cons c rest ih =>
      by_cases hc : c.isDigit = true
      · rw [digits?, digit?_of_isDigit hc, Nat.ofDigitChars_cons, Nat.mul_comm 10 acc]
        simp only [Option.bind_eq_bind, Option.bind_some, ih, List.forall_mem_cons, hc,
          true_and]
        exact Iff.rfl
      · rw [digits?, digit?_of_not_isDigit hc]
        simp [hc]

theorem filter_digits?_eq_some_iff {text : List Char} {n : Nat} :
    (digits? 0 text).filter (· < wordBound) = some n <->
      n < wordBound ∧ (forall c, c ∈ text -> c.isDigit = true) ∧
        Nat.ofDigitChars 10 text 0 = n := by
  rw [Option.filter_eq_some_iff, digits?_eq_some_iff, decide_eq_true_eq]
  exact And.comm

theorem read?_plus {digits : List Char} (hne : digits ≠ []) :
    read? ('+' :: digits) = (digits? 0 digits).filter (· < wordBound) := by
  cases digits with
  | nil => exact absurd rfl hne
  | cons c digits => rfl

theorem read?_of_ne_plus {c : Char} (digits : List Char) (h : c ≠ '+') :
    read? (c :: digits) = (digits? 0 (c :: digits)).filter (· < wordBound) := by
  simp [read?, h]

theorem isNumeral_of_read? {text : List Char} {n : Nat} (h : read? text = some n) :
    n < wordBound ∧ IsNumeral text n := by
  cases text with
  | nil => cases h
  | cons c digits =>
      by_cases hc : c = '+'
      · subst hc
        have hne : digits ≠ [] := by
          rintro rfl
          cases h
        rw [read?_plus hne] at h
        rcases filter_digits?_eq_some_iff.mp h with ⟨hword, hdigits⟩
        exact ⟨hword, digits, Or.inr rfl, hne, hdigits⟩
      · rw [read?_of_ne_plus digits hc] at h
        rcases filter_digits?_eq_some_iff.mp h with ⟨hword, hdigits⟩
        exact ⟨hword, c :: digits, Or.inl rfl, List.cons_ne_nil c digits, hdigits⟩

theorem read?_of_isNumeral {text : List Char} {n : Nat} (hword : n < wordBound)
    (h : IsNumeral text n) : read? text = some n := by
  rcases h with ⟨digits, rfl | rfl, hne, hdigits, hvalue⟩
  · cases text with
    | nil => exact absurd rfl hne
    | cons c digits =>
        have hc : c ≠ '+' := by
          rintro rfl
          exact absurd (hdigits '+' List.mem_cons_self) (by decide)
        rw [read?_of_ne_plus digits hc]
        exact filter_digits?_eq_some_iff.mpr ⟨hword, hdigits, hvalue⟩
  · rw [read?_plus hne]
    exact filter_digits?_eq_some_iff.mpr ⟨hword, hdigits, hvalue⟩

theorem read?_eq_some_iff {text : List Char} {n : Nat} :
    read? text = some n <-> n < wordBound ∧ IsNumeral text n :=
  ⟨isNumeral_of_read?, fun h => read?_of_isNumeral h.left h.right⟩

theorem isDigit_of_mem_digits {n : Nat} {c : Char} (h : c ∈ Nat.toDigits 10 n) :
    c.isDigit = true :=
  Nat.isDigit_of_mem_toDigits (by decide) (by decide) h

theorem isNumeral_toDigits (n : Nat) : IsNumeral (Nat.toDigits 10 n) n :=
  ⟨_, Or.inl rfl, Nat.toDigits_ne_nil, fun _ => isDigit_of_mem_digits,
    Nat.ofDigitChars_ten_toDigits⟩

theorem toDigits_head_ne {n : Nat} (h : n ≠ 0) :
    exists c rest, Nat.toDigits 10 n = c :: rest ∧ c ≠ '0' := by
  induction n using Nat.strongRecOn with
  | ind n ih =>
      by_cases hsmall : n < 10
      · refine ⟨n.digitChar, [], Nat.toDigits_of_lt_base hsmall, ?_⟩
        have hall : forall m, m < 10 -> m ≠ 0 -> m.digitChar ≠ '0' := by decide
        exact hall n hsmall h
      · rcases ih (n / 10) (by omega) (by omega) with ⟨c, rest, hdigits, hc⟩
        exact ⟨c, rest ++ [(n % 10).digitChar],
          by rw [Nat.toDigits_of_base_le (by decide) (by omega), hdigits,
            List.cons_append], hc⟩

end Unsigned
end LanguageClient

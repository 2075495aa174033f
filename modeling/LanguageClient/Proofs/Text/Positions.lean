import LanguageClient.Text.Edit
import Mathlib.Data.List.Infix

/-!
# Positions and prefixes

A position that denotes a place of a text exactly is the place behind some prefix of
the text. Looking such a position up needs that prefix alone: whatever follows the
prefix, the position leads to its end. Everything about exact positions is said in
terms of prefixes here.
-/

namespace LanguageClient

/-!
# Bytes of a text
-/

namespace Utf8

theorem foldl_size (text : Text) (n : Nat) :
    text.foldl (fun n c => n + c.utf8Size) n = n + size text := by
  induction text generalizing n with
  | nil => rfl
  | cons c rest ih =>
      rw [size, List.foldl_cons, List.foldl_cons, ih, ih (0 + c.utf8Size)]
      omega

@[simp] theorem size_nil : size [] = 0 := rfl

@[simp] theorem size_cons (c : Char) (rest : Text) :
    size (c :: rest) = c.utf8Size + size rest := by
  rw [size, List.foldl_cons, foldl_size, Nat.zero_add]

@[simp] theorem size_append (before rest : Text) :
    size (before ++ rest) = size before + size rest := by
  induction before with
  | nil => simp
  | cons c before ih =>
      rw [List.cons_append, size_cons, size_cons, ih, Nat.add_assoc]

theorem size_le_of_prefix {before text : Text} (h : before <+: text) :
    size before ≤ size text := by
  rcases h with ⟨rest, rfl⟩
  simp

theorem prefix_of_size_le {first second text : Text} (hfirst : first <+: text)
    (hsecond : second <+: text) (h : size first ≤ size second) : first <+: second := by
  rcases List.prefix_or_prefix_of_prefix hfirst hsecond with hle | ⟨rest, rfl⟩
  · exact hle
  · cases rest with
    | nil =>
        rw [List.append_nil]
    | cons c rest =>
        have hc := c.utf8Size_pos
        rw [size_append, size_cons] at h
        omega

end Utf8

namespace TextEdit

theorem takeBytes_size (before rest : Text) :
    takeBytes (Utf8.size before) (before ++ rest) = before := by
  induction before with
  | nil => cases rest <;> rfl
  | cons c before ih =>
      have hc := c.utf8Size_pos
      obtain ⟨n, hn⟩ : exists n, Utf8.size (c :: before) = n + 1 :=
        ⟨Utf8.size (c :: before) - 1, by rw [Utf8.size_cons]; omega⟩
      have hleft : n + 1 - c.utf8Size = Utf8.size before := by
        rw [← hn, Utf8.size_cons]
        omega
      rw [List.cons_append, hn, takeBytes, hleft, ih]
      exact Nat.succ_ne_zero n

theorem dropBytes_size (before rest : Text) :
    dropBytes (Utf8.size before) (before ++ rest) = rest := by
  induction before with
  | nil => cases rest <;> rfl
  | cons c before ih =>
      have hc := c.utf8Size_pos
      obtain ⟨n, hn⟩ : exists n, Utf8.size (c :: before) = n + 1 :=
        ⟨Utf8.size (c :: before) - 1, by rw [Utf8.size_cons]; omega⟩
      have hleft : n + 1 - c.utf8Size = Utf8.size before := by
        rw [← hn, Utf8.size_cons]
        omega
      rw [List.cons_append, hn, dropBytes, hleft, ih]
      exact Nat.succ_ne_zero n

theorem splice_prefixes (before middle rest new : Text) :
    splice (before ++ (middle ++ rest)) (Utf8.size before) (Utf8.size (before ++ middle)) new =
      before ++ (new ++ rest) := by
  rw [splice, takeBytes_size, ← List.append_assoc before middle, dropBytes_size]

end TextEdit

/-!
# Places behind prefixes
-/

namespace Position

theorem after_append (p : Position) (first second : Text) :
    after p (first ++ second) = after (after p first) second := by
  induction first generalizing p with
  | nil => rfl
  | cons c first ih =>
      rw [List.cons_append, after, after]
      split <;> exact ih _

theorem units_pos (c : Char) : 0 < units c := by
  rw [units]
  split <;> omega

theorem not_after_before (p : Position) (text : Text) : (after p text).before p = false := by
  have hle : p.line < (after p text).line ∨
      p.line = (after p text).line ∧ p.character ≤ (after p text).character := by
    induction text generalizing p with
    | nil => exact Or.inr ⟨rfl, Nat.le_refl _⟩
    | cons c rest ih =>
        rw [after]
        split
        · rcases ih ⟨p.line + 1, 0⟩ with h | ⟨h, _⟩ <;> simp at h <;> omega
        · have hc := units_pos c
          rcases ih ⟨p.line, p.character + units c⟩ with h | ⟨h, h'⟩
          · exact Or.inl h
          · exact Or.inr ⟨h, by simp at h'; omega⟩
  rw [before]
  simp
  omega

theorem before_after_cons (p : Position) (c : Char) (rest : Text) :
    p.before (after p (c :: rest)) = true := by
  rw [after]
  split
  · have hnot := not_after_before ⟨p.line + 1, 0⟩ rest
    simp [before] at hnot ⊢
    omega
  · have hc := units_pos c
    have hnot := not_after_before ⟨p.line, p.character + units c⟩ rest
    simp [before] at hnot ⊢
    omega

theorem columnBefore_after (p : Position) (before rest : Text)
    (hline : (after p before).line = p.line) :
    columnBefore (after p before).character p.character (before ++ rest) = before := by
  induction before generalizing p with
  | nil =>
      cases rest with
      | nil => rfl
      | cons c rest =>
          have hcolumn : (after p []).character ≤ p.character := Nat.le_refl _
          rw [List.nil_append, columnBefore, if_pos (Or.inr hcolumn)]
  | cons c before ih =>
      rw [after] at hline ⊢
      by_cases hc : c = '\n'
      · rw [if_pos hc] at hline
        have hnot := not_after_before ⟨p.line + 1, 0⟩ before
        simp [Position.before] at hnot
        omega
      · rw [if_neg hc] at hline ⊢
        have hunits := units_pos c
        have hnot := not_after_before ⟨p.line, p.character + units c⟩ before
        have hcolumn :
            ¬ (after ⟨p.line, p.character + units c⟩ before).character ≤ p.character := by
          simp [Position.before] at hnot
          omega
        rw [List.cons_append, columnBefore, if_neg (by simp [hc, hcolumn])]
        exact congrArg (c :: ·) (ih ⟨p.line, p.character + units c⟩ hline)

theorem textBefore_after_line (p : Position) (before rest : Text) (n : Nat)
    (hline : (after p before).line = p.line + (n + 1)) :
    textBefore (after p before).character (n + 1) (before ++ rest) = before := by
  induction before generalizing p n with
  | nil =>
      change p.line = p.line + (n + 1) at hline
      omega
  | cons c before ih =>
      rw [after] at hline ⊢
      rw [List.cons_append, textBefore]
      by_cases hc : c = '\n'
      · rw [if_pos hc] at hline ⊢
        rw [if_pos hc]
        cases n with
        | zero =>
            have hcolumn :=
              columnBefore_after ⟨p.line + 1, 0⟩ before rest (by simpa using hline)
            rw [textBefore]
            exact congrArg (c :: ·) hcolumn
        | succ n =>
            rw [ih ⟨p.line + 1, 0⟩ n (by simp at hline ⊢; omega)]
      · rw [if_neg hc] at hline ⊢
        rw [if_neg hc, ih ⟨p.line, p.character + units c⟩ n hline]

def ofPrefix (before : Text) : Position :=
  after ⟨0, 0⟩ before

theorem textBefore_ofPrefix (before rest : Text) :
    textBefore (ofPrefix before).character (ofPrefix before).line (before ++ rest) =
      before := by
  cases hline : (ofPrefix before).line with
  | zero =>
      rw [textBefore]
      exact columnBefore_after ⟨0, 0⟩ before rest hline
  | succ n =>
      exact textBefore_after_line ⟨0, 0⟩ before rest n (by rw [← ofPrefix, hline]; simp)

@[simp] theorem toOffset_ofPrefix (before rest : Text) :
    (ofPrefix before).toOffset (before ++ rest) = Utf8.size before := by
  rw [toOffset, textBefore_ofPrefix]

theorem toOffset_eq_size {before text : Text} (h : before <+: text) :
    (ofPrefix before).toOffset text = Utf8.size before := by
  rcases h with ⟨rest, rfl⟩
  exact toOffset_ofPrefix before rest

theorem ofPrefix_before_iff {before longer : Text} (h : before <+: longer) :
    (ofPrefix before).before (ofPrefix longer) = true ↔ before ≠ longer := by
  rcases h with ⟨rest, rfl⟩
  rw [ofPrefix, ofPrefix, after_append]
  cases rest with
  | nil =>
      have hnot := not_after_before (after ⟨0, 0⟩ before) []
      rw [after] at hnot
      simp [after, hnot]
  | cons c rest => simp [before_after_cons]

theorem prefix_of_not_before {text first second : Text} (hfirst : first <+: text)
    (hsecond : second <+: text) (h : ¬ (ofPrefix second).before (ofPrefix first) = true) :
    first <+: second := by
  rcases List.prefix_or_prefix_of_prefix hfirst hsecond with hle | hge
  · exact hle
  · by_cases heq : second = first
    · exact heq ▸ List.prefix_refl _
    · exact absurd ((ofPrefix_before_iff hge).mpr heq) h

/-!
# Exact positions
-/

/-- A position denotes a place exactly if its offset leads back to it. -/
def IsExact (text : Text) (p : Position) : Prop :=
  ofOffset text (p.toOffset text) = p

instance (text : Text) (p : Position) : Decidable (IsExact text p) :=
  inferInstanceAs (Decidable (ofOffset text (p.toOffset text) = p))

theorem wholeBefore_prefix (offset : Nat) (text : Text) :
    wholeBefore offset text <+: text := by
  induction text generalizing offset with
  | nil => exact List.prefix_refl _
  | cons c rest ih =>
      rw [wholeBefore]
      split
      · exact (List.prefix_cons_inj c).mpr (ih _)
      · exact List.nil_prefix

theorem wholeBefore_size (before rest : Text) :
    wholeBefore (Utf8.size before) (before ++ rest) = before := by
  induction before with
  | nil =>
      cases rest with
      | nil => rfl
      | cons c rest =>
          have hc := c.utf8Size_pos
          rw [List.nil_append, wholeBefore, if_neg (by simp; omega)]
  | cons c before ih =>
      rw [List.cons_append, wholeBefore, Utf8.size_cons, if_pos (Nat.le_add_right _ _),
        Nat.add_sub_cancel_left, ih]

/-- The exact positions of a text are the places behind its prefixes. -/
theorem isExact_iff {text : Text} {p : Position} :
    IsExact text p ↔ exists before, before <+: text ∧ p = ofPrefix before := by
  constructor
  · intro h
    exact ⟨_, wholeBefore_prefix (p.toOffset text) text, h.symm⟩
  · rintro ⟨before, ⟨rest, rfl⟩, rfl⟩
    rw [IsExact, toOffset_ofPrefix, ofOffset, wholeBefore_size, ofPrefix]

theorem toOffset_le_of_not_before {text : Text} {p q : Position} (hp : IsExact text p)
    (hq : IsExact text q) (h : ¬ q.before p = true) : p.toOffset text ≤ q.toOffset text := by
  rcases isExact_iff.mp hp with ⟨first, hfirst, rfl⟩
  rcases isExact_iff.mp hq with ⟨second, hsecond, rfl⟩
  rw [toOffset_eq_size hfirst, toOffset_eq_size hsecond]
  exact Utf8.size_le_of_prefix (prefix_of_not_before hfirst hsecond h)

theorem eq_of_toOffset_eq {text : Text} {p q : Position} (hp : IsExact text p)
    (hq : IsExact text q) (h : p.toOffset text = q.toOffset text) : p = q := by
  rw [← hp, ← hq, h]

end Position
end LanguageClient

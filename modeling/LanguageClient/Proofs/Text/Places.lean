import LanguageClient.Proofs.Text.Frames

/-!
# Positions seen from a place

A place splits the search for a position. If it lies before the position, all text before it
is passed, and what follows is searched for the position as it is seen from there. If it
does not, what follows the place does not matter. The search for a position is one recursion
over the text in these terms (`upTo_cons`), and everything here is read off it: later
positions lead further down, a search stops for a reason, and the reason does not depend on
what comes behind it.
-/

namespace LanguageClient
namespace Position

/-!
# Distances
-/

def plus (p q : Position) : Position :=
  if q.line = 0 then ⟨p.line, p.character + q.character⟩ else ⟨p.line + q.line, q.character⟩

/-- The position `p` as it is seen from `place`, which stands on the line of `p` or above. -/
def beyond (p place : Position) : Position :=
  if p.line = place.line then ⟨0, p.character - place.character⟩
  else ⟨p.line - place.line, p.character⟩

theorem before_iff (p q : Position) :
    p.before q = true ↔ p.line < q.line ∨ p.line = q.line ∧ p.character < q.character := by
  simp [before]

theorem not_before_start (p : Position) : ¬ p.before ⟨0, 0⟩ = true := by
  simp [before_iff]

theorem start_before {p : Position} (h : p ≠ ⟨0, 0⟩) : before ⟨0, 0⟩ p = true :=
  (before_total (Ne.symm h)).resolve_right (not_before_start p)

@[simp] theorem beyond_start (p : Position) : p.beyond ⟨0, 0⟩ = p := by
  rcases p with ⟨line, character⟩
  cases line <;> rfl

theorem plus_before_iff {p q r : Position} (h : q.line ≤ p.line) :
    (q.plus r).before p = true ↔ r.before (p.beyond q) = true := by
  grind [before_iff, plus, beyond]

theorem line_plus_eq_iff {p q r : Position} (h : q.line ≤ p.line) :
    (q.plus r).line = p.line ↔ r.line = (p.beyond q).line := by
  grind [plus, beyond]

theorem beyond_plus {p q r : Position} (hq : q.line ≤ p.line)
    (hr : r.line ≤ (p.beyond q).line) :
    p.beyond (q.plus r) = (p.beyond q).beyond r := by
  grind [plus, beyond]

theorem not_beyond_before {p q r : Position} (h : ¬ q.before p = true) (hp : r.line ≤ p.line) :
    ¬ (q.beyond r).before (p.beyond r) = true := by
  grind [before_iff, beyond]

theorem beyond_eq_start_iff {p place : Position} (h : place.line ≤ p.line) :
    p.beyond place = ⟨0, 0⟩ ↔ ¬ place.before p = true := by
  grind [before_iff, beyond]

theorem after_eq_plus (p : Position) (text : Text) :
    after p text = p.plus (ofPrefix text) := by
  induction text generalizing p with
  | nil => rfl
  | cons c rest ih =>
      rw [ofPrefix, after, after]
      by_cases hc : c = '\n'
      · rw [if_pos hc, if_pos hc, ih, ih ⟨0 + 1, 0⟩]
        grind [plus]
      · rw [if_neg hc, if_neg hc, ih, ih ⟨0, 0 + units c⟩]
        grind [plus]

theorem ofPrefix_append (first second : Text) :
    ofPrefix (first ++ second) = (ofPrefix first).plus (ofPrefix second) := by
  rw [ofPrefix, after_append, after_eq_plus, ← ofPrefix]

theorem ofPrefix_cons (c : Char) (rest : Text) :
    ofPrefix (c :: rest) = (ofPrefix [c]).plus (ofPrefix rest) :=
  ofPrefix_append [c] rest

theorem ofPrefix_break : ofPrefix ['\n'] = ⟨1, 0⟩ := rfl

theorem ofPrefix_single {c : Char} (h : c ≠ '\n') : ofPrefix [c] = ⟨0, units c⟩ := by
  rw [ofPrefix, after, if_neg h, after, Nat.zero_add]

theorem line_ofPrefix (text : Text) : (ofPrefix text).line = text.count '\n' := by
  induction text with
  | nil => rfl
  | cons c rest ih =>
      rw [ofPrefix_cons]
      by_cases hc : c = '\n'
      · subst hc
        rw [ofPrefix_break, List.count_cons_self, ← ih]
        grind [plus]
      · rw [ofPrefix_single hc, List.count_cons_of_ne hc, ← ih]
        grind [plus]

/-!
# The search for a position
-/

/-- The text before the place that a position leads to. -/
def upTo (p : Position) (text : Text) : Text :=
  textBefore p.character p.line text

theorem toOffset_eq (p : Position) (text : Text) : p.toOffset text = Utf8.size (p.upTo text) :=
  rfl

theorem upTo_isPrefix (p : Position) (text : Text) : p.upTo text <+: text :=
  textBefore_isPrefix p.character p.line text

@[simp] theorem upTo_nil (p : Position) : p.upTo [] = [] :=
  List.prefix_nil.mp (upTo_isPrefix p [])

@[simp] theorem upTo_start (text : Text) : upTo ⟨0, 0⟩ text = [] := by
  cases text with
  | nil => rfl
  | cons c rest => exact if_pos (Or.inr (Nat.le_refl 0))

theorem upTo_firstLine (column : Nat) (text : Text) :
    upTo ⟨0, column⟩ text = columnBefore column 0 text := by
  rw [upTo, textBefore]

theorem columnBefore_sub (column seen n : Nat) (text : Text) :
    columnBefore column (seen + n) text = columnBefore (column - n) seen text := by
  induction text generalizing seen with
  | nil => rfl
  | cons c rest ih =>
      have hcolumn : column ≤ seen + n ↔ column - n ≤ seen := Nat.sub_le_iff_le_add.symm
      simp only [columnBefore, hcolumn]
      rw [Nat.add_right_comm, ih]

/-- A search that is not over passes one character and goes on behind it, unless that
character ends the line of the position. -/
theorem upTo_cons {p : Position} (h : p ≠ ⟨0, 0⟩) (c : Char) (rest : Text) :
    p.upTo (c :: rest) =
      if p.line = 0 ∧ c = '\n' then [] else c :: (p.beyond (ofPrefix [c])).upTo rest := by
  rcases p with ⟨line, column⟩
  cases line with
  | zero =>
      have hcolumn : ¬ column ≤ 0 := by
        intro hle
        cases Nat.le_zero.mp hle
        exact h rfl
      by_cases hc : c = '\n'
      · rw [if_pos ⟨rfl, hc⟩]
        exact if_pos (Or.inl hc)
      · rw [if_neg (fun hbreak => hc hbreak.2), ofPrefix_single hc]
        rw [beyond, if_pos rfl, upTo_firstLine, upTo_firstLine, columnBefore,
          if_neg (not_or.mpr ⟨hc, hcolumn⟩), columnBefore_sub]
  | succ line =>
      rw [if_neg (fun hbreak => absurd hbreak.1 (Nat.succ_ne_zero line))]
      by_cases hc : c = '\n'
      · subst hc
        rw [ofPrefix_break]
        cases line <;> rfl
      · rw [ofPrefix_single hc, upTo, textBefore, if_neg hc]
        rfl

theorem line_le_of_passed {p : Position} {c : Char} (h : ¬ (p.line = 0 ∧ c = '\n')) :
    (ofPrefix [c]).line ≤ p.line := by
  by_cases hc : c = '\n'
  · subst hc
    exact Nat.pos_of_ne_zero fun hline => h ⟨hline, rfl⟩
  · rw [ofPrefix_single hc]
    exact Nat.zero_le _

theorem upTo_mono {p q : Position} (h : ¬ q.before p = true) (text : Text) :
    p.upTo text <+: q.upTo text := by
  induction text generalizing p q with
  | nil => rw [upTo_nil, upTo_nil]
  | cons c rest ih =>
      by_cases hp : p = ⟨0, 0⟩
      · rw [hp, upTo_start]
        exact List.nil_prefix
      · have hq : q ≠ ⟨0, 0⟩ := by
          rintro rfl
          exact h (start_before hp)
        rw [upTo_cons hp, upTo_cons hq]
        by_cases hstop : p.line = 0 ∧ c = '\n'
        · rw [if_pos hstop]
          exact List.nil_prefix
        · have hgoes : ¬ (q.line = 0 ∧ c = '\n') := by
            rintro ⟨hline, hc⟩
            rw [before_iff] at h
            exact hstop ⟨by omega, hc⟩
          rw [if_neg hstop, if_neg hgoes, List.prefix_cons_inj]
          exact ih (not_beyond_before h (line_le_of_passed hstop))

/-- If a search stops before a character, it has come to the line of the position, and there
to a place that is not before the position or to the end of the line. -/
theorem upTo_stops {p : Position} {text rest : Text} {c : Char}
    (h : p.upTo text ++ c :: rest = text) :
    (ofPrefix (p.upTo text)).line = p.line ∧
      (c = '\n' ∨ ¬ (ofPrefix (p.upTo text)).before p = true) := by
  induction text generalizing p with
  | nil =>
      rw [upTo_nil] at h
      cases h
  | cons d text ih =>
      by_cases hp : p = ⟨0, 0⟩
      · subst hp
        rw [upTo_start]
        exact ⟨rfl, Or.inr (not_before_start _)⟩
      · rw [upTo_cons hp] at h ⊢
        by_cases hstop : p.line = 0 ∧ d = '\n'
        · rw [if_pos hstop] at h ⊢
          obtain ⟨rfl, -⟩ := List.cons.inj h
          exact ⟨hstop.1.symm, Or.inl hstop.2⟩
        · rw [if_neg hstop] at h ⊢
          have hline := line_le_of_passed hstop
          rw [ofPrefix_cons, line_plus_eq_iff hline, plus_before_iff hline]
          exact ih (List.cons.inj h).2

theorem upTo_append {p : Position} {first : Text} (h : (ofPrefix first).before p = true)
    (second : Text) :
    p.upTo (first ++ second) = first ++ (p.beyond (ofPrefix first)).upTo second := by
  induction first generalizing p with
  | nil => rw [ofPrefix, after, beyond_start, List.nil_append, List.nil_append]
  | cons c first ih =>
      have hp : p ≠ ⟨0, 0⟩ := by
        rintro rfl
        exact not_before_start _ h
      have hpassed : ¬ (p.line = 0 ∧ c = '\n') := by
        rintro ⟨hline, rfl⟩
        rw [ofPrefix_cons, ofPrefix_break, before_iff] at h
        grind [plus]
      have hline := line_le_of_passed hpassed
      rw [ofPrefix_cons, plus_before_iff hline] at h
      have hrest : (ofPrefix first).line ≤ (p.beyond (ofPrefix [c])).line := by
        rw [before_iff] at h
        omega
      rw [List.cons_append, upTo_cons hp, if_neg hpassed, ih h, ← beyond_plus hline hrest,
        ← ofPrefix_cons, List.cons_append]

theorem upTo_append_of_reached {p : Position} {text : Text}
    (h : ¬ (ofPrefix (p.upTo text)).before p = true) (rest : Text) :
    p.upTo (p.upTo text ++ rest) = p.upTo text := by
  induction text generalizing p with
  | nil =>
      rw [upTo_nil] at h ⊢
      have hp : p = ⟨0, 0⟩ := by
        by_contra hne
        exact h (start_before hne)
      rw [hp, List.nil_append, upTo_start]
  | cons c text ih =>
      by_cases hp : p = ⟨0, 0⟩
      · subst hp
        rw [upTo_start, upTo_start]
      · rw [upTo_cons hp] at h ⊢
        by_cases hstop : p.line = 0 ∧ c = '\n'
        · rw [if_pos hstop] at h
          exact absurd (start_before hp) h
        · rw [if_neg hstop] at h ⊢
          rw [ofPrefix_cons, plus_before_iff (line_le_of_passed hstop)] at h
          rw [List.cons_append, upTo_cons hp, if_neg hstop, ih h]

theorem line_upTo_le (p : Position) (text : Text) :
    (ofPrefix (p.upTo text)).line ≤ p.line := by
  rw [line_ofPrefix, upTo, count_textBefore]
  exact Nat.min_le_left _ _

theorem upTo_append_break {p : Position} {before : Text}
    (h : (ofPrefix before).before p = true)
    (hline : (ofPrefix before).line = p.line) (rest : Text) :
    p.upTo (before ++ '\n' :: rest) = before := by
  have hne : p.beyond (ofPrefix before) ≠ ⟨0, 0⟩ := by
    intro hstart
    exact (beyond_eq_start_iff (Nat.le_of_eq hline)).mp hstart h
  have hbeyond : (p.beyond (ofPrefix before)).line = 0 := by
    rw [beyond, if_pos hline.symm]
  rw [upTo_append h, upTo_cons hne, if_pos ⟨hbeyond, rfl⟩, List.append_nil]

theorem upTo_append_cons {p : Position} {before rest : Text} {c : Char}
    (h : p.upTo (before ++ c :: rest) = before) (rest' : Text) :
    p.upTo (before ++ c :: rest') = before := by
  by_cases hreached : (ofPrefix before).before p = true
  · have hcut : p.upTo (before ++ c :: rest) ++ c :: rest = before ++ c :: rest := by
      rw [h]
    have hstops := upTo_stops hcut
    rw [h] at hstops
    obtain rfl : c = '\n' := hstops.2.resolve_right (not_not.mpr hreached)
    exact upTo_append_break hreached hstops.1 rest'
  · rw [← h] at hreached
    have hstays := upTo_append_of_reached hreached (c :: rest')
    rw [h] at hstays
    exact hstays

theorem upTo_isPrefix_of_append (p : Position) (text rest : Text) :
    p.upTo text <+: p.upTo (p.upTo text ++ rest) := by
  by_cases hreached : (ofPrefix (p.upTo text)).before p = true
  · rw [upTo_append hreached]
    exact List.prefix_append _ _
  · rw [upTo_append_of_reached hreached]

end Position
end LanguageClient

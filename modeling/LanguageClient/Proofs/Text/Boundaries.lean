import LanguageClient.Proofs.Text.Places
import Mathlib.Algebra.GroupWithZero.Nat
import Mathlib.Data.List.DropRight
import Mathlib.Order.Bounds.Basic

/-!
# Positions and character boundaries

The boundaries of a text are the ends of its prefixes. A boundary stands on the line that
the line feeds before it count, at the column that the UTF-16 units behind the last of them
count. In these terms, which know nothing of how a position is looked up, a position leads
to the first boundary on its line that is not to its left, an offset is taken back to the
last boundary that is not behind it, and later positions lead to later boundaries.
-/

namespace LanguageClient

def IsBoundary (text : Text) (offset : Nat) : Prop :=
  exists before, before <+: text ∧ Utf8.size before = offset

theorem IsBoundary.le_size {text : Text} {offset : Nat} (h : IsBoundary text offset) :
    offset ≤ Utf8.size text := by
  rcases h with ⟨before, hbefore, rfl⟩
  exact Utf8.size_le_of_prefix hbefore

namespace Position

/-!
# Lines and columns of boundaries
-/

def lastColumn (text : Text) : Nat :=
  ((text.rtakeWhile (· != '\n')).map units).sum

theorem lastColumn_break (before : Text) : lastColumn (before ++ ['\n']) = 0 := by
  rw [lastColumn, List.rtakeWhile_concat_neg _ _ _ (by simp)]
  rfl

theorem lastColumn_concat (before : Text) {c : Char} (h : c ≠ '\n') :
    lastColumn (before ++ [c]) = lastColumn before + units c := by
  rw [lastColumn, List.rtakeWhile_concat_pos _ _ _ (by simpa using h), List.map_append,
    List.sum_append, lastColumn]
  rfl

theorem ofPrefix_eq (before : Text) :
    ofPrefix before = ⟨before.count '\n', lastColumn before⟩ := by
  induction before using List.reverseRecOn with
  | nil => rfl
  | append_singleton before c ih =>
      rw [ofPrefix_append, ih]
      by_cases hc : c = '\n'
      · subst hc
        rw [ofPrefix_break, lastColumn_break, List.count_append, List.count_singleton_self]
        rfl
      · rw [ofPrefix_single hc, lastColumn_concat before hc, List.count_append,
          List.count_singleton, if_neg (by simpa using hc)]
        rfl

theorem units_le_utf8Size (c : Char) : units c ≤ c.utf8Size := by
  have hvalue : c.val.toNat = c.toNat := rfl
  simp only [units, Char.utf8Size, UInt32.le_iff_toNat_le, hvalue]
  grind

theorem ofPrefix_le_size (before : Text) :
    (ofPrefix before).line ≤ Utf8.size before ∧ (ofPrefix before).character ≤
    Utf8.size before := by
  induction before with
  | nil => exact ⟨Nat.le_refl 0, Nat.le_refl 0⟩
  | cons c before ih =>
      have hpos := c.utf8Size_pos
      have hunits := units_le_utf8Size c
      rw [ofPrefix_cons, Utf8.size_cons]
      by_cases hc : c = '\n'
      · subst hc
        rw [ofPrefix_break]
        grind [plus]
      · rw [ofPrefix_single hc]
        grind [plus]

/-- The boundaries on a line that stand at a column or to its right. -/
def boundariesFrom (text : Text) (line column : Nat) : Set Nat :=
  {offset | exists before, before <+: text ∧ before.count '\n' = line ∧
    column ≤ lastColumn before ∧ Utf8.size before = offset}

/-!
# Where positions lead
-/

theorem isBoundary_toOffset (p : Position) (text : Text) : IsBoundary text (p.toOffset text) :=
  ⟨p.upTo text, upTo_isPrefix p text, rfl⟩

theorem toOffset_mono {p q : Position} (h : ¬ q.before p = true) (text : Text) :
    p.toOffset text ≤ q.toOffset text :=
  Utf8.size_le_of_prefix (upTo_mono h text)

theorem toOffset_le_of_before {p q : Position} (h : p.before q = true) (text : Text) :
    p.toOffset text ≤ q.toOffset text :=
  toOffset_mono (Bool.eq_false_iff.mp (before_asymm h)) text

theorem toOffset_le_of_mem {text : Text} {p : Position} {offset : Nat}
    (h : offset ∈ boundariesFrom text p.line p.character) : p.toOffset text ≤ offset := by
  rcases h with ⟨before, hbefore, hline, hcolumn, rfl⟩
  rw [← toOffset_eq_size hbefore]
  apply toOffset_mono
  rw [ofPrefix_eq, before_iff]
  simp only [hline]
  omega

theorem eq_or_column_le {text first : Text} {p : Position} (hfirst : first <+: text)
    (hline : first.count '\n' = p.line) (h : p.upTo text <+: first) :
    p.upTo text = first ∨
      (p.upTo text).count '\n' = p.line ∧ p.character ≤ lastColumn (p.upTo text) := by
  obtain ⟨more, hmore⟩ := h
  cases more with
  | nil => exact Or.inl (by rw [← hmore, List.append_nil])
  | cons c more =>
      obtain ⟨rest, hrest⟩ := hfirst
      rw [← hmore, List.append_assoc, List.cons_append] at hrest
      obtain ⟨hstops, hreason⟩ := upTo_stops hrest
      rw [ofPrefix_eq] at hstops hreason
      dsimp only at hstops hreason
      -- A line feed behind the place would put the boundary on a later line.
      have hc : c ≠ '\n' := by
        rintro rfl
        rw [← hmore, List.count_append, List.count_cons_self, hstops] at hline
        omega
      have hcolumn := hreason.resolve_left hc
      rw [before_iff] at hcolumn
      dsimp only at hcolumn
      exact Or.inr ⟨hstops, by omega⟩

theorem toOffset_isLeast {text : Text} {p : Position}
    (h : (boundariesFrom text p.line p.character).Nonempty) :
    IsLeast (boundariesFrom text p.line p.character) (p.toOffset text) := by
  constructor
  · rcases h with ⟨offset, hoffset⟩
    have hle := toOffset_le_of_mem hoffset
    obtain ⟨first, hfirst, hline, hcolumn, rfl⟩ := hoffset
    have hshort := Utf8.prefix_of_size_le (upTo_isPrefix p text) hfirst hle
    rcases eq_or_column_le hfirst hline hshort with heq | hreached
    · exact ⟨first, hfirst, hline, hcolumn, by rw [toOffset_eq, heq]⟩
    · exact ⟨p.upTo text, upTo_isPrefix p text, hreached.1, hreached.2, rfl⟩
  · intro offset hoffset
    exact toOffset_le_of_mem hoffset

/-- If a line has no boundary at the column of a position or to its right, the position
leads to the end of that line. -/
theorem toOffset_isGreatest {text : Text} {p : Position} (hline : p.line ≤ text.count '\n')
    (h : boundariesFrom text p.line p.character = ∅) :
    IsGreatest (boundariesFrom text p.line 0) (p.toOffset text) := by
  constructor
  · have hcount : (p.upTo text).count '\n' = p.line := by
      rw [upTo, count_textBefore, Nat.min_eq_left hline]
    exact ⟨p.upTo text, upTo_isPrefix p text, hcount, Nat.zero_le _, rfl⟩
  · rintro offset ⟨first, hfirst, hcount, -, rfl⟩
    by_contra hlt
    have hshort := Utf8.prefix_of_size_le (upTo_isPrefix p text) hfirst (Nat.le_of_not_le hlt)
    rcases eq_or_column_le hfirst hcount hshort with heq | ⟨hsame, hcolumn⟩
    · rw [toOffset_eq, heq] at hlt
      exact hlt (Nat.le_refl _)
    · have hmem : p.toOffset text ∈ boundariesFrom text p.line p.character :=
        ⟨p.upTo text, upTo_isPrefix p text, hsame, hcolumn, rfl⟩
      rw [h] at hmem
      exact hmem

theorem toOffset_of_count_lt {text : Text} {p : Position} (h : text.count '\n' < p.line) :
    p.toOffset text = Utf8.size text := by
  obtain ⟨rest, hrest⟩ := upTo_isPrefix p text
  cases rest with
  | nil =>
      rw [List.append_nil] at hrest
      rw [toOffset_eq, hrest]
  | cons c rest =>
      have hline := (upTo_stops hrest).1
      have hle := (upTo_isPrefix p text).sublist.count_le '\n'
      rw [line_ofPrefix] at hline
      omega

/-!
# Offsets and back
-/

theorem wholeBefore_size_le (offset : Nat) (text : Text) :
    Utf8.size (wholeBefore offset text) ≤ offset := by
  induction text generalizing offset with
  | nil => exact Nat.zero_le _
  | cons c rest ih =>
      rw [wholeBefore]
      split
      case isTrue hfits =>
        have hrest := ih (offset - c.utf8Size)
        rw [Utf8.size_cons]
        omega
      case isFalse => exact Nat.zero_le _

theorem prefix_wholeBefore {before text : Text} {offset : Nat} (h : before <+: text)
    (hsize : Utf8.size before ≤ offset) : before <+: wholeBefore offset text := by
  induction before generalizing text offset with
  | nil => exact List.nil_prefix
  | cons c before ih =>
      obtain ⟨rest, rfl⟩ := h
      rw [Utf8.size_cons] at hsize
      rw [List.cons_append, wholeBefore, if_pos (by omega), List.prefix_cons_inj]
      exact ih (List.prefix_append before rest) (by omega)

theorem wholeBefore_isGreatest (text : Text) (offset : Nat) :
    IsGreatest {boundary | IsBoundary text boundary ∧ boundary ≤ min offset (Utf8.size text)}
      (Utf8.size (wholeBefore offset text)) := by
  have hprefix := wholeBefore_prefix offset text
  constructor
  · exact ⟨⟨_, hprefix, rfl⟩,
      Nat.le_min.mpr ⟨wholeBefore_size_le offset text, Utf8.size_le_of_prefix hprefix⟩⟩
  · rintro boundary ⟨⟨before, hbefore, rfl⟩, hle⟩
    exact Utf8.size_le_of_prefix (prefix_wholeBefore hbefore (Nat.le_min.mp hle).1)

/-!
# The whole conversion
-/

/-- What it means that positions and offsets of a text are converted faithfully. -/
structure ConvertsFaithfully (text : Text) : Prop where
  /-- Every position leads to a boundary. -/
  boundary : forall p : Position,
    IsBoundary text (p.toOffset text) ∧ p.toOffset text ≤ Utf8.size text
  /-- On its line, that is the first one that is not to its left. -/
  first : forall p : Position, (boundariesFrom text p.line p.character).Nonempty ->
    IsLeast (boundariesFrom text p.line p.character) (p.toOffset text)
  /-- If all of the line is to its left, it is the end of the line. -/
  lineEnd : forall p : Position, p.line ≤ text.count '\n' ->
    boundariesFrom text p.line p.character = ∅ ->
    IsGreatest (boundariesFrom text p.line 0) (p.toOffset text)
  /-- If there is no such line, it is the end of the text. -/
  textEnd : forall p : Position, text.count '\n' < p.line -> p.toOffset text = Utf8.size text
  monotone : forall p q : Position, ¬ q.before p = true -> p.toOffset text ≤ q.toOffset text
  /-- The position of an offset is the line and the column of the last
  boundary not behind it. -/
  place : forall offset, exists before, before <+: text ∧
    ofOffset text offset = ⟨before.count '\n', lastColumn before⟩ ∧
    IsGreatest {boundary | IsBoundary text boundary ∧ boundary ≤ min offset (Utf8.size text)}
      (Utf8.size before)
  /-- It leads back to that boundary. -/
  back : forall offset,
    IsGreatest {boundary | IsBoundary text boundary ∧ boundary ≤ min offset (Utf8.size text)}
      ((ofOffset text offset).toOffset text)
  /-- No line and no column that is counted on the way needs more than 32 bits. -/
  fits : forall before, before <+: text ->
    before.count '\n' < 2 ^ 32 ∧ lastColumn before < 2 ^ 32

theorem convertsFaithfully_of_size_lt {text : Text} (h : Utf8.size text < 2 ^ 32) :
    ConvertsFaithfully text where
  boundary p := ⟨isBoundary_toOffset p text, (isBoundary_toOffset p text).le_size⟩
  first _ := toOffset_isLeast
  lineEnd _ := toOffset_isGreatest
  textEnd _ := toOffset_of_count_lt
  monotone _ _ hle := toOffset_mono hle text
  place offset :=
    ⟨_, wholeBefore_prefix offset text, ofPrefix_eq _, wholeBefore_isGreatest text offset⟩
  back offset := by
    have hprefix := wholeBefore_prefix offset text
    have hback : (ofOffset text offset).toOffset text = Utf8.size (wholeBefore offset text) :=
      toOffset_eq_size hprefix
    rw [hback]
    exact wholeBefore_isGreatest text offset
  fits before hbefore := by
    have hle := Utf8.size_le_of_prefix hbefore
    have hcounts := ofPrefix_le_size before
    rw [ofPrefix_eq] at hcounts
    exact ⟨Nat.lt_of_le_of_lt hcounts.1 (Nat.lt_of_le_of_lt hle h),
      Nat.lt_of_le_of_lt hcounts.2 (Nat.lt_of_le_of_lt hle h)⟩

theorem convertsFaithfully_astral :
    Utf8.size ['a', '𝄞', '\n', '\n', 'b'] < 2 ^ 32 ∧
      ConvertsFaithfully ['a', '𝄞', '\n', '\n', 'b'] ∧
      [toOffset ['a', '𝄞', '\n', '\n', 'b'] ⟨0, 2⟩, toOffset ['a', '𝄞', '\n', '\n', 'b']
        ⟨0, 9⟩, toOffset ['a', '𝄞', '\n', '\n', 'b'] ⟨1, 7⟩,
          toOffset ['a', '𝄞', '\n', '\n', 'b']
        ⟨5, 0⟩] =
        [5, 5, 6, 8] ∧
      ofOffset ['a', '𝄞', '\n', '\n', 'b'] 3 = ⟨0, 1⟩ :=
  ⟨by decide, convertsFaithfully_of_size_lt (by decide), by decide, by decide⟩

end Position
end LanguageClient

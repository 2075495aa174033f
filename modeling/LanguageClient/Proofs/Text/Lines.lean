import LanguageClient.Text.Blank
import LanguageClient.Text.Lines
import Mathlib.Data.List.DropRight

/-!
# Lines and margins

A text and the list of its lines determine each other, as long as no line holds a line feed.
A text is its trimmed text between two margins of blanks.
-/

namespace LanguageClient
namespace Lines

theorem splitAt_ne_nil (sep : Char) (text : Text) : splitAt sep text ≠ [] := by
  cases text with
  | nil => simp [splitAt]
  | cons c rest =>
      rw [splitAt]
      cases splitAt sep rest with
      | nil => simp
      | cons first more => by_cases hc : c = sep <;> simp [hc]

theorem split_cons_break (text : Text) : split ('\n' :: text) = [] :: split text := by
  rw [split, splitAt]
  cases hrest : splitAt '\n' text with
  | nil => exact absurd hrest (splitAt_ne_nil '\n' text)
  | cons first more => simp [split, hrest]

theorem split_cons {c : Char} {text first : Text} {more : List Text} (hc : c ≠ '\n')
    (h : split text = first :: more) : split (c :: text) = (c :: first) :: more := by
  rw [split] at h
  rw [split, splitAt, h]
  simp [hc]

theorem split_line {line : Text} (h : '\n' ∉ line) : split line = [line] := by
  induction line with
  | nil => rfl
  | cons c line ih =>
      rw [List.mem_cons, not_or] at h
      exact split_cons (Ne.symm h.left) (ih h.right)

theorem split_line_append {line : Text} (rest : Text) (h : '\n' ∉ line) :
    split (line ++ '\n' :: rest) = line :: split rest := by
  induction line with
  | nil => exact split_cons_break rest
  | cons c line ih =>
      rw [List.mem_cons, not_or] at h
      exact split_cons (Ne.symm h.left) (ih h.right)

theorem join_cons_cons (line next : Text) (more : List Text) :
    join (line :: next :: more) = line ++ '\n' :: join (next :: more) :=
  rfl

theorem split_join {lines : List Text} (hne : lines ≠ [])
    (h : forall line, line ∈ lines -> '\n' ∉ line) : split (join lines) = lines := by
  induction lines with
  | nil => exact absurd rfl hne
  | cons line lines ih =>
      have hline := h line List.mem_cons_self
      cases lines with
      | nil => exact split_line hline
      | cons next more =>
          rw [join_cons_cons, split_line_append _ hline,
            ih (by simp) fun l hl => h l (List.mem_cons_of_mem line hl)]

theorem join_split (text : Text) : join (split text) = text := by
  induction text with
  | nil => rfl
  | cons c text ih =>
      by_cases hc : c = '\n'
      · subst hc
        rw [split_cons_break]
        cases hsplit : split text with
        | nil => exact absurd hsplit (splitAt_ne_nil '\n' text)
        | cons first more =>
            rw [hsplit] at ih
            rw [join_cons_cons, ih, List.nil_append]
      · cases hsplit : split text with
        | nil => exact absurd hsplit (splitAt_ne_nil '\n' text)
        | cons first more =>
            rw [split_cons hc hsplit]
            rw [hsplit] at ih
            cases more with
            | nil => exact congrArg (List.cons c) ih
            | cons next more => exact congrArg (List.cons c) ih

theorem not_mem_of_mem_split {text line : Text} (h : line ∈ split text) : '\n' ∉ line := by
  induction text generalizing line with
  | nil =>
      cases List.mem_singleton.mp h
      exact List.not_mem_nil
  | cons c text ih =>
      by_cases hc : c = '\n'
      · subst hc
        rw [split_cons_break] at h
        cases h with
        | head => simp
        | tail _ h => exact ih h
      · cases hsplit : split text with
        | nil => exact absurd hsplit (splitAt_ne_nil '\n' text)
        | cons first more =>
            rw [split_cons hc hsplit] at h
            rw [hsplit] at ih
            cases h with
            | head =>
                rw [List.mem_cons, not_or]
                exact ⟨Ne.symm hc, ih List.mem_cons_self⟩
            | tail _ h => exact ih (List.mem_cons_of_mem first h)

end Lines

namespace Blank

def IsMargin (text : Text) : Prop :=
  forall c, c ∈ text -> isBlank c = true

theorem exists_margins (text : Text) :
    exists before after, text = before ++ trim text ++ after ∧ IsMargin before ∧
      IsMargin after := by
  refine ⟨text.takeWhile isBlank, (trimLeft text).rtakeWhile isBlank, ?_, ?_, ?_⟩
  · rw [List.append_assoc]
    have hright : trim text ++ (trimLeft text).rtakeWhile isBlank = trimLeft text :=
      List.rdropWhile_append_rtakeWhile
    rw [hright]
    exact List.takeWhile_append_dropWhile.symm
  · intro c hc
    exact List.mem_takeWhile_imp hc
  · intro c hc
    exact List.mem_rtakeWhile_imp hc

theorem trimLeft_cons {c : Char} (rest : Text) (h : isBlank c = false) :
    trimLeft (c :: rest) = c :: rest := by
  rw [trimLeft, List.dropWhile_cons_of_neg (by rw [h]; exact Bool.false_ne_true)]

theorem trimRight_append {word after : Text} (hword : forall c, c ∈ word -> isBlank c = false)
    (hafter : IsMargin after) : trimRight (word ++ after) = word := by
  have hreversed : forall c, c ∈ after.reverse -> isBlank c = true := fun c hc =>
    hafter c (List.mem_reverse.mp hc)
  have hkept : word.reverse.dropWhile isBlank = word.reverse := by
    cases hlast : word.reverse with
    | nil => rfl
    | cons c rest =>
        have hc : c ∈ word := List.mem_reverse.mp (hlast ▸ List.mem_cons_self)
        exact trimLeft_cons rest (hword c hc)
  rw [trimRight, List.reverse_append, List.dropWhile_append_of_pos hreversed, hkept,
    List.reverse_reverse]

theorem trim_margins {before word after : Text} (hbefore : IsMargin before)
    (hword : forall c, c ∈ word -> isBlank c = false) (hne : word ≠ [])
    (hafter : IsMargin after) :
    trim (before ++ word ++ after) = word := by
  have hleft : trimLeft (before ++ word ++ after) = word ++ after := by
    cases word with
    | nil => exact absurd rfl hne
    | cons c word =>
        rw [trimLeft, List.append_assoc, List.dropWhile_append_of_pos hbefore,
          List.cons_append]
        exact trimLeft_cons _ (hword c List.mem_cons_self)
  rw [trim, hleft, trimRight_append hword hafter]

end Blank
end LanguageClient

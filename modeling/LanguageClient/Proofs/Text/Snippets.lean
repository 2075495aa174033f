import LanguageClient.Proofs.Text.Words
import LanguageClient.Text.Snippet
import Mathlib.Data.List.Forall2
import Mathlib.Order.Bounds.Basic

/-!
# The first match of a snippet

A snippet that occurs in a text is replaced where it occurs first, and nothing else of the
text changes. One that does not occur is looked for line by line, with blanks trimmed and
collapsed, and the first window of lines that agrees with it gives way to the lines of the
replacement, moved onto the indentation of the window. The lines above the window and
below it stay as they are. Without a match of either kind, and for a snippet of blanks
only, there is no answer.
-/

namespace LanguageClient

/-!
# Occurrences
-/

namespace Lines

theorem dropWord?_eq_some_iff {word text rest : Text} :
    dropWord? word text = some rest ↔ text = word ++ rest := by
  fun_induction dropWord? word text with
  | case1 text => simp [eq_comm]
  | case2 word text c ih => simp [ih]
  | case3 c word d text hne => simp [Ne.symm hne]
  | case4 c word => simp

structure FirstOccurrence (word text before after : Text) : Prop where
  splits : text = before ++ (word ++ after)
  first : forall front back, text = front ++ (word ++ back) -> before.length ≤ front.length

theorem FirstOccurrence.isInfix {word text before after : Text}
    (h : FirstOccurrence word text before after) : word <:+: text :=
  ⟨before, after, by rw [h.splits, List.append_assoc]⟩

theorem find?_append (word after : Text) : find? word (word ++ after) = some ([], after) := by
  have hword : dropWord? word (word ++ after) = some after := dropWord?_eq_some_iff.mpr rfl
  cases htext : word ++ after with
  | nil =>
      rw [htext] at hword
      rw [find?, hword]
      rfl
  | cons c rest =>
      rw [htext] at hword
      rw [find?, hword]

theorem dropWord?_eq_none {word text : Text} (h : ¬ word <+: text) :
    dropWord? word text = none := by
  cases hword : dropWord? word text with
  | none => rfl
  | some rest => exact absurd ⟨rest, (dropWord?_eq_some_iff.mp hword).symm⟩ h

theorem find?_cons {word text : Text} {c : Char} (h : ¬ word <+: c :: text) :
    find? word (c :: text) =
      (find? word text).map fun (before, after) => (c :: before, after) := by
  rw [find?, dropWord?_eq_none h]

theorem find?_cases (word text : Text) :
    (find? word text = none ∧ ¬ word <:+: text) ∨
      exists before after, find? word text = some (before, after) ∧
        FirstOccurrence word text before after := by
  induction text with
  | nil =>
      by_cases hword : word = []
      · subst hword
        exact Or.inr ⟨[], [], find?_append [] [], rfl, fun _ _ _ => Nat.zero_le _⟩
      · left
        constructor
        · rw [find?, dropWord?_eq_none fun h => hword (List.prefix_nil.mp h)]
          rfl
        · intro hinfix
          exact hword (List.infix_nil.mp hinfix)
  | cons c text ih =>
      by_cases hfront : word <+: c :: text
      · right
        obtain ⟨after, hafter⟩ := hfront
        rw [← hafter]
        exact ⟨[], after, find?_append word after, rfl, fun _ _ _ => Nat.zero_le _⟩
      · rw [find?_cons hfront]
        rcases ih with ⟨hnone, habsent⟩ | ⟨before, after, hfound, hsplits, hfirst⟩
        · left
          constructor
          · rw [hnone]
            rfl
          · rw [List.infix_cons_iff]
            exact not_or.mpr ⟨hfront, habsent⟩
        · right
          refine ⟨c :: before, after, by rw [hfound]; rfl, by rw [hsplits]; rfl, ?_⟩
          intro front back heq
          cases front with
          | nil => exact absurd ⟨back, heq.symm⟩ hfront
          | cons d front => exact Nat.succ_le_succ (hfirst front back (List.cons.inj heq).2)

end Lines

namespace Snippet

/-!
# Windows
-/

def snippetLines (text : Text) : List Text :=
  Lines.split (Lines.dropFinalBreak text)

/-- Whether the lines of a text from line `i` on, as many as a snippet has, are the lines of
the snippet once blanks are trimmed and collapsed. -/
def AgreesAt (content search : Text) (i : Nat) : Prop :=
  (((Lines.split content).drop i).take (snippetLines search).length).map Blank.spaced =
    (snippetLines search).map Blank.spaced

theorem windowMatches_iff {wanted lines : List Text} :
    windowMatches (wanted.map Blank.collapse) lines = true ↔
      (lines.take wanted.length).map Blank.spaced = wanted.map Blank.spaced := by
  induction wanted generalizing lines with
  | nil => simp [windowMatches]
  | cons w wanted ih =>
      cases lines with
      | nil => simp [windowMatches]
      | cons line lines => simp [windowMatches, ih, Blank.collapse_eq_spaced]

theorem findWindow_cases (wanted lines : List Text) (index : Nat) :
    (findWindow wanted index lines = none ∧
        forall i, ¬ windowMatches wanted (lines.drop i) = true) ∨
      exists i, findWindow wanted index lines = some (index + i) ∧
        windowMatches wanted (lines.drop i) = true ∧
        forall j, j < i -> ¬ windowMatches wanted (lines.drop j) = true := by
  induction lines generalizing index with
  | nil =>
      cases wanted with
      | nil => exact Or.inr ⟨0, rfl, rfl, fun j hj => absurd hj (Nat.not_lt_zero j)⟩
      | cons w wanted =>
          left
          constructor
          · rfl
          · intro i
            rw [List.drop_nil]
            exact Bool.false_ne_true
  | cons line lines ih =>
      rw [findWindow]
      by_cases hmatches : windowMatches wanted (line :: lines) = true
      · right
        rw [if_pos hmatches]
        exact ⟨0, rfl, hmatches, fun j hj => absurd hj (Nat.not_lt_zero j)⟩
      · rw [if_neg hmatches]
        rcases ih (index + 1) with ⟨hnone, hnever⟩ | ⟨i, hfound, hwindow, hfirst⟩
        · left
          constructor
          · exact hnone
          · intro i
            cases i with
            | zero => exact hmatches
            | succ i => exact hnever i
        · right
          refine ⟨i + 1, by rw [hfound, Nat.add_right_comm, Nat.add_assoc], hwindow, ?_⟩
          intro j hj
          cases j with
          | zero => exact hmatches
          | succ j => exact hfirst j (Nat.lt_of_succ_lt_succ hj)

theorem AgreesAt.exists_line {content search : Text} {i : Nat}
    (h : AgreesAt content search i) :
    exists line, (Lines.split content)[i]? = some line := by
  cases hline : (Lines.split content)[i]? with
  | some line => exact ⟨line, rfl⟩
  | none =>
      have hdrop := List.drop_eq_nil_of_le (List.getElem?_eq_none_iff.mp hline)
      rw [AgreesAt, hdrop, List.take_nil, List.map_nil] at h
      have hlines := List.map_eq_nil_iff.mp h.symm
      exact absurd hlines (Lines.splitAt_ne_nil '\n' _)

/-!
# Indentation
-/

/-- What becomes of a line of the replacement that is moved from the indentation
`source` onto `target`. -/
structure IsMoved (source target line moved : Text) : Prop where
  blank : Blank.IsMargin line -> moved = []
  indented : forall rest, ¬ Blank.IsMargin line -> line = source ++ rest ->
    moved = target ++ rest
  other : ¬ Blank.IsMargin line -> ¬ source <+: line ->
    moved = target ++ line.dropWhile Blank.isBlank

theorem isMoved_reindent (source target line : Text) :
    IsMoved source target line (reindent line source target) where
  blank hblank := by
    rw [reindent, if_pos (Blank.isEmpty_iff.mpr hblank)]
  indented rest hblank hline := by
    rw [reindent, if_neg (mt Blank.isEmpty_iff.mp hblank),
      Lines.dropWord?_eq_some_iff.mpr hline]
  other hblank hsource := by
    rw [reindent, if_neg (mt Blank.isEmpty_iff.mp hblank), Lines.dropWord?_eq_none hsource]
    rfl

theorem not_mem_reindent {source target line : Text} (hline : '\n' ∉ line)
    (htarget : '\n' ∉ target) : '\n' ∉ reindent line source target := by
  rw [reindent]
  split
  case isTrue => exact List.not_mem_nil
  case isFalse =>
    split
    case h_1 rest hrest =>
      rw [Lines.dropWord?_eq_some_iff.mp hrest] at hline
      intro hmem
      rcases List.mem_append.mp hmem with hfront | hback
      · exact htarget hfront
      · exact hline (List.mem_append_right source hback)
    case h_2 =>
      intro hmem
      rcases List.mem_append.mp hmem with hfront | hback
      · exact htarget hfront
      · exact hline ((List.dropWhile_sublist _).mem hback)

def block (source target replacement : Text) : List Text :=
  (snippetLines replacement).map fun line => reindent line source target

theorem forall₂_block (source target replacement : Text) :
    List.Forall₂ (IsMoved source target) (snippetLines replacement)
      (block source target replacement) := by
  rw [block, List.forall₂_map_right_iff, List.forall₂_same]
  intro line _
  exact isMoved_reindent source target line

theorem split_replaceWindow {content line : Text} {start : Nat}
    (hline : (Lines.split content)[start]? = some line) (count : Nat)
    (source replacement : Text) :
    Lines.split (replaceWindow (Lines.split content) start count source replacement) =
      (Lines.split content).take start ++
        (block source (Blank.indentation line) replacement ++
          (Lines.split content).drop (start + count)) := by
  have htarget : '\n' ∉ Blank.indentation line := by
    intro hmem
    have hin : '\n' ∈ line := (List.takeWhile_sublist _).mem hmem
    exact Lines.not_mem_of_mem_split (List.mem_of_getElem? hline) hin
  have hfirst : (Lines.split content).getD start [] = line := by
    rw [List.getD_eq_getElem?_getD, hline]
    rfl
  rw [replaceWindow, hfirst]
  apply Lines.split_join
  · intro hnil
    obtain ⟨-, hrest⟩ := List.append_eq_nil_iff.mp hnil
    obtain ⟨hblock, -⟩ := List.append_eq_nil_iff.mp hrest
    exact Lines.splitAt_ne_nil '\n' _ (List.map_eq_nil_iff.mp hblock)
  · intro out hout
    rcases List.mem_append.mp hout with habove | hrest
    · exact Lines.not_mem_of_mem_split (List.mem_of_mem_take habove)
    · rcases List.mem_append.mp hrest with hblock | hbelow
      · obtain ⟨old, hold, rfl⟩ := List.mem_map.mp hblock
        exact not_mem_reindent (Lines.not_mem_of_mem_split hold) htarget
      · exact Lines.not_mem_of_mem_split (List.mem_of_mem_drop hbelow)

/-!
# Outcomes
-/

inductive Outcome (content search replacement : Text) : Option Replaced -> Prop
  | blank : Blank.IsMargin search -> Outcome content search replacement none
  | absent : ¬ Blank.IsMargin search -> ¬ search <:+: content ->
      (forall i, ¬ AgreesAt content search i) -> Outcome content search replacement none
  | verbatim {before after : Text} : ¬ Blank.IsMargin search ->
      Lines.FirstOccurrence search content before after ->
      Outcome content search replacement
        (some ⟨.exact, before.count '\n', before ++ (replacement ++ after)⟩)
  | byLines {start : Nat} : ¬ Blank.IsMargin search -> ¬ search <:+: content ->
      IsLeast {i | AgreesAt content search i} start ->
      Outcome content search replacement
        (some ⟨.whitespace, start,
          replaceWindow (Lines.split content) start (snippetLines search).length
            (Blank.indentation ((snippetLines search).headD [])) replacement⟩)

theorem replace_of_absent {content search : Text} (hblank : ¬ Blank.IsMargin search)
    (hnone : Lines.find? search content = none) (replacement : Text) :
    replace content search replacement =
      (findWindow ((snippetLines search).map Blank.collapse) 0 (Lines.split content)).map
        fun start => ⟨.whitespace, start,
          replaceWindow (Lines.split content) start (snippetLines search).length
            (Blank.indentation ((snippetLines search).headD [])) replacement⟩ := by
  rw [replace, if_neg (mt Blank.isEmpty_iff.mp hblank), hnone]
  unfold snippetLines
  dsimp only
  cases findWindow ((Lines.split (Lines.dropFinalBreak search)).map Blank.collapse) 0
      (Lines.split content) with
  | none => rfl
  | some start => rfl

theorem outcome_replace (content search replacement : Text) :
    Outcome content search replacement (replace content search replacement) := by
  by_cases hblank : Blank.IsMargin search
  · rw [replace, if_pos (Blank.isEmpty_iff.mpr hblank)]
    exact .blank hblank
  · rcases Lines.find?_cases search content with ⟨hnone, habsent⟩
      | ⟨before, after, hfound, hfirst⟩
    · rw [replace_of_absent hblank hnone]
      rcases findWindow_cases ((snippetLines search).map Blank.collapse)
        (Lines.split content) 0 with
        ⟨hnowhere, hnever⟩ | ⟨start, hstart, hwindow, hearlier⟩
      · rw [hnowhere]
        apply Outcome.absent hblank habsent
        intro i hi
        exact hnever i (windowMatches_iff.mpr hi)
      · rw [hstart, Nat.zero_add]
        apply Outcome.byLines hblank habsent
        constructor
        · exact windowMatches_iff.mp hwindow
        · intro i hi
          by_contra hlt
          exact hearlier i (Nat.lt_of_not_le hlt) (windowMatches_iff.mpr hi)
    · rw [replace, if_neg (mt Blank.isEmpty_iff.mp hblank), hfound]
      exact .verbatim hblank hfirst

/-!
# The first match
-/

/-- What it means that the first occurrence of `search` was replaced, and nothing else. -/
structure ReplacedVerbatim (content search replacement : Text) (r : Replaced) : Prop where
  strategy : r.strategy = .exact
  first : exists before after, Lines.FirstOccurrence search content before after ∧
    r.content = before ++ (replacement ++ after) ∧ r.startLine = before.count '\n'

/-- What it means that the first window that agrees with `search` was
replaced, and no other line. -/
structure ReplacedByLines (content search replacement : Text) (r : Replaced) : Prop where
  strategy : r.strategy = .whitespace
  first : IsLeast {i | AgreesAt content search i} r.startLine
  lines : exists head line block, (snippetLines search).head? = some head ∧
    (Lines.split content)[r.startLine]? = some line ∧
    List.Forall₂ (IsMoved (Blank.indentation head) (Blank.indentation line))
      (snippetLines replacement) block ∧
    Lines.split r.content = (Lines.split content).take r.startLine ++
      (block ++ (Lines.split content).drop (r.startLine + (snippetLines search).length))

theorem replacedByLines_window {content search : Text} {start : Nat}
    (h : IsLeast {i | AgreesAt content search i} start) (replacement : Text) :
    ReplacedByLines content search replacement
      ⟨.whitespace, start, replaceWindow (Lines.split content) start
        (snippetLines search).length
        (Blank.indentation ((snippetLines search).headD [])) replacement⟩ where
  strategy := rfl
  first := h
  lines := by
    obtain ⟨line, hline⟩ := AgreesAt.exists_line h.1
    obtain ⟨head, more, hlines⟩ := List.exists_cons_of_ne_nil
      (Lines.splitAt_ne_nil '\n' (Lines.dropFinalBreak search))
    have hhead : (snippetLines search).head? = some head ∧ (snippetLines search).headD [] =
        head := by
      rw [snippetLines, Lines.split, hlines]
      exact ⟨rfl, rfl⟩
    rw [hhead.2]
    exact ⟨head, line, _, hhead.1, hline, forall₂_block _ _ _, split_replaceWindow hline _ _ _⟩

theorem replace_eq_none_iff {content search replacement : Text} :
    replace content search replacement = none ↔
      Blank.IsMargin search ∨
        ¬ search <:+: content ∧ forall i, ¬ AgreesAt content search i := by
  have houtcome := outcome_replace content search replacement
  constructor
  · intro hnone
    rw [hnone] at houtcome
    cases houtcome with
    | blank hblank => exact Or.inl hblank
    | absent _ habsent hnever => exact Or.inr ⟨habsent, hnever⟩
  · intro h
    cases hanswer : replace content search replacement with
    | none => rfl
    | some r =>
        rw [hanswer] at houtcome
        cases houtcome with
        | verbatim hblank hfirst =>
            rcases h with hmargin | ⟨habsent, -⟩
            · exact absurd hmargin hblank
            · exact absurd hfirst.isInfix habsent
        | byLines hblank _ hleast =>
            rcases h with hmargin | ⟨-, hnever⟩
            · exact absurd hmargin hblank
            · exact absurd hleast.1 (hnever _)

/-- A snippet that is not blank is replaced at its first occurrence, or without
one at the first window that agrees with it. If there is neither, or if it is
blank, there is no answer. -/
theorem replace_firstMatch (content search replacement : Text) :
    (replace content search replacement = none ↔
      Blank.IsMargin search ∨
        ¬ search <:+: content ∧ forall i, ¬ AgreesAt content search i) ∧
    forall r, replace content search replacement = some r ->
      (search <:+: content -> ReplacedVerbatim content search replacement r) ∧
        (¬ search <:+: content -> ReplacedByLines content search replacement r) := by
  constructor
  · exact replace_eq_none_iff
  · intro r hr
    have houtcome := outcome_replace content search replacement
    rw [hr] at houtcome
    cases houtcome with
    | verbatim _ hfirst =>
        constructor
        · intro _
          exact ⟨rfl, _, _, hfirst, rfl, rfl⟩
        · intro habsent
          exact absurd hfirst.isInfix habsent
    | byLines _ habsent hleast =>
        constructor
        · intro hoccurs
          exact absurd hoccurs habsent
        · intro _
          exact replacedByLines_window hleast replacement

theorem replace_firstMatch_twice :
    ReplacedVerbatim ['x', '\n', 'a', 'b', 'a', 'b'] ['a', 'b'] ['c']
      ⟨.exact, 1, ['x', '\n', 'c', 'a', 'b']⟩ ∧
    ReplacedByLines ['x', '\n', '\u3000', 'a', ' ', ' ', 'b', '\n', 'a', '\t', 'b']
    ['a', ' ', 'b', '\n'] ['c', '\n', '\n', ' ', 'd', '\n']
      ⟨.whitespace, 1,
        ['x', '\n', '\u3000', 'c', '\n', '\n', '\u3000', ' ', 'd', '\n', 'a', '\t', 'b']⟩ := by
  constructor
  · exact ((replace_firstMatch _ _ _).2 _ (by decide)).1 (by decide)
  · exact ((replace_firstMatch _ _ _).2 _ (by decide)).2 (by decide)

end Snippet
end LanguageClient

import LanguageClient.Proofs.Text.Lines

/-!
# Words

The words of a text are what stands between its blanks. Trimming a text and squeezing its
runs of blanks keeps the words and puts one space between them.
-/

namespace LanguageClient
namespace Blank

def words (text : Text) : List Text :=
  (text.splitOnP isBlank).filter (· ≠ [])

/-- The words of a text with one space between them. -/
def spaced (text : Text) : Text :=
  [' '].intercalate (words text)

theorem isEmpty_iff {text : Text} : isEmpty text = true ↔ IsMargin text :=
  List.all_eq_true

/-!
# Words and blanks
-/

@[simp] theorem words_nil : words [] = [] := by
  simp [words]

/-- A blank belongs to no word and ends the one in front of it. -/
theorem words_append_blank {c : Char} (hc : isBlank c = true) (before after : Text) :
    words (before ++ c :: after) = words before ++ words after := by
  rw [words, List.splitOnP_append_cons before after hc, List.filter_append, words, words]

theorem words_cons_blank {c : Char} (hc : isBlank c = true) (rest : Text) :
    words (c :: rest) = words rest := by
  have happend := words_append_blank hc [] rest
  rw [List.nil_append, words_nil, List.nil_append] at happend
  exact happend

theorem words_of_isMargin {text : Text} (h : IsMargin text) : words text = [] := by
  induction text with
  | nil => exact words_nil
  | cons c rest ih =>
      rw [words_cons_blank (h c List.mem_cons_self)]
      exact ih fun d hd => h d (List.mem_cons_of_mem c hd)

theorem words_margins {before after : Text} (hbefore : IsMargin before)
    (hafter : IsMargin after)
    (text : Text) : words (before ++ text ++ after) = words text := by
  induction before with
  | nil =>
      cases after with
      | nil => simp
      | cons c after =>
          have hrest : IsMargin after := fun d hd => hafter d (List.mem_cons_of_mem c hd)
          rw [List.nil_append, words_append_blank (hafter c List.mem_cons_self),
            words_of_isMargin hrest, List.append_nil]
  | cons c before ih =>
      rw [List.cons_append, List.cons_append, words_cons_blank (hbefore c List.mem_cons_self)]
      exact ih fun d hd => hbefore d (List.mem_cons_of_mem c hd)

theorem words_trim (text : Text) : words (trim text) = words text := by
  obtain ⟨before, after, htext, hbefore, hafter⟩ := exists_margins text
  have hwords := words_margins hbefore hafter (trim text)
  rw [← htext] at hwords
  exact hwords.symm

/-!
# Words and other characters
-/

theorem words_cons {c : Char} (hc : isBlank c = false) (rest : Text) :
    exists word more, rest.splitOnP isBlank = word :: more ∧
      words (c :: rest) = (c :: word) :: more.filter (· ≠ []) := by
  obtain ⟨word, more, hsplit⟩ := List.exists_cons_of_ne_nil (List.splitOnP_ne_nil isBlank rest)
  refine ⟨word, more, hsplit, ?_⟩
  rw [words, List.splitOnP_cons_eq_if_modifyHead, hc, hsplit]
  rfl

theorem words_single {c : Char} (hc : isBlank c = false) : words [c] = [[c]] := by
  obtain ⟨word, more, hsplit, hwords⟩ := words_cons hc []
  rw [List.splitOnP_nil] at hsplit
  cases hsplit
  exact hwords

theorem words_cons_cons {c d : Char} (hc : isBlank c = false) (hd : isBlank d = false)
    (rest : Text) :
    exists word more, words (d :: rest) = word :: more ∧
      words (c :: d :: rest) = (c :: word) :: more := by
  obtain ⟨word, more, hsplit, hrest⟩ := words_cons hd rest
  obtain ⟨word', more', hsplit', hall⟩ := words_cons hc (d :: rest)
  rw [List.splitOnP_cons_eq_if_modifyHead, hd, hsplit] at hsplit'
  cases hsplit'
  exact ⟨_, _, hrest, hall⟩

theorem isMargin_of_words {text : Text} (h : words text = []) : IsMargin text := by
  induction text with
  | nil => exact fun c hc => absurd hc List.not_mem_nil
  | cons c rest ih =>
      cases hc : isBlank c with
      | true =>
          rw [words_cons_blank hc] at h
          intro d hd
          rcases List.mem_cons.mp hd with rfl | hd
          · exact hc
          · exact ih h d hd
      | false =>
          obtain ⟨word, more, -, hwords⟩ := words_cons hc rest
          rw [hwords] at h
          cases h

/-!
# Words with one space between them
-/

theorem spaced_cons_blank {c : Char} (hc : isBlank c = true) (rest : Text) :
    spaced (c :: rest) = spaced rest := by
  rw [spaced, spaced, words_cons_blank hc]

theorem spaced_cons_cons_blank {c d : Char} {rest : Text} (hc : isBlank c = false)
    (hd : isBlank d = true) (hrest : words rest ≠ []) :
    spaced (c :: d :: rest) = c :: ' ' :: spaced rest := by
  have hwords := words_append_blank hd [c] rest
  rw [words_single hc, List.singleton_append, List.singleton_append] at hwords
  rw [spaced, spaced, hwords, List.intercalate_cons_of_ne_nil hrest]
  rfl

theorem spaced_cons_cons {c d : Char} (hc : isBlank c = false) (hd : isBlank d = false)
    (rest : Text) : spaced (c :: d :: rest) = c :: spaced (d :: rest) := by
  obtain ⟨word, more, hword, hall⟩ := words_cons_cons hc hd rest
  rw [spaced, spaced, hword, hall]
  cases more with
  | nil => rw [List.intercalate_singleton, List.intercalate_singleton]
  | cons next more => simp [List.intercalate_cons_cons]

/-!
# Collapsing
-/

def EndsInWord (text : Text) : Prop :=
  forall c, text.getLast? = some c -> isBlank c = false

theorem EndsInWord.of_cons {c : Char} {rest : Text} (h : EndsInWord (c :: rest)) :
    EndsInWord rest := by
  intro d hd
  cases rest with
  | nil => cases hd
  | cons e rest => exact h d (by rw [List.getLast?_cons_cons, hd])

theorem EndsInWord.words_ne_nil {text : Text} (h : EndsInWord text) (hne : text ≠ []) :
    words text ≠ [] := by
  intro hnone
  have hblank := isMargin_of_words hnone (text.getLast hne) (List.getLast_mem hne)
  rw [h _ (List.getLast?_eq_some_getLast hne)] at hblank
  cases hblank

theorem endsInWord_trim (text : Text) : EndsInWord (trim text) := by
  intro c hc
  have hne : trim text ≠ [] := by
    intro hnil
    rw [hnil] at hc
    cases hc
  have hlast := List.rdropWhile_last_not isBlank (trimLeft text) hne
  rw [List.getLast?_eq_some_getLast hne] at hc
  rw [← Option.some.inj hc, ← Bool.not_eq_true]
  exact hlast

theorem not_isBlank_of_trim {text rest : Text} {c : Char} (h : trim text = c :: rest) :
    isBlank c = false := by
  have hfront : c :: rest <+: trimLeft text := by
    rw [← h]
    exact List.rdropWhile_prefix isBlank (trimLeft text)
  obtain ⟨behind, hbehind⟩ := hfront
  have hhead := List.head?_dropWhile_not isBlank text
  rw [← trimLeft, ← hbehind] at hhead
  exact hhead

theorem squeeze_blank {c : Char} (hc : isBlank c = true) (rest : Text) :
    squeeze true (c :: rest) = squeeze true rest ∧
      squeeze false (c :: rest) = ' ' :: squeeze true rest := by
  simp [squeeze, hc]

theorem squeeze_cons {c : Char} (hc : isBlank c = false) (inRun : Bool) (rest : Text) :
    squeeze inRun (c :: rest) = c :: squeeze false rest := by
  simp [squeeze, hc]

theorem squeeze_eq_spaced {text : Text} (h : EndsInWord text) :
    squeeze true text = spaced text := by
  induction text with
  | nil => simp [squeeze, spaced]
  | cons c rest ih =>
      have hrest := ih h.of_cons
      cases hc : isBlank c with
      | true => rw [(squeeze_blank hc rest).1, hrest, spaced_cons_blank hc]
      | false =>
          rw [squeeze_cons hc]
          cases rest with
          | nil => simp [squeeze, spaced, words_single hc]
          | cons d rest =>
              cases hd : isBlank d with
              | true =>
                  have hne : rest ≠ [] := by
                    rintro rfl
                    rw [h.of_cons d rfl] at hd
                    cases hd
                  rw [(squeeze_blank hd rest).1, spaced_cons_blank hd] at hrest
                  rw [(squeeze_blank hd rest).2, hrest,
                    spaced_cons_cons_blank hc hd (h.of_cons.of_cons.words_ne_nil hne)]
              | false =>
                  rw [squeeze_cons hd] at hrest
                  rw [squeeze_cons hd, hrest, spaced_cons_cons hc hd]

theorem collapse_eq_spaced (text : Text) : collapse text = spaced text := by
  have hspaced : spaced (trim text) = spaced text := by
    rw [spaced, spaced, words_trim]
  rw [collapse, ← hspaced]
  cases htrim : trim text with
  | nil => simp [squeeze, spaced]
  | cons c rest =>
      have hend := endsInWord_trim text
      have hc := not_isBlank_of_trim htrim
      rw [htrim] at hend
      rw [← squeeze_eq_spaced hend, squeeze_cons hc, squeeze_cons hc]

end Blank
end LanguageClient

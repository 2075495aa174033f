import LanguageClient.Proofs.Text.LineEndings
import Mathlib.Data.List.Basic

/-!
# Line endings there and back

A text that is kept with line feeds alone and put back in its own convention is the text
again if it holds no CRLF, or nothing but CRLF for its breaks. A text that is put in a
convention and then kept with line feeds alone is the text again in the CRLF convention, and
in the other one if it holds no CRLF. Carriage returns that belong to no break, also one in
front of a CRLF, do no harm in either direction.
-/

namespace LanguageClient
namespace LineEnding

theorem hasCrlf_eq_false_iff {text : Text} :
    hasCrlf text = false ↔ ¬ ['\r', '\n'] <:+: text := by
  have hinfix : hasCrlf text = true ↔ ['\r', '\n'] <:+: text := by
    rw [hasCrlf_iff]
    constructor
    · rintro ⟨before, rest, rfl⟩
      exact ⟨before, rest, by simp⟩
    · rintro ⟨before, rest, rfl⟩
      exact ⟨before, rest, by simp⟩
  rw [← hinfix, Bool.not_eq_true]

/-!
# Joining and splitting
-/

theorem joinBreaks_eq_self_iff {text : Text} :
    joinBreaks text = text ↔ hasCrlf text = false := by
  fun_induction joinBreaks text with
  | case1 rest ih => simp [hasCrlf]
  | case2 c rest hother ih =>
      have hbreak : ¬ (c = '\r' ∧ rest.head? = some '\n') := by
        rintro ⟨rfl, hhead⟩
        obtain ⟨tail, rfl⟩ := List.head?_eq_some_iff.mp hhead
        exact hother tail rfl rfl
      rw [List.cons_inj_right, ih, ← Bool.not_eq_true, ← Bool.not_eq_true, hasCrlf_cons]
      simp [hbreak]
  | case3 => simp [hasCrlf]

theorem normalize_fst (text : Text) : (normalize text).1 = joinBreaks text := by
  cases hcrlf : hasCrlf text with
  | false => simp [normalize, detect, hcrlf, joinBreaks_eq_self_iff.mpr hcrlf]
  | true => simp [normalize, detect, hcrlf]

theorem head?_splitBreaks_ne (text : Text) : (splitBreaks text).head? ≠ some '\n' := by
  cases text with
  | nil => exact fun h => nomatch h
  | cons c rest =>
      rw [splitBreaks_cons]
      by_cases hc : c = '\n'
      · simp [hc]
      · simp [hc]

theorem joinBreaks_splitBreaks (text : Text) : joinBreaks (splitBreaks text) = text := by
  induction text with
  | nil => rfl
  | cons c rest ih =>
      rw [splitBreaks_cons]
      by_cases hc : c = '\n'
      · rw [if_pos hc, List.cons_append, List.singleton_append, joinBreaks_crlf, ih, hc]
      · have hbreak : ¬ (c = '\r' ∧ (splitBreaks rest).head? = some '\n') := fun h =>
          head?_splitBreaks_ne rest h.2
        rw [if_neg hc, List.singleton_append, joinBreaks_cons hbreak, ih]

/-!
# Breaks of one kind
-/

theorem EndsLinesInCrlf.of_append {front rest : Text} (h : EndsLinesInCrlf (front ++ rest))
    (hcut : ¬ (front.getLast? = some '\r' ∧ rest.head? = some '\n')) :
    EndsLinesInCrlf rest := by
  intro before after heq
  have hlast := h (front ++ before) after (by rw [heq, List.append_assoc])
  cases before with
  | nil =>
      rw [List.append_nil] at hlast
      exact absurd ⟨hlast, by rw [heq]; rfl⟩ hcut
  | cons c before =>
      rw [List.getLast?_append_of_ne_nil _ (List.cons_ne_nil c before)] at hlast
      exact hlast

/-- Joining breaks is undone by splitting them exactly if all of them were CRLF. -/
theorem splitBreaks_joinBreaks_iff {text : Text} :
    splitBreaks (joinBreaks text) = text ↔ EndsLinesInCrlf text := by
  constructor
  · intro h
    rw [← h]
    exact endsLinesInCrlf_splitBreaks _
  · intro h
    fun_induction joinBreaks text with
    | case1 rest ih =>
        have hcut : EndsLinesInCrlf (['\r', '\n'] ++ rest) := h
        have hrest : EndsLinesInCrlf rest := by
          apply hcut.of_append
          rintro ⟨hlast, -⟩
          cases hlast
        rw [splitBreaks_cons, if_pos rfl, ih hrest]
        rfl
    | case2 c rest hother ih =>
        have hc : c ≠ '\n' := by
          rintro rfl
          cases h [] rest rfl
        have hcut : EndsLinesInCrlf ([c] ++ rest) := h
        have hrest : EndsLinesInCrlf rest := by
          apply hcut.of_append
          rintro ⟨hlast, hhead⟩
          obtain ⟨tail, rfl⟩ := List.head?_eq_some_iff.mp hhead
          exact hother tail (Option.some.inj hlast) rfl
        rw [splitBreaks_cons, if_neg hc, ih hrest]
        rfl
    | case3 => rfl

/-!
# There and back
-/

/-- Which texts come back from a change of convention, in either direction. -/
theorem roundTrips_iff :
    (forall text, (normalize text).2.apply (normalize text).1 = text ↔
      ¬ ['\r', '\n'] <:+: text ∨ EndsLinesInCrlf text) ∧
    forall text ending, (normalize (apply ending text)).1 = text ↔
      ending = .crlf ∨ ¬ ['\r', '\n'] <:+: text := by
  constructor
  · intro text
    rw [← hasCrlf_eq_false_iff, normalize_fst]
    cases hcrlf : hasCrlf text with
    | false => simp [normalize, detect, hcrlf, apply, joinBreaks_eq_self_iff.mpr hcrlf]
    | true => simp [normalize, detect, hcrlf, apply, splitBreaks_joinBreaks_iff]
  · intro text ending
    rw [← hasCrlf_eq_false_iff, normalize_fst]
    cases ending with
    | lf => simp [apply, joinBreaks_eq_self_iff]
    | crlf => simp [apply, joinBreaks_splitBreaks]

end LineEnding
end LanguageClient

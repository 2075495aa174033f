import LanguageClient.Text.LineEnding

/-!
# Line endings

Joining breaks and splitting them again acts on every line by itself. It gives back a
line that ends in CRLF, or in no break at all, and turns a bare line feed into CRLF.
Splitting breaks follows the CRLF convention as long as no carriage return stands before
a line feed beforehand.
-/

namespace LanguageClient
namespace LineEnding

/-!
## Carriage returns before line feeds
-/

theorem hasCrlf_cons (c : Char) (rest : Text) :
    hasCrlf (c :: rest) = true <-> (c = '\r' ∧ rest.head? = some '\n') ∨
      hasCrlf rest = true := by
  rw [hasCrlf.eq_def]
  split
  case h_1 c' rest' heq =>
    rcases List.cons.inj heq with ⟨rfl, rfl⟩
    simp
  case h_2 c' rest' hother heq =>
    rcases List.cons.inj heq with ⟨rfl, rfl⟩
    refine ⟨Or.inr, fun h => h.resolve_left ?_⟩
    rintro ⟨rfl, hhead⟩
    cases rest with
    | nil => contradiction
    | cons d rest =>
        cases Option.some.inj hhead
        exact hother rest rfl rfl
  case h_3 heq => contradiction

theorem hasCrlf_iff {text : Text} : hasCrlf text = true <->
    exists before rest, text = before ++ '\r' :: '\n' :: rest := by
  induction text with
  | nil => simp [hasCrlf]
  | cons c text ih =>
      rw [hasCrlf_cons, ih]
      constructor
      · rintro (⟨rfl, hhead⟩ | ⟨before, rest, rfl⟩)
        · cases text with
          | nil => contradiction
          | cons d text =>
              cases Option.some.inj hhead
              exact ⟨[], text, rfl⟩
        · exact ⟨c :: before, rest, rfl⟩
      · rintro ⟨before, rest, heq⟩
        cases before with
        | nil =>
            rcases List.cons.inj heq with ⟨rfl, rfl⟩
            exact Or.inl ⟨rfl, rfl⟩
        | cons d before =>
            rcases List.cons.inj heq with ⟨rfl, rfl⟩
            exact Or.inr ⟨before, rest, rfl⟩

theorem hasCrlf_of_isInfix {part text : Text} (h : part <:+: text)
    (hpart : hasCrlf part = true) :
    hasCrlf text = true := by
  rcases h with ⟨front, back, rfl⟩
  rcases hasCrlf_iff.mp hpart with ⟨before, rest, rfl⟩
  exact hasCrlf_iff.mpr ⟨front ++ before, rest ++ back, by simp⟩

theorem hasCrlf_of_not_mem {text : Text} (h : '\r' ∉ text) : hasCrlf text = false := by
  cases hcrlf : hasCrlf text with
  | false => rfl
  | true =>
      rcases hasCrlf_iff.mp hcrlf with ⟨before, rest, rfl⟩
      simp at h

/-!
## Joining breaks
-/

theorem joinBreaks_cons {c : Char} {rest : Text} (h : ¬ (c = '\r' ∧ rest.head? = some '\n')) :
    joinBreaks (c :: rest) = c :: joinBreaks rest := by
  rw [joinBreaks.eq_def]
  split
  case h_1 rest' heq =>
    rcases List.cons.inj heq with ⟨rfl, rfl⟩
    exact absurd ⟨rfl, rfl⟩ h
  case h_2 c' rest' hother heq =>
    rcases List.cons.inj heq with ⟨rfl, rfl⟩
    rfl
  case h_3 heq => contradiction

theorem joinBreaks_crlf (rest : Text) :
    joinBreaks ('\r' :: '\n' :: rest) = '\n' :: joinBreaks rest := by
  rw [joinBreaks]

/-!
## Splitting breaks
-/

theorem splitBreaks_append (first second : Text) :
    splitBreaks (first ++ second) = splitBreaks first ++ splitBreaks second :=
  List.flatMap_append

theorem splitBreaks_cons (c : Char) (rest : Text) :
    splitBreaks (c :: rest) = (if c = '\n' then ['\r', '\n'] else [c]) ++ splitBreaks rest :=
  List.flatMap_cons

theorem splitBreaks_of_not_mem {text : Text} (h : '\n' ∉ text) : splitBreaks text = text := by
  induction text with
  | nil => rfl
  | cons c rest ih =>
      rw [List.mem_cons, not_or] at h
      rw [splitBreaks_cons, if_neg (Ne.symm h.1), ih h.2]
      rfl

theorem getLast?_splitBreaks (text : Text) : (splitBreaks text).getLast? = text.getLast? := by
  rcases List.eq_nil_or_concat text with rfl | ⟨front, c, rfl⟩
  · rfl
  · rw [List.concat_eq_append, splitBreaks_append, splitBreaks_cons, List.getLast?_append,
      List.getLast?_concat]
    by_cases hc : c = '\n'
    · rw [if_pos hc, hc]
      rfl
    · rw [if_neg hc]
      rfl

theorem splitBreaks_eq_append {text before after : Text}
    (h : splitBreaks text = before ++ '\n' :: after) :
    exists first, before = splitBreaks first ++ ['\r'] ∧ exists second,
      text = first ++ '\n' :: second := by
  induction text generalizing before with
  | nil =>
      have hnil := congrArg List.length h
      simp [splitBreaks] at hnil
  | cons c rest ih =>
      rw [splitBreaks_cons] at h
      by_cases hc : c = '\n'
      · rw [if_pos hc] at h
        rcases before with _ | ⟨d, _ | ⟨d', before⟩⟩
        · cases (List.cons.inj h).1
        · rcases List.cons.inj h with ⟨rfl, _⟩
          exact ⟨[], rfl, rest, by rw [hc]; rfl⟩
        · rcases List.cons.inj h with ⟨hreturn, hfeed⟩
          rcases List.cons.inj hfeed with ⟨rfl, hrest⟩
          rcases ih hrest with ⟨first, rfl, second, rfl⟩
          refine ⟨'\n' :: first, ?_, second, by rw [hc]; rfl⟩
          rw [splitBreaks_cons, if_pos rfl, ← hreturn]
          rfl
      · rw [if_neg hc] at h
        rcases before with _ | ⟨d, before⟩
        · exact absurd (List.cons.inj h).1 hc
        · rcases List.cons.inj h with ⟨rfl, hrest⟩
          rcases ih hrest with ⟨first, rfl, second, rfl⟩
          refine ⟨c :: first, ?_, second, rfl⟩
          rw [splitBreaks_cons, if_neg hc]
          rfl

/-!
## Conventions
-/

/-- What a text looks like that keeps a convention: in the CRLF convention, exactly one
carriage return stands before every line feed, and in the other one none does. -/
def IsKept : LineEnding -> Text -> Prop
  | .lf, text => hasCrlf text = false
  | .crlf, text => forall before after, text = before ++ '\n' :: after ->
      exists front, before = front ++ ['\r'] ∧ front.getLast? ≠ some '\r'

def EndsLinesInCrlf (text : Text) : Prop :=
  forall before after, text = before ++ '\n' :: after -> before.getLast? = some '\r'

theorem endsLinesInCrlf_splitBreaks (text : Text) : EndsLinesInCrlf (splitBreaks text) := by
  intro before after heq
  obtain ⟨first, rfl, -⟩ := splitBreaks_eq_append heq
  exact List.getLast?_concat

/-- Every carriage return belongs to a break. -/
def HasNoLoneReturn (text : Text) : Prop :=
  forall before after, text = before ++ '\r' :: after -> after.head? = some '\n'

/-- A text whose breaks are all of one kind, and which has no other carriage returns. -/
def IsUniform : LineEnding -> Text -> Prop
  | .lf, text => '\r' ∉ text
  | .crlf, text =>
      (forall before after, text = before ++ '\n' :: after -> before.getLast? = some '\r') ∧
        HasNoLoneReturn text

theorem HasNoLoneReturn.of_cons {c : Char} {rest : Text} (h : HasNoLoneReturn (c :: rest)) :
    HasNoLoneReturn rest := fun before after heq => h (c :: before) after (by rw [heq]; rfl)

theorem HasNoLoneReturn.not_mem {text : Text} (h : HasNoLoneReturn text)
    (hcrlf : hasCrlf text = false) : '\r' ∉ text := by
  intro hmem
  obtain ⟨before, after, heq⟩ := List.append_of_mem hmem
  have hhead := h before after heq
  cases after with
  | nil => contradiction
  | cons d after =>
      cases Option.some.inj hhead
      rw [hasCrlf_iff.mpr ⟨before, after, heq⟩] at hcrlf
      contradiction

theorem isUniform_apply {text : Text} (ending : LineEnding) (h : '\r' ∉ text) :
    IsUniform ending (ending.apply text) := by
  cases ending with
  | lf => exact h
  | crlf =>
      constructor
      · exact endsLinesInCrlf_splitBreaks text
      · change HasNoLoneReturn (splitBreaks text)
        induction text with
        | nil => exact fun before after heq => absurd heq (by simp [splitBreaks])
        | cons c rest ih =>
            rw [List.mem_cons, not_or] at h
            rw [splitBreaks_cons]
            intro before after heq
            by_cases hc : c = '\n'
            · rw [if_pos hc] at heq
              rcases before with _ | ⟨d, _ | ⟨d', before⟩⟩
              · rw [← (List.cons.inj heq).2]
                rfl
              · cases (List.cons.inj (List.cons.inj heq).2).1
              · exact ih h.2 before after (List.cons.inj (List.cons.inj heq).2).2
            · rw [if_neg hc] at heq
              rcases before with _ | ⟨d, before⟩
              · exact absurd (List.cons.inj heq).1.symm h.1
              · exact ih h.2 before after (List.cons.inj heq).2

theorem isKept_apply (ending : LineEnding) (text : Text) :
    IsKept ending (ending.apply text) <-> hasCrlf text = false := by
  cases ending with
  | lf => exact Iff.rfl
  | crlf =>
      constructor
      · intro h
        cases hcrlf : hasCrlf text with
        | false => rfl
        | true =>
            rcases hasCrlf_iff.mp hcrlf with ⟨before, rest, rfl⟩
            have hsplit : splitBreaks (before ++ '\r' :: '\n' :: rest) =
                (splitBreaks before ++ ['\r', '\r']) ++ '\n' :: splitBreaks rest := by
              simp [splitBreaks]
            rcases h _ _ hsplit with ⟨front, hfront, hlast⟩
            have heq : splitBreaks before ++ ['\r', '\r'] =
                (splitBreaks before ++ ['\r']) ++ ['\r'] := by
              simp
            rw [heq] at hfront
            rw [← List.append_inj_left' hfront rfl, List.getLast?_concat] at hlast
            exact absurd rfl hlast
      · intro h before after heq
        rcases splitBreaks_eq_append heq with ⟨first, rfl, second, rfl⟩
        refine ⟨_, rfl, fun hlast => ?_⟩
        rw [getLast?_splitBreaks] at hlast
        rcases List.getLast?_eq_some_iff.mp hlast with ⟨front, rfl⟩
        have hcrlf : hasCrlf (front ++ ['\r'] ++ '\n' :: second) = true :=
          hasCrlf_iff.mpr ⟨front, second, by simp⟩
        rw [h] at hcrlf
        contradiction

theorem not_mem_normalize {content : Text} (h : IsUniform (detect content) content) :
    '\r' ∉ (normalize content).1 := by
  unfold normalize
  cases hending : detect content with
  | lf =>
      rw [hending] at h
      exact h
  | crlf =>
      rw [hending] at h
      have hnext := h.2
      clear hending h
      change '\r' ∉ joinBreaks content
      fun_induction joinBreaks content with
      | case1 tail ih =>
          have hrest := ih hnext.of_cons.of_cons
          simpa using hrest
      | case2 c tail hother ih =>
          have hrest := ih hnext.of_cons
          have hc : c ≠ '\r' := by
            rintro rfl
            have hhead := hnext [] tail rfl
            cases tail with
            | nil => contradiction
            | cons d tail =>
                cases Option.some.inj hhead
                exact hother tail rfl rfl
          simpa [Ne.symm hc] using hrest
      | case3 => exact List.not_mem_nil

end LineEnding
end LanguageClient

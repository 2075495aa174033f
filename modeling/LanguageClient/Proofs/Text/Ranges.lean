import LanguageClient.Proofs.Text.Boundaries
import Mathlib

/-!
# Ordered and inverted ranges

A range is checked on the text its edit meets. If its positions stand in order, they lead to
places in order whatever that text is, so edits of this kind never fail. If its start lies
after its end, the edit fails as soon as the two positions lead to different places. That is
sure if they do in the text as it was, since the edits applied before start no further up
and leave the text above alone. If they lead to one place there, past the end of a line for
instance, it depends on the other edits.
-/

namespace LanguageClient
namespace TextEdit

/-!
# One edit
-/

/-- What an edit needs of the text it meets: a range that is not inverted, ends within the
text and cuts no character. -/
structure FitsIn (e : TextEdit) (text : Text) : Prop where
  ordered : e.range.start.toOffset text ≤ e.range.stop.toOffset text
  within : e.range.stop.toOffset text ≤ Utf8.size text
  start_boundary : IsBoundary text (e.range.start.toOffset text)
  stop_boundary : IsBoundary text (e.range.stop.toOffset text)

theorem fitsIn_of_ordered {e : TextEdit} (h : ¬ e.range.stop.before e.range.start = true)
    (text : Text) : e.FitsIn text where
  ordered := Position.toOffset_mono h text
  within := (Position.isBoundary_toOffset e.range.stop text).le_size
  start_boundary := Position.isBoundary_toOffset e.range.start text
  stop_boundary := Position.isBoundary_toOffset e.range.stop text

theorem FitsIn.applyOne {e : TextEdit} {text : Text} (h : e.FitsIn text) :
    e.applyOne text = .ok (splice text (e.range.start.toOffset text)
      (e.range.stop.toOffset text) e.newText) := by
  rw [TextEdit.applyOne, if_neg (Nat.not_lt.mpr h.ordered)]

theorem applyOne_eq_error_iff {e : TextEdit} {text : Text} {bad : InvalidRange} :
    e.applyOne text = .error bad ↔
      e.range.stop.toOffset text < e.range.start.toOffset text ∧
        bad = ⟨e.range.start.toOffset text, e.range.stop.toOffset text⟩ := by
  rw [applyOne]
  split
  case isTrue hlt => simp [hlt, eq_comm]
  case isFalse hle => simp [hle]

/-!
# Edits one after the other
-/

def Meets (text : Text) (edits : List TextEdit) (e : TextEdit) (met : Text) : Prop :=
  exists done pending, schedule edits = done ++ e :: pending ∧ applySequence done text =
    .ok met

theorem applySequence_ordered {edits : List TextEdit}
    (h : forall e, e ∈ edits -> ¬ e.range.stop.before e.range.start = true) (text : Text) :
    exists out, applySequence edits text = .ok out := by
  induction edits generalizing text with
  | nil => exact ⟨text, rfl⟩
  | cons e edits ih =>
      have hfits := fitsIn_of_ordered (h e List.mem_cons_self) text
      obtain ⟨out, hout⟩ := ih (fun f hf => h f (List.mem_cons_of_mem e hf))
        (splice text (e.range.start.toOffset text) (e.range.stop.toOffset text) e.newText)
      refine ⟨out, ?_⟩
      rw [applySequence, hfits.applyOne]
      exact hout

theorem applySequence_eq_error_iff {edits : List TextEdit} {text : Text} {bad : InvalidRange} :
    applySequence edits text = .error bad ↔
      exists done e pending met, edits = done ++ e :: pending ∧
        applySequence done text = .ok met ∧ e.applyOne met = .error bad := by
  constructor
  · intro h
    induction edits generalizing text with
    | nil => cases h
    | cons e edits ih =>
        rw [applySequence] at h
        cases hfirst : e.applyOne text with
        | ok next =>
            rw [hfirst] at h
            obtain ⟨done, f, pending, met, rfl, hdone, hfails⟩ := ih h
            refine ⟨e :: done, f, pending, met, rfl, ?_, hfails⟩
            rw [applySequence, hfirst]
            exact hdone
        | error other =>
            rw [hfirst] at h
            cases h
            exact ⟨[], e, edits, text, rfl, rfl, hfirst⟩
  · rintro ⟨done, e, pending, met, rfl, hdone, hfails⟩
    rw [applySequence_append, hdone]
    change applySequence (e :: pending) met = .error bad
    rw [applySequence, hfails]

theorem applyAll_eq_error_iff {text : Text} {edits : List TextEdit} {bad : InvalidRange} :
    applyAll text edits = .error bad ↔
      exists e met, Meets text edits e met ∧ e.applyOne met = .error bad := by
  have hsequence : applyAll text edits = .error bad ↔
      applySequence (schedule edits) text = .error bad := by
    rw [applyAll]
    cases applySequence (schedule edits) text with
    | ok out => simp
    | error other => simp
  rw [hsequence, applySequence_eq_error_iff]
  constructor
  · rintro ⟨done, e, pending, met, hedits, hdone, hfails⟩
    exact ⟨e, met, ⟨done, pending, hedits, hdone⟩, hfails⟩
  · rintro ⟨e, met, ⟨done, pending, hedits, hdone⟩, hfails⟩
    exact ⟨done, e, pending, met, hedits, hdone, hfails⟩

/-- Edits whose ranges have their positions in order are applied without failure,
however they overlap: whichever of them is next, those before it have left a text
in which its range fits. -/
theorem applyAll_ordered {text : Text} {edits : List TextEdit}
    (h : forall e, e ∈ edits -> ¬ e.range.stop.before e.range.start = true) :
    (exists out, applyAll text edits = .ok out) ∧
      forall done e pending, schedule edits = done ++ e :: pending ->
        exists met, applySequence done text = .ok met ∧ e.FitsIn met ∧
          e.applyOne met = .ok (splice met (e.range.start.toOffset met)
            (e.range.stop.toOffset met) e.newText) := by
  have hscheduled : forall e, e ∈ schedule edits ->
      ¬ e.range.stop.before e.range.start = true := fun e he =>
    h e ((schedule_perm edits).mem_iff.mp he)
  constructor
  · obtain ⟨out, hout⟩ := applySequence_ordered hscheduled text
    exact ⟨_, applyAll_of_applySequence hout⟩
  · intro done e pending hsplit
    rw [hsplit] at hscheduled
    obtain ⟨met, hmet⟩ := applySequence_ordered
      (fun f hf => hscheduled f (List.mem_append_left _ hf)) text
    have hfits := fitsIn_of_ordered
      (hscheduled e (List.mem_append_right done List.mem_cons_self)) met
    exact ⟨met, hmet, hfits, hfits.applyOne⟩

theorem applyAll_ordered_overlapping :
    (exists out, applyAll ['a', '𝄞', '\n', 'b']
      [⟨⟨⟨0, 0⟩, ⟨0, 2⟩⟩, []⟩, ⟨⟨⟨1, 0⟩, ⟨7, 7⟩⟩, ['z']⟩, ⟨⟨⟨0, 2⟩, ⟨1, 9⟩⟩, ['y']⟩] =
      .ok out) ∧
    exists met, applySequence [⟨⟨⟨1, 0⟩, ⟨7, 7⟩⟩, ['z']⟩] ['a', '𝄞', '\n', 'b'] = .ok met ∧
      FitsIn ⟨⟨⟨0, 2⟩, ⟨1, 9⟩⟩, ['y']⟩ met := by
  have hordered : forall e : TextEdit,
      e ∈ [⟨⟨⟨0, 0⟩, ⟨0, 2⟩⟩, []⟩, ⟨⟨⟨1, 0⟩, ⟨7, 7⟩⟩, ['z']⟩, ⟨⟨⟨0, 2⟩, ⟨1, 9⟩⟩, ['y']⟩] ->
        ¬ e.range.stop.before e.range.start = true := by
    decide
  constructor
  · exact (applyAll_ordered hordered).1
  · obtain ⟨met, hmet, hfits, -⟩ := (applyAll_ordered hordered).2 [⟨⟨⟨1, 0⟩, ⟨7, 7⟩⟩, ['z']⟩]
      ⟨⟨⟨0, 2⟩, ⟨1, 9⟩⟩, ['y']⟩ [⟨⟨⟨0, 0⟩, ⟨0, 2⟩⟩, []⟩] (by cbv)
    exact ⟨met, hmet, hfits⟩

/-!
# Inverted ranges
-/

theorem schedule_descending (edits : List TextEdit) :
    (schedule edits).Pairwise fun e f => ¬ e.range.start.before f.range.start = true := by
  have hascending := ascending_pairwise edits
  rw [← reverse_schedule, List.pairwise_reverse] at hascending
  exact hascending

theorem applySequence_keeps_upTo {p : Position} {text rest out : Text} {done : List TextEdit}
    (h : applySequence done (p.upTo text ++ rest) = .ok out)
    (hstart : forall f, f ∈ done -> ¬ f.range.start.before p = true) :
    exists rest', out = p.upTo text ++ rest' := by
  induction done generalizing rest with
  | nil => exact ⟨rest, (Except.ok.inj h).symm⟩
  | cons f done ih =>
      obtain ⟨next, happly, hrest⟩ := applySequence_cons_eq_ok h
      obtain ⟨before, middle, last, -, rfl, hbefore, -⟩ := exists_cut happly
      have hfront : p.upTo text <+: before := by
        rw [hbefore]
        exact (Position.upTo_isPrefix_of_append p text rest).trans
          (Position.upTo_mono (hstart f List.mem_cons_self) _)
      obtain ⟨more, rfl⟩ := hfront
      rw [List.append_assoc] at hrest
      exact ih hrest fun g hg => hstart g (List.mem_cons_of_mem f hg)

theorem stop_lt_start_of_kept {e : TextEdit} {text : Text}
    (h : e.range.stop.toOffset text < e.range.start.toOffset text) (rest : Text) :
    e.range.stop.toOffset (e.range.start.upTo text ++ rest) <
      e.range.start.toOffset (e.range.start.upTo text ++ rest) := by
  obtain ⟨behind, hbehind⟩ := e.range.start.upTo_isPrefix text
  obtain ⟨between, hbetween⟩ := Utf8.prefix_of_size_le (e.range.stop.upTo_isPrefix text)
    (e.range.start.upTo_isPrefix text) (Nat.le_of_lt h)
  have hstart : e.range.start.toOffset text ≤
      e.range.start.toOffset (e.range.start.upTo text ++ rest) :=
    Utf8.size_le_of_prefix (Position.upTo_isPrefix_of_append e.range.start text rest)
  have hstop : e.range.stop.toOffset (e.range.start.upTo text ++ rest) =
      e.range.stop.toOffset text := by
    cases between with
    | nil =>
        rw [List.append_nil] at hbetween
        rw [Position.toOffset_eq, Position.toOffset_eq, hbetween] at h
        exact absurd h (Nat.lt_irrefl _)
    | cons c more =>
        -- The character behind the place of the stop is kept, and no more is needed to find
        -- it.
        have hfound : e.range.stop.upTo (e.range.stop.upTo text ++ c :: (more ++ behind)) =
            e.range.stop.upTo text := by
          rw [← List.cons_append, ← List.append_assoc, hbetween, hbehind]
        have hkept := Position.upTo_append_cons hfound (more ++ rest)
        rw [← List.cons_append, ← List.append_assoc, hbetween] at hkept
        rw [Position.toOffset_eq, hkept, Position.toOffset_eq]
  rw [hstop]
  exact Nat.lt_of_lt_of_le h hstart

/-- An edit whose range is inverted in the text as it was makes the whole set fail, whatever
the other edits are. -/
theorem exists_error_of_inverted {text : Text} {edits : List TextEdit} {e : TextEdit}
    (he : e ∈ edits) (h : e.range.stop.toOffset text < e.range.start.toOffset text) :
    exists bad, applyAll text edits = .error bad := by
  obtain ⟨done, pending, hsplit⟩ := List.append_of_mem ((schedule_perm edits).mem_iff.mpr he)
  have hlater := schedule_descending edits
  rw [hsplit, List.pairwise_append] at hlater
  have hbelow : forall f, f ∈ done -> ¬ f.range.start.before e.range.start = true :=
    fun f hf =>
    hlater.2.2 f hf e List.mem_cons_self
  cases hdone : applySequence done text with
  | error bad =>
      obtain ⟨first, f, between, met, rfl, hfirst, hfails⟩ :=
        applySequence_eq_error_iff.mp hdone
      rw [List.append_assoc, List.cons_append] at hsplit
      exact ⟨bad, applyAll_eq_error_iff.mpr ⟨f, met, ⟨first, _, hsplit, hfirst⟩, hfails⟩⟩
  | ok met =>
      obtain ⟨rest, hrest⟩ := e.range.start.upTo_isPrefix text
      have hkept : exists rest', met = e.range.start.upTo text ++ rest' := by
        rw [← hrest] at hdone
        exact applySequence_keeps_upTo hdone hbelow
      obtain ⟨rest', rfl⟩ := hkept
      exact ⟨_, applyAll_eq_error_iff.mpr ⟨e, _, ⟨done, pending, hsplit, hdone⟩,
        applyOne_eq_error_iff.mpr ⟨stop_lt_start_of_kept h rest', rfl⟩⟩⟩

/-- A set of edits fails if and only if the positions of some range stand in the wrong order
and lead to different places of the text its edit meets. That is so if they lead to
different places of the text as it was. -/
theorem applyAll_inverted (text : Text) (edits : List TextEdit) :
    (forall bad, applyAll text edits = .error bad ↔
      exists e met, Meets text edits e met ∧ e.range.stop.before e.range.start = true ∧
        e.range.stop.toOffset met ≠ e.range.start.toOffset met ∧
        bad = ⟨e.range.start.toOffset met, e.range.stop.toOffset met⟩) ∧
      forall e, e ∈ edits -> e.range.stop.before e.range.start = true ->
        e.range.stop.toOffset text ≠ e.range.start.toOffset text ->
        exists bad, applyAll text edits = .error bad ∧ bad.stop < bad.start := by
  constructor
  · intro bad
    rw [applyAll_eq_error_iff]
    constructor
    · rintro ⟨e, met, hmeets, hfails⟩
      obtain ⟨hlt, hbad⟩ := applyOne_eq_error_iff.mp hfails
      have hinverted : e.range.stop.before e.range.start = true := by
        by_contra hordered
        exact absurd (Position.toOffset_mono hordered met) (Nat.not_le.mpr hlt)
      exact ⟨e, met, hmeets, hinverted, Nat.ne_of_lt hlt, hbad⟩
    · rintro ⟨e, met, hmeets, hinverted, hne, hbad⟩
      have hle := Position.toOffset_le_of_before hinverted met
      exact ⟨e, met, hmeets, applyOne_eq_error_iff.mpr ⟨Nat.lt_of_le_of_ne hle hne, hbad⟩⟩
  · intro e he hinverted hne
    have hle := Position.toOffset_le_of_before hinverted text
    obtain ⟨bad, hbad⟩ := exists_error_of_inverted he (Nat.lt_of_le_of_ne hle hne)
    obtain ⟨f, met, -, hfails⟩ := applyAll_eq_error_iff.mp hbad
    obtain ⟨hlt, rfl⟩ := applyOne_eq_error_iff.mp hfails
    exact ⟨_, hbad, hlt⟩

theorem applyAll_inverted_pastEnd :
    (exists bad, applyAll ['a', 'b', 'c', 'd']
      [⟨⟨⟨0, 3⟩, ⟨0, 1⟩⟩, ['x']⟩, ⟨⟨⟨0, 9⟩, ⟨0, 9⟩⟩, ['y']⟩] = .error bad ∧
      bad.stop < bad.start) ∧
    applyAll ['a'] [⟨⟨⟨0, 4⟩, ⟨0, 2⟩⟩, ['x']⟩, ⟨⟨⟨0, 9⟩, ⟨0, 9⟩⟩, ['y', 'y', 'y']⟩] =
      .error ⟨4, 2⟩ := by
  constructor
  · exact (applyAll_inverted _ _).2 ⟨⟨⟨0, 3⟩, ⟨0, 1⟩⟩, ['x']⟩ List.mem_cons_self (by decide)
      (by decide)
  · apply ((applyAll_inverted _ _).1 _).mpr
    refine ⟨⟨⟨⟨0, 4⟩, ⟨0, 2⟩⟩, ['x']⟩, ['a', 'y', 'y', 'y'], ?_, by decide, by decide, by
      decide⟩
    exact ⟨[⟨⟨⟨0, 9⟩, ⟨0, 9⟩⟩, ['y', 'y', 'y']⟩], [], by cbv, by decide⟩

/-- A range that is inverted past the end of its line is taken for an insertion there. -/
theorem not_all_inverted_refused :
    ¬ forall (text : Text) (edits : List TextEdit),
      (exists e, e ∈ edits ∧ e.range.stop.before e.range.start = true) ->
      exists bad, applyAll text edits = .error bad := by
  intro h
  obtain ⟨bad, hbad⟩ := h ['a', 'b', 'c'] [⟨⟨⟨0, 9⟩, ⟨0, 5⟩⟩, ['x']⟩]
    ⟨_, List.mem_cons_self, by decide⟩
  have hdone : applyAll ['a', 'b', 'c'] [⟨⟨⟨0, 9⟩, ⟨0, 5⟩⟩, ['x']⟩] =
      .ok ⟨['a', 'b', 'c', 'x'], true⟩ := by
    cbv
  rw [hdone] at hbad
  cases hbad

end TextEdit
end LanguageClient

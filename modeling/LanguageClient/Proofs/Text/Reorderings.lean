import LanguageClient.Proofs.Text.Schedule
import Mathlib

/-!
# Reorderings

The order in which edits are applied depends on their starts and, among edits with one
start, on their order in the input. Two lists that hold the same edits, those with one start
in the same order, are applied in one and the same order. So they do the same to every text,
whatever their ranges are, and where they fail, they fail at the same edit.
-/

namespace LanguageClient
namespace TextEdit

def startingWith (p : Position) (edits : List TextEdit) : List TextEdit :=
  edits.filter fun e => e.range.start = p

theorem startingWith_cons_self (e : TextEdit) (edits : List TextEdit) :
    startingWith e.range.start (e :: edits) = e :: startingWith e.range.start edits :=
  List.filter_cons_of_pos (decide_eq_true rfl)

theorem startingWith_cons_of_ne {e : TextEdit} {p : Position} (edits : List TextEdit)
    (h : e.range.start ≠ p) : startingWith p (e :: edits) = startingWith p edits :=
  List.filter_cons_of_neg (by simpa using h)

theorem mem_startingWith {e : TextEdit} {p : Position} {edits : List TextEdit} :
    e ∈ startingWith p edits ↔ e ∈ edits ∧ e.range.start = p := by
  rw [startingWith, List.mem_filter, decide_eq_true_eq]

theorem startingWith_ascending (p : Position) (edits : List TextEdit) :
    startingWith p (ascending edits) = startingWith p edits := by
  rw [← reverse_schedule]
  apply filter_reverse_schedule
  intro a b _ _ ha hb
  exact (of_decide_eq_true ha).trans (of_decide_eq_true hb).symm

/-!
# The same edits in another order
-/

/-- Two lists of the same edits, in which edits with one start stand in the same order. -/
structure Reordered (first second : List TextEdit) : Prop where
  perm : first.Perm second
  ties : forall p, startingWith p first = startingWith p second

theorem reordered_iff {first second : List TextEdit} :
    Reordered first second ↔ first.Perm second ∧
      forall e, e ∈ first ->
        startingWith e.range.start first = startingWith e.range.start second := by
  constructor
  · intro h
    exact ⟨h.perm, fun e _ => h.ties e.range.start⟩
  · rintro ⟨hperm, hties⟩
    constructor
    · exact hperm
    · intro p
      by_cases hp : exists e, e ∈ first ∧ e.range.start = p
      · obtain ⟨e, he, rfl⟩ := hp
        exact hties e he
      · have hnone : forall edits : List TextEdit, edits.Perm first ->
            startingWith p edits = [] := by
          intro edits hedits
          apply List.eq_nil_iff_forall_not_mem.mpr
          intro e he
          obtain ⟨hmem, hstart⟩ := mem_startingWith.mp he
          exact hp ⟨e, hedits.mem_iff.mp hmem, hstart⟩
        rw [hnone first (List.Perm.refl first), hnone second hperm.symm]

instance (first second : List TextEdit) : Decidable (Reordered first second) :=
  decidable_of_iff _ reordered_iff.symm

/-!
# One order for each list
-/

theorem not_before_head {e f : TextEdit} {edits : List TextEdit}
    (h : (e :: edits).Pairwise fun e f => ¬ f.range.start.before e.range.start = true)
    (hf : f ∈ e :: edits) : ¬ f.range.start.before e.range.start = true := by
  rcases List.mem_cons.mp hf with rfl | hf
  · rw [Position.before_irrefl]
    exact Bool.false_ne_true
  · exact (List.pairwise_cons.mp h).1 f hf

theorem mem_iff_of_ties {first second : List TextEdit}
    (h : forall p, startingWith p first = startingWith p second) (e : TextEdit) :
    e ∈ first ↔ e ∈ second := by
  have hsame :
      e ∈ startingWith e.range.start first ↔ e ∈ startingWith e.range.start second := by
    rw [h]
  rw [mem_startingWith, mem_startingWith] at hsame
  simpa using hsame

theorem eq_of_ascending {first second : List TextEdit}
    (hfirst : first.Pairwise fun e f => ¬ f.range.start.before e.range.start = true)
    (hsecond : second.Pairwise fun e f => ¬ f.range.start.before e.range.start = true)
    (hties : forall p, startingWith p first = startingWith p second) : first = second := by
  have hmem := mem_iff_of_ties hties
  induction first generalizing second with
  | nil =>
      symm
      apply List.eq_nil_iff_forall_not_mem.mpr
      intro f hf
      exact List.not_mem_nil ((hmem f).mpr hf)
  | cons e first ih =>
      cases second with
      | nil => exact absurd ((hmem e).mp List.mem_cons_self) List.not_mem_nil
      | cons f second =>
          -- Each head stands in the other list as well, so neither starts before the other.
          have hstart : e.range.start = f.range.start := by
            by_cases hsame : e.range.start = f.range.start
            · exact hsame
            · rcases Position.before_total hsame with hbefore | hbefore
              · have he := (hmem e).mp List.mem_cons_self
                exact absurd hbefore (not_before_head hsecond he)
              · have hf := (hmem f).mpr List.mem_cons_self
                exact absurd hbefore (not_before_head hfirst hf)
          have hheads := hties e.range.start
          rw [startingWith_cons_self, hstart, startingWith_cons_self] at hheads
          obtain ⟨rfl, hrest⟩ := List.cons.inj hheads
          have htails : forall p, startingWith p first = startingWith p second := by
            intro p
            by_cases hp : e.range.start = p
            · subst hp
              exact hrest
            · have hboth := hties p
              rw [startingWith_cons_of_ne first hp, startingWith_cons_of_ne second hp] at hboth
              exact hboth
          rw [ih (List.pairwise_cons.mp hfirst).2 (List.pairwise_cons.mp hsecond).2 htails
            (mem_iff_of_ties htails)]

/-- Edits are applied in the same order exactly if the one list is the other one reordered. -/
theorem schedule_eq_schedule_iff {first second : List TextEdit} :
    schedule first = schedule second ↔ Reordered first second := by
  constructor
  · intro h
    have hascending : ascending first = ascending second := by
      rw [← reverse_schedule, ← reverse_schedule, h]
    constructor
    · exact (schedule_perm first).symm.trans (h ▸ schedule_perm second)
    · intro p
      rw [← startingWith_ascending p first, hascending, startingWith_ascending p second]
  · intro h
    have hascending : ascending first = ascending second := by
      apply eq_of_ascending (ascending_pairwise first) (ascending_pairwise second)
      intro p
      rw [startingWith_ascending, startingWith_ascending, h.ties]
    rw [← List.reverse_inj, reverse_schedule, reverse_schedule, hascending]

/-- A list of edits and the same list reordered are applied in one order, so they give the
same text or fail with the same offsets. -/
theorem applyAll_reordered {first second : List TextEdit} (h : Reordered first second)
    (text : Text) :
    schedule first = schedule second ∧ applyAll text first = applyAll text second := by
  have hschedule := schedule_eq_schedule_iff.mpr h
  constructor
  · exact hschedule
  · rw [applyAll, applyAll, hschedule]

theorem applyAll_reordered_overlapping :
    applyAll ['a', 'b', 'c']
        [⟨⟨⟨0, 1⟩, ⟨0, 3⟩⟩, ['x']⟩, ⟨⟨⟨9, 9⟩, ⟨9, 9⟩⟩, ['1']⟩, ⟨⟨⟨0, 1⟩, ⟨0, 1⟩⟩, ['y']⟩,
          ⟨⟨⟨0, 0⟩, ⟨0, 2⟩⟩, ['z']⟩] =
      applyAll ['a', 'b', 'c']
        [⟨⟨⟨0, 0⟩, ⟨0, 2⟩⟩, ['z']⟩, ⟨⟨⟨0, 1⟩, ⟨0, 3⟩⟩, ['x']⟩, ⟨⟨⟨0, 1⟩, ⟨0, 1⟩⟩, ['y']⟩,
          ⟨⟨⟨9, 9⟩, ⟨9, 9⟩⟩, ['1']⟩] ∧
    applyAll ['a', 'b', 'c'] [⟨⟨⟨0, 2⟩, ⟨0, 1⟩⟩, ['x']⟩, ⟨⟨⟨0, 3⟩, ⟨0, 3⟩⟩, ['y']⟩] =
      applyAll ['a', 'b', 'c'] [⟨⟨⟨0, 3⟩, ⟨0, 3⟩⟩, ['y']⟩, ⟨⟨⟨0, 2⟩, ⟨0, 1⟩⟩, ['x']⟩] ∧
    applyAll ['a', 'b', 'c'] [⟨⟨⟨0, 2⟩, ⟨0, 1⟩⟩, ['x']⟩, ⟨⟨⟨0, 3⟩, ⟨0, 3⟩⟩, ['y']⟩] =
      .error ⟨2, 1⟩ := by
  constructor
  · exact (applyAll_reordered (by decide) _).2
  · constructor
    · exact (applyAll_reordered (by decide) _).2
    · cbv

end TextEdit
end LanguageClient

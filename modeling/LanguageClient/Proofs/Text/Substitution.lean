import LanguageClient.Proofs.Text.Positions
import LanguageClient.Proofs.Text.Schedule

/-!
# Simultaneous substitution

A set of edits means one substitution on the text as it was: every range gives way to its new
text, and new texts that start at the same place stand in input order. This module states
that meaning without any order of application and proves that applying edits one after the
other from the bottom up, each on the text that the edits below it left, comes to the same.

While edits are applied, the text up to the start of the last one is still that of the
original, and what follows is the substitution of the edits applied so far. The remaining
edits end in that prefix, where exact positions lead to the same places as in the original.
-/

namespace LanguageClient

/-!
# Substitution
-/

structure Span where
  start : Nat
  stop : Nat
  newText : Text
  deriving DecidableEq, Repr

namespace Span

def insertedAt (spans : List Span) (offset : Nat) : Text :=
  (spans.filter (·.start = offset)).flatMap (·.newText)

def covered (spans : List Span) (offset : Nat) : Bool :=
  spans.any fun s => s.start ≤ offset && offset < s.stop

/-- A text, which starts at `offset`, with its spans replaced. -/
def substituteFrom (spans : List Span) (offset : Nat) : Text -> Text
  | [] => insertedAt spans offset
  | c :: rest =>
      insertedAt spans offset ++
        ((if covered spans offset then [] else [c]) ++
          substituteFrom spans (offset + c.utf8Size) rest)

/-!
## Spans that do not matter
-/

theorem substituteFrom_congr {first second : List Span}
    (hinserted : forall offset, insertedAt first offset = insertedAt second offset)
    (hcovered : forall offset, covered first offset = covered second offset) (offset : Nat)
    (text : Text) : substituteFrom first offset text = substituteFrom second offset text := by
  induction text generalizing offset with
  | nil => exact hinserted offset
  | cons c rest ih => rw [substituteFrom, substituteFrom, hinserted, hcovered, ih]

theorem insertedAt_of_lt {spans : List Span} {offset : Nat}
    (h : forall s, s ∈ spans -> offset < s.start) : insertedAt spans offset = [] := by
  have hnone : spans.filter (·.start = offset) = [] := by
    apply List.filter_eq_nil_iff.mpr
    intro s hs
    have hlt := h s hs
    simp
    omega
  rw [insertedAt, hnone, List.flatMap_nil]

theorem covered_of_lt {spans : List Span} {offset : Nat}
    (h : forall s, s ∈ spans -> offset < s.start) : covered spans offset = false := by
  apply List.any_eq_false.mpr
  intro s hs
  have hlt := h s hs
  simp
  omega

theorem substituteFrom_append {spans : List Span} {offset : Nat} {before : Text} (rest : Text)
    (h : forall s, s ∈ spans -> offset + Utf8.size before ≤ s.start) :
    substituteFrom spans offset (before ++ rest) =
      before ++ substituteFrom spans (offset + Utf8.size before) rest := by
  induction before generalizing offset with
  | nil => simp
  | cons c before ih =>
      have hc := c.utf8Size_pos
      have hlt : forall s, s ∈ spans -> offset < s.start := by
        intro s hs
        have hs' := h s hs
        rw [Utf8.size_cons] at hs'
        omega
      have hrest :
          forall s, s ∈ spans -> offset + c.utf8Size + Utf8.size before ≤ s.start := by
        intro s hs
        have hs' := h s hs
        rw [Utf8.size_cons] at hs'
        omega
      rw [List.cons_append, substituteFrom, insertedAt_of_lt hlt, covered_of_lt hlt, ih hrest,
        Utf8.size_cons, Nat.add_assoc]
      rfl

/-!
## One more span in front
-/

theorem insertedAt_cons_self (s : Span) (spans : List Span) :
    insertedAt (s :: spans) s.start = s.newText ++ insertedAt spans s.start := by
  simp [insertedAt]

theorem insertedAt_cons_of_ne {s : Span} {offset : Nat} (spans : List Span)
    (h : s.start ≠ offset) : insertedAt (s :: spans) offset = insertedAt spans offset := by
  simp [insertedAt, h]

theorem covered_cons_of_stop_le {s : Span} {offset : Nat} (spans : List Span)
    (h : s.stop ≤ offset) : covered (s :: spans) offset = covered spans offset := by
  rw [covered, List.any_cons, ← covered]
  simp
  omega

theorem covered_cons_inside {s : Span} {offset : Nat} (spans : List Span)
    (hstart : s.start ≤ offset) (hstop : offset < s.stop) :
    covered (s :: spans) offset = true := by
  rw [covered, List.any_cons]
  simp [hstart, hstop]

theorem substituteFrom_past {s : Span} {spans : List Span} {offset : Nat} (text : Text)
    (hstart : s.start < offset) (hstop : s.stop ≤ offset) :
    substituteFrom (s :: spans) offset text = substituteFrom spans offset text := by
  induction text generalizing offset with
  | nil => exact insertedAt_cons_of_ne spans (Nat.ne_of_lt hstart)
  | cons c rest ih =>
      rw [substituteFrom, substituteFrom, insertedAt_cons_of_ne spans (Nat.ne_of_lt hstart),
        covered_cons_of_stop_le spans hstop, ih (by omega) (by omega)]

theorem substituteFrom_inside {s : Span} {spans : List Span} {offset : Nat} {middle : Text}
    (rest : Text) (hstart : s.start < offset) (hstop : s.stop = offset + Utf8.size middle)
    (hspans : forall t, t ∈ spans -> s.stop ≤ t.start) :
    substituteFrom (s :: spans) offset (middle ++ rest) =
      substituteFrom spans s.stop rest := by
  induction middle generalizing offset with
  | nil =>
      rw [Utf8.size_nil, Nat.add_zero] at hstop
      rw [List.nil_append, substituteFrom_past rest hstart (by omega), hstop]
  | cons c middle ih =>
      have hc := c.utf8Size_pos
      rw [Utf8.size_cons] at hstop
      have hlt : forall t, t ∈ spans -> offset < t.start := by
        intro t ht
        have ht' := hspans t ht
        omega
      rw [List.cons_append, substituteFrom, insertedAt_cons_of_ne spans (Nat.ne_of_lt hstart),
        insertedAt_of_lt hlt, covered_cons_inside spans (Nat.le_of_lt hstart) (by omega),
        ih (by omega) (by omega)]
      rfl

theorem substituteFrom_cons {s : Span} {spans : List Span} {middle : Text} (rest : Text)
    (hstop : s.stop = s.start + Utf8.size middle)
    (hspans : forall t, t ∈ spans -> s.stop ≤ t.start) :
    substituteFrom (s :: spans) s.start (middle ++ rest) =
      s.newText ++ substituteFrom spans s.stop rest := by
  cases middle with
  | nil =>
      rw [Utf8.size_nil, Nat.add_zero] at hstop
      rw [List.nil_append, hstop]
      cases rest with
      | nil => exact insertedAt_cons_self s spans
      | cons c rest =>
          have hc := c.utf8Size_pos
          rw [substituteFrom, insertedAt_cons_self, covered_cons_of_stop_le spans (by omega),
            substituteFrom_past rest (by omega) (by omega), substituteFrom]
          simp
  | cons c middle =>
      have hc := c.utf8Size_pos
      rw [Utf8.size_cons] at hstop
      have hlt : forall t, t ∈ spans -> s.start < t.start := by
        intro t ht
        have ht' := hspans t ht
        omega
      rw [List.cons_append, substituteFrom, insertedAt_cons_self, insertedAt_of_lt hlt,
        covered_cons_inside spans (Nat.le_refl _) (by omega),
        substituteFrom_inside rest (by omega) (by omega) hspans]
      simp

theorem substituteFrom_cons_append {s : Span} {spans : List Span} {middle last : Text}
    (rest : Text) (hstop : s.stop = s.start + Utf8.size middle)
    (hspans : forall t, t ∈ spans -> s.stop + Utf8.size last ≤ t.start) :
    substituteFrom (s :: spans) s.start (middle ++ (last ++ rest)) =
      s.newText ++ (last ++ substituteFrom spans (s.stop + Utf8.size last) rest) := by
  have hbehind : forall t, t ∈ spans -> s.stop ≤ t.start := by
    intro t ht
    exact Nat.le_trans (Nat.le_add_right _ _) (hspans t ht)
  rw [substituteFrom_cons _ hstop hbehind, substituteFrom_append rest hspans]

end Span

namespace TextEdit

def span (text : Text) (e : TextEdit) : Span :=
  ⟨e.range.start.toOffset text, e.range.stop.toOffset text, e.newText⟩

/-- What a set of edits means: all ranges, as offsets in the text as it
is, replaced at once. -/
def substitute (text : Text) (edits : List TextEdit) : Text :=
  Span.substituteFrom (edits.map (span text)) 0 text

/-!
# Edits that fit together
-/

/-- Exact positions, no inverted range, no two ranges with different starts that overlap,
and of the edits with one start only the last may replace anything. -/
structure Compatible (text : Text) (edits : List TextEdit) : Prop where
  start_exact : forall e, e ∈ edits -> e.range.start.IsExact text
  stop_exact : forall e, e ∈ edits -> e.range.stop.IsExact text
  ordered : forall e, e ∈ edits -> ¬ e.range.stop.before e.range.start
  apart : forall e, e ∈ edits -> forall f, f ∈ edits ->
    e.range.start.before f.range.start -> ¬ f.range.start.before e.range.stop
  shared : edits.Pairwise fun e f => e.range.start = f.range.start ->
    e.range.stop = e.range.start

theorem Compatible.schedule_descending {text : Text} {edits : List TextEdit}
    (h : Compatible text edits) :
    (schedule edits).Pairwise fun e f => (f.span text).stop ≤ (e.span text).start := by
  apply schedule_pairwise
  · intro e f he hf hlater
    exact Position.toOffset_le_of_not_before (h.stop_exact f hf) (h.start_exact e he)
      (h.apart f hf e he hlater)
  · apply h.shared.imp
    intro f e hinsertion hsame
    rw [span, span, hinsertion hsame, hsame]

/-- The order of application does not matter for what edits mean. -/
theorem Compatible.substitute_schedule {text : Text} {edits : List TextEdit}
    (h : Compatible text edits) :
    substitute text (schedule edits).reverse = substitute text edits := by
  apply Span.substituteFrom_congr
  · intro offset
    rw [Span.insertedAt, Span.insertedAt, List.filter_map, List.filter_map,
      filter_reverse_schedule]
    intro e f he hf hestart hfstart
    have hsame : (e.span text).start = (f.span text).start :=
      (of_decide_eq_true hestart).trans (of_decide_eq_true hfstart).symm
    exact Position.eq_of_toOffset_eq (h.start_exact e he) (h.start_exact f hf) hsame
  · intro offset
    apply List.Perm.any_eq
    exact (((schedule edits).reverse_perm).trans (schedule_perm edits)).map _

/-!
# Application from the bottom up
-/

/-- The range of an exact edit cuts an untouched prefix, in which it
ends, into three pieces. -/
theorem exists_pieces {text before : Text} {e : TextEdit} (hbefore : before <+: text)
    (hstart : e.range.start.IsExact text) (hstop : e.range.stop.IsExact text)
    (hordered : ¬ e.range.stop.before e.range.start)
    (hle : (e.span text).stop ≤ Utf8.size before) :
    exists first middle last, before = first ++ (middle ++ last) ∧
      e.range.start = Position.ofPrefix first ∧
      e.range.stop = Position.ofPrefix (first ++ middle) := by
  rcases Position.isExact_iff.mp hstart with ⟨first, hfirst, hstartEq⟩
  rcases Position.isExact_iff.mp hstop with ⟨second, hsecond, hstopEq⟩
  have hshort : first <+: second := by
    rw [hstartEq, hstopEq] at hordered
    exact Position.prefix_of_not_before hfirst hsecond hordered
  have hinside : second <+: before := by
    rw [span, hstopEq, Position.toOffset_eq_size hsecond] at hle
    exact Utf8.prefix_of_size_le hsecond hbefore hle
  rcases hshort with ⟨middle, rfl⟩
  rcases hinside with ⟨last, rfl⟩
  exact ⟨first, middle, last, List.append_assoc first middle last, hstartEq, hstopEq⟩

theorem applyOne_pieces {e : TextEdit} {first middle : Text} (tail : Text)
    (hstart : e.range.start = Position.ofPrefix first)
    (hstop : e.range.stop = Position.ofPrefix (first ++ middle)) :
    e.applyOne (first ++ (middle ++ tail)) = .ok (first ++ (e.newText ++ tail)) := by
  have hstartOffset :
      e.range.start.toOffset (first ++ (middle ++ tail)) = Utf8.size first := by
    rw [hstart, Position.toOffset_ofPrefix]
  have hstopOffset : e.range.stop.toOffset (first ++ (middle ++ tail)) =
      Utf8.size (first ++ middle) := by
    rw [hstop, ← List.append_assoc first middle, Position.toOffset_ofPrefix]
  have hle : ¬ Utf8.size (first ++ middle) < Utf8.size first := by
    rw [Utf8.size_append]
    omega
  rw [applyOne, hstartOffset, hstopOffset, if_neg hle, splice_prefixes]

/-- Edits still to be applied meet the untouched prefix `before` of the original, with the
substitution of the edits applied so far behind it. -/
theorem applySequence_descending {text : Text} {edits pending : List TextEdit}
    (h : Compatible text edits) (hmem : forall e, e ∈ pending -> e ∈ edits)
    (hdescending : pending.Pairwise fun e f => (f.span text).stop ≤ (e.span text).start)
    {before rest : Text} {applied : List Span} (htext : text = before ++ rest)
    (hpending : forall e, e ∈ pending -> (e.span text).stop ≤ Utf8.size before)
    (happlied : forall s, s ∈ applied -> Utf8.size before ≤ s.start) :
    applySequence pending (before ++ Span.substituteFrom applied (Utf8.size before) rest) =
      .ok (Span.substituteFrom (pending.reverse.map (span text) ++ applied) 0 text) := by
  induction pending generalizing before rest applied with
  | nil =>
      rw [applySequence, List.reverse_nil, List.map_nil, List.nil_append, htext,
        Span.substituteFrom_append rest (by simpa using happlied), Nat.zero_add]
  | cons e pending ih =>
      have he := hmem e List.mem_cons_self
      obtain ⟨first, middle, last, rfl, hstart, hstop⟩ :=
        exists_pieces (htext ▸ List.prefix_append before rest) (h.start_exact e he)
          (h.stop_exact e he) (h.ordered e he) (hpending e List.mem_cons_self)
      have hfirst : first <+: text := by
        rw [htext, List.append_assoc]
        exact List.prefix_append _ _
      have hmiddle : first ++ middle <+: text := by
        rw [htext, ← List.append_assoc, List.append_assoc]
        exact List.prefix_append _ _
      have hstartOffset : (e.span text).start = Utf8.size first := by
        rw [span, hstart, Position.toOffset_eq_size hfirst]
      have hstopOffset : (e.span text).stop = Utf8.size first + Utf8.size middle := by
        rw [span, hstop, Position.toOffset_eq_size hmiddle, Utf8.size_append]
      rcases List.pairwise_cons.mp hdescending with ⟨habove, hdescending⟩
      have hsize :
          Utf8.size (first ++ (middle ++ last)) = (e.span text).stop + Utf8.size last := by
        rw [Utf8.size_append, Utf8.size_append, hstopOffset, Nat.add_assoc]
      rw [hsize] at happlied ⊢
      have hdone : e.newText ++ (last ++
          Span.substituteFrom applied ((e.span text).stop + Utf8.size last) rest) =
          Span.substituteFrom (e.span text :: applied) (Utf8.size first)
            (middle ++ (last ++ rest)) := by
        rw [← hstartOffset, Span.substituteFrom_cons_append rest (by omega) happlied]
        rfl
      have hfront : forall s, s ∈ e.span text :: applied -> Utf8.size first ≤ s.start := by
        intro s hs
        rcases List.mem_cons.mp hs with rfl | hs
        · exact Nat.le_of_eq hstartOffset.symm
        · have hs' := happlied s hs
          omega
      have hpieces : text = first ++ (middle ++ (last ++ rest)) := by
        rw [htext, List.append_assoc, List.append_assoc]
      have hrest := ih (fun f hf => hmem f (List.mem_cons_of_mem e hf)) hdescending
        hpieces (fun f hf => hstartOffset ▸ habove f hf) hfront
      rw [List.append_assoc first, List.append_assoc middle, applySequence,
        applyOne_pieces _ hstart hstop, hdone]
      simp only [hrest, List.reverse_cons, List.map_append, List.map_cons, List.map_nil,
        List.append_assoc, List.cons_append, List.nil_append]

/-!
# What edits do
-/

/-- Compatible edits are applied without failure and amount to one substitution
on the text as it was. -/
theorem applyAll_eq_substitute {text : Text} {edits : List TextEdit}
    (h : Compatible text edits) :
    applyAll text edits = .ok ⟨substitute text edits, substitute text edits != text⟩ := by
  have hmem : forall e, e ∈ schedule edits -> e ∈ edits := by
    intro e he
    exact (schedule_perm edits).mem_iff.mp he
  have hbounds : forall e, e ∈ schedule edits -> (e.span text).stop ≤ Utf8.size text := by
    intro e he
    rcases Position.isExact_iff.mp (h.stop_exact e (hmem e he)) with ⟨before, hbefore, hstop⟩
    rw [span, hstop, Position.toOffset_eq_size hbefore]
    exact Utf8.size_le_of_prefix hbefore
  have hsequence := applySequence_descending h hmem h.schedule_descending
    (List.append_nil text).symm hbounds (fun s (hs : s ∈ []) => absurd hs List.not_mem_nil)
  have hstart : text ++ Span.substituteFrom [] (Utf8.size text) [] = text :=
    List.append_nil text
  rw [hstart, List.append_nil] at hsequence
  have hmeaning : Span.substituteFrom ((schedule edits).reverse.map (span text)) 0 text =
      substitute text edits := h.substitute_schedule
  rw [applyAll, hsequence, hmeaning]

theorem applyAll_touching_edits :
    applyAll ['a', '𝄞', '\n', 'b', 'c']
        [⟨⟨⟨0, 1⟩, ⟨0, 1⟩⟩, ['x']⟩, ⟨⟨⟨0, 1⟩, ⟨1, 1⟩⟩, ['Y']⟩, ⟨⟨⟨1, 1⟩, ⟨1, 1⟩⟩, ['z']⟩,
          ⟨⟨⟨0, 0⟩, ⟨0, 1⟩⟩, []⟩] =
      .ok ⟨['x', 'Y', 'z', 'c'], true⟩ := by
  rw [applyAll_eq_substitute]
  · decide
  · constructor
    · decide
    · decide
    · decide
    · decide
    · decide

end TextEdit
end LanguageClient

import LanguageClient.Proofs.Text.Places
import Mathlib

/-!
# Insertions

A set of insertions changes a text at the places their positions lead to in the text as it
was, and nowhere else. At a place that its position denotes, a new text is put in front of
those of all later positions. Positions past the end of a line, or past the end of the text,
share the place they lead to, and the ones applied first are there already when the others
are looked up: each new text goes where its position, seen from that place, leads in what
the later ones left. So several insertions past one end can change places or cut each other,
and only the one made last is sure to stay whole.
-/

namespace LanguageClient

/-!
# Looking up a position after insertions
-/

namespace Position

theorem columnBefore_append_break (column seen : Nat) (line rest : Text) :
    columnBefore column seen (line ++ '\n' :: rest) = columnBefore column seen line := by
  induction line generalizing seen with
  | nil => exact if_pos (Or.inl rfl)
  | cons c line ih => rw [List.cons_append, columnBefore, columnBefore, ih]

/-- Of a text put in at the place of a position, the position finds its part as seen from
there; the first character that stood behind the place stops it again. -/
theorem upTo_inserted {p : Position} {text rest tail : Text} (h : p.upTo text ++ rest = text)
    (htail : tail.head? = rest.head?) (added : Text) :
    p.upTo (p.upTo text ++ (added ++ tail)) =
      p.upTo text ++ (p.beyond (ofPrefix (p.upTo text))).upTo added := by
  by_cases hpast : (ofPrefix (p.upTo text)).before p = true
  · rw [upTo_append hpast, List.append_cancel_left_eq]
    cases rest with
    | nil =>
        rw [List.head?_eq_none_iff.mp htail, List.append_nil]
    | cons c rest =>
        obtain ⟨hline, hstops⟩ := upTo_stops h
        obtain rfl : c = '\n' := hstops.resolve_right (not_not.mpr hpast)
        obtain ⟨tail, rfl⟩ := List.head?_eq_some_iff.mp htail
        rw [beyond, if_pos hline.symm, upTo_firstLine, upTo_firstLine,
          columnBefore_append_break]
  · rw [upTo_append_of_reached hpast, (beyond_eq_start_iff (line_upTo_le p text)).mpr hpast,
      upTo_start, List.append_nil]

theorem ofOffset_toOffset (p : Position) (text : Text) :
    ofOffset text (p.toOffset text) = ofPrefix (p.upTo text) := by
  obtain ⟨rest, hrest⟩ := p.upTo_isPrefix text
  have hwhole := wholeBefore_size (p.upTo text) rest
  rw [hrest] at hwhole
  rw [ofOffset, toOffset_eq, hwhole, ofPrefix]

def IsPast (text : Text) (p : Position) : Prop :=
  (ofOffset text (p.toOffset text)).before p = true

instance (text : Text) (p : Position) : Decidable (IsPast text p) :=
  inferInstanceAs (Decidable (_ = true))

end Position

/-!
# Texts with further text at their boundaries
-/

/-- A text, which starts at `offset`, with further text at each of its boundaries. -/
def weave (added : Nat -> Text) (offset : Nat) : Text -> Text
  | [] => added offset
  | c :: rest => added offset ++ c :: weave added (offset + c.utf8Size) rest

theorem weave_congr {first second : Nat -> Text} {offset : Nat} (text : Text)
    (h : forall n, offset ≤ n -> first n = second n) :
    weave first offset text = weave second offset text := by
  induction text generalizing offset with
  | nil => exact h offset (Nat.le_refl _)
  | cons c rest ih =>
      rw [weave, weave, h offset (Nat.le_refl _),
        ih fun n hn => h n (Nat.le_trans (Nat.le_add_right _ _) hn)]

theorem weave_nil (offset : Nat) (text : Text) : weave (fun _ => []) offset text = text := by
  induction text generalizing offset with
  | nil => rfl
  | cons c rest ih => rw [weave, ih, List.nil_append]

theorem weave_append {added : Nat -> Text} {offset : Nat} {before : Text} (rest : Text)
    (h : forall n, n < offset + Utf8.size before -> added n = []) :
    weave added offset (before ++ rest) =
      before ++ weave added (offset + Utf8.size before) rest := by
  induction before generalizing offset with
  | nil => rfl
  | cons c before ih =>
      have hc := c.utf8Size_pos
      rw [Utf8.size_cons] at h ⊢
      rw [List.cons_append, weave, h offset (by omega), ih fun n hn => h n (by omega),
        Nat.add_assoc]
      rfl

theorem exists_weave (added : Nat -> Text) (offset : Nat) (text : Text) :
    exists tail : Text, tail.head? = text.head? ∧
      forall other : Nat -> Text, (forall n, offset < n -> other n = added n) ->
        weave other offset text = other offset ++ tail := by
  cases text with
  | nil => exact ⟨[], rfl, fun other _ => (List.append_nil _).symm⟩
  | cons c rest =>
      refine ⟨c :: weave added (offset + c.utf8Size) rest, rfl, ?_⟩
      intro other hother
      have hc := c.utf8Size_pos
      rw [weave, weave_congr rest fun n hn => hother n (by omega)]

namespace TextEdit

/-!
# One insertion
-/

def putIn (p : Position) (new text : Text) : Text :=
  splice text (p.toOffset text) (p.toOffset text) new

theorem applyOne_insertion {e : TextEdit} (h : e.range.stop = e.range.start) (text : Text) :
    e.applyOne text = .ok (putIn e.range.start e.newText text) := by
  rw [applyOne, h, if_neg (Nat.lt_irrefl _), putIn]

theorem putIn_eq {p : Position} {text before rest : Text} (hbefore : p.upTo text = before)
    (h : before ++ rest = text) (new : Text) : putIn p new text = before ++ (new ++ rest) := by
  have hsplice := splice_prefixes before [] rest new
  rw [List.nil_append, List.append_nil, h] at hsplice
  rw [putIn, Position.toOffset_eq, hbefore, hsplice]

theorem putIn_start (new text : Text) : putIn ⟨0, 0⟩ new text = new ++ text :=
  putIn_eq (Position.upTo_start text) (List.nil_append text) new

theorem putIn_nil (p : Position) (new : Text) : putIn p new [] = new := by
  rw [putIn_eq (Position.upTo_nil p) rfl, List.nil_append, List.append_nil]

theorem putIn_inserted {p : Position} {text rest tail : Text} (h : p.upTo text ++ rest = text)
    (htail : tail.head? = rest.head?) (added new : Text) :
    putIn p new (p.upTo text ++ (added ++ tail)) =
      p.upTo text ++ (putIn (p.beyond (Position.ofPrefix (p.upTo text))) new added ++
        tail) := by
  have hfound := Position.upTo_inserted h htail added
  obtain ⟨back, hback⟩ :=
    (p.beyond (Position.ofPrefix (p.upTo text))).upTo_isPrefix added
  have hpieces : p.upTo text ++
      (p.beyond (Position.ofPrefix (p.upTo text))).upTo added ++ (back ++ tail) =
      p.upTo text ++ (added ++ tail) := by
    rw [List.append_assoc, ← List.append_assoc _ back, hback]
  rw [putIn_eq hfound hpieces, putIn_eq rfl hback]
  simp only [List.append_assoc]

/-!
# All insertions
-/

/-- What insertions that lead to one place leave there, in the order of their
positions. Each is put into what the later ones leave, where its position leads as it
is seen from the place. -/
def gather (place : Position) : List TextEdit -> Text
  | [] => []
  | e :: later => putIn (e.range.start.beyond place) e.newText (gather place later)

def startingAt (text : Text) (offset : Nat) (edits : List TextEdit) : List TextEdit :=
  edits.filter fun e => e.range.start.toOffset text = offset

/-- What insertions in the order of their positions leave at each boundary of a text. -/
def landed (text : Text) (ordered : List TextEdit) (offset : Nat) : Text :=
  gather (Position.ofOffset text offset) (startingAt text offset ordered)

theorem landed_cons_self (text : Text) (e : TextEdit) (later : List TextEdit) :
    landed text (e :: later) (e.range.start.toOffset text) =
      putIn (e.range.start.beyond (Position.ofPrefix (e.range.start.upTo text))) e.newText
        (landed text later (e.range.start.toOffset text)) := by
  rw [landed, landed, startingAt, List.filter_cons_of_pos (by simp), gather,
    Position.ofOffset_toOffset]
  rfl

theorem landed_cons_of_ne {text : Text} {e : TextEdit} {offset : Nat} (later : List TextEdit)
    (h : e.range.start.toOffset text ≠ offset) :
    landed text (e :: later) offset = landed text later offset := by
  rw [landed, landed, startingAt, List.filter_cons_of_neg (by simpa using h)]
  rfl

theorem landed_of_lt {text : Text} {ordered : List TextEdit} {offset : Nat}
    (h : forall e, e ∈ ordered -> offset < e.range.start.toOffset text) :
    landed text ordered offset = [] := by
  have hnone : startingAt text offset ordered = [] := by
    apply List.filter_eq_nil_iff.mpr
    intro e he
    simpa using Nat.ne_of_gt (h e he)
  rw [landed, hnone, gather]

/-- One more insertion, with a position not behind those of the insertions made so far. -/
theorem putIn_weave {text : Text} {e : TextEdit} {later : List TextEdit}
    (h : forall f, f ∈ later -> ¬ f.range.start.before e.range.start = true) :
    putIn e.range.start e.newText (weave (landed text later) 0 text) =
      weave (landed text (e :: later)) 0 text := by
  obtain ⟨rest, hrest⟩ := e.range.start.upTo_isPrefix text
  have hoffset : e.range.start.toOffset text = Utf8.size (e.range.start.upTo text) := rfl
  have hlater : forall f, f ∈ later ->
      e.range.start.toOffset text ≤ f.range.start.toOffset text := fun f hf =>
    Utf8.size_le_of_prefix (Position.upTo_mono (h f hf) text)
  -- Nothing stands before the place of `e`, and behind it nothing changes.
  have hfront : forall n, n < 0 + Utf8.size (e.range.start.upTo text) ->
      landed text later n = [] := by
    intro n hn
    apply landed_of_lt
    intro f hf
    have hle := hlater f hf
    omega
  have hfront' : forall n, n < 0 + Utf8.size (e.range.start.upTo text) ->
      landed text (e :: later) n = [] := by
    intro n hn
    rw [landed_cons_of_ne later (by omega), hfront n hn]
  obtain ⟨tail, hhead, htail⟩ := exists_weave (landed text later)
    (0 + Utf8.size (e.range.start.upTo text)) rest
  have hmade := weave_append rest hfront
  have hmaking := weave_append rest hfront'
  rw [htail _ fun _ _ => rfl] at hmade
  rw [htail _ fun n hn => landed_cons_of_ne later (by omega)] at hmaking
  rw [Nat.zero_add, ← hoffset, hrest] at hmade hmaking
  rw [hmade, hmaking, putIn_inserted hrest hhead, landed_cons_self]

/-- Insertions in the order of their positions, applied from the last to the first. -/
theorem applySequence_insertions {text : Text} {ordered : List TextEdit}
    (h : forall e, e ∈ ordered -> e.range.stop = e.range.start)
    (hordered : ordered.Pairwise fun e f => ¬ f.range.start.before e.range.start = true) :
    applySequence ordered.reverse text = .ok (weave (landed text ordered) 0 text) := by
  induction ordered with
  | nil =>
      have hnone : landed text [] = fun _ => [] := rfl
      rw [hnone, weave_nil]
      rfl
  | cons e later ih =>
      obtain ⟨hfirst, hlater⟩ := List.pairwise_cons.mp hordered
      have hrest := ih (fun f hf => h f (List.mem_cons_of_mem e hf)) hlater
      have hmade :=
        applyOne_insertion (h e List.mem_cons_self) (weave (landed text later) 0 text)
      rw [putIn_weave hfirst] at hmade
      have hlast : applySequence [e] (weave (landed text later) 0 text) =
          .ok (weave (landed text (e :: later)) 0 text) := by
        rw [applySequence, hmade]
        rfl
      rw [List.reverse_cons, applySequence_append, hrest]
      exact hlast

/-!
# Insertions in place
-/

theorem gather_eq_flatMap {place : Position} {ordered : List TextEdit}
    (hplace : forall e, e ∈ ordered -> place.line ≤ e.range.start.line)
    (hordered : ordered.Pairwise fun e f => ¬ f.range.start.before e.range.start = true)
    (hpast : ordered.Pairwise fun e f =>
      place.before e.range.start = true -> ¬ place.before f.range.start = true) :
    gather place ordered = ordered.flatMap (·.newText) := by
  induction ordered with
  | nil => rfl
  | cons e later ih =>
      obtain ⟨hfirst, hlater⟩ := List.pairwise_cons.mp hordered
      obtain ⟨hone, hothers⟩ := List.pairwise_cons.mp hpast
      have hrest := ih (fun f hf => hplace f (List.mem_cons_of_mem e hf)) hlater hothers
      cases later with
      | nil =>
          rw [gather, gather, putIn_nil, List.flatMap_cons, List.flatMap_nil, List.append_nil]
      | cons f more =>
          have hreached : ¬ place.before e.range.start = true := by
            intro hbefore
            apply hone f List.mem_cons_self hbefore
            have hnot := hfirst f List.mem_cons_self
            rw [Position.before_iff] at hbefore hnot ⊢
            omega
          rw [gather, (Position.beyond_eq_start_iff (hplace e List.mem_cons_self)).mpr
            hreached, putIn_start, hrest, ← List.flatMap_cons]

theorem mem_startingAt {text : Text} {offset : Nat} {edits : List TextEdit} {e : TextEdit} :
    e ∈ startingAt text offset edits ↔ e ∈ edits ∧ e.range.start.toOffset text = offset := by
  rw [startingAt, List.mem_filter, decide_eq_true_eq]

theorem landed_eq_flatMap {text : Text} {ordered : List TextEdit}
    (hordered : ordered.Pairwise fun e f => ¬ f.range.start.before e.range.start = true)
    (hpast : ordered.Pairwise fun e f =>
      e.range.start.toOffset text = f.range.start.toOffset text ->
        Position.IsPast text e.range.start -> ¬ Position.IsPast text f.range.start) (offset :
        Nat) :
    landed text ordered offset = (startingAt text offset ordered).flatMap (·.newText) := by
  apply gather_eq_flatMap
  · intro e he
    obtain ⟨-, rfl⟩ := mem_startingAt.mp he
    rw [Position.ofOffset_toOffset]
    exact Position.line_upTo_le _ _
  · exact hordered.filter _
  · have hsame := hpast.filter fun e => decide (e.range.start.toOffset text = offset)
    apply hsame.imp_of_mem
    intro e f he hf hnotBoth hefirst
    obtain ⟨-, heoffset⟩ := mem_startingAt.mp he
    obtain ⟨-, hfoffset⟩ := mem_startingAt.mp hf
    have hnot := hnotBoth (heoffset.trans hfoffset.symm)
    rw [Position.IsPast, Position.IsPast, heoffset, hfoffset] at hnot
    exact hnot hefirst

theorem substituteFrom_insertions {spans : List Span}
    (h : forall s, s ∈ spans -> s.stop = s.start) (offset : Nat) (text : Text) :
    Span.substituteFrom spans offset text = weave (Span.insertedAt spans) offset text := by
  induction text generalizing offset with
  | nil => rfl
  | cons c rest ih =>
      have hcovered : Span.covered spans offset = false := by
        apply List.any_eq_false.mpr
        intro s hs
        rw [h s hs]
        simp
      rw [Span.substituteFrom, hcovered, ih]
      rfl

theorem substitute_insertions {text : Text} {edits : List TextEdit}
    (h : forall e, e ∈ edits -> e.range.stop = e.range.start) :
    substitute text edits =
      weave (fun offset => (startingAt text offset edits).flatMap (·.newText)) 0 text := by
  rw [substitute, substituteFrom_insertions]
  · apply weave_congr
    intro offset _
    rw [Span.insertedAt, List.filter_map, List.flatMap_map]
    rfl
  · intro s hs
    obtain ⟨e, he, rfl⟩ := List.mem_map.mp hs
    rw [span, h e he]

/-- Insertions never fail. At each place of the text as it was they leave what they leave there
together, and where no two of them lie past one place, that is their new texts, in the order of
positions and among equal positions in input order. -/
theorem applyAll_insertions {text : Text} {edits : List TextEdit}
    (h : forall e, e ∈ edits -> e.range.stop = e.range.start) :
    applyAll text edits =
        .ok ⟨weave (landed text (ascending edits)) 0 text,
          weave (landed text (ascending edits)) 0 text != text⟩ ∧
      ((edits.Pairwise fun e f =>
          e.range.start.toOffset text = f.range.start.toOffset text ->
            Position.IsPast text e.range.start -> ¬ Position.IsPast text f.range.start) ->
        applyAll text edits =
          .ok ⟨substitute text (ascending edits),
            substitute text (ascending edits) != text⟩) := by
  have hmem : forall e, e ∈ ascending edits -> e.range.stop = e.range.start := fun e he =>
    h e ((ascending_perm edits).mem_iff.mp he)
  have hsequence : applySequence (ascending edits).reverse text =
      .ok (weave (landed text (ascending edits)) 0 text) :=
    applySequence_insertions hmem (ascending_pairwise edits)
  rw [← reverse_schedule, List.reverse_reverse, reverse_schedule] at hsequence
  have hall := applyAll_of_applySequence hsequence
  constructor
  · exact hall
  · intro hpast
    have hpast' := ((ascending_perm edits).pairwise_iff fun hnot hsame hf he =>
      hnot hsame.symm he hf).mpr hpast
    have hlanded := landed_eq_flatMap (ascending_pairwise edits) hpast'
    rw [substitute_insertions hmem, ← weave_congr text fun offset _ => hlanded offset]
    exact hall

theorem applyAll_insertions_pastEnd :
    applyAll ['a', 'b', '\n', 'c']
        [⟨⟨⟨0, 9⟩, ⟨0, 9⟩⟩, ['Q', 'R']⟩, ⟨⟨⟨0, 3⟩, ⟨0, 3⟩⟩, ['P']⟩] =
      .ok ⟨['a', 'b', 'Q', 'P', 'R', '\n', 'c'], true⟩ ∧
    applyAll ['a', 'b', '\n', 'c']
        [⟨⟨⟨0, 9⟩, ⟨0, 9⟩⟩, ['Q', 'R']⟩, ⟨⟨⟨0, 2⟩, ⟨0, 2⟩⟩, ['P']⟩, ⟨⟨⟨0, 2⟩, ⟨0, 2⟩⟩,
          ['O']⟩] =
      .ok ⟨['a', 'b', 'P', 'O', 'Q', 'R', '\n', 'c'], true⟩ := by
  constructor
  · rw [(applyAll_insertions (by decide)).1]
    cbv
  · rw [(applyAll_insertions (by decide)).2 (by decide)]
    cbv

/-- Two insertions at one position below the last line do not keep their input order. -/
theorem not_all_insertions_in_place :
    ¬ forall (text : Text) (edits : List TextEdit),
      (forall e, e ∈ edits -> e.range.stop = e.range.start) ->
      applyAll text edits =
        .ok ⟨substitute text (ascending edits),
          substitute text (ascending edits) != text⟩ := by
  intro h
  have hsame := h ['a', 'b', 'c']
    [⟨⟨⟨40, 0⟩, ⟨40, 0⟩⟩, ['1']⟩, ⟨⟨⟨40, 0⟩, ⟨40, 0⟩⟩, ['2']⟩] (by decide)
  have hmeant : substitute ['a', 'b', 'c']
      (ascending [⟨⟨⟨40, 0⟩, ⟨40, 0⟩⟩, ['1']⟩, ⟨⟨⟨40, 0⟩, ⟨40, 0⟩⟩, ['2']⟩]) =
      ['a', 'b', 'c', '1', '2'] := by
    cbv
  have hdone : applyAll ['a', 'b', 'c']
      [⟨⟨⟨40, 0⟩, ⟨40, 0⟩⟩, ['1']⟩, ⟨⟨⟨40, 0⟩, ⟨40, 0⟩⟩, ['2']⟩] =
      .ok ⟨['a', 'b', 'c', '2', '1'], true⟩ := by
    cbv
  rw [hmeant, hdone] at hsame
  revert hsame
  decide

end TextEdit
end LanguageClient

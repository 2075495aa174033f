import LanguageClient.Proofs.Text.Substitution

/-!
# The lines that edits leave alone

An edit cuts the text it meets at the places its positions lead to. A position on a line
leads behind all lines above that line, whatever they hold, and to a place above every line
feed from that line on. So lines above all starts stay in front. Lines below all stops stay
at the end, as long as the edits applied later do not come back down over what the earlier
ones left of their last lines.
-/

namespace LanguageClient

/-!
# Whole lines
-/

namespace Lines

/-- The lines of a text with their line feeds. The last line has none. -/
def full : Text -> List Text
  | [] => [[]]
  | c :: rest =>
      if c = '\n' then ['\n'] :: full rest
      else
        match full rest with
        | [] => [[c]]
        | first :: more => (c :: first) :: more

theorem full_ne_nil (text : Text) : full text ≠ [] := by
  cases text with
  | nil => exact List.cons_ne_nil [] []
  | cons c rest =>
      rw [full]
      by_cases hc : c = '\n'
      · rw [if_pos hc]
        exact List.cons_ne_nil _ _
      · rw [if_neg hc]
        cases full rest with
        | nil => exact List.cons_ne_nil _ _
        | cons first more => exact List.cons_ne_nil _ _

theorem full_cons_break (rest : Text) : full ('\n' :: rest) = ['\n'] :: full rest :=
  if_pos rfl

theorem full_cons {c : Char} {rest first : Text} {more : List Text} (hc : c ≠ '\n')
    (h : full rest = first :: more) : full (c :: rest) = (c :: first) :: more := by
  rw [full, if_neg hc, h]

theorem exists_full (text : Text) : exists first more, full text = first :: more :=
  List.exists_cons_of_ne_nil (full_ne_nil text)

@[simp] theorem flatten_full (text : Text) : (full text).flatten = text := by
  induction text with
  | nil => rfl
  | cons c rest ih =>
      by_cases hc : c = '\n'
      · rw [hc, full_cons_break, List.flatten_cons, ih]
        rfl
      · obtain ⟨first, more, hfull⟩ := exists_full rest
        rw [full_cons hc hfull, List.flatten_cons, List.cons_append, ← List.flatten_cons,
          ← hfull, ih]

theorem of_mem_full {text line : Text} (h : line ∈ full text) :
    exists body, '\n' ∉ body ∧ (line = body ∨ line = body ++ ['\n']) := by
  induction text generalizing line with
  | nil =>
      cases List.mem_singleton.mp h
      exact ⟨[], List.not_mem_nil, Or.inl rfl⟩
  | cons c rest ih =>
      by_cases hc : c = '\n'
      · rw [hc, full_cons_break] at h
        cases h with
        | head => exact ⟨[], List.not_mem_nil, Or.inr rfl⟩
        | tail _ h => exact ih h
      · obtain ⟨first, more, hfull⟩ := exists_full rest
        rw [full_cons hc hfull] at h
        rw [hfull] at ih
        cases h with
        | head =>
            rcases ih List.mem_cons_self with ⟨body, hbody, rfl | rfl⟩
            · exact ⟨c :: first, by simp [Ne.symm hc, hbody], Or.inl rfl⟩
            · exact ⟨c :: body, by simp [Ne.symm hc, hbody], Or.inr rfl⟩
        | tail _ h => exact ih (List.mem_cons_of_mem first h)

/-- A text of whole lines: whatever comes behind it starts on a line of its own. -/
def IsWhole (text : Text) : Prop :=
  forall c, text.getLast? = some c -> c = '\n'

theorem isWhole_append {first second : Text} (hne : second ≠ []) :
    IsWhole (first ++ second) <-> IsWhole second := by
  rw [IsWhole, IsWhole, List.getLast?_append_of_ne_nil _ hne]

theorem isWhole_cons_break {text : Text} (h : IsWhole text) : IsWhole ('\n' :: text) := by
  intro c hc
  cases text with
  | nil => exact (Option.some.inj hc).symm
  | cons d text => exact h c (by rwa [List.getLast?_cons_cons] at hc)

theorem IsWhole.exists_count {text : Text} (h : IsWhole text) (hne : text ≠ []) :
    exists n, text.count '\n' = n + 1 := by
  rcases List.eq_nil_or_concat text with hnil | ⟨front, last, rfl⟩
  · exact absurd hnil hne
  · rw [List.concat_eq_append] at h ⊢
    rw [h last List.getLast?_concat, List.count_append, List.count_singleton_self]
    exact ⟨_, rfl⟩

theorem isWhole_take {text : Text} {n : Nat} (h : n < (full text).length) :
    IsWhole ((full text).take n).flatten ∧ ((full text).take n).flatten.count '\n' = n := by
  induction text generalizing n with
  | nil =>
      cases Nat.lt_one_iff.mp h
      exact ⟨nofun, rfl⟩
  | cons c rest ih =>
      cases n with
      | zero => exact ⟨nofun, rfl⟩
      | succ n =>
          by_cases hc : c = '\n'
          · rw [hc, full_cons_break] at h ⊢
            obtain ⟨hwhole, hcount⟩ := ih (Nat.lt_of_succ_lt_succ h)
            rw [List.take_succ_cons, List.flatten_cons, List.singleton_append,
              List.count_cons_self, hcount]
            exact ⟨isWhole_cons_break hwhole, rfl⟩
          · obtain ⟨first, more, hfull⟩ := exists_full rest
            rw [full_cons hc hfull, List.length_cons, ← List.length_cons, ← hfull] at h
            obtain ⟨hwhole, hcount⟩ := ih h
            have htake : (((c :: first) :: more).take (n + 1)).flatten =
                [c] ++ ((full rest).take (n + 1)).flatten := by
              rw [hfull]
              rfl
            have hne : ((full rest).take (n + 1)).flatten ≠ [] := by
              intro hnil
              rw [hnil] at hcount
              exact absurd hcount.symm (Nat.succ_ne_zero n)
            rw [full_cons hc hfull, htake, isWhole_append hne, List.singleton_append,
              List.count_cons_of_ne hc]
            exact ⟨hwhole, hcount⟩

theorem exists_parts {n m : Nat} (text : Text) (h : n ≤ m) :
    exists middle, text = ((full text).take n).flatten ++
      (middle ++ ((full text).drop m).flatten) ∧
      ((full text).take n).flatten ++ middle = ((full text).take m).flatten := by
  have htake : (full text).take n = ((full text).take m).take n := by
    rw [List.take_take, Nat.min_eq_left h]
  have hparts : ((full text).take n).flatten ++ (((full text).take m).drop n).flatten =
      ((full text).take m).flatten := by
    rw [← List.flatten_append, htake, List.take_append_drop]
  refine ⟨_, ?_, hparts⟩
  rw [← List.append_assoc, hparts, ← List.flatten_append, List.take_append_drop, flatten_full]

end Lines

/-!
# Where positions lead
-/

namespace Position

theorem columnBefore_isPrefix (column seen : Nat) (text : Text) :
    columnBefore column seen text <+: text := by
  induction text generalizing seen with
  | nil => exact List.prefix_refl _
  | cons c rest ih =>
      rw [columnBefore]
      split
      · exact List.nil_prefix
      · exact (List.prefix_cons_inj c).mpr (ih _)

theorem textBefore_isPrefix (column line : Nat) (text : Text) :
    textBefore column line text <+: text := by
  induction text generalizing line with
  | nil => cases line <;> exact List.prefix_refl _
  | cons c rest ih =>
      cases line with
      | zero => exact columnBefore_isPrefix column 0 (c :: rest)
      | succ line =>
          rw [textBefore, List.prefix_cons_inj]
          split
          · exact ih line
          · exact ih (line + 1)

theorem not_mem_columnBefore (column seen : Nat) (text : Text) :
    '\n' ∉ columnBefore column seen text := by
  induction text generalizing seen with
  | nil => exact List.not_mem_nil
  | cons c rest ih =>
      rw [columnBefore]
      by_cases hc : c = '\n' ∨ column ≤ seen
      · rw [if_pos hc]
        exact List.not_mem_nil
      · rw [if_neg hc, List.mem_cons, not_or]
        exact ⟨fun heq => hc (Or.inl heq.symm), ih _⟩

theorem count_textBefore (column line : Nat) (text : Text) :
    (textBefore column line text).count '\n' = min line (text.count '\n') := by
  induction text generalizing line with
  | nil => cases line <;> simp [textBefore, columnBefore]
  | cons c rest ih =>
      cases line with
      | zero =>
          rw [textBefore, List.count_eq_zero.mpr (not_mem_columnBefore column 0 _),
            Nat.zero_min]
      | succ line =>
          rw [textBefore]
          by_cases hc : c = '\n'
          · rw [if_pos hc, hc, List.count_cons_self, List.count_cons_self, ih]
            omega
          · rw [if_neg hc, List.count_cons_of_ne hc, List.count_cons_of_ne hc, ih]

theorem textBefore_append {whole : Text} (h : Lines.IsWhole whole) (column line : Nat)
    (rest : Text) :
    textBefore column (whole.count '\n' + line) (whole ++ rest) =
      whole ++ textBefore column line rest := by
  induction whole with
  | nil => rw [List.count_nil, Nat.zero_add, List.nil_append, List.nil_append]
  | cons c whole ih =>
      cases whole with
      | nil =>
          rw [h c rfl, List.count_cons_self, List.count_nil, Nat.zero_add, Nat.add_comm]
          rfl
      | cons d whole =>
          have hwhole : Lines.IsWhole (d :: whole) := by
            apply (Lines.isWhole_append (List.cons_ne_nil d whole)).mp
            exact (show Lines.IsWhole ([c] ++ d :: whole) from h)
          by_cases hc : c = '\n'
          · rw [hc, List.count_cons_self, Nat.add_right_comm, List.cons_append, textBefore,
              if_pos rfl, ih hwhole]
            rfl
          · obtain ⟨n, hn⟩ := hwhole.exists_count (List.cons_ne_nil d whole)
            have hrest := ih hwhole
            rw [hn, Nat.add_right_comm] at hrest
            rw [List.count_cons_of_ne hc, hn, Nat.add_right_comm, List.cons_append, textBefore,
              if_neg hc, hrest]
            rfl

theorem textBefore_isPrefix_of_lt {above : Text} {line : Nat} (column : Nat) (rest : Text)
    (h : line < above.count '\n') : textBefore column line (above ++ rest) <+: above := by
  rcases List.prefix_or_prefix_of_prefix (textBefore_isPrefix column line (above ++ rest))
    (List.prefix_append above rest) with hle | hge
  · exact hle
  · have hcount := hge.sublist.count_le '\n'
    rw [count_textBefore] at hcount
    omega

theorem textBefore_isPrefix_of_not_before {whole : Text} {p : Position} (rest : Text)
    (h : Lines.IsWhole whole) (hp : ¬ before ⟨whole.count '\n', 0⟩ p = true) :
    textBefore p.character p.line (whole ++ rest) <+: whole := by
  by_cases hline : p.line < whole.count '\n'
  · exact textBefore_isPrefix_of_lt p.character rest hline
  · have hend : p.line = whole.count '\n' + 0 ∧ p.character = 0 := by
      simp [before] at hp
      omega
    have hnone : textBefore 0 0 rest = [] := by
      cases rest <;> simp [textBefore, columnBefore]
    rw [hend.1, hend.2, textBefore_append h, hnone, List.append_nil]

end Position

/-!
# Edits one after the other
-/

namespace TextEdit

open Lines

/-- An edit that is applied cuts its text where its range starts and where it stops. -/
theorem exists_cut {e : TextEdit} {text out : Text} (h : e.applyOne text = .ok out) :
    exists before middle rest, text = before ++ (middle ++ rest) ∧
      out = before ++ (e.newText ++ rest) ∧
      before = Position.textBefore e.range.start.character e.range.start.line text ∧
      before ++ middle =
      Position.textBefore e.range.stop.character e.range.stop.line text := by
  simp only [applyOne] at h
  split at h
  case isTrue => contradiction
  case isFalse hle =>
    have hstart := Position.textBefore_isPrefix e.range.start.character e.range.start.line text
    have hstop := Position.textBefore_isPrefix e.range.stop.character e.range.stop.line text
    obtain ⟨middle, hmiddle⟩ := Utf8.prefix_of_size_le hstart hstop (Nat.le_of_not_lt hle)
    obtain ⟨rest, hrest⟩ := hstop
    refine ⟨_, middle, rest, ?_, ?_, rfl, hmiddle⟩
    · rw [← List.append_assoc, hmiddle, hrest]
    · rw [← Except.ok.inj h]
      have hsplice := splice_prefixes
        (Position.textBefore e.range.start.character e.range.start.line text) middle rest
        e.newText
      rw [hmiddle, ← List.append_assoc, hmiddle, hrest] at hsplice
      exact hsplice

theorem exists_cut_behind {e : TextEdit} {head text out : Text}
    (h : e.applyOne (head ++ text) = .ok out) (hhead : IsWhole head)
    (hstart : head.count '\n' ≤ e.range.start.line) :
    exists before middle rest, text = before ++ (middle ++ rest) ∧
      out = head ++ (before ++ (e.newText ++ rest)) ∧
      (head ++ before).count '\n' = min e.range.start.line ((head ++ text).count '\n') ∧
      head ++ (before ++ middle) =
        Position.textBefore e.range.stop.character e.range.stop.line (head ++ text) := by
  obtain ⟨before, middle, rest, htext, hout, hbefore, hmiddle⟩ := exists_cut h
  have hcount :=
    Position.count_textBefore e.range.start.character e.range.start.line (head ++ text)
  obtain ⟨line, hline⟩ := Nat.le.dest hstart
  rw [← hbefore] at hcount
  rw [← hline, Position.textBefore_append hhead] at hbefore
  rw [hbefore, List.append_assoc, List.append_cancel_left_eq] at htext
  rw [hbefore, List.append_assoc] at hmiddle hout
  rw [hbefore] at hcount
  exact ⟨_, middle, rest, htext, hout, hcount, hmiddle⟩

theorem applyAll_of_applySequence {text out : Text} {edits : List TextEdit}
    (h : applySequence (schedule edits) text = .ok out) :
    applyAll text edits = .ok ⟨out, out != text⟩ := by
  rw [applyAll, h]

theorem applySequence_of_applyAll {text : Text} {edits : List TextEdit} {out : EditOutcome}
    (h : applyAll text edits = .ok out) :
    applySequence (schedule edits) text = .ok out.text := by
  unfold applyAll at h
  split at h
  case h_1 result hresult => rw [hresult, ← Except.ok.inj h]
  case h_2 => contradiction

theorem applySequence_cons_eq_ok {e : TextEdit} {edits : List TextEdit} {text out : Text}
    (h : applySequence (e :: edits) text = .ok out) :
    exists next, e.applyOne text = .ok next ∧ applySequence edits next = .ok out := by
  rw [applySequence] at h
  split at h
  case h_1 next happly => exact ⟨next, happly, h⟩
  case h_2 => contradiction

theorem applySequence_append (first second : List TextEdit) (text : Text) :
    applySequence (first ++ second) text =
      applySequence first text >>= applySequence second := by
  induction first generalizing text with
  | nil => rfl
  | cons e first ih =>
      rw [List.cons_append, applySequence, applySequence]
      cases e.applyOne text with
      | ok next => exact ih next
      | error bad => rfl

theorem mem_of_applySequence {edits : List TextEdit} {text out : Text} {c : Char}
    (h : applySequence edits text = .ok out) (hc : c ∈ out) :
    c ∈ text ∨ exists e, e ∈ edits ∧ c ∈ e.newText := by
  induction edits generalizing text with
  | nil =>
      rw [Except.ok.inj h]
      exact Or.inl hc
  | cons e edits ih =>
      obtain ⟨next, happly, hrest⟩ := applySequence_cons_eq_ok h
      rcases ih hrest with hnext | ⟨f, hf, hmem⟩
      · obtain ⟨before, middle, rest, rfl, rfl, -, -⟩ := exists_cut happly
        simp only [List.mem_append] at hnext ⊢
        rcases hnext with hbefore | hnew | hafter
        · exact Or.inl (Or.inl hbefore)
        · exact Or.inr ⟨e, List.mem_cons_self, hnew⟩
        · exact Or.inl (Or.inr (Or.inr hafter))
      · exact Or.inr ⟨f, List.mem_cons_of_mem e hf, hmem⟩

theorem applySequence_front {edits : List TextEdit} {head text out : Text}
    (h : applySequence edits (head ++ text) = .ok out) (hhead : IsWhole head)
    (hstart : forall e, e ∈ edits -> head.count '\n' ≤ e.range.start.line) :
    exists rest, out = head ++ rest := by
  induction edits generalizing text with
  | nil => exact ⟨text, (Except.ok.inj h).symm⟩
  | cons e edits ih =>
      obtain ⟨next, happly, hrest⟩ := applySequence_cons_eq_ok h
      obtain ⟨before, middle, rest, -, rfl, -, -⟩ :=
        exists_cut_behind happly hhead (hstart e List.mem_cons_self)
      exact ih hrest fun f hf => hstart f (List.mem_cons_of_mem e hf)

theorem applyOne_frame {e : TextEdit} {head middle tail out : Text}
    (h : e.applyOne (head ++ (middle ++ tail)) = .ok out) (hhead : IsWhole head)
    (hmiddle : IsWhole (head ++ middle)) (hstart : head.count '\n' ≤ e.range.start.line)
    (hstop : e.range.stop.line < (head ++ middle).count '\n') :
    exists middle', out = head ++ (middle' ++ tail) ∧ IsWhole (head ++ middle') ∧
      e.range.start.line < (head ++ middle').count '\n' := by
  obtain ⟨before, cut, rest, htext, rfl, hbefore, hcut⟩ := exists_cut_behind h hhead hstart
  have hcount := Position.count_textBefore e.range.stop.character e.range.stop.line
    (head ++ (middle ++ tail))
  have hinside := Position.textBefore_isPrefix_of_lt e.range.stop.character tail hstop
  rw [List.append_assoc, ← hcut, List.prefix_append_right_inj] at hinside
  rw [← hcut] at hcount
  obtain ⟨left, rfl⟩ := hinside
  obtain rfl : rest = left ++ tail := by
    simpa using htext.symm
  simp only [List.count_append] at hstop hbefore hcount
  have hbreak : 0 < left.count '\n' := by omega
  have hne : left ≠ [] := by
    rintro rfl
    exact absurd hbreak (Nat.lt_irrefl 0)
  refine ⟨before ++ (e.newText ++ left), by simp, ?_, ?_⟩
  · rw [← List.append_assoc, isWhole_append hne] at hmiddle
    rw [← List.append_assoc, ← List.append_assoc, isWhole_append hne]
    exact hmiddle
  · simp only [List.count_append]
    omega

theorem applySequence_frame {edits : List TextEdit} {head middle tail out : Text}
    (h : applySequence edits (head ++ (middle ++ tail)) = .ok out) (hhead : IsWhole head)
    (hmiddle : IsWhole (head ++ middle))
    (hstart : forall e, e ∈ edits -> head.count '\n' ≤ e.range.start.line)
    (hstop : forall e, e ∈ edits -> e.range.stop.line < (head ++ middle).count '\n')
    (hascending : edits.Pairwise fun e f => f.range.stop.line ≤ e.range.start.line) :
    exists middle', out = head ++ (middle' ++ tail) ∧ IsWhole (head ++ middle') := by
  induction edits generalizing middle with
  | nil => exact ⟨middle, (Except.ok.inj h).symm, hmiddle⟩
  | cons e edits ih =>
      obtain ⟨next, happly, hrest⟩ := applySequence_cons_eq_ok h
      obtain ⟨hbelow, hascending⟩ := List.pairwise_cons.mp hascending
      -- What is left of the lines of `e` ends on a line of its own below the start of `e`.
      obtain ⟨middle', rfl, hwhole, hline⟩ := applyOne_frame happly hhead hmiddle
        (hstart e List.mem_cons_self) (hstop e List.mem_cons_self)
      exact ih hrest hwhole (fun f hf => hstart f (List.mem_cons_of_mem e hf))
        (fun f hf => Nat.lt_of_le_of_lt (hbelow f hf) hline) hascending

end TextEdit

/-!
# Edits that fit together
-/

namespace Span

theorem substituteFrom_behind {spans : List Span} {offset : Nat} (text : Text)
    (h : forall s, s ∈ spans -> s.start < offset ∧ s.stop ≤ offset) :
    substituteFrom spans offset text = text := by
  induction spans with
  | nil =>
      induction text generalizing offset with
      | nil => rfl
      | cons c rest ih =>
          rw [substituteFrom, ih fun s hs => absurd hs List.not_mem_nil]
          rfl
  | cons s spans ih =>
      have hs := h s List.mem_cons_self
      rw [substituteFrom_past text hs.1 hs.2, ih fun t ht => h t (List.mem_cons_of_mem s ht)]

theorem substituteFrom_append_behind {spans : List Span} {offset : Nat} {text : Text}
    (rest : Text) (h : forall s, s ∈ spans ->
      s.start ≤ offset + Utf8.size text ∧ s.stop ≤ offset + Utf8.size text) :
    exists text', substituteFrom spans offset (text ++ rest) = text' ++ rest := by
  induction text generalizing offset with
  | nil =>
      cases rest with
      | nil => exact ⟨_, (List.append_nil _).symm⟩
      | cons c rest =>
          rw [Utf8.size_nil, Nat.add_zero] at h
          have hc := c.utf8Size_pos
          have hcovered : covered spans offset = false := by
            apply List.any_eq_false.mpr
            intro s hs
            have hstop := (h s hs).2
            simp
            omega
          have hbehind : forall s, s ∈ spans ->
              s.start < offset + c.utf8Size ∧ s.stop ≤ offset + c.utf8Size := by
            intro s hs
            have hs' := h s hs
            omega
          refine ⟨insertedAt spans offset, ?_⟩
          rw [List.nil_append, substituteFrom, hcovered, substituteFrom_behind rest hbehind]
          rfl
  | cons c text ih =>
      rw [Utf8.size_cons, ← Nat.add_assoc] at h
      obtain ⟨text', hrest⟩ := ih h
      rw [List.cons_append, substituteFrom, hrest, ← List.append_assoc, ← List.append_assoc]
      exact ⟨_, rfl⟩

theorem newText_isInfix_substituteFrom {s : Span} {spans : List Span} {offset : Nat}
    {before : Text}
    (rest : Text) (hs : s ∈ spans) (hstart : s.start = offset + Utf8.size before) :
    s.newText <:+: substituteFrom spans offset (before ++ rest) := by
  induction before generalizing offset with
  | nil =>
      have hinserted : s.newText <:+: insertedAt spans offset := by
        obtain ⟨first, second, hspans⟩ := List.append_of_mem hs
        refine ⟨insertedAt first offset, insertedAt second offset, ?_⟩
        rw [Utf8.size_nil, Nat.add_zero] at hstart
        rw [hspans]
        simp [insertedAt, hstart]
      cases rest with
      | nil => exact hinserted
      | cons c rest => exact hinserted.trans (List.prefix_append _ _).isInfix
  | cons c before ih =>
      rw [Utf8.size_cons, ← Nat.add_assoc] at hstart
      have hrest := ih hstart
      rw [List.cons_append, substituteFrom, ← List.append_assoc]
      exact hrest.trans (List.suffix_append _ _).isInfix

end Span

namespace TextEdit

open Lines

/-- Edits that fit together are applied as one substitution. -/
theorem Compatible.applySequence_schedule {text : Text} {edits : List TextEdit}
    (h : Compatible text edits) :
    applySequence (schedule edits) text =
      .ok (Span.substituteFrom ((schedule edits).reverse.map (span text)) 0 text) := by
  have hmem : forall e, e ∈ schedule edits -> e ∈ edits := fun e he =>
    (schedule_perm edits).mem_iff.mp he
  have hbounds : forall e, e ∈ schedule edits -> (e.span text).stop ≤ Utf8.size text :=
    fun e _ =>
    Utf8.size_le_of_prefix (Position.textBefore_isPrefix _ _ text)
  have hsequence := applySequence_descending h hmem h.schedule_descending
    (List.append_nil text).symm hbounds (fun s (hs : s ∈ []) => absurd hs List.not_mem_nil)
  rw [List.append_nil] at hsequence
  rw [← hsequence]
  exact congrArg (applySequence _) (List.append_nil text).symm

theorem mem_spans {text : Text} {edits : List TextEdit} {s : Span}
    (h : s ∈ (schedule edits).reverse.map (span text)) :
    exists e, e ∈ edits ∧ e.span text = s := by
  rcases List.mem_map.mp h with ⟨e, he, rfl⟩
  exact ⟨e, (schedule_perm edits).mem_iff.mp (List.mem_reverse.mp he), rfl⟩

theorem Compatible.ascending {text : Text} {edits : List TextEdit}
    (h : Compatible text edits) :
    (schedule edits).Pairwise fun e f => f.range.stop.line ≤ e.range.start.line := by
  apply schedule_pairwise
  · intro e f he hf hlater
    have hapart := h.apart f hf e he hlater
    simp [Position.before] at hapart
    omega
  · apply h.shared.imp
    intro f e hinsertion hsame
    rw [hinsertion hsame, hsame]

theorem Compatible.frame {text : Text} {edits : List TextEdit} {head middle tail : Text}
    (h : Compatible text edits) (htext : text = head ++ (middle ++ tail))
    (hhead : IsWhole head) (hmiddle : IsWhole (head ++ middle))
    (hstart : forall e, e ∈ edits -> head.count '\n' ≤ e.range.start.line)
    (hstop : forall e, e ∈ edits ->
      ¬ Position.before ⟨(head ++ middle).count '\n', 0⟩ e.range.stop = true) :
    exists middle', applySequence (schedule edits) text = .ok (head ++ (middle' ++ tail)) := by
  have hspans : forall s, s ∈ (schedule edits).reverse.map (span text) ->
      Utf8.size head ≤ s.start ∧ s.start ≤ Utf8.size head + Utf8.size middle ∧
        s.stop ≤ Utf8.size head + Utf8.size middle := by
    intro s hs
    obtain ⟨e, he, rfl⟩ := mem_spans hs
    have hfirst : Utf8.size head ≤ (e.span text).start := by
      obtain ⟨line, hline⟩ := Nat.le.dest (hstart e he)
      rw [span, Position.toOffset, htext, ← hline, Position.textBefore_append hhead,
        Utf8.size_append]
      exact Nat.le_add_right _ _
    have hlast : (e.span text).stop ≤ Utf8.size head + Utf8.size middle := by
      rw [span, Position.toOffset, htext, ← List.append_assoc, ← Utf8.size_append]
      exact Utf8.size_le_of_prefix
        (Position.textBefore_isPrefix_of_not_before tail hmiddle (hstop e he))
    have hordered : (e.span text).start ≤ (e.span text).stop :=
      Position.toOffset_le_of_not_before (h.start_exact e he) (h.stop_exact e he)
        (h.ordered e he)
    exact ⟨hfirst, Nat.le_trans hordered hlast, hlast⟩
  obtain ⟨middle', hbehind⟩ :=
    Span.substituteFrom_append_behind tail fun s hs => (hspans s hs).2
  refine ⟨middle', ?_⟩
  rw [h.applySequence_schedule, ← hbehind]
  have hfront := Span.substituteFrom_append (middle ++ tail) fun s hs =>
    (Nat.zero_add (Utf8.size head)).symm ▸ (hspans s hs).1
  rw [Nat.zero_add, ← htext] at hfront
  rw [hfront]

/-!
# Lines above and below
-/

/-- Line `m` of a text lies below its edits. Either they all stop on lines above it, and
none stops on a line below the one on which an edit applied before it starts, or they fit
together and do not reach into the line. -/
def LiesBelow (text : Text) (edits : List TextEdit) (m : Nat) : Prop :=
  ((forall e, e ∈ edits -> e.range.stop.line < m) ∧
    (schedule edits).Pairwise fun e f => f.range.stop.line ≤ e.range.start.line) ∨
  (Compatible text edits ∧ forall e, e ∈ edits -> ¬ Position.before ⟨m, 0⟩ e.range.stop = true)

theorem LiesBelow.ascending {text : Text} {edits : List TextEdit} {m : Nat}
    (h : LiesBelow text edits m) :
    (schedule edits).Pairwise fun e f => f.range.stop.line ≤ e.range.start.line := by
  rcases h with ⟨-, hascending⟩ | ⟨hcompatible, -⟩
  · exact hascending
  · exact hcompatible.ascending

/-- Of the lines of a text, the ones above its edits come first in the result, and
the ones below them last. If the edits stop on lines above, the lines below still
stand on lines of their own. -/
theorem exists_frame {text out : Text} {edits : List TextEdit} {n m : Nat}
    (h : applySequence (schedule edits) text = .ok out) (hle : n ≤ m)
    (hn : n < (full text).length) (hstart : forall e, e ∈ edits -> n ≤ e.range.start.line)
    (hstop : (full text).length ≤ m ∨ LiesBelow text edits m) :
    exists middle, out = ((full text).take n).flatten ++
      (middle ++ ((full text).drop m).flatten) ∧
      (m < (full text).length -> (forall e, e ∈ edits -> e.range.stop.line < m) ->
        IsWhole (((full text).take n).flatten ++ middle)) := by
  have hmem (e : TextEdit) (he : e ∈ schedule edits) : e ∈ edits :=
    (schedule_perm edits).mem_iff.mp he
  obtain ⟨middle, htext, hmiddle⟩ := exists_parts text hle
  obtain ⟨hhead, hcount⟩ := isWhole_take hn
  have habove (e : TextEdit) (he : e ∈ edits) :
      ((full text).take n).flatten.count '\n' ≤ e.range.start.line := by
    rw [hcount]
    exact hstart e he
  by_cases hm : m < (full text).length
  · have hbelow := hstop.resolve_left (Nat.not_le_of_lt hm)
    obtain ⟨hwhole, hlines⟩ := isWhole_take hm
    rw [← hmiddle] at hwhole hlines
    by_cases hlast : forall e, e ∈ edits -> e.range.stop.line < m
    · rw [htext] at h
      obtain ⟨middle', hout, hends⟩ := applySequence_frame h hhead hwhole
        (fun e he => habove e (hmem e he)) (fun e he => hlines ▸ hlast e (hmem e he))
        hbelow.ascending
      exact ⟨middle', hout, fun _ _ => hends⟩
    · rcases hbelow with ⟨hall, -⟩ | ⟨hcompatible, hends⟩
      · exact absurd hall hlast
      · obtain ⟨middle', hout⟩ := hcompatible.frame htext hhead hwhole habove
          fun e he => hlines ▸ hends e he
        exact ⟨middle', Except.ok.inj (h.symm.trans hout), fun _ hall => absurd hall hlast⟩
  · rw [htext] at h
    obtain ⟨rest, hout⟩ := applySequence_front h hhead fun e he => habove e (hmem e he)
    refine ⟨rest, ?_, fun hlt => absurd hlt hm⟩
    rw [List.drop_eq_nil_of_le (Nat.le_of_not_lt hm), List.flatten_nil, List.append_nil, hout]

end TextEdit
end LanguageClient

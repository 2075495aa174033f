import LanguageClient.Proofs.Text.Frames
import LanguageClient.Proofs.Text.LineEndings
import LanguageClient.Proofs.Workspace.Rewriting

/-!
# Lines of a rewritten file that no edit touches

Joining the breaks of a file and splitting them again acts on every line by itself, so it
goes line by line along with the frame of the edits: lines above all edits come first in the
rewritten file, and lines below them last. The breaks are not kept in all of them. In a file
that holds a CRLF anywhere, every line that ends in a line feed alone is given a CRLF.
-/

namespace LanguageClient

open Lines LineEnding TextEdit

/-!
# Conventions, line by line
-/

namespace LineEnding

def joined : LineEnding -> Text -> Text
  | .lf, text => text
  | .crlf, text => joinBreaks text

theorem normalize_eq (content : Text) :
    normalize content = (joined (detect content) content, detect content) := by
  unfold normalize
  cases detect content <;> rfl

theorem full_joinBreaks (text : Text) :
    full (joinBreaks text) = (full text).map joinBreaks := by
  fun_induction joinBreaks text with
  | case1 rest ih =>
      have hline : full ('\r' :: '\n' :: rest) = ['\r', '\n'] :: full rest :=
        full_cons (by decide) (full_cons_break rest)
      rw [full_cons_break, ih, hline, List.map_cons]
      rfl
  | case2 c rest hother ih =>
      by_cases hc : c = '\n'
      · rw [hc, full_cons_break, full_cons_break, ih, List.map_cons]
        rfl
      · obtain ⟨first, more, hfull⟩ := exists_full rest
        have hbreak : ¬ (c = '\r' ∧ first.head? = some '\n') := by
          rintro ⟨rfl, hhead⟩
          have hrest := flatten_full rest
          rw [hfull, List.flatten_cons] at hrest
          cases first with
          | nil => contradiction
          | cons d first =>
              cases Option.some.inj hhead
              exact hother _ rfl hrest.symm
        rw [hfull, List.map_cons] at ih
        rw [full_cons hc ih, full_cons hc hfull, List.map_cons, joinBreaks_cons hbreak]
  | case3 => rfl

theorem full_joined (ending : LineEnding) (text : Text) :
    full (joined ending text) = (full text).map (joined ending) := by
  cases ending with
  | lf => exact (List.map_id' _).symm
  | crlf => exact full_joinBreaks text

theorem apply_append (ending : LineEnding) (first second : Text) :
    ending.apply (first ++ second) = ending.apply first ++ ending.apply second := by
  cases ending with
  | lf => rfl
  | crlf => exact splitBreaks_append first second

theorem apply_flatten (ending : LineEnding) (texts : List Text) :
    ending.apply texts.flatten = texts.flatMap ending.apply := by
  induction texts with
  | nil => cases ending <;> rfl
  | cons text texts ih => rw [List.flatten_cons, apply_append, ih, List.flatMap_cons]

theorem isWhole_apply {text : Text} (ending : LineEnding) (h : IsWhole text) :
    IsWhole (ending.apply text) := by
  cases ending with
  | lf => exact h
  | crlf =>
      intro c hc
      exact h c (getLast?_splitBreaks text ▸ hc)

/-- A line in the convention of its file: in a CRLF file, the break of a line that ends in a
line feed alone becomes a CRLF. -/
def settled : LineEnding -> Text -> Text
  | .lf, line => line
  | .crlf, line =>
      if line.getLast? = some '\n' ∧ line.dropLast.getLast? ≠ some '\r' then
        line.dropLast ++ ['\r', '\n']
      else line

theorem joinBreaks_append_left {front : Text} (rest : Text) (h : '\n' ∉ front)
    (hbreak : ¬ (front.getLast? = some '\r' ∧ rest.head? = some '\n')) :
    joinBreaks (front ++ rest) = front ++ joinBreaks rest := by
  induction front with
  | nil => rfl
  | cons c front ih =>
      rw [List.mem_cons, not_or] at h
      cases front with
      | nil => exact joinBreaks_cons fun hc => hbreak ⟨congrArg some hc.1, hc.2⟩
      | cons d front =>
          have hhead : ¬ (c = '\r' ∧ (d :: front ++ rest).head? = some '\n') := by
            rintro ⟨-, hd⟩
            exact h.2 (Option.some.inj hd ▸ List.mem_cons_self)
          rw [List.getLast?_cons_cons] at hbreak
          rw [List.cons_append, joinBreaks_cons hhead, ih h.2 hbreak]
          rfl

/-- Only a line that ends in a line feed alone is not as it was when its breaks are joined
and split again. -/
theorem splitBreaks_joinBreaks_line {body : Text} (h : '\n' ∉ body) :
    splitBreaks (joinBreaks body) = body ∧
      splitBreaks (joinBreaks (body ++ ['\n'])) =
        if body.getLast? ≠ some '\r' then body ++ ['\r', '\n'] else body ++ ['\n'] := by
  have hbody : joinBreaks body = body := by
    have happend := joinBreaks_append_left [] h (fun hbreak => nomatch hbreak.2)
    simpa [joinBreaks] using happend
  refine ⟨by rw [hbody, splitBreaks_of_not_mem h], ?_⟩
  by_cases hlast : body.getLast? = some '\r'
  · obtain ⟨front, rfl⟩ := List.getLast?_eq_some_iff.mp hlast
    have hfront : '\n' ∉ front := fun hmem => h (List.mem_append_left _ hmem)
    rw [if_neg (not_not_intro hlast), List.append_assoc,
      joinBreaks_append_left _ hfront (by simp), List.singleton_append, joinBreaks_crlf,
      splitBreaks_append, splitBreaks_of_not_mem hfront]
    rfl
  · rw [if_pos hlast, joinBreaks_append_left _ h (fun hbreak => hlast hbreak.1),
      splitBreaks_append, splitBreaks_of_not_mem h]
    rfl

theorem apply_joined_line {text line : Text} (ending : LineEnding) (h : line ∈ full text) :
    ending.apply (joined ending line) = ending.settled line := by
  cases ending with
  | lf => rfl
  | crlf =>
      change splitBreaks (joinBreaks line) = settled .crlf line
      rcases of_mem_full h with ⟨body, hbody, rfl | rfl⟩
      · rw [(splitBreaks_joinBreaks_line hbody).1, settled, if_neg]
        rintro ⟨hlast, -⟩
        exact hbody (List.mem_of_getLast? hlast)
      · rw [(splitBreaks_joinBreaks_line hbody).2, settled, List.getLast?_concat,
          List.dropLast_concat]
        simp

def settledLines (content : Text) : List Text :=
  (full content).map (detect content).settled

theorem length_settledLines (content : Text) :
    (settledLines content).length = (full (normalize content).1).length := by
  rw [settledLines, List.length_map, normalize_eq, full_joined, List.length_map]

theorem apply_flatten_joined {content : Text} {lines : List Text}
    (h : forall line, line ∈ lines -> line ∈ full content) :
    (detect content).apply (lines.map (joined (detect content))).flatten =
      (lines.map (detect content).settled).flatten := by
  rw [apply_flatten, List.flatMap_map, List.flatMap_def]
  exact congrArg List.flatten (List.map_congr_left fun line hline =>
    apply_joined_line (detect content) (h line hline))

theorem apply_take (content : Text) (n : Nat) :
    (detect content).apply ((full (normalize content).1).take n).flatten =
      ((settledLines content).take n).flatten := by
  rw [normalize_eq, full_joined, ← List.map_take, settledLines, ← List.map_take]
  exact apply_flatten_joined fun line hline => List.mem_of_mem_take hline

theorem apply_drop (content : Text) (m : Nat) :
    (detect content).apply ((full (normalize content).1).drop m).flatten =
      ((settledLines content).drop m).flatten := by
  rw [normalize_eq, full_joined, ← List.map_drop, settledLines, ← List.map_drop]
  exact apply_flatten_joined fun line hline => List.mem_of_mem_drop hline

end LineEnding

/-!
# Rewritten files
-/

namespace Rewriting

variable {D : Type} [FileSystem D]

/-- In a rewritten file, the lines above all edits come first and the lines below them last,
each in the convention of the file. If the edits stop on lines above, the lines below still
stand on lines of their own. -/
theorem keeps_untouched_lines (r : Rewriting D) {n m : Nat} (hle : n ≤ m)
    (hn : n < (settledLines r.before).length)
    (hstart : forall e, e ∈ r.target.edits -> n ≤ e.range.start.line)
    (hstop : (settledLines r.before).length ≤ m ∨
      LiesBelow (normalize r.before).1 r.target.edits m) :
    exists middle,
      r.after = ((settledLines r.before).take n).flatten ++
        (middle ++ ((settledLines r.before).drop m).flatten) ∧
      (m < (settledLines r.before).length ->
        (forall e, e ∈ r.target.edits -> e.range.stop.line < m) ->
        IsWhole (((settledLines r.before).take n).flatten ++ middle)) := by
  obtain ⟨out, hout, hafter⟩ := r.exists_outcome
  rw [length_settledLines] at hn hstop
  obtain ⟨middle, htext, hwhole⟩ :=
    exists_frame (applySequence_of_applyAll hout) hle hn hstart hstop
  refine ⟨(detect r.before).apply middle, ?_, ?_⟩
  · rw [hafter, htext, apply_append, apply_append, apply_take, apply_drop]
  · intro hm hall
    rw [length_settledLines] at hm
    rw [← apply_take, ← apply_append]
    exact isWhole_apply _ (hwhole hm hall)

def mixedBreaks : Rewriting Memory :=
  inMemory ['a', '\n', 'b', '\r', '\n', 'c', '\n'] [⟨⟨⟨1, 0⟩, ⟨1, 1⟩⟩, ['x']⟩]
    ['a', '\r', '\n', 'x', '\r', '\n', 'c', '\r', '\n'] (by cbv)

theorem keeps_untouched_lines_mixedBreaks :
    exists middle, mixedBreaks.after = ['a', '\r', '\n'] ++ (middle ++ ['c', '\r', '\n']) := by
  have hbelow : LiesBelow (normalize mixedBreaks.before).1 mixedBreaks.target.edits 2 := by
    refine Or.inl ⟨by decide, ?_⟩
    have hschedule : schedule mixedBreaks.target.edits = mixedBreaks.target.edits := by cbv
    rw [hschedule]
    exact List.pairwise_singleton _ _
  obtain ⟨middle, hafter, -⟩ := mixedBreaks.keeps_untouched_lines (n := 1) (m := 2)
    (by decide) (by decide) (by decide) (Or.inr hbelow)
  exact ⟨middle, hafter⟩

def overlappingEdits : Rewriting Memory :=
  inMemory ['a', '\n', 'b', '\n', 'c', '\n', 'd', '\n']
    [⟨⟨⟨0, 0⟩, ⟨2, 1⟩⟩, []⟩, ⟨⟨⟨1, 0⟩, ⟨2, 1⟩⟩, []⟩] ['\n'] (by cbv)

/-- A line above all edits may get another break in a mixed file, and a line below them all
may be lost if they overlap. -/
theorem not_all_untouched_lines_kept :
    (¬ forall (r : Rewriting Memory) (k : Nat) (line : Text),
      (forall e, e ∈ r.target.edits -> k < e.range.start.line ∧ k < e.range.stop.line) ->
        (full r.before)[k]? = some line -> line ∈ full r.after) ∧
    (¬ forall (r : Rewriting Memory) (k : Nat) (line : Text),
      IsUniform (detect r.before) r.before ->
      (forall e, e ∈ r.target.edits -> e.range.start.line < k ∧ e.range.stop.line < k) ->
        (full r.before)[k]? = some line -> line ∈ full r.after) := by
  constructor
  · intro hall
    exact absurd (hall mixedBreaks 0 ['a', '\n'] (by decide) (by decide)) (by decide)
  · intro hall
    have huniform : '\r' ∉ overlappingEdits.before := by decide
    exact absurd (hall overlappingEdits 3 ['d', '\n'] huniform (by decide) (by decide))
      (by decide)

end Rewriting
end LanguageClient

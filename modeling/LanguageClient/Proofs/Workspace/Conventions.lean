import LanguageClient.Proofs.Text.Frames
import LanguageClient.Proofs.Text.LineEndings
import LanguageClient.Proofs.Workspace.Rewriting
import LanguageClient.Workspace.Memory

/-!
# The convention of a file that is written again

Edits see a file with line feeds alone, but what they put in is taken as it is. A rewritten
file keeps the convention it had exactly if no CRLF stands in what the edits lead to. New
texts that break lines with line feeds never bring one in. New texts that break lines with
CRLF always do, if the edits fit together: a file of the other convention gets a CRLF, and
in a CRLF file a second carriage return comes before the line feed.
-/

namespace LanguageClient

open LineEnding TextEdit

/-!
# What edits bring in
-/

namespace TextEdit

theorem not_mem_of_applyAll {text : Text} {edits : List TextEdit} {out : EditOutcome}
    {c : Char} (h : applyAll text edits = .ok out) (htext : c ∉ text)
    (hnew : forall e, e ∈ edits -> c ∉ e.newText) : c ∉ out.text := by
  intro hmem
  rcases mem_of_applySequence (applySequence_of_applyAll h) hmem with hin | ⟨e, he, hin⟩
  · exact htext hin
  · exact hnew e ((schedule_perm edits).mem_iff.mp he) hin

theorem Compatible.newText_isInfix {text : Text} {edits : List TextEdit} {out : EditOutcome}
    (h : Compatible text edits) (hout : applyAll text edits = .ok out) {e : TextEdit}
    (he : e ∈ edits) : e.newText <:+: out.text := by
  have hsequence := applySequence_of_applyAll hout
  rw [h.applySequence_schedule] at hsequence
  obtain ⟨before, ⟨rest, rfl⟩, hstart⟩ := Position.isExact_iff.mp (h.start_exact e he)
  have hmem : e.span (before ++ rest) ∈
      (schedule edits).reverse.map (span (before ++ rest)) :=
    List.mem_map_of_mem (List.mem_reverse.mpr ((schedule_perm edits).mem_iff.mpr he))
  have hoffset : (e.span (before ++ rest)).start = 0 + Utf8.size before := by
    rw [span, hstart, Position.toOffset_ofPrefix, Nat.zero_add]
  rw [← Except.ok.inj hsequence]
  exact Span.newText_isInfix_substituteFrom rest hmem hoffset

end TextEdit

/-!
# Rewritten files
-/

namespace Rewriting

variable {D : Type} [FileSystem D]

theorem isKept_iff_hasCrlf (r : Rewriting D) {out : EditOutcome}
    (hout : applyAll (normalize r.before).1 r.target.edits = .ok out) :
    IsKept (detect r.before) r.after <-> hasCrlf out.text = false := by
  obtain ⟨out', hout', hafter⟩ := r.exists_outcome
  rw [hout] at hout'
  rw [hafter, ← Except.ok.inj hout', isKept_apply]

theorem isKept_of_lineFeeds (r : Rewriting D) (huniform : IsUniform (detect r.before) r.before)
    (hnew : forall e, e ∈ r.target.edits -> '\r' ∉ e.newText) :
    IsKept (detect r.before) r.after := by
  obtain ⟨out, hout, -⟩ := r.exists_outcome
  exact (r.isKept_iff_hasCrlf hout).mpr
    (hasCrlf_of_not_mem (not_mem_of_applyAll hout (not_mem_normalize huniform) hnew))

theorem not_hasCrlf_of_isKept (r : Rewriting D)
    (hcompatible : Compatible (normalize r.before).1 r.target.edits)
    (hkept : IsKept (detect r.before) r.after) {e : TextEdit} (he : e ∈ r.target.edits) :
    hasCrlf e.newText = false := by
  obtain ⟨out, hout, -⟩ := r.exists_outcome
  have hnone := (r.isKept_iff_hasCrlf hout).mp hkept
  apply Bool.eq_false_iff.mpr
  intro hcrlf
  rw [hasCrlf_of_isInfix (hcompatible.newText_isInfix hout he) hcrlf] at hnone
  contradiction

/-- A rewritten file keeps its convention exactly if no CRLF stands in what the edits lead
to. New texts that break lines with line feeds keep the convention of every uniform file,
and if the edits fit together, of the new texts that break lines in the one way or the other
these are the only ones.
-/
theorem keepsConvention_iff (r : Rewriting D) :
    (exists out, applyAll (normalize r.before).1 r.target.edits = .ok out ∧
      (IsKept (detect r.before) r.after <-> hasCrlf out.text = false)) ∧
    (IsUniform (detect r.before) r.before ->
      (forall e, e ∈ r.target.edits -> '\r' ∉ e.newText) -> IsKept (detect r.before) r.after) ∧
    (IsUniform (detect r.before) r.before ->
      Compatible (normalize r.before).1 r.target.edits ->
      (forall e, e ∈ r.target.edits -> HasNoLoneReturn e.newText) ->
      (IsKept (detect r.before) r.after <->
        forall e, e ∈ r.target.edits -> hasCrlf e.newText = false)) := by
  refine ⟨?_, r.isKept_of_lineFeeds, ?_⟩
  · obtain ⟨out, hout, -⟩ := r.exists_outcome
    exact ⟨out, hout, r.isKept_iff_hasCrlf hout⟩
  · intro huniform hcompatible hreturns
    constructor
    · intro hkept e he
      exact r.not_hasCrlf_of_isKept hcompatible hkept he
    · intro hnone
      exact r.isKept_of_lineFeeds huniform fun e he => (hreturns e he).not_mem (hnone e he)

theorem keepsConvention_iff_lineFeed :
    IsKept .crlf ['a', '\r', '\n', 'x', '\r', '\n', 'b'] := by
  refine (keepsConvention_iff (inMemory ['a', '\r', '\n', 'b']
    [⟨⟨⟨1, 0⟩, ⟨1, 0⟩⟩, ['x', '\n']⟩]
    ['a', '\r', '\n', 'x', '\r', '\n', 'b'] (by cbv))).2.1 ?_ ?_
  · exact isUniform_apply .crlf (by decide : '\r' ∉ ['a', '\n', 'b'])
  · exact by decide

theorem exists_not_kept (ending : LineEnding) :
    exists r : Rewriting Memory, detect r.before = ending ∧ IsUniform ending r.before ∧
      (forall e, e ∈ r.target.edits -> HasNoLoneReturn e.newText) ∧
      ¬ IsKept ending r.after := by
  let inserted : List TextEdit := [⟨⟨⟨1, 0⟩, ⟨1, 0⟩⟩, ['x', '\r', '\n']⟩]
  have hedited : Workspace.edited (ending.apply ['a', '\n', 'b', '\n']) inserted =
      .ok (ending.apply ['a', '\n', 'x', '\r', '\n', 'b', '\n'], true) := by
    cases ending <;> cbv
  refine ⟨inMemory _ inserted _ hedited, ?_, isUniform_apply ending (by decide), ?_, ?_⟩
  · cases ending <;> rfl
  · intro e he
    rw [List.mem_singleton.mp he]
    exact (isUniform_apply .crlf (by decide : '\r' ∉ ['x', '\n'])).2
  · exact fun hkept => absurd ((isKept_apply ending _).mp hkept) (by decide)

/-- New texts that break lines with CRLF break the convention of files of either convention. -/
theorem not_all_kept :
    (¬ forall r : Rewriting Memory, detect r.before = .crlf -> IsUniform .crlf r.before ->
      (forall e, e ∈ r.target.edits -> HasNoLoneReturn e.newText) -> IsKept .crlf r.after) ∧
    (¬ forall r : Rewriting Memory, detect r.before = .lf -> IsUniform .lf r.before ->
      (forall e, e ∈ r.target.edits -> HasNoLoneReturn e.newText) -> IsKept .lf r.after) := by
  constructor
  · intro hall
    obtain ⟨r, hending, huniform, hreturns, hnot⟩ := exists_not_kept .crlf
    exact hnot (hall r hending huniform hreturns)
  · intro hall
    obtain ⟨r, hending, huniform, hreturns, hnot⟩ := exists_not_kept .lf
    exact hnot (hall r hending huniform hreturns)

end Rewriting
end LanguageClient

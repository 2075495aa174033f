import LanguageClient.Proofs.Text.Ranges

/-!
# Taking an edit back

An edit that is applied leaves the text in front of its range and the text behind it, with
its new text in between. The places at both ends of the new text are exact, so the edit that
goes from the one to the other, and puts in what stood in the range, gives back the text as
it was. This does not need the positions of the edit itself to be exact: past the end of a
line, or inside a character, what counts is where they lead.
-/

namespace LanguageClient

namespace Position

theorem ofOffset_size (before rest : Text) :
    ofOffset (before ++ rest) (Utf8.size before) = ofPrefix before := by
  rw [ofOffset, wholeBefore_size, ofPrefix]

theorem ofOffset_le_size (text : Text) (offset : Nat) :
    (ofOffset text offset).line ≤ Utf8.size text ∧
      (ofOffset text offset).character ≤ Utf8.size text := by
  have hwhole := wholeBefore_prefix offset text
  have hshort := Utf8.size_le_of_prefix hwhole
  obtain ⟨hline, hcolumn⟩ := ofPrefix_le_size (wholeBefore offset text)
  exact ⟨Nat.le_trans hline hshort, Nat.le_trans hcolumn hshort⟩

end Position

namespace TextEdit

def slice (text : Text) (start stop : Nat) : Text :=
  takeBytes (stop - start) (dropBytes start text)

theorem slice_prefixes (before middle rest : Text) :
    slice (before ++ (middle ++ rest)) (Utf8.size before) (Utf8.size (before ++ middle)) =
      middle := by
  rw [slice, dropBytes_size, Utf8.size_append, Nat.add_sub_cancel_left, takeBytes_size]

/-- The edit that takes back what `e` has made of `text`: in the result `out` its range is
that of the new text, and it puts there what stood in the range of `e`. -/
def inverse (e : TextEdit) (text out : Text) : TextEdit :=
  ⟨⟨Position.ofOffset out (e.range.start.toOffset text),
    Position.ofOffset out (e.range.start.toOffset text + Utf8.size e.newText)⟩,
    slice text (e.range.start.toOffset text) (e.range.stop.toOffset text)⟩

def replacing (text new : Text) : TextEdit :=
  ⟨⟨⟨0, 0⟩, Position.ofOffset text (Utf8.size text)⟩, new⟩

/-!
# One edit
-/

theorem fitsIn_of_applyOne {e : TextEdit} {text out : Text} (h : e.applyOne text = .ok out) :
    e.FitsIn text where
  ordered := by
    by_contra hinverted
    rw [applyOne, if_pos (Nat.not_le.mp hinverted)] at h
    cases h
  within := (Position.isBoundary_toOffset e.range.stop text).le_size
  start_boundary := Position.isBoundary_toOffset e.range.start text
  stop_boundary := Position.isBoundary_toOffset e.range.stop text

theorem inverse_pieces {e : TextEdit} {before middle rest : Text}
    (hstart : e.range.start.toOffset (before ++ (middle ++ rest)) = Utf8.size before)
    (hstop : e.range.stop.toOffset (before ++ (middle ++ rest)) =
      Utf8.size (before ++ middle)) :
    e.inverse (before ++ (middle ++ rest)) (before ++ (e.newText ++ rest)) =
      ⟨⟨Position.ofPrefix before, Position.ofPrefix (before ++ e.newText)⟩, middle⟩ := by
  have hplace := Position.ofOffset_size (before ++ e.newText) rest
  rw [Utf8.size_append, List.append_assoc] at hplace
  rw [inverse, hstart, hstop, Position.ofOffset_size, hplace, slice_prefixes]

theorem applyOne_inverse {e : TextEdit} {text out : Text} (h : e.applyOne text = .ok out) :
    (e.inverse text out).applyOne out = .ok text := by
  obtain ⟨before, middle, rest, htext, hout, hstart, hstop⟩ := exists_cut h
  have hstartOffset : e.range.start.toOffset text = Utf8.size before := by
    rw [Position.toOffset, ← hstart]
  have hstopOffset : e.range.stop.toOffset text = Utf8.size (before ++ middle) := by
    rw [Position.toOffset, ← hstop]
  rw [htext] at hstartOffset hstopOffset
  rw [htext, hout, inverse_pieces hstartOffset hstopOffset]
  exact applyOne_pieces rest rfl rfl

theorem replacing_eq (text new : Text) :
    replacing text new = ⟨⟨Position.ofPrefix [], Position.ofPrefix text⟩, new⟩ := by
  have hend := Position.ofOffset_size text []
  rw [List.append_nil] at hend
  rw [replacing, hend]
  rfl

theorem applyOne_replacing (text new : Text) :
    (replacing text new).applyOne text = .ok new := by
  rw [replacing_eq]
  have happlied :
      applyOne ⟨⟨Position.ofPrefix [], Position.ofPrefix text⟩, new⟩ ([] ++ (text ++ [])) =
      .ok ([] ++ (new ++ [])) := applyOne_pieces [] rfl rfl
  simpa using happlied

theorem inverse_replacing (text new : Text) :
    (replacing text new).inverse text new = replacing new text := by
  rw [replacing_eq, replacing_eq]
  have hpieces := inverse_pieces (e := ⟨⟨Position.ofPrefix [], Position.ofPrefix text⟩, new⟩)
    (Position.toOffset_ofPrefix [] (text ++ [])) (Position.toOffset_ofPrefix text [])
  simpa using hpieces

/-!
# A set of one edit
-/

theorem applyAll_single (text : Text) (e : TextEdit) :
    applyAll text [e] = (e.applyOne text).map fun out => ⟨out, out != text⟩ := by
  have hschedule : schedule [e] = [e] := List.perm_singleton.mp (schedule_perm [e])
  rw [applyAll, hschedule, applySequence]
  cases e.applyOne text with
  | ok out => rfl
  | error bad => rfl

/-- What it means that an edit takes `out` back to `text`. -/
structure TakesBack (undo : TextEdit) (text out : Text) : Prop where
  back : applyAll out [undo] = .ok ⟨text, text != out⟩
  /-- Its positions need no more than 32 bits. -/
  start_fits : Utf8.size out < 2 ^ 32 ->
    undo.range.start.line < 2 ^ 32 ∧ undo.range.start.character < 2 ^ 32
  stop_fits : Utf8.size out < 2 ^ 32 ->
    undo.range.stop.line < 2 ^ 32 ∧ undo.range.stop.character < 2 ^ 32

theorem takesBack_inverse {e : TextEdit} {text out : Text} (h : e.applyOne text = .ok out) :
    (e.inverse text out).TakesBack text out where
  back := by
    rw [applyAll_single, applyOne_inverse h]
    rfl
  start_fits hsize := by
    obtain ⟨hline, hcolumn⟩ := Position.ofOffset_le_size out (e.range.start.toOffset text)
    exact ⟨Nat.lt_of_le_of_lt hline hsize, Nat.lt_of_le_of_lt hcolumn hsize⟩
  stop_fits hsize := by
    obtain ⟨hline, hcolumn⟩ := Position.ofOffset_le_size out
      (e.range.start.toOffset text + Utf8.size e.newText)
    exact ⟨Nat.lt_of_le_of_lt hline hsize, Nat.lt_of_le_of_lt hcolumn hsize⟩

/-- An edit that succeeds fits in the text, and its inverse takes the result back to exactly
that text. The replacement of a whole text is such an edit, and its inverse the replacement
of the whole result. -/
theorem applyAll_inverse :
    (forall (text : Text) (e : TextEdit) (out : EditOutcome), applyAll text [e] = .ok out ->
      e.FitsIn text ∧ (e.inverse text out.text).TakesBack text out.text) ∧
    forall text new : Text, applyAll text [replacing text new] = .ok ⟨new, new != text⟩ ∧
      (replacing text new).inverse text new = replacing new text := by
  constructor
  · intro text e out h
    rw [applyAll_single] at h
    cases happly : e.applyOne text with
    | error bad =>
        rw [happly] at h
        cases h
    | ok result =>
        rw [happly] at h
        cases h
        constructor
        · exact fitsIn_of_applyOne happly
        · exact takesBack_inverse happly
  · intro text new
    constructor
    · rw [applyAll_single, applyOne_replacing]
      rfl
    · exact inverse_replacing text new

theorem applyAll_inverse_astral :
    applyAll ['a', '𝄞', 'b', '\n', 'c', 'd', '\n'] [⟨⟨⟨0, 2⟩, ⟨1, 9⟩⟩, ['\n', '𝄞']⟩] =
      .ok ⟨['a', '𝄞', '\n', '𝄞', '\n'], true⟩ ∧
    applyAll ['a', '𝄞', '\n', '𝄞', '\n'] [⟨⟨⟨0, 3⟩, ⟨1, 2⟩⟩, ['b', '\n', 'c', 'd']⟩] =
      .ok ⟨['a', '𝄞', 'b', '\n', 'c', 'd', '\n'], true⟩ := by
  have hdone : applyAll ['a', '𝄞', 'b', '\n', 'c', 'd', '\n']
      [⟨⟨⟨0, 2⟩, ⟨1, 9⟩⟩, ['\n', '𝄞']⟩] = .ok ⟨['a', '𝄞', '\n', '𝄞', '\n'], true⟩ := by
    cbv
  have hinverse : inverse ⟨⟨⟨0, 2⟩, ⟨1, 9⟩⟩, ['\n', '𝄞']⟩ ['a', '𝄞', 'b', '\n', 'c', 'd', '\n']
      ['a', '𝄞', '\n', '𝄞', '\n'] = ⟨⟨⟨0, 3⟩, ⟨1, 2⟩⟩, ['b', '\n', 'c', 'd']⟩ := by
    decide
  constructor
  · exact hdone
  · have hback := (applyAll_inverse.1 _ _ _ hdone).2.back
    rw [hinverse] at hback
    exact hback

end TextEdit
end LanguageClient

import LanguageClient.Frame.Header
import LanguageClient.Proofs.Number.Decimal
import LanguageClient.Proofs.Text.Lines
import LanguageClient.Proofs.Text.Utf8

/-!
# Declared lengths

What it means for a header to declare the length of a body, said without the reader: the
header is text, and of its lines that name a length and give a numeral within 64 bits the
first one counts. The reader finds exactly the declared length.
-/

namespace LanguageClient
namespace Frame

/-!
# Lines
-/

/-- A line with the length field for `n`. Its name is in any case, and blanks may stand
around the name and around the numeral. -/
def LineDeclares (line : Text) (n : Nat) : Prop :=
  exists before name middle gap numeral after,
    line = before ++ name ++ middle ++ ':' :: (gap ++ numeral ++ after) ∧
      Blank.IsMargin before ∧ Blank.IsMargin middle ∧ Blank.IsMargin gap ∧
      Blank.IsMargin after ∧
      name.map Char.toLower = "content-length".toList ∧
      n < Unsigned.wordBound ∧ Unsigned.IsNumeral numeral n

theorem toLower_of_isBlank {c : Char} (h : Blank.isBlank c = true) : c.toLower = c := by
  have hletter : ¬ (c.val ≥ 'A'.val ∧ c.val ≤ 'Z'.val) := by
    rintro ⟨hleast, hmost⟩
    have hleast : 65 ≤ c.toNat := UInt32.le_iff_toNat_le.mp hleast
    have hmost : c.toNat ≤ 90 := UInt32.le_iff_toNat_le.mp hmost
    simp only [Blank.isBlank, Bool.or_eq_true, Bool.and_eq_true, decide_eq_true_eq,
      beq_iff_eq] at h
    omega
  exact dif_neg hletter

theorem not_blank_of_mem_name {name : Text} {c : Char}
    (h : name.map Char.toLower = "content-length".toList) (hc : c ∈ name) :
    Blank.isBlank c = false := by
  cases hblank : Blank.isBlank c with
  | false => rfl
  | true =>
      have hmem : c ∈ "content-length".toList := by
        rw [← h, ← toLower_of_isBlank hblank]
        exact List.mem_map_of_mem hc
      have hall : "content-length".toList.all (fun d => !Blank.isBlank d) = true := by decide
      have hc := List.all_eq_true.mp hall c hmem
      rw [hblank] at hc
      cases hc

theorem colon_not_mem_name {name : Text}
    (h : name.map Char.toLower = "content-length".toList) :
    ':' ∉ name := by
  intro hc
  have hmem : Char.toLower ':' ∈ "content-length".toList := h ▸ List.mem_map_of_mem hc
  exact absurd hmem (by decide)

theorem not_blank_of_isDigit {c : Char} (h : c.isDigit = true) : Blank.isBlank c = false := by
  rcases Unsigned.isDigit_iff.mp h with ⟨hleast, hmost⟩
  have hleast : 48 ≤ c.toNat := UInt32.le_iff_toNat_le.mp hleast
  have hmost : c.toNat ≤ 57 := UInt32.le_iff_toNat_le.mp hmost
  rw [← Bool.not_eq_true, Blank.isBlank]
  simp only [Bool.or_eq_true, Bool.and_eq_true, decide_eq_true_eq, beq_iff_eq]
  omega

theorem not_blank_of_mem_numeral {numeral : Text} {n : Nat} {c : Char}
    (h : Unsigned.IsNumeral numeral n) (hc : c ∈ numeral) : Blank.isBlank c = false := by
  rcases h with ⟨digits, rfl | rfl, -, hdigits, -⟩
  · exact not_blank_of_isDigit (hdigits c hc)
  · cases hc with
    | head => decide
    | tail _ hc => exact not_blank_of_isDigit (hdigits c hc)

theorem lowerName_margins {before name middle : Text} (hbefore : Blank.IsMargin before)
    (hmiddle : Blank.IsMargin middle)
    (hname : name.map Char.toLower = "content-length".toList) :
    lowerName (before ++ name ++ middle) = "content-length".toList := by
  have hne : name ≠ [] := by
    rintro rfl
    cases hname
  rw [lowerName, Blank.trim_margins hbefore (fun c hc => not_blank_of_mem_name hname hc) hne
    hmiddle, hname]

theorem read?_margins {gap numeral after : Text} {n : Nat} (hgap : Blank.IsMargin gap)
    (hafter : Blank.IsMargin after) (hword : n < Unsigned.wordBound)
    (hnumeral : Unsigned.IsNumeral numeral n) :
    Unsigned.read? (Blank.trim (gap ++ numeral ++ after)) = some n := by
  rw [Blank.trim_margins hgap (fun c hc => not_blank_of_mem_numeral hnumeral hc)
    hnumeral.ne_nil hafter]
  exact Unsigned.read?_eq_some_iff.mpr ⟨hword, hnumeral⟩

theorem dropReturns_append {front : Text} (back : Text) (h : front.getLast? ≠ some '\r') :
    dropReturns (front ++ back) = front ++ dropReturns back := by
  have hfront : front.reverse.dropWhile (· == '\r') = front.reverse := by
    cases hlast : front.reverse with
    | nil => rfl
    | cons c rest =>
        have hc : c ≠ '\r' := by
          rintro rfl
          rw [← List.head?_reverse, hlast] at h
          exact h rfl
        rw [List.dropWhile_cons_of_neg (by simp [hc])]
  rw [dropReturns, List.reverse_append, List.dropWhile_append, hfront, dropReturns]
  cases hback : back.reverse.dropWhile (· == '\r') with
  | nil => simp
  | cons c rest => simp

theorem exists_dropReturns (line : Text) :
    exists returns, line = dropReturns line ++ returns ∧ Blank.IsMargin returns := by
  refine ⟨line.rtakeWhile (· == '\r'), List.rdropWhile_append_rtakeWhile.symm, ?_⟩
  intro c hc
  have hreturn : (c == '\r') = true := List.mem_rtakeWhile_imp (p := fun x => x == '\r') hc
  rw [beq_iff_eq] at hreturn
  rw [hreturn]
  decide

theorem lineLength?_of_colon {line key value : Text}
    (hline : dropReturns line = key ++ ':' :: value) (hkey : ':' ∉ key) :
    lineLength? line =
      if lowerName key = "content-length".toList then Unsigned.read? (Blank.trim value)
        else none := by
  have hne : forall c, c ∈ key -> (c != ':') = true := by
    intro c hc
    rw [bne_iff_ne]
    rintro rfl
    exact hkey hc
  have hdrop : (':' :: value).dropWhile (· != ':') = ':' :: value :=
    List.dropWhile_cons_of_neg (by decide)
  have htake : (':' :: value).takeWhile (· != ':') = [] :=
    List.takeWhile_cons_of_neg (by decide)
  simp only [lineLength?, hline, List.dropWhile_append_of_pos hne,
    List.takeWhile_append_of_pos hne, hdrop, htake, List.append_nil]

theorem exists_colon {line : Text} {n : Nat} (h : lineLength? line = some n) :
    exists key value, dropReturns line = key ++ ':' :: value ∧ ':' ∉ key := by
  have hsplit :
      (dropReturns line).takeWhile (· != ':') ++ (dropReturns line).dropWhile (· != ':') =
      dropReturns line := List.takeWhile_append_dropWhile
  have hhead := List.head?_dropWhile_not (· != ':') (dropReturns line)
  unfold lineLength? at h
  cases hrest : (dropReturns line).dropWhile (· != ':') with
  | nil =>
      simp only [hrest] at h
      cases h
  | cons c value =>
      rw [hrest] at hsplit hhead
      have hc : c = ':' := by
        simpa using hhead
      rw [hc] at hsplit
      refine ⟨_, value, hsplit.symm, ?_⟩
      intro hcolon
      have hne : (':' != ':') = true := List.mem_takeWhile_imp (p := fun x => x != ':') hcolon
      exact absurd hne (by decide)

theorem lineDeclares_of_lineLength? {line : Text} {n : Nat} (h : lineLength? line = some n) :
    LineDeclares line n := by
  rcases exists_colon h with ⟨key, value, hline, hkey⟩
  rw [lineLength?_of_colon hline hkey] at h
  by_cases hname : lowerName key = "content-length".toList
  · rw [if_pos hname] at h
    rcases Unsigned.read?_eq_some_iff.mp h with ⟨hword, hnumeral⟩
    rcases exists_dropReturns line with ⟨returns, hreturns, hblank⟩
    rcases Blank.exists_margins key with ⟨before, middle, hmargins, hbefore, hmiddle⟩
    rcases Blank.exists_margins value with ⟨gap, after, hvalue, hgap, hafter⟩
    have hend : Blank.IsMargin (after ++ returns) := by
      intro c hc
      rcases List.mem_append.mp hc with hc | hc
      · exact hafter c hc
      · exact hblank c hc
    refine ⟨before, Blank.trim key, middle, gap, Blank.trim value, after ++ returns, ?_,
      hbefore, hmiddle, hgap, hend, hname, hword, hnumeral⟩
    calc
      line = dropReturns line ++ returns := hreturns
      _ = key ++ ':' :: (value ++ returns) := by
        rw [hline, List.append_assoc, List.cons_append]
      _ = _ := by
        rw [← hmargins, ← List.append_assoc _ after, ← hvalue]
  · rw [if_neg hname] at h
    cases h

theorem dropReturns_numeral (key gap : Text) {numeral : Text} (after : Text) {n : Nat}
    (h : Unsigned.IsNumeral numeral n) :
    dropReturns (key ++ ':' :: (gap ++ numeral ++ after)) =
      key ++ ':' :: (gap ++ numeral ++ dropReturns after) := by
  have hlast : (key ++ ':' :: (gap ++ numeral)).getLast? ≠ some '\r' := by
    rw [← List.cons_append, ← List.append_assoc, List.getLast?_append_of_ne_nil _ h.ne_nil]
    intro hlast
    have hblank := not_blank_of_mem_numeral h (List.mem_of_getLast? hlast)
    exact absurd hblank (by decide)
  have happend := dropReturns_append after hlast
  simpa only [List.append_assoc, List.cons_append] using happend

theorem lineLength?_of_lineDeclares {line : Text} {n : Nat} (h : LineDeclares line n) :
    lineLength? line = some n := by
  rcases h with ⟨before, name, middle, gap, numeral, after, rfl, hbefore, hmiddle, hgap,
    hafter, hname, hword, hnumeral⟩
  have hkey : ':' ∉ before ++ name ++ middle := by
    simp only [List.mem_append, not_or]
    refine ⟨⟨fun hc => ?_, colon_not_mem_name hname⟩, fun hc => ?_⟩
    · exact absurd (hbefore ':' hc) (by decide)
    · exact absurd (hmiddle ':' hc) (by decide)
  have hreturns : Blank.IsMargin (dropReturns after) := fun c hc =>
    hafter c ((List.rdropWhile_prefix _ after).subset hc)
  rw [lineLength?_of_colon (dropReturns_numeral _ gap after hnumeral) hkey,
    if_pos (lowerName_margins hbefore hmiddle hname)]
  exact read?_margins hgap hreturns hword hnumeral

theorem lineLength?_eq_some_iff {line : Text} {n : Nat} :
    lineLength? line = some n <-> LineDeclares line n :=
  ⟨lineDeclares_of_lineLength?, lineLength?_of_lineDeclares⟩

/-!
# Headers
-/

/-- A header that declares the length `n`: a text among whose lines the first one with a
length field has the field for `n`. -/
def Declares (header : Bytes) (n : Nat) : Prop :=
  exists before line after,
    header = Utf8.encode (Lines.join (before ++ line :: after)) ∧
      (forall other, other ∈ before ++ line :: after -> '\n' ∉ other) ∧
      LineDeclares line n ∧
      forall other, other ∈ before -> forall m, ¬ LineDeclares other m

theorem bodyLength?_eq_some_iff {header : Bytes} {n : Nat} :
    bodyLength? header = some n <-> Declares header n := by
  constructor
  · intro h
    rcases Option.bind_eq_some_iff.mp h with ⟨text, htext, hlines⟩
    rcases List.findSome?_eq_some_iff.mp hlines with
      ⟨before, line, after, hsplit, hline, hbefore⟩
    refine ⟨before, line, after, ?_, ?_, lineLength?_eq_some_iff.mp hline, ?_⟩
    · rw [← hsplit, Lines.join_split]
      exact Utf8.decode?_eq_some_iff.mp htext
    · intro other hother
      rw [← hsplit] at hother
      exact Lines.not_mem_of_mem_split hother
    · intro other hother m hm
      rw [← lineLength?_eq_some_iff, hbefore other hother] at hm
      cases hm
  · rintro ⟨before, line, after, rfl, hbreaks, hline, hbefore⟩
    rw [bodyLength?, Utf8.decode?_encode, Option.bind_some, Lines.split_join (by simp) hbreaks,
      List.findSome?_eq_some_iff]
    refine ⟨before, line, after, rfl, lineLength?_eq_some_iff.mpr hline, ?_⟩
    intro other hother
    cases hlength : lineLength? other with
    | none => rfl
    | some m => exact absurd (lineLength?_eq_some_iff.mp hlength) (hbefore other hother m)

end Frame
end LanguageClient

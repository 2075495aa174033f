import LanguageClient.Text.Edit

/-!
# The order of application

Edits are numbered in input order and sorted from the bottom of the document up. The order
is a total one on numbered edits, so it is determined by the starts and, among equal starts,
by the numbers: the reverse of a schedule keeps edits with one start in input order, and is
the stable sort of the edits by their starts.
-/

namespace LanguageClient

namespace Position

theorem before_trans {p q r : Position} (hpq : p.before q = true) (hqr : q.before r = true) :
    p.before r = true := by
  simp [before] at hpq hqr ⊢
  omega

theorem before_irrefl (p : Position) : p.before p = false := by
  simp [before]

theorem before_asymm {p q : Position} (h : p.before q = true) : q.before p = false := by
  rw [Bool.eq_false_iff]
  intro hback
  have hself := before_trans h hback
  rw [before_irrefl] at hself
  cases hself

theorem before_total {p q : Position} (hne : p ≠ q) :
    p.before q = true ∨ q.before p = true := by
  rcases p with ⟨line, character⟩
  rcases q with ⟨line', character'⟩
  simp only [ne_eq, Position.mk.injEq, not_and] at hne
  simp [before]
  omega

end Position

namespace TextEdit

/-!
# The order on numbered edits
-/

theorem appliedFirst_iff (a b : Nat × TextEdit) :
    appliedFirst a b = true ↔
      b.2.range.start.before a.2.range.start = true ∨
        a.2.range.start = b.2.range.start ∧ b.1 ≤ a.1 := by
  simp [appliedFirst]

theorem appliedFirst_trans (a b c : Nat × TextEdit) (hab : appliedFirst a b = true)
    (hbc : appliedFirst b c = true) : appliedFirst a c = true := by
  rw [appliedFirst_iff] at hab hbc ⊢
  rcases hab with hab | ⟨hab, hnumber⟩
  · rcases hbc with hbc | ⟨hbc, _⟩
    · exact Or.inl (Position.before_trans hbc hab)
    · exact Or.inl (hbc ▸ hab)
  · rcases hbc with hbc | ⟨hbc, hnumber'⟩
    · exact Or.inl (hab.symm ▸ hbc)
    · exact Or.inr ⟨hab.trans hbc, Nat.le_trans hnumber' hnumber⟩

theorem appliedFirst_total (a b : Nat × TextEdit) :
    (appliedFirst a b || appliedFirst b a) = true := by
  rw [Bool.or_eq_true, appliedFirst_iff, appliedFirst_iff]
  by_cases hsame : a.2.range.start = b.2.range.start
  · rcases Nat.le_total b.1 a.1 with hle | hle
    · exact Or.inl (Or.inr ⟨hsame, hle⟩)
    · exact Or.inr (Or.inr ⟨hsame.symm, hle⟩)
  · rcases Position.before_total hsame with hbefore | hbefore
    · exact Or.inr (Or.inl hbefore)
    · exact Or.inl (Or.inl hbefore)

/-!
# Numbered edits
-/

def numbered (edits : List TextEdit) : List (Nat × TextEdit) :=
  (List.range edits.length).zip edits

def ranked (edits : List TextEdit) : List (Nat × TextEdit) :=
  (numbered edits).mergeSort appliedFirst

theorem schedule_eq (edits : List TextEdit) : schedule edits = (ranked edits).map (·.2) := rfl

theorem map_snd_numbered (edits : List TextEdit) : (numbered edits).map (·.2) = edits :=
  List.map_snd_zip (Nat.le_of_eq List.length_range.symm)

theorem numbered_increasing (edits : List TextEdit) :
    (numbered edits).Pairwise fun a b => a.1 < b.1 := by
  have hnumbers : (numbered edits).map (·.1) = List.range edits.length :=
    List.map_fst_zip (Nat.le_of_eq List.length_range)
  have hrange : (List.range edits.length).Pairwise (· < ·) := List.pairwise_lt_range
  rw [← hnumbers] at hrange
  exact List.pairwise_map.mp hrange

theorem of_number_lt {edits : List TextEdit} {R : TextEdit -> TextEdit -> Prop}
    (h : edits.Pairwise R) {a b : Nat × TextEdit} (ha : a ∈ numbered edits)
    (hb : b ∈ numbered edits) (hlt : a.1 < b.1) : R a.2 b.2 := by
  have hpairs : (numbered edits).Pairwise fun a b => a.1 < b.1 ∧ R a.2 b.2 := by
    rw [← map_snd_numbered edits] at h
    exact (numbered_increasing edits).and (List.pairwise_map.mp h)
  have hforward : (numbered edits).Pairwise fun a b => a.1 < b.1 -> R a.2 b.2 :=
    hpairs.imp fun hab _ => hab.2
  have hall := List.Pairwise.forall_of_forall_of_flip
    (fun a _ hself => absurd hself (Nat.lt_irrefl a.1)) hforward
    (hpairs.imp fun hab hba => absurd hba (Nat.lt_asymm hab.1))
  exact hall ha hb hlt

theorem ranked_perm (edits : List TextEdit) : (ranked edits).Perm (numbered edits) :=
  List.mergeSort_perm _ _

theorem schedule_perm (edits : List TextEdit) : (schedule edits).Perm edits := by
  have hmap := (ranked_perm edits).map (·.2)
  rwa [map_snd_numbered] at hmap

theorem ranked_sorted (edits : List TextEdit) :
    (ranked edits).Pairwise fun a b => appliedFirst a b = true ∧ a.1 ≠ b.1 := by
  apply List.Pairwise.and
  · exact List.pairwise_mergeSort appliedFirst_trans appliedFirst_total _
  · apply (ranked_perm edits).symm.pairwise
    · exact (numbered_increasing edits).imp Nat.ne_of_lt
    · exact Ne.symm

theorem schedule_pairwise {edits : List TextEdit} {R : TextEdit -> TextEdit -> Prop}
    (hbefore : forall a b, a ∈ edits -> b ∈ edits ->
      b.range.start.before a.range.start = true -> R a b)
    (hshared : edits.Pairwise fun a b => a.range.start = b.range.start -> R b a) :
    (schedule edits).Pairwise R := by
  rw [schedule_eq, List.pairwise_map]
  apply (ranked_sorted edits).imp_of_mem
  intro a b ha hb hab
  have ha' := (ranked_perm edits).mem_iff.mp ha
  have hb' := (ranked_perm edits).mem_iff.mp hb
  rcases hab with ⟨hfirst, hne⟩
  rcases (appliedFirst_iff a b).mp hfirst with hlater | ⟨hsame, hle⟩
  · have hmem : forall {c : Nat × TextEdit}, c ∈ numbered edits -> c.2 ∈ edits := by
      intro c hc
      exact map_snd_numbered edits ▸ List.mem_map_of_mem hc
    exact hbefore a.2 b.2 (hmem ha') (hmem hb') hlater
  · have hlt : b.1 < a.1 := by omega
    exact of_number_lt hshared hb' ha' hlt hsame.symm

theorem filter_reverse_schedule {edits : List TextEdit} {p : TextEdit -> Bool}
    (hstart : forall a b, a ∈ edits -> b ∈ edits -> p a = true -> p b = true ->
      a.range.start = b.range.start) :
    (schedule edits).reverse.filter p = edits.filter p := by
  have hnumbered : (ranked edits).reverse.filter (fun a => p a.2) =
      (numbered edits).filter fun a => p a.2 := by
    have hranked : ((ranked edits).reverse.filter fun a => p a.2).Pairwise
        fun a b => a.1 < b.1 := by
      rw [List.filter_reverse, List.pairwise_reverse, List.pairwise_filter]
      apply (ranked_sorted edits).imp_of_mem
      intro a b ha hb hab hpa hpb
      have hmem : forall {c : Nat × TextEdit}, c ∈ ranked edits -> c.2 ∈ edits := by
        intro c hc
        exact (schedule_perm edits).mem_iff.mp (List.mem_map_of_mem hc)
      have hsame := hstart a.2 b.2 (hmem ha) (hmem hb) hpa hpb
      rcases (appliedFirst_iff a b).mp hab.1 with hlater | ⟨_, hle⟩
      · rw [hsame, Position.before_irrefl] at hlater
        cases hlater
      · have hne := hab.2
        omega
    exact List.Perm.eq_of_pairwise (fun a b _ _ hab hba =>
      absurd hba (Nat.lt_asymm hab)) hranked ((numbered_increasing edits).filter _)
      (((List.reverse_perm _).trans (ranked_perm edits)).filter _)
  have hmap := congrArg (List.map (·.2)) hnumbered
  rw [schedule_eq, ← List.map_reverse, List.filter_map]
  rw [← map_snd_numbered edits, List.filter_map, map_snd_numbered]
  exact hmap

/-!
# Edits in the order of their starts
-/

def startsFirst (e f : TextEdit) : Bool :=
  !f.range.start.before e.range.start

/-- Edits in the order of their starts; those with one start stay in input order. -/
def ascending (edits : List TextEdit) : List TextEdit :=
  edits.mergeSort startsFirst

theorem startsFirst_trans (e f g : TextEdit) (hef : startsFirst e f = true)
    (hfg : startsFirst f g = true) : startsFirst e g = true := by
  simp [startsFirst, Position.before] at hef hfg ⊢
  omega

theorem startsFirst_total (e f : TextEdit) : (startsFirst e f || startsFirst f e) = true := by
  simp [startsFirst, Position.before]
  omega

theorem ascending_perm (edits : List TextEdit) : (ascending edits).Perm edits :=
  List.mergeSort_perm edits startsFirst

theorem ascending_pairwise (edits : List TextEdit) :
    (ascending edits).Pairwise fun e f => ¬ f.range.start.before e.range.start = true := by
  have hsorted := List.pairwise_mergeSort startsFirst_trans startsFirst_total edits
  exact hsorted.imp fun hle => by simpa [startsFirst] using hle

theorem map_swap_numbered (edits : List TextEdit) :
    (numbered edits).map Prod.swap = edits.zipIdx := by
  rw [numbered, List.zipIdx_eq_zip_range', List.range_eq_range', List.zip_eq_zipWith,
    List.map_zipWith, List.zip_eq_zipWith, List.zipWith_comm]
  rfl

theorem zipIdxLE_swap_iff (a b : Nat × TextEdit) :
    List.zipIdxLE startsFirst a.swap b.swap = true ↔ appliedFirst b a = true := by
  rw [appliedFirst_iff]
  by_cases hsame : a.2.range.start = b.2.range.start
  · simp [List.zipIdxLE, startsFirst, hsame, Position.before_irrefl]
  · have hne : b.2.range.start ≠ a.2.range.start := Ne.symm hsame
    rcases Position.before_total hsame with hbefore | hbefore
    · have hnot := Position.before_asymm hbefore
      simp [List.zipIdxLE, startsFirst, hbefore, hnot]
    · have hnot := Position.before_asymm hbefore
      simp [List.zipIdxLE, startsFirst, hbefore, hnot, hne]

theorem eq_of_appliedFirst {edits : List TextEdit} {a b : Nat × TextEdit}
    (ha : a ∈ numbered edits)
    (hb : b ∈ numbered edits) (hab : appliedFirst a b = true) (hba : appliedFirst b a = true) :
    a = b := by
  have hnumber : a.1 = b.1 := by
    rw [appliedFirst_iff] at hab hba
    rcases hab with hlater | ⟨hsame, hle⟩
    · rcases hba with hbefore | ⟨hsame, -⟩
      · rw [Position.before_asymm hlater] at hbefore
        cases hbefore
      · rw [hsame, Position.before_irrefl] at hlater
        cases hlater
    · rcases hba with hbefore | ⟨-, hge⟩
      · rw [hsame, Position.before_irrefl] at hbefore
        cases hbefore
      · exact Nat.le_antisymm hge hle
  have hpairs : (numbered edits).Pairwise fun a b => a.1 = b.1 -> a = b :=
    (numbered_increasing edits).imp fun hlt heq => absurd heq (Nat.ne_of_lt hlt)
  have hall := List.Pairwise.forall_of_forall_of_flip (fun _ _ _ => rfl) hpairs
    (hpairs.imp fun h heq => (h heq.symm).symm)
  exact hall ha hb hnumber

/-- A schedule applies the edits in the reverse of the order of their starts. -/
theorem reverse_schedule (edits : List TextEdit) :
    (schedule edits).reverse = ascending edits := by
  have hpairs : (edits.zipIdx.mergeSort (List.zipIdxLE startsFirst)).Pairwise
      fun a b => List.zipIdxLE startsFirst a b = true :=
    List.pairwise_mergeSort (List.zipIdxLE_trans startsFirst_trans)
      (List.zipIdxLE_total startsFirst_total) _
  have hsorted : (ranked edits).reverse.map Prod.swap =
      edits.zipIdx.mergeSort (List.zipIdxLE startsFirst) := by
    refine List.Perm.eq_of_pairwise ?_ ?_ hpairs ?_
    · intro a b ha hb hab hba
      rw [List.mem_mergeSort, ← map_swap_numbered] at hb
      obtain ⟨a, hranked, rfl⟩ := List.mem_map.mp ha
      obtain ⟨b, hnumbered, rfl⟩ := List.mem_map.mp hb
      rw [zipIdxLE_swap_iff] at hab hba
      have hmem := (ranked_perm edits).mem_iff.mp (List.mem_reverse.mp hranked)
      rw [eq_of_appliedFirst hmem hnumbered hba hab]
    · rw [List.pairwise_map, List.pairwise_reverse]
      exact (ranked_sorted edits).imp fun hab => (zipIdxLE_swap_iff _ _).mpr hab.1
    · have hranked := ((List.reverse_perm _).trans (ranked_perm edits)).map Prod.swap
      rw [map_swap_numbered] at hranked
      exact hranked.trans (List.mergeSort_perm _ _).symm
  have hmap := congrArg (List.map (·.1)) hsorted
  rw [List.mergeSort_zipIdx, List.map_map] at hmap
  rw [schedule_eq, ← List.map_reverse]
  exact hmap

end TextEdit
end LanguageClient

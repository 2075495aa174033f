import LanguageClient.Path.Basic

/-!
# The order of paths

Paths are compared component by component, and names byte by byte. Both orders are
lexicographic over a strict total order, so both are total, and two paths stand at the same
place of the order just if they have the same components. A stable sort by path is therefore
determined by what it finds under each sequence of components.
-/

namespace LanguageClient

/-- A stable sort leaves elements that may stand in any order as they are. -/
theorem filter_mergeSort {α : Type} {le : α -> α -> Bool} {p : α -> Bool} {l : List α}
    (htrans : forall a b c, le a b = true -> le b c = true -> le a c = true)
    (htotal : forall a b, (le a b || le b a) = true)
    (h : forall a b, a ∈ l -> b ∈ l -> p a = true -> p b = true -> le a b = true) :
    (l.mergeSort le).filter p = l.filter p := by
  have hpairs : (l.filter p).Pairwise fun a b => le a b = true := by
    refine List.pairwise_iff_forall_sublist.mpr fun {a b} hab => ?_
    have ha := List.mem_filter.mp (hab.subset List.mem_cons_self)
    have hb := List.mem_filter.mp (hab.subset (List.mem_cons_of_mem _ List.mem_cons_self))
    exact h a b ha.1 hb.1 ha.2 hb.2
  have hsublist := (List.sublist_mergeSort htrans htotal hpairs List.filter_sublist).filter p
  rw [List.filter_filter] at hsublist
  simp only [Bool.and_self] at hsublist
  exact (hsublist.eq_of_length ((List.mergeSort_perm l le).filter p).length_eq.symm).symm

namespace Path

/-!
# Lexicographic orders
-/

section

variable {α : Type} [DecidableEq α]

structure StrictTotal (lt : α -> α -> Bool) : Prop where
  irrefl : forall a, lt a a = false
  trans : forall a b c, lt a b = true -> lt b c = true -> lt a c = true
  total : forall a b, a ≠ b -> lt a b = true ∨ lt b a = true

def lexLe (lt : α -> α -> Bool) : List α -> List α -> Bool
  | [], _ => true
  | _ :: _, [] => false
  | a :: as, b :: bs => lt a b || (a == b && lexLe lt as bs)

variable {lt : α -> α -> Bool}

theorem lexLe_cons_iff (a b : α) (as bs : List α) :
    lexLe lt (a :: as) (b :: bs) = true <-> lt a b = true ∨ a = b ∧ lexLe lt as bs = true := by
  simp [lexLe]

theorem lexLe_total (h : StrictTotal lt) (as bs : List α) :
    lexLe lt as bs = true ∨ lexLe lt bs as = true := by
  induction as generalizing bs with
  | nil => exact Or.inl rfl
  | cons a as ih =>
      cases bs with
      | nil => exact Or.inr rfl
      | cons b bs =>
          rw [lexLe_cons_iff, lexLe_cons_iff]
          by_cases hab : a = b
          · rcases ih bs with hle | hle
            · exact Or.inl (Or.inr ⟨hab, hle⟩)
            · exact Or.inr (Or.inr ⟨hab.symm, hle⟩)
          · rcases h.total a b hab with hlt | hlt
            · exact Or.inl (Or.inl hlt)
            · exact Or.inr (Or.inl hlt)

theorem lexLe_trans (h : StrictTotal lt) {as bs cs : List α} (hab : lexLe lt as bs = true)
    (hbc : lexLe lt bs cs = true) : lexLe lt as cs = true := by
  induction as generalizing bs cs with
  | nil => rfl
  | cons a as ih =>
      cases bs with
      | nil => cases hab
      | cons b bs =>
          cases cs with
          | nil => cases hbc
          | cons c cs =>
              rw [lexLe_cons_iff] at hab hbc ⊢
              rcases hab with hab | ⟨rfl, hab⟩
              · rcases hbc with hbc | ⟨rfl, _⟩
                · exact Or.inl (h.trans a b c hab hbc)
                · exact Or.inl hab
              · rcases hbc with hbc | ⟨rfl, hbc⟩
                · exact Or.inl hbc
                · exact Or.inr ⟨rfl, ih hab hbc⟩

theorem lexLe_antisymm (h : StrictTotal lt) {as bs : List α} (hab : lexLe lt as bs = true)
    (hba : lexLe lt bs as = true) : as = bs := by
  induction as generalizing bs with
  | nil =>
      cases bs with
      | nil => rfl
      | cons b bs => cases hba
  | cons a as ih =>
      cases bs with
      | nil => cases hab
      | cons b bs =>
          have hasymm : lt a b = true -> lt b a = true -> False := by
            intro hlt hgt
            have hself := h.trans a b a hlt hgt
            rw [h.irrefl] at hself
            cases hself
          rw [lexLe_cons_iff] at hab hba
          rcases hab with hlt | ⟨rfl, hab⟩
          · rcases hba with hgt | ⟨rfl, _⟩
            · exact (hasymm hlt hgt).elim
            · exact (hasymm hlt hlt).elim
          · rcases hba with hgt | ⟨_, hba⟩
            · exact (hasymm hgt hgt).elim
            · rw [ih hab hba]

end

/-!
# Names and components
-/

theorem bytesLe_eq_lexLe (as bs : Bytes) :
    bytesLe as bs = lexLe (fun a b => decide (a < b)) as bs := by
  induction as generalizing bs with
  | nil => rfl
  | cons a as ih =>
      cases bs with
      | nil => rfl
      | cons b bs => rw [bytesLe, lexLe, ih]

theorem componentsLe_eq_lexLe (cs ds : List Component) :
    componentsLe cs ds = lexLe Component.before cs ds := by
  induction cs generalizing ds with
  | nil => rfl
  | cons c cs ih =>
      cases ds with
      | nil => rfl
      | cons d ds => rw [componentsLe, lexLe, ih]

theorem strictTotal_bytes : StrictTotal fun a b : UInt8 => decide (a < b) where
  irrefl a := by simp
  trans a b c hab hbc := by
    rw [decide_eq_true_eq] at hab hbc ⊢
    exact UInt8.lt_trans hab hbc
  total a b hne := by
    rw [decide_eq_true_eq, decide_eq_true_eq]
    exact UInt8.lt_or_lt_of_ne hne

theorem before_name_iff (a b : Bytes) :
    Component.before (.name a) (.name b) = true <-> a ≠ b ∧ bytesLe a b = true := by
  simp [Component.before]

theorem before_of_rank {c d : Component} (h : forall a b, ¬ (c = .name a ∧ d = .name b)) :
    c.before d = decide (c.rank < d.rank) := by
  cases c <;> cases d <;> first | rfl | exact absurd ⟨rfl, rfl⟩ (h _ _)

theorem rank_le_of_before {c d : Component} (h : c.before d = true) : c.rank ≤ d.rank := by
  by_cases hnames : exists a b, c = .name a ∧ d = .name b
  · rcases hnames with ⟨a, b, rfl, rfl⟩
    exact Nat.le_refl _
  · rw [before_of_rank (fun a b hab => hnames ⟨a, b, hab⟩), decide_eq_true_eq] at h
    exact Nat.le_of_lt h

theorem eq_or_names_of_rank {c d : Component} (h : c.rank = d.rank) :
    c = d ∨ exists a b, c = .name a ∧ d = .name b := by
  cases c <;> cases d <;> first
    | exact Or.inl rfl
    | exact Or.inr ⟨_, _, rfl, rfl⟩
    | simp [Component.rank] at h

theorem before_of_rank_lt {c d : Component} (h : c.rank < d.rank) : c.before d = true := by
  rw [before_of_rank, decide_eq_true_eq]
  · exact h
  · rintro a b ⟨rfl, rfl⟩
    exact Nat.lt_irrefl _ h

theorem strictTotal_components : StrictTotal Component.before where
  irrefl c := by
    cases c <;> simp [Component.before, Component.rank]
  trans c d e hcd hde := by
    have hranks := Nat.le_trans (rank_le_of_before hcd) (rank_le_of_before hde)
    rcases Nat.lt_or_eq_of_le hranks with hlt | hrank
    · exact before_of_rank_lt hlt
    · -- All three have one rank, and of two equal ranks only names can stand before each
      -- other.
      have hle := rank_le_of_before hcd
      have hle' := rank_le_of_before hde
      have hsame (c d : Component) (h : c.before d = true) (hrank : c.rank = d.rank) :
          exists a b, c = .name a ∧ d = .name b := by
        rcases eq_or_names_of_rank hrank with rfl | hnames
        · cases c <;> simp [Component.before, Component.rank] at h
        · exact hnames
      rcases hsame c d hcd (by omega) with ⟨a, b, rfl, rfl⟩
      rcases hsame (.name b) e hde (by omega) with ⟨_, f, hb, rfl⟩
      injection hb with hb
      subst hb
      rw [before_name_iff] at hcd hde ⊢
      rw [bytesLe_eq_lexLe] at hcd hde ⊢
      refine ⟨?_, lexLe_trans strictTotal_bytes hcd.2 hde.2⟩
      rintro rfl
      exact hcd.1 (lexLe_antisymm strictTotal_bytes hcd.2 hde.2)
  total c d hne := by
    rcases Nat.lt_trichotomy c.rank d.rank with hlt | hrank | hlt
    · exact Or.inl (before_of_rank_lt hlt)
    · rcases eq_or_names_of_rank hrank with rfl | ⟨a, b, rfl, rfl⟩
      · exact absurd rfl hne
      · have hab : a ≠ b := fun h => hne (by rw [h])
        rw [before_name_iff, before_name_iff, bytesLe_eq_lexLe, bytesLe_eq_lexLe]
        rcases lexLe_total strictTotal_bytes a b with hle | hle
        · exact Or.inl ⟨hab, hle⟩
        · exact Or.inr ⟨hab.symm, hle⟩
    · exact Or.inr (before_of_rank_lt hlt)

/-!
# Paths
-/

protected theorem le_total (p q : Path) : (le p q || le q p) = true := by
  rw [Bool.or_eq_true, le, le, componentsLe_eq_lexLe, componentsLe_eq_lexLe]
  exact lexLe_total strictTotal_components _ _

protected theorem le_trans (p q r : Path) (hpq : le p q = true) (hqr : le q r = true) :
    le p r = true := by
  rw [le, componentsLe_eq_lexLe] at hpq hqr ⊢
  exact lexLe_trans strictTotal_components hpq hqr

theorem le_of_components_eq {p q : Path} (h : p.components = q.components) :
    le p q = true := by
  have htotal := Path.le_total p q
  rw [Bool.or_eq_true, le, le, h, or_self] at htotal
  rwa [le, h]

protected theorem le_antisymm_iff {p q : Path} :
    le p q = true ∧ le q p = true <-> p.components = q.components := by
  constructor
  · rintro ⟨hpq, hqp⟩
    rw [le, componentsLe_eq_lexLe] at hpq hqp
    exact lexLe_antisymm strictTotal_components hpq hqp
  · intro h
    exact ⟨le_of_components_eq h, le_of_components_eq h.symm⟩

/-!
# Sorting by path
-/

section

variable {α : Type}

def sorted (entries : List (Path × α)) : List (Path × α) :=
  entries.mergeSort fun a b => le a.1 b.1

def atPlace (components : List Component) (entries : List (Path × α)) : List (Path × α) :=
  entries.filter fun a => a.1.components = components

theorem sorted_pairwise (entries : List (Path × α)) :
    (sorted entries).Pairwise fun a b => le a.1 b.1 = true :=
  List.pairwise_mergeSort (fun a b c => Path.le_trans a.1 b.1 c.1)
    (fun a b => Path.le_total a.1 b.1) entries

theorem sorted_perm (entries : List (Path × α)) : (sorted entries).Perm entries :=
  List.mergeSort_perm entries _

theorem atPlace_sorted (components : List Component) (entries : List (Path × α)) :
    atPlace components (sorted entries) = atPlace components entries := by
  refine filter_mergeSort (fun a b c => Path.le_trans a.1 b.1 c.1)
    (fun a b => Path.le_total a.1 b.1) fun a b _ _ ha hb => ?_
  rw [decide_eq_true_eq] at ha hb
  exact le_of_components_eq (ha.trans hb.symm)

theorem eq_of_atPlace {entries entries' : List (Path × α)}
    (hsorted : entries.Pairwise fun a b => le a.1 b.1 = true)
    (hsorted' : entries'.Pairwise fun a b => le a.1 b.1 = true)
    (h : forall components, atPlace components entries = atPlace components entries') :
    entries = entries' := by
  have hmem {a : Path × α} {entries : List (Path × α)} :
      a ∈ atPlace a.1.components entries <-> a ∈ entries := by
    simp [atPlace]
  induction entries generalizing entries' with
  | nil =>
      cases entries' with
      | nil => rfl
      | cons b more =>
          have hb := h b.1.components
          rw [eq_comm] at hb
          exact absurd (hmem.mpr List.mem_cons_self) (List.eq_nil_iff_forall_not_mem.mp hb b)
  | cons a rest ih =>
      cases entries' with
      | nil =>
          exact absurd (hmem.mpr List.mem_cons_self)
            (List.eq_nil_iff_forall_not_mem.mp (h a.1.components) a)
      | cons b more =>
          have hle {a b : Path × α} {rest : List (Path × α)}
              (hsorted : (a :: rest).Pairwise fun a b => le a.1 b.1 = true)
              (hb : b ∈ a :: rest) : le a.1 b.1 = true := by
            rcases List.mem_cons.mp hb with rfl | hb
            · exact le_of_components_eq rfl
            · exact (List.pairwise_cons.mp hsorted).1 b hb
          have hfirst : a ∈ b :: more :=
            hmem.mp (h a.1.components ▸ hmem.mpr List.mem_cons_self)
          have hfirst' : b ∈ a :: rest :=
            hmem.mp ((h b.1.components).symm ▸ hmem.mpr List.mem_cons_self)
          have hplace : a.1.components = b.1.components :=
            Path.le_antisymm_iff.mp ⟨hle hsorted hfirst', hle hsorted' hfirst⟩
          have hheads := h a.1.components
          rw [atPlace, atPlace, List.filter_cons_of_pos (by simp),
            List.filter_cons_of_pos (by simp [hplace])] at hheads
          rcases List.cons.inj hheads with ⟨rfl, _⟩
          rw [ih hsorted.of_cons hsorted'.of_cons]
          intro components
          have hall := h components
          rw [atPlace, atPlace, List.filter_cons, List.filter_cons] at hall
          split at hall
          · exact (List.cons.inj hall).2
          · exact hall

/-- The order in which entries come matters only among those of one path. -/
theorem sorted_congr {entries entries' : List (Path × α)}
    (h : forall components, atPlace components entries = atPlace components entries') :
    sorted entries = sorted entries' := by
  apply eq_of_atPlace (sorted_pairwise entries) (sorted_pairwise entries')
  intro components
  rw [atPlace_sorted, atPlace_sorted, h]

theorem atPlace_of_perm {entries entries' : List (Path × α)}
    (hperm : entries'.Perm entries) (hdistinct : (entries.map (·.1.components)).Nodup)
    (components : List Component) :
    atPlace components entries' = atPlace components entries := by
  have hplaces : (atPlace components entries').Perm (atPlace components entries) :=
    hperm.filter _
  have hsublist : ((atPlace components entries).map (·.1.components)).Nodup :=
    hdistinct.sublist (List.filter_sublist.map _)
  have hsame : forall a, a ∈ atPlace components entries -> a.1.components = components :=
    fun a ha => of_decide_eq_true (List.mem_filter.mp ha).2
  rcases hlist : atPlace components entries with _ | ⟨a, _ | ⟨b, rest⟩⟩
  · rw [hlist] at hplaces
    exact hplaces.eq_nil
  · rw [hlist] at hplaces
    exact List.perm_singleton.mp hplaces
  · rw [hlist] at hsame hsublist
    have ha := hsame a List.mem_cons_self
    have hb := hsame b (List.mem_cons_of_mem _ List.mem_cons_self)
    simp [ha, hb] at hsublist

end

end Path
end LanguageClient

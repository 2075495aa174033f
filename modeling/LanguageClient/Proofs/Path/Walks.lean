import LanguageClient.Proofs.Path.Components
import Mathlib.Data.List.Induction

/-!
# Walking along a path

A path is an instruction for a walk through directories: a name leads one down, `..` leads
one up and stays at the top there, a slash at the start leads back to the top. A place is
given by the names from the top down to it. The normal form of a path is the place to which
the walk from the top leads, and a path behind another is one walk after the other.
-/

namespace LanguageClient
namespace Path

/-!
# Walks
-/

def enter (place : List Bytes) : Component -> List Bytes
  | .root => []
  | .here => place
  | .up => place.dropLast
  | .name n => place ++ [n]

def walk (place : List Bytes) (components : List Component) : List Bytes :=
  components.foldl enter place

/-- The place to which `p` leads when it is read from the directory `base`. -/
def placeFrom (base p : Path) : List Bytes :=
  walk (walk [] base.components) p.components

theorem walk_append (place : List Bytes) (front back : List Component) :
    walk place (front ++ back) = walk (walk place front) back :=
  List.foldl_append

theorem walk_names (place names : List Bytes) :
    walk place (names.map .name) = place ++ names := by
  induction names generalizing place with
  | nil => simp [walk]
  | cons n rest ih =>
      rw [List.map_cons, walk, List.foldl_cons]
      exact (ih (place ++ [n])).trans (by simp)

theorem walk_leading (p : Path) (place : List Bytes) :
    walk place p.leading = if p.isAbsolute then [] else place := by
  unfold leading
  by_cases habsolute : p.isAbsolute = true
  · simp [habsolute, walk, enter]
  · rw [if_neg habsolute, if_neg habsolute]
    split <;> rfl

theorem walk_components (p : Path) (place : List Bytes) :
    walk place p.components = walk (if p.isAbsolute then [] else place) p.inner := by
  rw [components_eq, walk_append, walk_leading]

theorem walk_of_isAbsolute {p : Path} (h : p.isAbsolute = true) (place other : List Bytes) :
    walk place p.components = walk other p.components := by
  rw [walk_components, walk_components, if_pos h, if_pos h]

theorem walk_join (p q : Path) (place : List Bytes) :
    walk place (p.join q).components = walk (walk place p.components) q.components := by
  by_cases hq : q.isAbsolute = true
  · rw [join_of_isAbsolute p hq]
    exact walk_of_isAbsolute hq _ _
  · by_cases hp : p.bytes = []
    · have hcomponents : p.components = [] := by
        rcases p with ⟨bytes⟩
        cases hp
        rfl
      rw [join_of_empty q hp, hcomponents]
      rfl
    · rw [components_join hp (by simpa using hq), walk_append, walk_components q, if_neg hq]

/-!
## Where the names of a place come from
-/

theorem mem_enter {place : List Bytes} {c : Component} {n : Bytes} (h : n ∈ enter place c) :
    n ∈ place ∨ c = .name n := by
  cases c with
  | root => simp [enter] at h
  | here => exact Or.inl h
  | up => exact Or.inl (List.dropLast_subset place h)
  | name m =>
      rcases List.mem_append.mp h with h | h
      · exact Or.inl h
      · exact Or.inr (by rw [List.mem_singleton.mp h])

theorem mem_walk {place : List Bytes} {components : List Component} {n : Bytes}
    (h : n ∈ walk place components) : n ∈ place ∨ .name n ∈ components := by
  induction components generalizing place with
  | nil => exact Or.inl h
  | cons c rest ih =>
      rcases ih h with hplace | hrest
      · rcases mem_enter hplace with hplace | rfl
        · exact Or.inl hplace
        · exact Or.inr List.mem_cons_self
      · exact Or.inr (List.mem_cons_of_mem c hrest)

theorem isName_of_mem_walk {place : List Bytes} {p : Path} {n : Bytes}
    (hplace : forall m, m ∈ place -> IsName m) (h : n ∈ walk place p.components) :
    IsName n := by
  rcases mem_walk h with hmem | hmem
  · exact hplace n hmem
  · exact (isName_of_mem_components hmem).left

theorem isName_of_mem_walk_top {p : Path} {n : Bytes} (h : n ∈ walk [] p.components) :
    IsName n :=
  isName_of_mem_walk (by simp) h

theorem isName_of_mem_placeFrom {base p : Path} {n : Bytes} (h : n ∈ placeFrom base p) :
    IsName n :=
  isName_of_mem_walk (fun _ => isName_of_mem_walk_top) h

/-- A walk keeps some names of the place from which it starts and adds names of its own. -/
theorem walk_eq_take_append (place : List Bytes) (components : List Component) :
    exists k added, walk place components = place.take k ++ added ∧
      forall n, n ∈ added -> .name n ∈ components := by
  induction components using List.reverseRecOn with
  | nil => exact ⟨place.length, [], by simp [walk], by simp⟩
  | append_singleton front c ih =>
      rcases ih with ⟨k, added, hwalk, hadded⟩
      have hfront : forall n, n ∈ added -> .name n ∈ front ++ [c] := fun n hn =>
        List.mem_append_left [c] (hadded n hn)
      rw [walk_append, hwalk]
      cases c with
      | root => exact ⟨0, [], rfl, by simp⟩
      | here => exact ⟨k, added, rfl, hfront⟩
      | name m =>
          refine ⟨k, added ++ [m], by simp [walk, enter], ?_⟩
          intro n hn
          rcases List.mem_append.mp hn with hn | hn
          · exact hfront n hn
          · simp [List.mem_singleton.mp hn]
      | up =>
          cases added with
          | nil =>
              refine ⟨min k place.length - 1, [], ?_, by simp⟩
              have hless : min (min k place.length - 1) k = min k place.length - 1 := by
                omega
              rw [List.append_nil, List.append_nil]
              change (place.take k).dropLast = _
              rw [List.dropLast_eq_take, List.take_take, List.length_take, hless]
          | cons first more =>
              refine ⟨k, (first :: more).dropLast, ?_, ?_⟩
              · exact List.dropLast_append_of_ne_nil (by simp)
              · intro n hn
                exact hfront n (List.dropLast_subset _ hn)

/-!
# Normal forms
-/

theorem isAbsolute_of_empty {p : Path} (h : p.bytes = []) : p.isAbsolute = false := by
  rw [isAbsolute, h]
  rfl

theorem isAbsolute_join_eq_or (p q : Path) :
    (p.join q).isAbsolute = (p.isAbsolute || q.isAbsolute) := by
  by_cases hq : q.isAbsolute = true
  · rw [join_of_isAbsolute p hq, hq, Bool.or_true]
  · rw [Bool.not_eq_true] at hq
    rw [hq, Bool.or_false]
    by_cases hp : p.bytes = []
    · rw [join_of_empty q hp, hq, isAbsolute_of_empty hp]
    · exact isAbsolute_join hp hq

theorem resolveNames_eq_walk {components : List Component} (stack : List Bytes)
    (h : .root ∉ components) :
    resolveNames stack components = walk stack.reverse components := by
  induction components generalizing stack with
  | nil => rfl
  | cons c rest ih =>
      have hrest : .root ∉ rest := fun hmem => h (List.mem_cons_of_mem c hmem)
      cases c with
      | root => exact absurd List.mem_cons_self h
      | here => exact ih stack hrest
      | up => rw [resolveNames, ih stack.tail hrest, ← List.dropLast_reverse]; rfl
      | name n => rw [resolveNames, ih (n :: stack) hrest, List.reverse_cons]; rfl

theorem resolveNames_components (p : Path) :
    resolveNames [] p.components = walk [] p.components := by
  by_cases habsolute : p.isAbsolute = true
  · rw [components_of_isAbsolute habsolute, resolveNames,
      resolveNames_eq_walk [] (root_not_mem_inner p)]
    rfl
  · exact resolveNames_eq_walk [] (root_not_mem_components (by simpa using habsolute))

theorem normalize_eq_ofNames (p : Path) :
    p.normalize = ofNames p.isAbsolute (walk [] p.components) := by
  rw [normalize, resolveNames_components]

theorem components_normalize (p : Path) :
    p.normalize.components =
      (if p.isAbsolute then [.root] else []) ++ (walk [] p.components).map .name := by
  rw [normalize_eq_ofNames, components_ofNames fun n => isName_of_mem_walk_top]

theorem isAbsolute_normalize (p : Path) : p.normalize.isAbsolute = p.isAbsolute := by
  rw [normalize_eq_ofNames, isAbsolute_ofNames fun n => isName_of_mem_walk_top]

theorem walk_ofNames {absolute : Bool} {names : List Bytes} (place : List Bytes)
    (h : forall n, n ∈ names -> IsName n) :
    walk place (ofNames absolute names).components =
      (if absolute then [] else place) ++ names := by
  rw [walk_components, inner_ofNames h, isAbsolute_ofNames h, walk_names]

theorem walk_normalize (p : Path) (place : List Bytes) :
    walk place p.normalize.components =
      (if p.isAbsolute then [] else place) ++ walk [] p.components := by
  rw [normalize_eq_ofNames, walk_ofNames place fun n => isName_of_mem_walk_top]

theorem walk_normalize_top (p : Path) :
    walk [] p.normalize.components = walk [] p.components := by
  rw [walk_normalize]
  split <;> rfl

theorem normalize_ofNames {absolute : Bool} {names : List Bytes}
    (h : forall n, n ∈ names -> IsName n) :
    (ofNames absolute names).normalize = ofNames absolute names := by
  rw [normalize_eq_ofNames, isAbsolute_ofNames h, walk_ofNames [] h]
  cases absolute <;> rfl

end Path
end LanguageClient

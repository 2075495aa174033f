import LanguageClient.Proofs.Workspace.Confinement
import Mathlib.Data.List.Infix

/-!
# Workspaces with a relative root

A relative root is put into normal form before anybody knows where it will be read from, so
a `..` at its start is lost. Seen from a directory, what such a workspace hands out may then
lie beside the root. And a root whose normal form is empty takes in every path, absolute
ones too. The main statement says that these are the only two ways out.
-/

namespace LanguageClient
namespace Path

/-- How often a walk leads above the place where it starts, when it begins `depth` names
below that place. -/
def climb : Nat -> List Component -> Nat
  | _, [] => 0
  | depth, .name _ :: rest => climb (depth + 1) rest
  | 0, .up :: rest => climb 0 rest + 1
  | depth + 1, .up :: rest => climb depth rest
  | depth, .root :: rest => climb depth rest
  | depth, .here :: rest => climb depth rest

/-- A walk gives up one name of its start for each step above it; the names that it adds do
not depend on where it starts. -/
theorem walk_append_place {components : List Component} (place own : List Bytes)
    (h : .root ∉ components) :
    walk (place ++ own) components =
      place.take (place.length - climb own.length components) ++ walk own components := by
  induction components generalizing place own with
  | nil => simp [walk, climb]
  | cons c rest ih =>
      have hrest : .root ∉ rest := fun hmem => h (List.mem_cons_of_mem c hmem)
      cases c with
      | root => exact absurd List.mem_cons_self h
      | here =>
          have hclimb : climb own.length (.here :: rest) = climb own.length rest := by
            cases own.length <;> rfl
          rw [hclimb]
          exact ih place own hrest
      | name n =>
          have hnext := ih place (own ++ [n]) hrest
          have hclimb :
              climb own.length (.name n :: rest) = climb (own ++ [n]).length rest := by
            rw [List.length_append]
            cases own.length <;> rfl
          rw [hclimb]
          change walk ((place ++ own) ++ [n]) rest = _
          rw [List.append_assoc, hnext]
          rfl
      | up =>
          rcases List.eq_nil_or_concat' own with rfl | ⟨front, last, rfl⟩
          · have hnext := ih place.dropLast [] hrest
            have hcount : min (min (place.length - 1) place.length - climb 0 rest)
                (place.length - 1) = place.length - (climb 0 rest + 1) := by
              omega
            rw [List.append_nil] at hnext ⊢
            change walk place.dropLast rest =
              place.take (place.length - (climb 0 rest + 1)) ++ walk [] rest
            rw [hnext, List.dropLast_eq_take, List.take_take, List.length_take,
              List.length_nil, hcount]
          · have hnext := ih place front hrest
            have hclimb :
                climb (front ++ [last]).length (.up :: rest) = climb front.length rest := by
              rw [List.length_append]
              rfl
            rw [hclimb]
            change walk (place ++ (front ++ [last])).dropLast rest =
              _ ++ walk (front ++ [last]).dropLast rest
            rw [← List.append_assoc, List.dropLast_concat, List.dropLast_concat, hnext]

theorem placeFrom_relative {p : Path} (cwd : Path) (h : p.isAbsolute = false) :
    placeFrom cwd p =
      (walk [] cwd.components).take
        ((walk [] cwd.components).length - climb 0 p.components) ++ walk [] p.components := by
  have hwalk := walk_append_place (walk [] cwd.components) [] (root_not_mem_components h)
  rw [List.append_nil] at hwalk
  exact hwalk

theorem walk_ofNames_top {names : List Bytes} (h : forall n, n ∈ names -> IsName n) :
    walk [] (ofNames true names).components = names := by
  rw [walk_ofNames [] h]
  rfl

theorem placeFrom_ofNames {absolute : Bool} {names : List Bytes} (cwd : Path)
    (h : forall n, n ∈ names -> IsName n) :
    placeFrom cwd (ofNames absolute names) =
      (if absolute then [] else walk [] cwd.components) ++ names :=
  walk_ofNames _ h

end Path

namespace Workspace

open LanguageClient.Path

variable {D : Type}

/-- Wherever paths are read from, what the workspace hands out lies below
its root as it was given. -/
def KeepsBelow (root : Path) (disk : D) : Prop :=
  forall (cwd : Path) (name : Text) (q : Path), cwd.isAbsolute = true -> cwd.normalize = cwd ->
    (Workspace.new root disk).locate name = .ok q -> placeFrom cwd root <+: placeFrom cwd q

theorem locate_new_eq_ok_iff {root q : Path} {disk : D} {name : Text} :
    (Workspace.new root disk).locate name = .ok q ↔
      q = ofNames (root.isAbsolute || (ofText name).isAbsolute)
      (placeFrom root (ofText name)) ∧
        root.normalize.components <+: q.components := by
  rw [locate_eq_ok_iff]
  change (q = Root.locate root.normalize name ∧ root.normalize.components <+: q.components) ↔ _
  rw [Root.locate_normalize]

theorem keepsBelow_of_relative {root : Path} (disk : D) (h : root.isAbsolute = false)
    (hclimb : climb 0 root.components = 0) (hne : walk [] root.components ≠ []) :
    KeepsBelow root disk := by
  intro cwd name q _ _ hq
  rcases locate_new_eq_ok_iff.mp hq with ⟨rfl, hbelow⟩
  have hnames : forall n, n ∈ placeFrom root (ofText name) -> IsName n :=
    fun _ => isName_of_mem_placeFrom
  have hroot : root.normalize.components = (walk [] root.components).map .name := by
    rw [components_normalize, h]
    rfl
  rw [h, Bool.false_or] at hbelow ⊢
  rw [hroot, components_ofNames hnames] at hbelow
  cases hname : (ofText name).isAbsolute with
  | true =>
      -- No name is the top of an absolute path.
      rcases List.exists_cons_of_ne_nil hne with ⟨first, more, hfirst⟩
      rw [hname, hfirst] at hbelow
      exact absurd (List.cons_prefix_cons.mp hbelow).left (by simp)
  | false =>
      rw [hname] at hbelow
      have hplace : walk [] root.components <+: placeFrom root (ofText name) :=
        (List.prefix_map_iff_of_injective fun _ _ => Component.name.inj).mp hbelow
      rw [placeFrom_relative cwd h, hclimb, Nat.sub_zero, List.take_length,
        placeFrom_ofNames cwd hnames]
      exact (List.prefix_append_right_inj _).mpr hplace

theorem walk_ne_nil_of_keepsBelow {root : Path} {disk : D} (h : root.isAbsolute = false)
    (hkeeps : KeepsBelow root disk) : walk [] root.components ≠ [] := by
  intro hempty
  -- From deep enough below the top, the root lies below some directory and `/` does not.
  have hcwd :
      forall n, n ∈ List.replicate (climb 0 root.components + 1) [0x61] -> IsName n := by
    intro n hn
    rw [List.eq_of_mem_replicate hn]
    constructor <;> decide
  have hroot : root.normalize.components = [] := by
    rw [components_normalize, h, hempty]
    rfl
  have hfound : (Workspace.new root disk).locate ['/'] = .ok (ofNames true []) := by
    rw [locate_new_eq_ok_iff, hroot, h]
    exact ⟨rfl, List.nil_prefix⟩
  have hbelow := hkeeps (ofNames true _) ['/'] _ (isAbsolute_ofNames hcwd)
    (normalize_ofNames hcwd) hfound
  rw [placeFrom_relative _ h, walk_ofNames_top hcwd, hempty, placeFrom_ofNames _ (by simp),
    List.length_replicate, List.take_replicate] at hbelow
  simp [List.replicate_succ] at hbelow

theorem climb_eq_zero_of_keepsBelow {root : Path} {disk : D} (h : root.isAbsolute = false)
    (hkeeps : KeepsBelow root disk) : climb 0 root.components = 0 := by
  rcases List.exists_cons_of_ne_nil (walk_ne_nil_of_keepsBelow h hkeeps) with
    ⟨first, more, hfirst⟩
  by_contra hclimb
  have hnames : forall n, n ∈ walk [] root.components -> IsName n :=
    fun _ => isName_of_mem_walk_top
  -- The root loses all names of a directory of just this depth, and what is handed out
  -- keeps them.
  let other : Bytes := if first = [0x61] then [0x62] else [0x61]
  have hother : other ≠ first := by
    dsimp only [other]
    split
    · rename_i heq
      rw [heq]
      decide
    · exact Ne.symm ‹_›
  have hcwd : forall n, n ∈ List.replicate (climb 0 root.components) other -> IsName n := by
    intro n hn
    rw [List.eq_of_mem_replicate hn]
    dsimp only [other]
    split <;> constructor <;> decide
  have hplace : placeFrom root (ofText []) = walk [] root.components := rfl
  have hfound : (Workspace.new root disk).locate [] =
      .ok (ofNames false (walk [] root.components)) := by
    rw [locate_new_eq_ok_iff, hplace, h, components_normalize, h, components_ofNames hnames]
    exact ⟨rfl, List.prefix_refl _⟩
  have hbelow := hkeeps (ofNames true _) [] _ (isAbsolute_ofNames hcwd)
    (normalize_ofNames hcwd) hfound
  rw [placeFrom_relative _ h, walk_ofNames_top hcwd, placeFrom_ofNames _ hnames,
    List.length_replicate, Nat.sub_self, List.take_zero, List.nil_append,
    walk_ofNames_top hcwd, hfirst] at hbelow
  rcases Nat.exists_eq_succ_of_ne_zero hclimb with ⟨k, hk⟩
  rw [hk, List.replicate_succ] at hbelow
  exact hother (List.cons_prefix_cons.mp hbelow).left.symm

/-- A workspace with a relative root keeps every name below it, from wherever paths are
read, just if the root never leads above where it starts and does not come back to there. -/
theorem keepsBelow_iff_of_relative (root : Path) (disk : D) (h : root.isAbsolute = false) :
    KeepsBelow root disk ↔ climb 0 root.components = 0 ∧ walk [] root.components ≠ [] := by
  constructor
  · intro hkeeps
    exact ⟨climb_eq_zero_of_keepsBelow h hkeeps, walk_ne_nil_of_keepsBelow h hkeeps⟩
  · rintro ⟨hclimb, hne⟩
    exact keepsBelow_of_relative disk h hclimb hne

theorem keepsBelow_iff_of_relative_lib :
    (ofString "a/../lib").isAbsolute = false ∧ KeepsBelow (ofString "a/../lib") () := by
  have hrelative : (ofString "a/../lib").isAbsolute = false := by
    decide +kernel
  exact ⟨hrelative, (keepsBelow_iff_of_relative _ () hrelative).mpr (by decide +kernel)⟩

/-- The root `.` hands out a file that is nowhere below the current directory. -/
theorem not_keepsBelow_dot :
    (Workspace.new (ofString ".") ()).locate "/etc/passwd".toList =
    .ok (ofString "/etc/passwd") ∧
      ¬ placeFrom (ofString "/home/user") (ofString ".") <+:
        placeFrom (ofString "/home/user") (ofString "/etc/passwd") ∧
      ¬ KeepsBelow (ofString ".") () := by
  have hfound : (Workspace.new (ofString ".") ()).locate "/etc/passwd".toList =
      .ok (ofString "/etc/passwd") := by
    decide +kernel
  have hbeside : ¬ placeFrom (ofString "/home/user") (ofString ".") <+:
      placeFrom (ofString "/home/user") (ofString "/etc/passwd") := by
    decide +kernel
  refine ⟨hfound, hbeside, ?_⟩
  intro hkeeps
  exact hbeside (hkeeps (ofString "/home/user") _ _ (by decide +kernel)
    (by decide +kernel) hfound)

end Workspace
end LanguageClient

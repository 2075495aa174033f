import LanguageClient.Proofs.Path.Texts
import LanguageClient.Proofs.Path.Walks
import LanguageClient.Workspace.Basic

/-!
# Confinement to a workspace

Every name that a caller gives leads somewhere, by a walk from the root of the workspace. A
workspace hands out the place to which the walk leads if the root is above it, name by name,
and otherwise refuses it. What it hands out has no dots, is handed out again when asked for,
and is the root followed by what is shown to the user.
-/

namespace LanguageClient

/-!
# Where a name leads
-/

namespace Root

open LanguageClient.Path

theorem locate_normalize (root : Path) (name : Text) :
    locate root.normalize name =
      ofNames (root.isAbsolute || (ofText name).isAbsolute)
        (placeFrom root (ofText name)) := by
  rw [locate, normalize_eq_ofNames, isAbsolute_join_eq_or, isAbsolute_normalize, walk_join,
    walk_normalize_top, placeFrom]

theorem resolve_eq_ok_iff {root q : Path} {name : Text} :
    resolve root name = .ok q ↔ q = locate root name ∧ root.components <+: q.components := by
  rw [resolve, ← below?_isSome_iff]
  by_cases hbelow : (below? root (locate root name)).isSome = true
  · rw [if_pos hbelow]
    constructor
    · intro h
      cases h
      exact ⟨rfl, hbelow⟩
    · rintro ⟨rfl, -⟩
      rfl
  · rw [if_neg hbelow]
    constructor
    · intro h
      cases h
    · rintro ⟨rfl, h⟩
      exact absurd h hbelow

theorem resolve_eq_error {root : Path} {name : Text}
    (h : ¬ root.components <+: (locate root name).components) :
    resolve root name = .error (locate root name) := by
  rw [← below?_isSome_iff] at h
  rw [resolve, if_neg h]

end Root

/-!
# What is shown of a place
-/

namespace Path

theorem mem_drop_walk {place : List Bytes} {components : List Component} {n : Bytes}
    (h : n ∈ (walk place components).drop place.length) : .name n ∈ components := by
  rcases walk_eq_take_append place components with ⟨k, added, hwalk, hadded⟩
  rw [hwalk, List.drop_append, List.drop_eq_nil_of_le (List.length_take_le' k place),
    List.nil_append] at h
  exact hadded n (List.mem_of_mem_drop h)

theorem isText_of_below? {root r : Path} {place : List Bytes} {name : Text}
    (hroot : root.isAbsolute = true) (hplace : root.components = .root :: place.map .name)
    (h : below? root (ofNames true (walk place (ofText name).components)) = some r)
    (hnames : forall n, n ∈ walk place (ofText name).components -> IsName n) :
    IsText r.bytes := by
  rcases join_below? hroot (isAbsolute_ofNames hnames) h with ⟨-, pieces, -, rfl, hpieces⟩
  rw [components_ofNames hnames, hplace] at hpieces
  have hmap : (walk place (ofText name).components).map Component.name =
      place.map .name ++ pieces.filterMap Component.ofPiece := (List.cons.inj hpieces).right
  have hdrop : ((walk place (ofText name).components).drop place.length).map Component.name =
      pieces.filterMap Component.ofPiece := by
    rw [List.map_drop, hmap, List.drop_left' (List.length_map ..)]
  apply isText_joinPieces
  intro piece hmem
  apply isText_of_ofPiece
  intro n hn
  have hleft : Component.name n ∈
      ((walk place (ofText name).components).drop place.length).map Component.name := by
    rw [hdrop]
    exact List.mem_filterMap.mpr ⟨piece, mem_of_mem_kept hmem, hn⟩
  rcases List.mem_map.mp hleft with ⟨m, hm, heq⟩
  cases heq
  exact isText_of_mem_splitPieces (isName_of_mem_components (mem_drop_walk hm)).right

theorem components_normalize_of_up_not_mem {p : Path} (habsolute : p.isAbsolute = true)
    (hup : .up ∉ p.components) : p.normalize.components = p.components := by
  have hcomponents := components_of_isAbsolute habsolute
  have hinner : .up ∉ p.inner := fun hmem =>
    hup (hcomponents ▸ List.mem_cons_of_mem .root hmem)
  rcases exists_names (root_not_mem_inner p) (here_not_mem_inner p) hinner with ⟨names, hnames⟩
  have hwalk : walk [] p.components = names := by
    rw [hcomponents, hnames]
    exact walk_names [] names
  rw [components_normalize, hwalk, hcomponents, hnames, habsolute]
  rfl

end Path

/-!
# Confinement
-/

namespace Workspace

open LanguageClient.Path

variable {D : Type}

/-- How a workspace with the root `w.root` answers for a name that leads to `q`. -/
structure Confines (w : Workspace D) (name : Text) (q : Path) : Prop where
  /-- The place is absolute and has no dots. -/
  absolute : q.isAbsolute = true
  dotless : forall piece, piece ∈ splitPieces q.bytes -> piece ≠ [dot] ∧ piece ≠ [dot, dot]
  /-- It is handed out just if the root is above it, name by name. -/
  succeeds : (exists p, w.locate name = .ok p) ↔ w.root.components <+: q.components
  found : w.root.components <+: q.components -> w.locate name = .ok q
  refused :
    ¬ w.root.components <+: q.components -> w.locate name = .error (.outsideWorkspace q)
  /-- What was handed out is handed out again, if it can be named. -/
  again : w.root.components <+: q.components ->
    forall text, ofText text = q -> w.locate text = .ok q
  /-- What is shown is the way from the root to the place. -/
  shown : w.root.components <+: q.components ->
    (w.root.join (ofText (w.relative q))).components = q.components

theorem locate_eq_ok_iff {w : Workspace D} {name : Text} {q : Path} :
    w.locate name = .ok q ↔
      q = Root.locate w.root name ∧ w.root.components <+: q.components := by
  rw [← Root.resolve_eq_ok_iff, locate]
  cases Root.resolve w.root name with
  | ok p => simp
  | error p => simp

theorem locate_eq_error {w : Workspace D} {name : Text}
    (h : ¬ w.root.components <+: (Root.locate w.root name).components) :
    w.locate name = .error (.outsideWorkspace (Root.locate w.root name)) := by
  rw [locate, Root.resolve_eq_error h]

theorem join_relative {root : Path} {disk : D} {name : Text} (h : root.isAbsolute = true)
    (hbelow : root.normalize.components <+:
      (ofNames true (placeFrom root (ofText name))).components) :
    (root.normalize.join (ofText ((Workspace.new root disk).relative
      (ofNames true (placeFrom root (ofText name)))))).components =
        (ofNames true (placeFrom root (ofText name))).components := by
  have hnames : forall n, n ∈ placeFrom root (ofText name) -> IsName n :=
    fun _ => isName_of_mem_placeFrom
  have hnormal : root.normalize.isAbsolute = true := by
    rw [isAbsolute_normalize, h]
  have hroot : root.normalize.components = .root :: (walk [] root.components).map .name := by
    rw [components_normalize, h]
    rfl
  rw [← below?_isSome_iff] at hbelow
  rcases Option.isSome_iff_exists.mp hbelow with ⟨r, hr⟩
  rcases isText_of_below? hnormal hroot hr hnames with ⟨u, hu⟩
  have hshown : ofText ((Workspace.new root disk).relative
      (ofNames true (placeFrom root (ofText name)))) = r := by
    change ofText (Root.relative root.normalize _) = r
    rw [Root.relative, hr, Option.getD_some, display, hu, Utf8.display_encode, ofText, ← hu]
  rw [hshown]
  exact (join_below? hnormal (isAbsolute_ofNames hnames) hr).left

/-- A workspace with an absolute root confines every name to what is below the root. The
place of a name is found by walking from the root; the root itself may be given with dots,
and what is shown of a place leads to it from the root as given as well. -/
theorem confines_absolute_root (root : Path) (disk : D) (name : Text)
    (h : root.isAbsolute = true) :
    let w := Workspace.new root disk
    let q := ofNames true (placeFrom root (ofText name))
    w.root.components = .root :: (walk [] root.components).map .name ∧
      q.components = .root :: (placeFrom root (ofText name)).map .name ∧
      w.Confines name q ∧
      (w.root.components <+: q.components ->
        (root.join (ofText (w.relative q))).normalize = q ∧
          (.up ∉ root.components ->
            (root.join (ofText (w.relative q))).components = q.components)) := by
  intro w q
  have hnames : forall n, n ∈ placeFrom root (ofText name) -> IsName n :=
    fun _ => isName_of_mem_placeFrom
  have hroot : w.root.components = .root :: (walk [] root.components).map .name := by
    change root.normalize.components = _
    rw [components_normalize, h]
    rfl
  have hq : q.components = .root :: (placeFrom root (ofText name)).map .name :=
    components_ofNames hnames
  have hlocate : Root.locate w.root name = q := by
    change Root.locate root.normalize name = q
    rw [Root.locate_normalize, h, Bool.true_or]
  have hfound : w.root.components <+: q.components -> w.locate name = .ok q := fun hbelow =>
    locate_eq_ok_iff.mpr ⟨hlocate.symm, hbelow⟩
  have hrefused : ¬ w.root.components <+: q.components ->
      w.locate name = .error (.outsideWorkspace q) := by
    intro hbelow
    rw [← hlocate] at hbelow ⊢
    exact locate_eq_error hbelow
  have hshown : w.root.components <+: q.components ->
      (w.root.join (ofText (w.relative q))).components = q.components := join_relative h
  refine ⟨hroot, hq, ?_, ?_⟩
  · constructor
    case absolute => exact isAbsolute_ofNames hnames
    case dotless =>
      intro piece hmem
      rcases splitPieces_ofNames_true hnames with ⟨hsplit, -⟩ | hsplit
      · rw [hsplit] at hmem
        simp only [List.mem_cons, List.not_mem_nil, or_false, or_self] at hmem
        simp [hmem]
      · rw [hsplit] at hmem
        rcases List.mem_cons.mp hmem with rfl | hmem
        · simp
        · exact ⟨(hnames piece hmem).ne_dot, (hnames piece hmem).ne_dots⟩
    case succeeds =>
      constructor
      · rintro ⟨p, hp⟩
        rcases locate_eq_ok_iff.mp hp with ⟨rfl, hbelow⟩
        rwa [hlocate] at hbelow
      · intro hbelow
        exact ⟨q, hfound hbelow⟩
    case found => exact hfound
    case refused => exact hrefused
    case again =>
      intro hbelow text htext
      apply locate_eq_ok_iff.mpr
      refine ⟨?_, hbelow⟩
      rw [Root.locate, htext, join_of_isAbsolute _ (isAbsolute_ofNames hnames)]
      exact (normalize_ofNames hnames).symm
    case shown => exact hshown
  · intro hbelow
    have hjoin := hshown hbelow
    constructor
    · have hwalk := walk_join root.normalize (ofText (w.relative q)) []
      rw [walk_normalize_top] at hwalk
      rw [normalize_eq_ofNames, isAbsolute_join_eq_or, h, Bool.true_or, walk_join, ← hwalk]
      change ofNames true (walk [] (w.root.join (ofText (w.relative q))).components) = q
      rw [hjoin, walk_ofNames [] hnames]
      rfl
    · intro hup
      rw [← hjoin]
      exact components_join_congr _ (bytes_ne_nil_of_isAbsolute h)
        (bytes_ne_nil_of_isAbsolute ((isAbsolute_normalize root).trans h))
        (components_normalize_of_up_not_mem h hup).symm

theorem confines_absolute_root_sibling :
    (ofString "/work/./project/").isAbsolute = true ∧
      (Workspace.new (ofString "/work/./project/") ()).locate "../project/src//./a.ts".toList =
        .ok (ofString "/work/project/src/a.ts") ∧
      (Workspace.new (ofString "/work/./project/") ()).locate "../project-evil/a.ts".toList =
        .error (.outsideWorkspace (ofString "/work/project-evil/a.ts")) := by
  have habsolute : (ofString "/work/./project/").isAbsolute = true := by
    decide +kernel
  have hback := confines_absolute_root _ () "../project/src//./a.ts".toList habsolute
  have hevil := confines_absolute_root _ () "../project-evil/a.ts".toList habsolute
  refine ⟨habsolute, ?_, ?_⟩
  · rw [hback.right.right.left.found (by decide +kernel)]
    decide +kernel
  · rw [hevil.right.right.left.refused (by decide +kernel)]
    decide +kernel

end Workspace
end LanguageClient

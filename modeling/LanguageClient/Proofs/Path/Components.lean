import LanguageClient.Path.Basic

/-!
# Components of paths

What a path names is the list of its components. This module says how that list comes
out when pieces are joined by slashes, when one path is put behind another, and when a
root is taken off the front of a path. The last of these is the prefix test on
components and not on bytes.
-/

namespace LanguageClient
namespace Path

/-!
# Pieces
-/

theorem splitPieces_ne_nil (bytes : Bytes) : splitPieces bytes ≠ [] := by
  cases bytes with
  | nil => simp [splitPieces]
  | cons b rest =>
      rw [splitPieces]
      split
      · simp
      · split <;> simp

theorem splitPieces_slash_cons (bytes : Bytes) :
    splitPieces (slash :: bytes) = [] :: splitPieces bytes := by
  rw [splitPieces]
  cases hrest : splitPieces bytes with
  | nil => exact absurd hrest (splitPieces_ne_nil bytes)
  | cons piece more => simp

theorem splitPieces_cons {b : UInt8} {bytes piece : Bytes} {more : List Bytes} (hb : b ≠ slash)
    (h : splitPieces bytes = piece :: more) :
    splitPieces (b :: bytes) = (b :: piece) :: more := by
  rw [splitPieces, h]
  simp [hb]

theorem splitPieces_append_slash (front back : Bytes) :
    splitPieces (front ++ slash :: back) = splitPieces front ++ splitPieces back := by
  induction front with
  | nil => simp [splitPieces_slash_cons, splitPieces]
  | cons b rest ih =>
      rw [List.cons_append]
      by_cases hb : b = slash
      · rw [hb, splitPieces_slash_cons, splitPieces_slash_cons, ih, List.cons_append]
      · cases hrest : splitPieces rest with
        | nil => exact absurd hrest (splitPieces_ne_nil rest)
        | cons piece more =>
            rw [hrest, List.cons_append] at ih
            rw [splitPieces_cons hb hrest, splitPieces_cons hb ih, List.cons_append]

theorem slash_not_mem_of_mem_splitPieces {bytes piece : Bytes}
    (h : piece ∈ splitPieces bytes) :
    slash ∉ piece := by
  induction bytes generalizing piece with
  | nil =>
      rw [splitPieces, List.mem_singleton] at h
      simp [h]
  | cons b rest ih =>
      by_cases hb : b = slash
      · rw [hb, splitPieces_slash_cons, List.mem_cons] at h
        rcases h with rfl | h
        · simp
        · exact ih h
      · cases hrest : splitPieces rest with
        | nil => exact absurd hrest (splitPieces_ne_nil rest)
        | cons first more =>
            rw [splitPieces_cons hb hrest, List.mem_cons] at h
            rw [hrest] at ih
            rcases h with rfl | h
            · intro hmem
              rcases List.mem_cons.mp hmem with hslash | hmem
              · exact hb hslash.symm
              · exact ih List.mem_cons_self hmem
            · exact ih (List.mem_cons_of_mem first h)

theorem splitPieces_of_slash_not_mem {piece : Bytes} (h : slash ∉ piece) :
    splitPieces piece = [piece] := by
  induction piece with
  | nil => rfl
  | cons b rest ih =>
      rw [List.mem_cons, not_or] at h
      exact splitPieces_cons (Ne.symm h.left) (ih h.right)

theorem splitPieces_joinPieces {pieces : List Bytes} (hne : pieces ≠ [])
    (h : forall piece, piece ∈ pieces -> slash ∉ piece) :
    splitPieces (joinPieces pieces) = pieces := by
  induction pieces with
  | nil => contradiction
  | cons piece rest ih =>
      have hpiece := splitPieces_of_slash_not_mem (h piece List.mem_cons_self)
      cases rest with
      | nil => exact hpiece
      | cons next more =>
          have hrest :=
            ih (by simp) fun other hother => h other (List.mem_cons_of_mem piece hother)
          rw [joinPieces, splitPieces_append_slash, hpiece, hrest, List.singleton_append]
          simp

/-!
# Components
-/

structure IsName (bytes : Bytes) : Prop where
  ne_nil : bytes ≠ []
  ne_dot : bytes ≠ [dot]
  ne_dots : bytes ≠ [dot, dot]
  slash_not_mem : slash ∉ bytes

theorem IsName.ofPiece {bytes : Bytes} (h : IsName bytes) :
    Component.ofPiece bytes = some (.name bytes) := by
  simp [Component.ofPiece, h.ne_nil, h.ne_dot, h.ne_dots]

theorem isName_of_ofPiece {piece n : Bytes} (h : Component.ofPiece piece = some (.name n))
    (hslash : slash ∉ piece) : IsName n ∧ n = piece := by
  unfold Component.ofPiece at h
  split at h
  · contradiction
  · rename_i hidle
    split at h
    · cases h
    · rename_i hdots
      cases h
      rw [not_or] at hidle
      exact ⟨⟨hidle.left, hidle.right, hdots, hslash⟩, rfl⟩

theorem ofPiece_ne_root (piece : Bytes) : Component.ofPiece piece ≠ some .root := by
  unfold Component.ofPiece
  split
  · simp
  · split <;> simp

theorem ofPiece_ne_here (piece : Bytes) : Component.ofPiece piece ≠ some .here := by
  unfold Component.ofPiece
  split
  · simp
  · split <;> simp

def inner (p : Path) : List Component :=
  (splitPieces p.bytes).filterMap Component.ofPiece

def leading (p : Path) : List Component :=
  if p.isAbsolute then [.root]
  else if (splitPieces p.bytes).head? = some [dot] then [.here]
  else []

theorem root_not_mem_inner (p : Path) : .root ∉ p.inner := by
  intro h
  rcases List.mem_filterMap.mp h with ⟨piece, -, hpiece⟩
  exact ofPiece_ne_root piece hpiece

theorem here_not_mem_inner (p : Path) : .here ∉ p.inner := by
  intro h
  rcases List.mem_filterMap.mp h with ⟨piece, -, hpiece⟩
  exact ofPiece_ne_here piece hpiece

theorem inner_name {p : Path} {n : Bytes} (h : .name n ∈ p.inner) :
    IsName n ∧ n ∈ splitPieces p.bytes := by
  rcases List.mem_filterMap.mp h with ⟨piece, hmem, hpiece⟩
  rcases isName_of_ofPiece hpiece (slash_not_mem_of_mem_splitPieces hmem) with ⟨hname, rfl⟩
  exact ⟨hname, hmem⟩

theorem isAbsolute_iff {p : Path} :
    p.isAbsolute = true ↔ exists rest, p.bytes = slash :: rest := by
  rcases p with ⟨bytes⟩
  cases bytes with
  | nil => simp [isAbsolute]
  | cons b rest => simp [isAbsolute]

theorem components_eq (p : Path) : p.components = p.leading ++ p.inner := by
  unfold components opening leading inner
  cases hpieces : splitPieces p.bytes with
  | nil => exact absurd hpieces (splitPieces_ne_nil p.bytes)
  | cons first rest =>
      by_cases habsolute : p.isAbsolute = true
      · rcases isAbsolute_iff.mp habsolute with ⟨tail, htail⟩
        rw [htail, splitPieces_slash_cons] at hpieces
        cases hpieces
        simp [habsolute, Component.ofPiece]
      · by_cases hfirst : first = [dot]
        · simp [habsolute, hfirst, Component.ofPiece]
        · simp [habsolute, hfirst]

theorem components_of_isAbsolute {p : Path} (h : p.isAbsolute = true) :
    p.components = .root :: p.inner := by
  simp [components_eq, leading, h]

theorem root_not_mem_components {p : Path} (h : p.isAbsolute = false) :
    .root ∉ p.components := by
  rw [components_eq, List.mem_append]
  intro hmem
  rcases hmem with hmem | hmem
  · unfold leading at hmem
    rw [if_neg (by simp [h])] at hmem
    split at hmem <;> simp at hmem
  · exact root_not_mem_inner p hmem

theorem isName_of_mem_components {p : Path} {n : Bytes} (h : .name n ∈ p.components) :
    IsName n ∧ n ∈ splitPieces p.bytes := by
  rw [components_eq, List.mem_append] at h
  rcases h with h | h
  · unfold leading at h
    split at h
    · simp at h
    · split at h <;> simp at h
  · exact inner_name h

/-!
## Names in a row
-/

theorem exists_names {components : List Component} (hroot : .root ∉ components)
    (hhere : .here ∉ components) (hup : .up ∉ components) :
    exists names : List Bytes, components = names.map .name := by
  induction components with
  | nil => exact ⟨[], rfl⟩
  | cons c rest ih =>
      rw [List.mem_cons, not_or] at hroot hhere hup
      rcases ih hroot.right hhere.right hup.right with ⟨names, hnames⟩
      cases c with
      | root => exact absurd rfl hroot.left
      | here => exact absurd rfl hhere.left
      | up => exact absurd rfl hup.left
      | name n => exact ⟨n :: names, by rw [hnames, List.map_cons]⟩

theorem filterMap_ofPiece_names {names : List Bytes} (h : forall n, n ∈ names -> IsName n) :
    names.filterMap Component.ofPiece = names.map .name := by
  induction names with
  | nil => rfl
  | cons n rest ih =>
      rw [List.filterMap_cons_some (h n List.mem_cons_self).ofPiece, List.map_cons,
        ih fun m hm => h m (List.mem_cons_of_mem n hm)]

theorem splitPieces_ofNames_true {names : List Bytes} (h : forall n, n ∈ names -> IsName n) :
    (splitPieces (ofNames true names).bytes = [[], []] ∧ names = []) ∨
      splitPieces (ofNames true names).bytes = [] :: names := by
  cases names with
  | nil => exact Or.inl ⟨rfl, rfl⟩
  | cons n rest =>
      have hsplit : splitPieces (joinPieces (n :: rest)) = n :: rest :=
        splitPieces_joinPieces (by simp) fun m hm => (h m hm).slash_not_mem
      exact Or.inr (by simp [ofNames, splitPieces_slash_cons, hsplit])

theorem splitPieces_ofNames_false {names : List Bytes} (h : forall n, n ∈ names -> IsName n) :
    (splitPieces (ofNames false names).bytes = [[]] ∧ names = []) ∨
      splitPieces (ofNames false names).bytes = names := by
  cases names with
  | nil => exact Or.inl ⟨rfl, rfl⟩
  | cons n rest =>
      have hsplit : splitPieces (joinPieces (n :: rest)) = n :: rest :=
        splitPieces_joinPieces (by simp) fun m hm => (h m hm).slash_not_mem
      exact Or.inr (by simp [ofNames, hsplit])

theorem inner_ofNames {absolute : Bool} {names : List Bytes}
    (h : forall n, n ∈ names -> IsName n) :
    (ofNames absolute names).inner = names.map .name := by
  have hnames := filterMap_ofPiece_names h
  unfold inner
  cases absolute with
  | true =>
      rcases splitPieces_ofNames_true h with ⟨hsplit, rfl⟩ | hsplit
      · simp [hsplit, Component.ofPiece]
      · rw [hsplit, List.filterMap_cons_none rfl, hnames]
  | false =>
      rcases splitPieces_ofNames_false h with ⟨hsplit, rfl⟩ | hsplit
      · simp [hsplit, Component.ofPiece]
      · rw [hsplit, hnames]

theorem isAbsolute_ofNames {absolute : Bool} {names : List Bytes}
    (h : forall n, n ∈ names -> IsName n) :
    (ofNames absolute names).isAbsolute = absolute := by
  cases absolute with
  | true => rfl
  | false =>
      cases names with
      | nil => rfl
      | cons n rest =>
          have hname := h n List.mem_cons_self
          cases n with
          | nil => exact absurd rfl hname.ne_nil
          | cons b more =>
              have hb : b ≠ slash := fun heq => hname.slash_not_mem (by simp [heq])
              cases rest <;> simpa [ofNames, joinPieces, isAbsolute] using hb

theorem components_ofNames {absolute : Bool} {names : List Bytes}
    (h : forall n, n ∈ names -> IsName n) :
    (ofNames absolute names).components =
      (if absolute then [.root] else []) ++ names.map .name := by
  rw [components_eq, inner_ofNames h, leading, isAbsolute_ofNames h]
  cases absolute with
  | true => rfl
  | false =>
      rcases splitPieces_ofNames_false h with ⟨hsplit, rfl⟩ | hsplit
      · simp [hsplit]
      · cases names with
        | nil => simp [hsplit]
        | cons n rest => simp [hsplit, (h n List.mem_cons_self).ne_dot]

/-!
# One path behind another
-/

theorem join_of_isAbsolute {q : Path} (p : Path) (h : q.isAbsolute = true) : p.join q = q := by
  rw [join, if_pos h]

theorem join_of_empty {p : Path} (q : Path) (h : p.bytes = []) : p.join q = q := by
  rw [join]
  split
  · rfl
  · simp [h]

theorem exists_split_join {p q : Path} (hp : p.bytes ≠ []) (hq : q.isAbsolute = false) :
    exists front, (p.join q).bytes = front ++ slash :: q.bytes ∧
      (p.bytes = front ∨ p.bytes = front ++ [slash]) := by
  rw [join, if_neg (by simp [hq])]
  by_cases hlast : p.bytes.getLast? = some slash
  · rcases List.getLast?_eq_some_iff.mp hlast with ⟨front, hfront⟩
    exact ⟨front, by simp [hfront], Or.inr hfront⟩
  · exact ⟨p.bytes, by simp [hp, hlast], Or.inl rfl⟩

theorem isAbsolute_join {p q : Path} (hp : p.bytes ≠ []) (hq : q.isAbsolute = false) :
    (p.join q).isAbsolute = p.isAbsolute := by
  rcases exists_split_join hp hq with ⟨front, hjoin, hfront⟩
  unfold isAbsolute
  rw [hjoin]
  rcases hfront with h | h
  · rcases List.exists_cons_of_ne_nil hp with ⟨b, more, hb⟩
    rw [← h, hb, List.cons_append, List.head?_cons, List.head?_cons]
  · cases front <;> simp [h]

theorem components_join {p q : Path} (hp : p.bytes ≠ []) (hq : q.isAbsolute = false) :
    (p.join q).components = p.components ++ q.inner := by
  rcases exists_split_join hp hq with ⟨front, hjoin, hfront⟩
  have hsplit : splitPieces (p.join q).bytes = splitPieces front ++ splitPieces q.bytes := by
    rw [hjoin, splitPieces_append_slash]
  have hpieces : splitPieces p.bytes = splitPieces front ∨
      splitPieces p.bytes = splitPieces front ++ [[]] := by
    rcases hfront with h | h
    · exact Or.inl (by rw [h])
    · exact Or.inr (by rw [h, splitPieces_append_slash]; rfl)
  have hhead : (splitPieces (p.join q).bytes).head? = (splitPieces p.bytes).head? := by
    rcases List.exists_cons_of_ne_nil (splitPieces_ne_nil front) with ⟨first, more, hfirst⟩
    rcases hpieces with h | h <;> simp [hsplit, h, hfirst]
  have hinner : (p.join q).inner = p.inner ++ q.inner := by
    rcases hpieces with h | h <;> simp [inner, hsplit, h, Component.ofPiece]
  rw [components_eq, components_eq, leading, isAbsolute_join hp hq, hhead, hinner, leading,
    List.append_assoc]

theorem bytes_ne_nil_of_isAbsolute {p : Path} (h : p.isAbsolute = true) : p.bytes ≠ [] := by
  rcases isAbsolute_iff.mp h with ⟨rest, hrest⟩
  simp [hrest]

theorem components_join_congr {p other : Path} (q : Path) (hp : p.bytes ≠ [])
    (hother : other.bytes ≠ []) (h : p.components = other.components) :
    (p.join q).components = (other.join q).components := by
  by_cases hq : q.isAbsolute = true
  · rw [join_of_isAbsolute p hq, join_of_isAbsolute other hq]
  · rw [Bool.not_eq_true] at hq
    rw [components_join hp hq, components_join hother hq, h]

/-!
# Below a root
-/

theorem dropComponents_isSome_iff (wanted : List Component) (pieces : List Bytes) :
    (dropComponents wanted pieces).isSome ↔ wanted <+: pieces.filterMap Component.ofPiece := by
  induction pieces generalizing wanted with
  | nil =>
      cases wanted with
      | nil => simp [dropComponents]
      | cons c wanted => simp [dropComponents]
  | cons piece pieces ih =>
      cases wanted with
      | nil => simp [dropComponents]
      | cons c wanted =>
          rw [dropComponents]
          cases hpiece : Component.ofPiece piece with
          | none => simp [hpiece, ih]
          | some d =>
              by_cases hd : c = d
              · simp [hpiece, hd, ih]
              · simp [hpiece, hd]

theorem filterMap_of_dropComponents {wanted : List Component} {pieces rest : List Bytes}
    (h : dropComponents wanted pieces = some rest) :
    rest <:+ pieces ∧ pieces.filterMap Component.ofPiece =
      wanted ++ rest.filterMap Component.ofPiece := by
  induction pieces generalizing wanted with
  | nil =>
      cases wanted with
      | nil =>
          cases h
          simp
      | cons c wanted => simp [dropComponents] at h
  | cons piece pieces ih =>
      cases wanted with
      | nil =>
          cases h
          simp
      | cons c wanted =>
          rw [dropComponents] at h
          cases hpiece : Component.ofPiece piece with
          | none =>
              rw [hpiece] at h
              rcases ih h with ⟨hsuffix, heq⟩
              exact ⟨hsuffix.trans (List.suffix_cons piece pieces), by simp [hpiece, heq]⟩
          | some d =>
              by_cases hd : c = d
              · simp only [hpiece, hd, if_true] at h
                rcases ih h with ⟨hsuffix, heq⟩
                exact ⟨hsuffix.trans (List.suffix_cons piece pieces), by
                  simp [hpiece, hd, heq]⟩
              · simp [hpiece, hd] at h

theorem opening_of_isAbsolute {p : Path} (h : p.isAbsolute = true) :
    exists pieces, p.opening = (some .root, pieces) ∧ splitPieces p.bytes = [] :: pieces := by
  rcases isAbsolute_iff.mp h with ⟨rest, hrest⟩
  exact ⟨splitPieces rest, by simp [opening, hrest, splitPieces_slash_cons, h],
    by rw [hrest, splitPieces_slash_cons]⟩

theorem components_of_opening (p : Path) :
    p.components = p.opening.1.toList ++ p.opening.2.filterMap Component.ofPiece := rfl

/-- A root takes in a path just if its components are the first ones of the path. -/
theorem below?_isSome_iff (root p : Path) :
    (below? root p).isSome = true ↔ root.components <+: p.components := by
  unfold below?
  rw [components_of_opening p]
  rcases p.opening with ⟨first, pieces⟩
  cases hroot : root.components with
  | nil => simp
  | cons c wanted =>
      cases first with
      | none => simp [dropComponents_isSome_iff]
      | some d =>
          by_cases hd : c = d
          · simp [hd, dropComponents_isSome_iff]
          · simp [hd]

/-!
## What is left
-/

theorem isIdle_iff {piece : Bytes} : isIdle piece = true ↔ Component.ofPiece piece = none := by
  simp [isIdle]

theorem filterMap_dropWhile_isIdle (pieces : List Bytes) :
    (pieces.dropWhile isIdle).filterMap Component.ofPiece =
      pieces.filterMap Component.ofPiece := by
  induction pieces with
  | nil => rfl
  | cons piece rest ih =>
      by_cases hidle : isIdle piece = true
      · rw [List.dropWhile_cons_of_pos hidle, ih,
          List.filterMap_cons_none (isIdle_iff.mp hidle)]
      · rw [List.dropWhile_cons_of_neg hidle]

theorem filterMap_trimEnd (pieces : List Bytes) :
    (trimEnd pieces).filterMap Component.ofPiece = pieces.filterMap Component.ofPiece := by
  rw [trimEnd, List.filterMap_reverse, filterMap_dropWhile_isIdle, List.filterMap_reverse,
    List.reverse_reverse]

theorem trimEnd_isPrefix (pieces : List Bytes) : trimEnd pieces <+: pieces := by
  have hsuffix := List.dropWhile_suffix isIdle (l := pieces.reverse)
  rw [← List.reverse_prefix, List.reverse_reverse] at hsuffix
  exact hsuffix

theorem kept_cases (pieces : List Bytes) :
    trimEnd (pieces.dropWhile isIdle) = [] ∨
      exists first more, trimEnd (pieces.dropWhile isIdle) = first :: more ∧
        isIdle first = false := by
  cases hkept : trimEnd (pieces.dropWhile isIdle) with
  | nil => exact Or.inl rfl
  | cons first more =>
      have hprefix := trimEnd_isPrefix (pieces.dropWhile isIdle)
      rw [hkept] at hprefix
      rcases hprefix with ⟨tail, htail⟩
      have hhead : (pieces.dropWhile isIdle).head? = some first := by
        rw [← htail, List.cons_append, List.head?_cons]
      have hfirst := List.head?_dropWhile_not isIdle pieces
      rw [hhead] at hfirst
      exact Or.inr ⟨first, more, rfl, by simpa using hfirst⟩

theorem mem_of_mem_kept {pieces : List Bytes} {piece : Bytes}
    (h : piece ∈ trimEnd (pieces.dropWhile isIdle)) : piece ∈ pieces :=
  (List.dropWhile_suffix isIdle).subset ((trimEnd_isPrefix _).subset h)

theorem rest_inner {pieces : List Bytes}
    (hslash : forall piece, piece ∈ pieces -> slash ∉ piece) :
    (below?.rest pieces).isAbsolute = false ∧
      (below?.rest pieces).inner = pieces.filterMap Component.ofPiece := by
  have hall := filterMap_trimEnd (pieces.dropWhile isIdle)
  rw [filterMap_dropWhile_isIdle] at hall
  rw [below?.rest, inner]
  rcases kept_cases pieces with hkept | ⟨first, more, hkept, hfirst⟩
  · rw [hkept] at hall ⊢
    exact ⟨rfl, hall⟩
  · have hsplit : splitPieces (joinPieces (first :: more)) = first :: more :=
      splitPieces_joinPieces (by simp)
        fun piece hmem => hslash piece (mem_of_mem_kept (hkept ▸ hmem))
    rw [hkept] at hall ⊢
    constructor
    · rw [← Bool.not_eq_true, isAbsolute_iff]
      rintro ⟨tail, htail⟩
      dsimp only at htail
      rw [htail, splitPieces_slash_cons] at hsplit
      cases hsplit
      cases hfirst
    · rw [← hall]
      exact congrArg (List.filterMap Component.ofPiece) hsplit

theorem join_below? {root p r : Path} (hroot : root.isAbsolute = true)
    (hp : p.isAbsolute = true) (h : below? root p = some r) :
    (root.join r).components = p.components ∧
      exists pieces, pieces <:+ splitPieces p.bytes ∧ r = below?.rest pieces ∧
        p.components = root.components ++ pieces.filterMap Component.ofPiece := by
  rcases opening_of_isAbsolute hp with ⟨pieces, hopening, hsplit⟩
  unfold below? at h
  rw [components_of_isAbsolute hroot, hopening] at h
  simp only [if_true] at h
  rcases Option.map_eq_some_iff.mp h with ⟨kept, hdrop, rfl⟩
  rcases filterMap_of_dropComponents hdrop with ⟨hsuffix, heq⟩
  have hwhole : kept <:+ splitPieces p.bytes := by
    rw [hsplit]
    exact hsuffix.trans (List.suffix_cons [] pieces)
  have hrest := rest_inner fun piece hmem =>
    slash_not_mem_of_mem_splitPieces (hwhole.subset hmem)
  have hcomponents : p.components = root.components ++ kept.filterMap Component.ofPiece := by
    rw [components_of_opening, hopening, heq, components_of_isAbsolute hroot]
    rfl
  refine ⟨?_, kept, hwhole, rfl, hcomponents⟩
  rw [components_join (bytes_ne_nil_of_isAbsolute hroot) hrest.left, hrest.right, hcomponents]

end Path
end LanguageClient

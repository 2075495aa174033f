import LanguageClient.Proofs.Uri.Segments
import Mathlib.Data.List.Basic
import Mathlib.Data.List.TakeWhile

/-!
# File URIs read back

Reading the URI of an absolute path finds the segments that were written and decodes them to
the same names, so paths are keyed faithfully by their URIs. The one exception is the rule
for drive letters: a first component that is a letter and a bar is read with a colon.
-/

namespace LanguageClient
namespace FileUri

/-!
# Reading
-/

theorem clean_of_visible {uri : Text} (h : forall c, c ∈ uri -> 0x20 < c.toNat) :
    clean uri = uri := by
  have htrimmed : forall text : Text, (forall c, c ∈ text -> 0x20 < c.toNat) ->
      text.dropWhile isTrimmed = text := by
    intro text htext
    cases text with
    | nil => rfl
    | cons c text =>
        have hc := htext c List.mem_cons_self
        exact List.dropWhile_cons_of_neg (by simp [isTrimmed, hc])
  have hreverse : forall c, c ∈ uri.reverse -> 0x20 < c.toNat := fun c hc =>
    h c (List.mem_reverse.mp hc)
  rw [clean, htrimmed uri h, htrimmed uri.reverse hreverse, List.reverse_reverse,
    List.filter_eq_self]
  intro c hc
  have hne : forall d : Char, d.toNat ≤ 0x20 -> c ≠ d := by
    rintro d hd rfl
    exact Nat.not_lt_of_le hd (h c hc)
  simp [isLineBreak, hne '\t' (by decide), hne '\n' (by decide), hne '\r' (by decide)]

theorem splitScheme?_file (rest : Text) :
    splitScheme? ("file:".toList ++ rest) = some ("file".toList, rest) := by
  rfl

theorem resolve_slash {text : Text} (h : forall c, c ∈ text -> Percent.IsPlain c ∨ c = '/') :
    (resolve ('/' :: text)).1 = ((Walk.mk [] false).run (segments text)).done.reverse := by
  have hpath : forall c, c ∈ '/' :: text -> (!endsPath c) = true := by
    refine List.forall_mem_cons.mpr ⟨rfl, ?_⟩
    intro c hc
    rcases h c hc with ⟨-, -, -, -, hquery, hfragment⟩ | rfl
    · simp [endsPath, hquery, hfragment]
    · rfl
  have htake : ('/' :: text).takeWhile (!endsPath ·) = '/' :: text :=
    List.takeWhile_eq_self_iff.mpr hpath
  simp only [resolve, htake]
  rfl

theorem toPath?_slash {text : Text} (h : forall c, c ∈ text -> Percent.IsPlain c ∨ c = '/') :
    toPath? ("file://".toList ++ '/' :: text) =
      some (pathOf ((Walk.mk [] false).run (segments text)).done.reverse) := by
  have hvisible : forall c, c ∈ "file://".toList ++ '/' :: text -> 0x20 < c.toNat := by
    intro c hc
    rcases List.mem_append.mp hc with hc | hc
    · have hall : "file://".toList.all (fun d => 0x20 < d.toNat) = true := by decide
      exact of_decide_eq_true (List.all_eq_true.mp hall c hc)
    · rcases List.mem_cons.mp hc with rfl | hc
      · decide
      · rcases h c hc with hplain | rfl
        · exact hplain.left
        · decide
  have hscheme : splitScheme? ("file://".toList ++ '/' :: text) =
      some ("file".toList, '/' :: '/' :: '/' :: text) :=
    splitScheme?_file ('/' :: '/' :: '/' :: text)
  have hresolve := resolve_slash h
  rw [toPath?, clean_of_visible hvisible, hscheme]
  -- Nothing stands between the slashes, and no host is this machine.
  have hhost : ('/' :: text).takeWhile (fun c => !isSlash c && !endsPath c) = [] :=
    List.takeWhile_cons_of_neg (by decide)
  have hpath : ('/' :: text).dropWhile (fun c => !isSlash c && !endsPath c) = '/' :: text :=
    List.dropWhile_cons_of_neg (by decide)
  simp only [Option.bind_eq_bind, Option.bind_some, hhost, hpath, hresolve]
  rfl

/-!
# Names
-/

def colon : Bytes -> Bytes
  | [l, c] => if (Percent.char l).isAlpha ∧ c = 0x7C then [l, 0x3A] else [l, c]
  | n => n

theorem length_of_isDrive {segment : Text} (h : isDrive segment = true) :
    segment.length = 2 := by
  unfold isDrive at h
  split at h
  · rfl
  · cases h

theorem withColon_of_length_ne {segment : Text} (h : segment.length ≠ 2) :
    withColon segment = segment :=
  if_neg (mt length_of_isDrive h)

theorem length_text_cons (b : UInt8) (n : Bytes) :
    (Percent.text (b :: n)).length =
      (if Percent.isReserved b then 3 else 1) + (Percent.text n).length := by
  rw [Percent.text_cons, List.length_append, List.length_map, Percent.encodeByte]
  split <;> rfl

theorem not_isAlpha_of_isReserved (b : UInt8) :
    Percent.isReserved b = true -> (Percent.char b).isAlpha = false := by
  revert b
  exact Percent.forall_byte (by decide +kernel)

theorem char_eq_iff (b : UInt8) :
    (Percent.char b = ':' <-> b = 0x3A) ∧ (Percent.char b = '|' <-> b = 0x7C) := by
  revert b
  exact Percent.forall_byte (by decide +kernel)

theorem text_pair {l c : UInt8} (hl : Percent.isReserved l = false)
    (hc : Percent.isReserved c = false) :
    Percent.text [l, c] = [Percent.char l, Percent.char c] := by
  simp [Percent.text, Percent.encode, Percent.encodeByte, hl, hc]

theorem isDrive_pair (l c : UInt8) :
    isDrive [Percent.char l, Percent.char c] = true <->
      (Percent.char l).isAlpha = true ∧ (c = 0x3A ∨ c = 0x7C) := by
  rcases char_eq_iff c with ⟨hcolon, hbar⟩
  simp only [isDrive, Bool.and_eq_true, Bool.or_eq_true, decide_eq_true_eq, hcolon, hbar]

theorem withColon_text_plain {l c : UInt8} (hl : Percent.isReserved l = false)
    (hc : Percent.isReserved c = false) :
    withColon (Percent.text [l, c]) = Percent.text (colon [l, c]) := by
  rw [text_pair hl hc, withColon, colon]
  by_cases hletter : (Percent.char l).isAlpha = true
  · by_cases hbar : c = 0x7C
    · rw [if_pos ((isDrive_pair l c).mpr ⟨hletter, Or.inr hbar⟩), if_pos ⟨hletter, hbar⟩,
        text_pair hl (by decide)]
      rfl
    have hkept : ¬ ((Percent.char l).isAlpha = true ∧ c = 0x7C) := fun h => hbar h.right
    rw [if_neg hkept, text_pair hl hc]
    split
    · rename_i hdrive
      rw [((isDrive_pair l c).mp hdrive).right.resolve_right hbar]
      rfl
    · rfl
  · have hkept : ¬ ((Percent.char l).isAlpha = true ∧ c = 0x7C) := fun h => hletter h.left
    rw [if_neg (mt (isDrive_pair l c).mp fun h => hletter h.left), if_neg hkept,
      text_pair hl hc]

theorem withColon_text_reserved {l c : UInt8}
    (h : Percent.isReserved l = true ∨ Percent.isReserved c = true) :
    withColon (Percent.text [l, c]) = Percent.text (colon [l, c]) := by
  have hcolon : colon [l, c] = [l, c] := by
    refine if_neg ?_
    rintro ⟨hletter, rfl⟩
    rcases h with hl | hbar
    · rw [not_isAlpha_of_isReserved l hl] at hletter
      cases hletter
    · exact absurd hbar (by decide)
  rw [hcolon]
  refine withColon_of_length_ne ?_
  rw [length_text_cons, length_text_cons]
  rcases h with hl | hc
  · rw [if_pos hl]
    omega
  · rw [if_pos hc]
    omega

theorem withColon_text (n : Bytes) : withColon (Percent.text n) = Percent.text (colon n) := by
  rcases n with - | ⟨l, - | ⟨c, - | ⟨d, rest⟩⟩⟩
  · rfl
  · refine withColon_of_length_ne ?_
    rw [length_text_cons]
    split <;> simp [Percent.text, Percent.encode]
  · cases hl : Percent.isReserved l with
    | true => exact withColon_text_reserved (Or.inl hl)
    | false =>
        cases hc : Percent.isReserved c with
        | true => exact withColon_text_reserved (Or.inr hc)
        | false => exact withColon_text_plain hl hc
  · refine withColon_of_length_ne ?_
    rw [length_text_cons, length_text_cons, length_text_cons]
    split <;> split <;> split <;> omega

theorem isName_colon {n : Bytes} (h : Path.IsName n) : Path.IsName (colon n) := by
  unfold colon
  split
  · rename_i l c
    split
    · have hslash := h.slash_not_mem
      simp only [List.mem_cons, not_or] at hslash
      refine ⟨by simp, by simp, ?_, ?_⟩
      · intro hdots
        exact absurd (List.cons.inj (List.cons.inj hdots).right).left (by decide)
      · simp only [List.mem_cons, not_or]
        exact ⟨hslash.left, by decide, List.not_mem_nil⟩
    · exact h
  · exact h

theorem decode_segments (names : List Bytes) :
    Percent.decode (Utf8.encode ((names.map Percent.text).flatMap ('/' :: ·))) =
      names.flatMap (Path.slash :: ·) := by
  induction names with
  | nil => rfl
  | cons n names ih =>
      have hslash : String.utf8EncodeChar '/' = [Path.slash] := by decide
      rw [List.map_cons, List.flatMap_cons, Utf8.encode_append, Utf8.encode_cons, hslash,
        Percent.utf8_encode_text, List.append_assoc, List.singleton_append,
        Percent.decode_cons _ (by decide), Percent.decode_encode_append, ih, List.flatMap_cons,
        List.cons_append]

theorem flatMap_slash_cons (n : Bytes) (names : List Bytes) :
    (n :: names).flatMap (Path.slash :: ·) = (Path.ofNames true (n :: names)).bytes := by
  induction names generalizing n with
  | nil => simp [Path.ofNames, Path.joinPieces]
  | cons next names ih =>
      rw [List.flatMap_cons, ih next]
      simp [Path.ofNames, Path.joinPieces]

theorem components_append_slash {p : Path} (h : p.isAbsolute = true) :
    (Path.mk (p.bytes ++ [Path.slash])).components = p.components := by
  rcases Path.isAbsolute_iff.mp h with ⟨rest, hrest⟩
  have habsolute : (Path.mk (p.bytes ++ [Path.slash])).isAbsolute = true :=
    Path.isAbsolute_iff.mpr ⟨rest ++ [Path.slash], by rw [hrest, List.cons_append]⟩
  rw [Path.components_of_isAbsolute habsolute, Path.components_of_isAbsolute h, Path.inner,
    Path.inner]
  dsimp only
  rw [Path.splitPieces_append_slash, List.filterMap_append]
  simp [Path.splitPieces, Path.Component.ofPiece]

theorem text_ne_nil {n : Bytes} (h : n ≠ []) : Percent.text n ≠ [] :=
  text_ne_of_ne h

theorem pathOf_cases (segments : List Text) (s : Text) (h : s ≠ []) :
    pathOf (s :: segments) =
        ⟨Percent.decode (Utf8.encode ((s :: segments).flatMap ('/' :: ·)))⟩ ∨
      pathOf (s :: segments) =
        ⟨Percent.decode (Utf8.encode ((s :: segments).flatMap ('/' :: ·))) ++
          [Path.slash]⟩ := by
  have hkept : (s :: segments).dropWhile List.isEmpty = s :: segments :=
    List.dropWhile_cons_of_neg (by simpa using h)
  unfold pathOf
  rw [hkept]
  dsimp only
  split
  · split
    · exact Or.inr rfl
    · exact Or.inl rfl
  · exact Or.inl rfl

theorem components_pathOf {n : Bytes} {names : List Bytes}
    (h : forall m, m ∈ n :: names -> Path.IsName m) :
    (pathOf ((n :: names).map Percent.text)).components = .root :: (n :: names).map .name := by
  have hfirst := text_ne_nil (h n List.mem_cons_self).ne_nil
  have hdecode := decode_segments (n :: names)
  rw [flatMap_slash_cons] at hdecode
  have hcomponents : (Path.ofNames true (n :: names)).components =
      .root :: (n :: names).map .name := Path.components_ofNames h
  have habsolute : (Path.ofNames true (n :: names)).isAbsolute = true :=
    Path.isAbsolute_ofNames h
  rw [List.map_cons] at hdecode ⊢
  rcases pathOf_cases (names.map Percent.text) (Percent.text n) hfirst with hpath | hpath
  · rw [hpath, hdecode]
    exact hcomponents
  · rw [hpath, hdecode, components_append_slash habsolute]
    exact hcomponents

/-!
# Paths read back
-/

theorem mem_body {components : List Path.Component} {c : Char} (h : c ∈ body components) :
    Percent.IsPlain c ∨ c = '/' := by
  induction components with
  | nil => cases h
  | cons d components ih =>
      cases components with
      | nil =>
          rw [body, List.map_singleton, List.intercalate_singleton] at h
          exact Or.inl (isPlain_of_mem_segment h)
      | cons e components =>
          rw [body_cons_cons] at h
          rcases List.mem_append.mp h with hc | hc
          · exact Or.inl (isPlain_of_mem_segment hc)
          · rcases List.mem_cons.mp hc with hslash | hc
            · exact Or.inr hslash
            · exact ih hc

theorem toPath?_ofPath_of_isAbsolute {p : Path} (h : p.isAbsolute = true) :
    toPath? (ofPath p) =
      some (pathOf ((Walk.mk [] false).run (segments (body p.inner))).done.reverse) := by
  rw [ofPath_of_isAbsolute h]
  exact toPath?_slash fun _ hc => mem_body hc

def colonFirst : List Bytes -> List Bytes
  | [] => []
  | n :: names => colon n :: names

theorem components_read {p : Path} {names : List Bytes} (hnames : p.inner = names.map .name) :
    (pathOf ((Walk.mk [] false).run (segments (body p.inner))).done.reverse).components =
      .root :: (colonFirst names).map .name := by
  have hname : forall n, n ∈ names -> Path.IsName n := by
    intro n hn
    exact (Path.inner_name (hnames ▸ List.mem_map_of_mem hn)).left
  cases names with
  | nil =>
      rw [hnames]
      rfl
  | cons n names =>
      have hne : (n :: names).map Path.Component.name ≠ [] := List.cons_ne_nil _ _
      have hsegments : segments (body p.inner) = (n :: names).map Percent.text := by
        rw [hnames, segments_body hne, List.map_map]
        rfl
      have hdots : forall s, s ∈ (n :: names).map Percent.text -> dots? s = none := by
        intro s hs
        rcases List.mem_map.mp hs with ⟨m, hm, rfl⟩
        exact dots?_text (hname m hm)
      have hread : forall m, m ∈ colon n :: names -> Path.IsName m := by
        rcases List.forall_mem_cons.mp hname with ⟨hn, hrest⟩
        exact List.forall_mem_cons.mpr ⟨isName_colon hn, hrest⟩
      -- Only the first segment can be changed on the way, and it still comes from a name.
      rw [List.map_cons] at hsegments hdots
      rw [hsegments, done_run_root hdots, withColon_text, ← List.map_cons,
        components_pathOf hread]
      rfl

/-!
# Faithful keys
-/

/-- The first component is an ASCII letter and a bar. -/
def OpensWithBar (p : Path) : Prop :=
  exists l rest, (0x41 ≤ l ∧ l ≤ 0x5A ∨ 0x61 ≤ l ∧ l ≤ 0x7A) ∧
    p.components = .root :: .name [l, 0x7C] :: rest

theorem isAlpha_char_iff (b : UInt8) :
    (Percent.char b).isAlpha = true <-> 0x41 ≤ b ∧ b ≤ 0x5A ∨ 0x61 ≤ b ∧ b ≤ 0x7A := by
  revert b
  exact Percent.forall_byte (by decide +kernel)

theorem colon_eq_self_iff (n : Bytes) :
    colon n = n <-> ¬ exists l, (Percent.char l).isAlpha = true ∧ n = [l, 0x7C] := by
  unfold colon
  split
  · rename_i l c
    split
    · rename_i hbar
      rcases hbar with ⟨hletter, rfl⟩
      refine iff_of_false ?_ (not_not_intro ⟨l, hletter, rfl⟩)
      intro heq
      exact absurd (List.cons.inj (List.cons.inj heq).right).left (by decide)
    · rename_i hbar
      refine iff_of_true rfl ?_
      rintro ⟨d, hletter, heq⟩
      cases heq
      exact hbar ⟨hletter, rfl⟩
  · rename_i hpair
    refine iff_of_true rfl ?_
    rintro ⟨l, -, rfl⟩
    exact hpair l 0x7C rfl

theorem colonFirst_eq_self_iff {p : Path} {names : List Bytes} (h : p.isAbsolute = true)
    (hnames : p.inner = names.map .name) : colonFirst names = names <-> ¬ OpensWithBar p := by
  unfold OpensWithBar
  rw [Path.components_of_isAbsolute h, hnames]
  cases names with
  | nil =>
      refine iff_of_true rfl ?_
      rintro ⟨l, rest, -, heq⟩
      cases heq
  | cons n names =>
      have hfirst : colonFirst (n :: names) = n :: names <-> colon n = n := by
        simp [colonFirst]
      rw [hfirst, colon_eq_self_iff, not_iff_not]
      constructor
      · rintro ⟨l, hletter, rfl⟩
        exact ⟨l, names.map .name, (isAlpha_char_iff l).mp hletter, rfl⟩
      · rintro ⟨l, rest, hletter, heq⟩
        cases heq
        exact ⟨l, (isAlpha_char_iff l).mpr hletter, rfl⟩

def named? (segment : Text) : Option Path.Component :=
  Path.Component.ofPiece (Percent.decode (Utf8.encode segment))

theorem named?_segment {p : Path} {c : Path.Component} (h : c ∈ p.inner) :
    named? (segment c) = some c := by
  cases c with
  | root => exact absurd h (Path.root_not_mem_inner p)
  | here => exact absurd h (Path.here_not_mem_inner p)
  | up => decide
  | name n =>
      rw [named?, segment, Percent.decode_utf8_encode_text]
      exact (Path.inner_name h).left.ofPiece

theorem filterMap_named? (p : Path) :
    (segments (body p.inner)).filterMap named? = p.inner := by
  by_cases hinner : p.inner = []
  · rw [hinner]
    decide
  · have hnamed : forall c, c ∈ p.inner -> (named? ∘ segment) c = some c := fun _ =>
      named?_segment
    rw [segments_body hinner, List.filterMap_map, List.filterMap_congr hnamed,
      List.filterMap_some]

theorem ofPath_eq_iff {p q : Path} (hp : p.isAbsolute = true) (hq : q.isAbsolute = true) :
    ofPath p = ofPath q <-> p.components = q.components := by
  rw [ofPath_of_isAbsolute hp, ofPath_of_isAbsolute hq, Path.components_of_isAbsolute hp,
    Path.components_of_isAbsolute hq]
  constructor
  · intro h
    have hbody : body p.inner = body q.inner :=
      (List.cons.inj (List.append_cancel_left h)).right
    rw [← filterMap_named? p, hbody, filterMap_named? q]
  · intro h
    rw [(List.cons.inj h).right]

/-- The URI of an absolute path without `..` is read as the same path, unless the path opens
with a letter and a bar. Any two absolute paths have the same URI just if they are the same.
-/
theorem toPath?_ofPath :
    (forall p : Path, p.isAbsolute = true -> .up ∉ p.components ->
        ((exists q, toPath? (ofPath p) = some q ∧ q.components = p.components) <->
          ¬ OpensWithBar p)) ∧
      forall p q : Path, p.isAbsolute = true -> q.isAbsolute = true ->
        (ofPath p = ofPath q <-> p.components = q.components) := by
  refine ⟨?_, fun _ _ => ofPath_eq_iff⟩
  intro p h hup
  rw [Path.components_of_isAbsolute h] at hup ⊢
  have hinner : .up ∉ p.inner := fun hmem => hup (List.mem_cons_of_mem _ hmem)
  rcases Path.exists_names (Path.root_not_mem_inner p) (Path.here_not_mem_inner p) hinner with
    ⟨names, hnames⟩
  have hread := components_read hnames
  rw [← colonFirst_eq_self_iff h hnames, toPath?_ofPath_of_isAbsolute h]
  constructor
  · rintro ⟨q, hq, hcomponents⟩
    rw [← Option.some.inj hq, hread, hnames] at hcomponents
    exact List.map_injective_iff.mpr (fun _ _ => Path.Component.name.inj)
      (List.cons.inj hcomponents).right
  · intro hkept
    rw [hkept, ← hnames] at hread
    exact ⟨_, rfl, hread⟩

def oddPath : Path :=
  ⟨Utf8.encode "/a b%41?#\\\x01".toList ++ [0xFF] ++ Utf8.encode "//..x/./c:".toList⟩

def decodedPath : Path :=
  ⟨Utf8.encode "/a bA?#\\\x01".toList ++ [0xFF] ++ Utf8.encode "//..x/./c:".toList⟩

theorem toPath?_ofPath_odd :
    (exists q, toPath? (ofPath oddPath) = some q ∧ q.components = oddPath.components) ∧
      ofPath oddPath ≠ ofPath decodedPath := by
  have habsolute : oddPath.isAbsolute = true := by decide +kernel
  have hopens : ¬ OpensWithBar oddPath := by
    rintro ⟨l, rest, -, heq⟩
    have hfirst : oddPath.components.tail.head? =
        some (.name (Utf8.encode "a b%41?#\\\x01".toList ++ [0xFF])) := by
      decide +kernel
    rw [heq] at hfirst
    have hlength : 2 = (Utf8.encode "a b%41?#\\\x01".toList ++ [0xFF]).length :=
      congrArg List.length (Path.Component.name.inj (Option.some.inj hfirst))
    exact absurd hlength (by decide +kernel)
  constructor
  · exact (toPath?_ofPath.left oddPath habsolute (by decide +kernel)).mpr hopens
  · exact mt (toPath?_ofPath.right oddPath decodedPath habsolute (by decide +kernel)).mp
      (by decide +kernel)

end FileUri
end LanguageClient

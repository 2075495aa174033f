import LanguageClient.Proofs.Path.Texts
import LanguageClient.Proofs.Path.Walks
import Mathlib.Data.List.Basic

/-!
# Paths that are shown and read again

A path that is shown as a text and read from it again leads where the path led,
except that each name on the way that is no text has become another one, with
replacement characters in it. The reason is that a slash ends every broken character,
so a path is shown piece by piece.
-/

namespace LanguageClient

namespace Utf8

/-!
# Loose reading
-/

/-- What is still missing of a character can complete no slash, and a
slash cannot come next. -/
structure Partial.Sound (p : Partial) : Prop where
  low : 128 ≤ p.low.toNat
  high : p.high.toNat < 192
  bits : 1 ≤ p.bits ∨ 2 ≤ p.need ∧ 144 ≤ p.low.toNat

theorem sound_plain (need : Nat) {bits : Nat} (h : 1 ≤ bits) :
    Partial.Sound ⟨need, bits, 0x80, 0xBF⟩ where
  low := (by decide : 128 ≤ (0x80 : UInt8).toNat)
  high := (by decide : (0xBF : UInt8).toNat < 192)
  bits := Or.inl h

theorem sound_of_lead {b : UInt8} {p : Partial} (h : lead b = .more p) : p.Sound := by
  have hb : UInt8.ofNat b.toNat = b := UInt8.ofNat_toNat
  have hbyte := b.toNat_lt
  generalize b.toNat = n at hb hbyte
  subst hb
  rw [lead_ofNat hbyte] at h
  split at h
  · cases h
  split at h
  · cases h
  split at h
  · cases h
    exact sound_plain _ (by omega)
  split at h
  · cases h
    exact ⟨by decide, by decide, Or.inr (by decide)⟩
  split at h
  · cases h
    exact ⟨by decide, by decide, Or.inl (by decide)⟩
  split at h
  · cases h
    exact sound_plain _ (by omega)
  split at h
  · cases h
    exact ⟨by decide, by decide, Or.inr (by decide)⟩
  split at h
  · cases h
    exact sound_plain _ (by omega)
  split at h
  · cases h
    exact ⟨by decide, by decide, Or.inl (by decide)⟩
  · cases h

theorem eq_of_ofNat_eq_slash {n : Nat} (h : Char.ofNat n = '/') : n = 47 := by
  by_cases hvalid : n.isValidChar
  · rw [← val_ofNat hvalid, h]
    rfl
  · rw [Char.ofNat, dif_neg hvalid] at h
    cases h

theorem Partial.Sound.take {p : Partial} (hp : p.Sound) {b : UInt8} {next : Lead}
    (h : p.take b = some next) :
    b ≠ Path.slash ∧
      ((exists c, next = .whole c ∧ c ≠ '/') ∨ exists q, next = .more q ∧ q.Sound) := by
  rcases exists_of_take hp.low hp.high h with ⟨r, hr, rfl, hlow, hhigh, rfl⟩
  constructor
  · intro hslash
    have hnat := congrArg UInt8.toNat hslash
    rw [UInt8.toNat_ofNat', Nat.mod_eq_of_lt (by omega)] at hnat
    have hvalue : Path.slash.toNat = 47 := rfl
    omega
  · have hbits := hp.bits
    split
    · refine Or.inl ⟨_, rfl, fun hslash => ?_⟩
      have := eq_of_ofNat_eq_slash hslash
      omega
    · exact Or.inr ⟨_, rfl, sound_plain _ (by omega)⟩

theorem displayFrom_some_cons (p : Partial) (b : UInt8) (rest : Bytes) :
    displayFrom (some p) (b :: rest) =
      match p.take b with
      | some (.whole c) => c :: displayFrom none rest
      | some (.more q) => displayFrom (some q) rest
      | some .bad | none => replacement :: displayFrom none (b :: rest) := by
  conv => lhs; rw [displayFrom]
  cases p.take b with
  | none => cases hlead : lead b <;> simp only [displayFrom, hlead]
  | some next =>
      cases next with
      | whole c => rfl
      | more q => rfl
      | bad => cases hlead : lead b <;> simp only [displayFrom, hlead]

theorem displayFrom_append_slash (a b : Bytes) :
    displayFrom none (a ++ Path.slash :: b) = displayFrom none a ++ '/' :: displayFrom none b ∧
      forall p : Partial, p.Sound ->
        displayFrom (some p) (a ++ Path.slash :: b) =
          displayFrom (some p) a ++ '/' :: displayFrom none b := by
  have hslash : displayFrom none (Path.slash :: b) = '/' :: displayFrom none b := rfl
  induction a with
  | nil =>
      refine ⟨hslash, fun p hp => ?_⟩
      have htake : p.take Path.slash = none := by
        cases htake : p.take Path.slash with
        | none => rfl
        | some next => exact absurd rfl (hp.take htake).1
      rw [List.nil_append, displayFrom_some_cons, htake, displayFrom, ← hslash]
      rfl
  | cons x rest ih =>
      have hnone : displayFrom none (x :: rest ++ Path.slash :: b) =
          displayFrom none (x :: rest) ++ '/' :: displayFrom none b := by
        rw [List.cons_append, displayFrom, displayFrom]
        cases hlead : lead x with
        | whole c => rw [ih.1]; rfl
        | more p => exact ih.2 p (sound_of_lead hlead)
        | bad => rw [ih.1]; rfl
      refine ⟨hnone, fun p hp => ?_⟩
      rw [List.cons_append, displayFrom_some_cons, displayFrom_some_cons, ← List.cons_append]
      cases htake : p.take x with
      | none => rw [hnone]; rfl
      | some next =>
          rcases (hp.take htake).2 with ⟨c, rfl, -⟩ | ⟨q, rfl, hq⟩
          · dsimp only
            rw [ih.1]
            rfl
          · exact ih.2 q hq

theorem display_append_slash (a b : Bytes) :
    display (a ++ Path.slash :: b) = display a ++ '/' :: display b :=
  (displayFrom_append_slash a b).1

theorem slash_not_mem_displayFrom {a : Bytes} (h : Path.slash ∉ a) :
    '/' ∉ displayFrom none a ∧
      forall p : Partial, p.Sound -> '/' ∉ displayFrom (some p) a := by
  have hreplacement : '/' ≠ replacement := by decide
  induction a with
  | nil =>
      refine ⟨by simp [displayFrom], fun p hp => ?_⟩
      simp [displayFrom, hreplacement]
  | cons x rest ih =>
      rw [List.mem_cons, not_or] at h
      have hrest := ih h.2
      have hnone : '/' ∉ displayFrom none (x :: rest) := by
        rw [displayFrom]
        cases hlead : lead x with
        | whole c =>
            rw [List.mem_cons, not_or]
            refine ⟨?_, hrest.1⟩
            rintro rfl
            unfold lead at hlead
            split at hlead
            case isTrue hx =>
              have hnat := eq_of_ofNat_eq_slash (Lead.whole.inj hlead)
              exact h.1 (UInt8.toNat_inj.mp hnat.symm)
            case isFalse =>
              repeat' split at hlead
              all_goals cases hlead
        | more p => exact hrest.2 p (sound_of_lead hlead)
        | bad => exact List.not_mem_cons_of_ne_of_not_mem hreplacement hrest.1
      refine ⟨hnone, fun p hp => ?_⟩
      rw [displayFrom_some_cons]
      cases htake : p.take x with
      | none => exact List.not_mem_cons_of_ne_of_not_mem hreplacement hnone
      | some next =>
          rcases (hp.take htake).2 with ⟨c, rfl, hc⟩ | ⟨q, rfl, hq⟩
          · exact List.not_mem_cons_of_ne_of_not_mem hc.symm hrest.1
          · exact hrest.2 q hq

theorem decodeFrom_of_displayFrom {state : Option Partial} {a : Bytes}
    (h : replacement ∉ displayFrom state a) :
    decodeFrom state a = some (displayFrom state a) := by
  induction a generalizing state with
  | nil =>
      cases state with
      | none => rfl
      | some p => exact absurd List.mem_cons_self h
  | cons x rest ih =>
      cases state with
      | none =>
          rw [displayFrom] at h
          rw [decodeFrom, displayFrom]
          cases hlead : lead x with
          | whole c =>
              rw [hlead] at h
              rw [ih fun hmem => h (List.mem_cons_of_mem c hmem)]
              rfl
          | more p =>
              rw [hlead] at h
              exact ih h
          | bad =>
              rw [hlead] at h
              exact absurd List.mem_cons_self h
      | some p =>
          rw [displayFrom_some_cons] at h
          rw [decodeFrom, displayFrom_some_cons]
          cases htake : p.take x with
          | none =>
              rw [htake] at h
              exact absurd List.mem_cons_self h
          | some next =>
              rw [htake] at h
              cases next with
              | whole c =>
                  rw [ih fun hmem => h (List.mem_cons_of_mem c hmem)]
                  rfl
              | more q => exact ih h
              | bad => exact absurd List.mem_cons_self h

end Utf8

namespace Path

/-!
# Names as they are shown
-/

def shown (bytes : Bytes) : Bytes :=
  Utf8.encode (Utf8.display bytes)

theorem isText_shown (bytes : Bytes) : IsText (shown bytes) :=
  ⟨Utf8.display bytes, rfl⟩

theorem shown_eq_self_iff {bytes : Bytes} : shown bytes = bytes <-> IsText bytes := by
  constructor
  · intro h
    exact ⟨Utf8.display bytes, h.symm⟩
  · rintro ⟨text, rfl⟩
    rw [shown, Utf8.display_encode]

theorem slash_not_mem_shown {bytes : Bytes} (h : slash ∉ bytes) : slash ∉ shown bytes := by
  intro hmem
  rcases List.mem_flatMap.mp hmem with ⟨c, hc, hslash⟩
  have hne : c ≠ '/' := fun heq => (Utf8.slash_not_mem_displayFrom h).1 (heq ▸ hc)
  exact slash_not_mem_utf8EncodeChar hne hslash

theorem eq_of_shown_eq {bytes : Bytes} (text : Text) (h : shown bytes = Utf8.encode text)
    (htext : Utf8.replacement ∉ text) : bytes = Utf8.encode text := by
  have hdisplay : Utf8.display bytes = text := Utf8.encode_injective h
  rw [← hdisplay] at htext ⊢
  exact Utf8.decode?_eq_some_iff.mp (Utf8.decodeFrom_of_displayFrom htext)

def Component.shown : Component -> Component
  | .name n => .name (Path.shown n)
  | c => c

theorem ofPiece_shown (piece : Bytes) :
    Component.ofPiece (shown piece) = (Component.ofPiece piece).map Component.shown := by
  have hnil : shown piece = [] <-> piece = [] :=
    ⟨fun h => eq_of_shown_eq [] h (by simp), fun h => by rw [h]; rfl⟩
  have hdot : shown piece = [dot] <-> piece = [dot] :=
    ⟨fun h => eq_of_shown_eq ['.'] h (by decide), fun h => by rw [h]; rfl⟩
  have hdots : shown piece = [dot, dot] <-> piece = [dot, dot] :=
    ⟨fun h => eq_of_shown_eq ['.', '.'] h (by decide), fun h => by rw [h]; rfl⟩
  simp only [Component.ofPiece, hnil, hdot, hdots]
  split
  · rfl
  · split <;> rfl

theorem display_joinPieces (first : Bytes) (rest : List Bytes) :
    shown (joinPieces (first :: rest)) = joinPieces ((first :: rest).map shown) := by
  induction rest generalizing first with
  | nil => rfl
  | cons next more ih =>
      have hjoin :
          joinPieces (first :: next :: more) = first ++ slash :: joinPieces (next :: more) :=
            rfl
      rw [hjoin, shown, Utf8.display_append_slash, Utf8.encode_append, Utf8.encode_cons]
      exact congrArg (fun more => shown first ++ slash :: more) (ih next)

theorem joinPieces_splitPieces (bytes : Bytes) : joinPieces (splitPieces bytes) = bytes := by
  induction bytes with
  | nil => rfl
  | cons b bytes ih =>
      rcases List.exists_cons_of_ne_nil (splitPieces_ne_nil bytes) with ⟨piece, more, hsplit⟩
      by_cases hb : b = slash
      · rw [hb, splitPieces_slash_cons, hsplit, ← ih, hsplit]
        rfl
      · rw [splitPieces_cons hb hsplit, ← ih, hsplit]
        cases more <;> rfl

theorem splitPieces_shown (bytes : Bytes) :
    splitPieces (shown bytes) = (splitPieces bytes).map shown := by
  rcases List.exists_cons_of_ne_nil (splitPieces_ne_nil bytes) with ⟨piece, more, hsplit⟩
  have hjoin : shown bytes = joinPieces ((splitPieces bytes).map shown) := by
    have hpieces := joinPieces_splitPieces bytes
    rw [hsplit] at hpieces
    rw [hsplit, ← display_joinPieces, hpieces]
  rw [hjoin, splitPieces_joinPieces]
  · rw [hsplit]
    exact List.cons_ne_nil _ _
  · intro piece hmem
    rcases List.mem_map.mp hmem with ⟨original, horiginal, rfl⟩
    exact slash_not_mem_shown (slash_not_mem_of_mem_splitPieces horiginal)

/-!
# Walks as they are shown
-/

theorem walk_shown (place : List Bytes) (components : List Component) :
    walk (place.map shown) (components.map Component.shown) =
      (walk place components).map shown := by
  induction components generalizing place with
  | nil => rfl
  | cons c rest ih =>
      have henter : enter (place.map shown) c.shown = (enter place c).map shown := by
        cases c with
        | root => rfl
        | here => rfl
        | up => exact List.map_dropLast.symm
        | name n =>
          have happend : (place ++ [n]).map shown = place.map shown ++ [shown n] :=
            List.map_append
          exact happend.symm
      rw [List.map_cons, walk, List.foldl_cons, henter]
      exact ih (enter place c)

theorem isAbsolute_shown {p : Path} (h : p.isAbsolute = true) :
    (ofText p.display).isAbsolute = true := by
  rcases isAbsolute_iff.mp h with ⟨rest, hrest⟩
  refine isAbsolute_iff.mpr ⟨shown rest, ?_⟩
  have hdisplay := Utf8.display_append_slash [] rest
  rw [ofText, display, hrest]
  exact (congrArg Utf8.encode hdisplay).trans (Utf8.encode_cons '/' _)

theorem components_shown {p : Path} (h : p.isAbsolute = true) :
    (ofText p.display).components = p.components.map Component.shown := by
  have hpieces : splitPieces (ofText p.display).bytes = (splitPieces p.bytes).map shown :=
    splitPieces_shown p.bytes
  have hinner : (ofText p.display).inner = p.inner.map Component.shown := by
    rw [inner, hpieces, inner, List.filterMap_map, List.map_filterMap]
    exact List.filterMap_congr fun piece _ => ofPiece_shown piece
  rw [components_of_isAbsolute (isAbsolute_shown h), components_of_isAbsolute h, hinner]
  rfl

/-- A path that is shown and read again leads to the names of its place as they are shown. -/
theorem normalize_shown {p : Path} (h : p.isAbsolute = true) :
    (ofText p.display).normalize = ofNames true ((walk [] p.components).map shown) := by
  rw [normalize_eq_ofNames, isAbsolute_shown h, components_shown h]
  exact congrArg (ofNames true) (walk_shown [] p.components)

theorem isText_ofNames {names : List Bytes} (h : forall n, n ∈ names -> IsText n) :
    IsText (ofNames true names).bytes := by
  rcases isText_joinPieces h with ⟨text, htext⟩
  refine ⟨'/' :: text, ?_⟩
  rw [Utf8.encode_cons, ← htext]
  rfl

theorem isText_of_mem_ofNames {names : List Bytes} (hnames : forall n, n ∈ names -> IsName n)
    (h : IsText (ofNames true names).bytes) {n : Bytes} (hn : n ∈ names) : IsText n := by
  rcases h with ⟨text, htext⟩
  have hmem : n ∈ splitPieces (ofNames true names).bytes := by
    rcases splitPieces_ofNames_true hnames with ⟨-, rfl⟩ | hsplit
    · contradiction
    · rw [hsplit]
      exact List.mem_cons_of_mem _ hn
  rw [htext] at hmem
  exact isText_of_mem_splitPieces hmem

/-- Showing a path and reading it again leads to the same place just if the place is a text. -/
theorem normalize_shown_eq_iff {p : Path} (h : p.isAbsolute = true) :
    (ofText p.display).normalize = p.normalize <-> IsText p.normalize.bytes := by
  rw [normalize_shown h, normalize_eq_ofNames, h]
  constructor
  · intro heq
    rw [← heq]
    apply isText_ofNames
    intro piece hpiece
    rcases List.mem_map.mp hpiece with ⟨n, -, rfl⟩
    exact isText_shown n
  · intro htext
    have hmap : (walk [] p.components).map shown = walk [] p.components := by
      refine (List.map_congr_left fun n hn => ?_).trans (List.map_id _)
      exact shown_eq_self_iff.mpr
        (isText_of_mem_ofNames (fun _ => isName_of_mem_walk_top) htext hn)
    rw [hmap]

end Path
end LanguageClient

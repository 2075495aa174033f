import LanguageClient.Proofs.Path.Components
import LanguageClient.Proofs.Uri.Percent
import LanguageClient.Uri.File

/-!
# Segments of file URIs

The URI of an absolute path holds one segment for each component, and cutting the text
behind the root at slashes finds these segments. The segment of a name is no dot segment, so
a walk over the segments of names takes nothing back. Only the rule for drive letters
changes a segment: a first one that is a letter and a bar gets a colon.
-/

namespace LanguageClient
namespace FileUri

/-!
# Written paths
-/

def segment : Path.Component -> Text
  | .root => []
  | .here => ['.']
  | .up => ['.', '.']
  | .name n => Percent.text n

def body (components : List Path.Component) : Text :=
  ['/'].intercalate (components.map segment)

theorem body_cons_cons (c d : Path.Component) (components : List Path.Component) :
    body (c :: d :: components) = segment c ++ '/' :: body (d :: components) := by
  simp [body, List.intercalate_cons_cons]

theorem encodeComponent_eq {c : Path.Component} (h : c ≠ .root) :
    encodeComponent c = Utf8.encode ('/' :: segment c) := by
  cases c with
  | root => exact absurd rfl h
  | here => decide
  | up => decide
  | name n =>
      rw [Utf8.encode_cons, segment, Percent.utf8_encode_text]
      rfl

theorem flatMap_encodeComponent {c : Path.Component} {components : List Path.Component}
    (h : .root ∉ c :: components) :
    (c :: components).flatMap encodeComponent =
    Utf8.encode ('/' :: body (c :: components)) := by
  induction components generalizing c with
  | nil =>
      rw [List.mem_singleton] at h
      rw [List.flatMap_singleton, encodeComponent_eq (Ne.symm h)]
      simp [body]
  | cons d components ih =>
      rw [List.mem_cons, not_or] at h
      rw [List.flatMap_cons, encodeComponent_eq (Ne.symm h.left), ih h.right,
        ← Utf8.encode_append, body_cons_cons, List.cons_append]

theorem ofPath_of_isAbsolute {p : Path} (h : p.isAbsolute = true) :
    ofPath p = "file://".toList ++ '/' :: body p.inner := by
  rw [ofPath, if_pos h, Path.components_of_isAbsolute h, List.tail_cons]
  cases hinner : p.inner with
  | nil => rfl
  | cons c components =>
      have hroot : .root ∉ c :: components := hinner ▸ Path.root_not_mem_inner p
      dsimp only
      rw [flatMap_encodeComponent hroot, Utf8.display_encode]

/-!
# Segments
-/

theorem isSlash_of_isPlain {c : Char} (h : Percent.IsPlain c) : isSlash c = false := by
  rcases h with ⟨-, -, hslash, hbackslash, -⟩
  simp [isSlash, hslash, hbackslash]

theorem segments_ne_nil (text : Text) : segments text ≠ [] := by
  cases text with
  | nil => simp [segments]
  | cons c rest =>
      rw [segments]
      split
      · simp
      · split <;> simp

theorem segments_slash_cons (text : Text) : segments ('/' :: text) = [] :: segments text := by
  rw [segments]
  cases hrest : segments text with
  | nil => exact absurd hrest (segments_ne_nil text)
  | cons first more => rfl

theorem segments_cons {c : Char} {text first : Text} {more : List Text}
    (hc : isSlash c = false)
    (h : segments text = first :: more) : segments (c :: text) = (c :: first) :: more := by
  rw [segments, h]
  simp [hc]

theorem segments_plain {front : Text} (h : forall c, c ∈ front -> Percent.IsPlain c) :
    segments front = [front] := by
  induction front with
  | nil => rfl
  | cons c front ih =>
      rcases List.forall_mem_cons.mp h with ⟨hc, hfront⟩
      exact segments_cons (isSlash_of_isPlain hc) (ih hfront)

theorem segments_append_slash {front : Text} (rest : Text)
    (h : forall c, c ∈ front -> Percent.IsPlain c) :
    segments (front ++ '/' :: rest) = front :: segments rest := by
  induction front with
  | nil => exact segments_slash_cons rest
  | cons c front ih =>
      rcases List.forall_mem_cons.mp h with ⟨hc, hfront⟩
      exact segments_cons (isSlash_of_isPlain hc) (ih hfront)

theorem isPlain_of_mem_segment {component : Path.Component} {c : Char}
    (h : c ∈ segment component) : Percent.IsPlain c := by
  cases component with
  | root => cases h
  | here =>
      rw [List.mem_singleton.mp h]
      decide
  | up =>
      have hdot : c = '.' := by
        simpa [segment] using h
      rw [hdot]
      decide
  | name n => exact Percent.isPlain_of_mem_text h

theorem segments_body {components : List Path.Component} (h : components ≠ []) :
    segments (body components) = components.map segment := by
  induction components with
  | nil => exact absurd rfl h
  | cons c components ih =>
      cases components with
      | nil =>
          rw [body, List.map_singleton, List.intercalate_singleton]
          exact segments_plain fun _ hc => isPlain_of_mem_segment hc
      | cons d components =>
          rw [body_cons_cons, segments_append_slash _ fun _ hc => isPlain_of_mem_segment hc,
            ih (List.cons_ne_nil d components)]
          rfl

/-!
# Dot segments
-/

theorem plainDots_cons {c : Char} (text : Text) (h : c ≠ '%') :
    plainDots (c :: text) = c :: plainDots text := by
  rw [plainDots]
  all_goals
    intros
    simp_all

theorem plainDots_triple {high low : Char} (text : Text) (hhigh : high ≠ '%')
    (hlow : low ≠ '%') (hdot : high = '2' -> low ≠ 'e' ∧ low ≠ 'E') :
    plainDots ('%' :: high :: low :: text) = '%' :: high :: low :: plainDots text := by
  have hpercent :
      plainDots ('%' :: high :: low :: text) = '%' :: plainDots (high :: low :: text) := by
    rw [plainDots]
    · rintro rest - h
      cases h
      exact (hdot rfl).left rfl
    · rintro rest - h
      cases h
      exact (hdot rfl).right rfl
  rw [hpercent, plainDots_cons _ hhigh, plainDots_cons _ hlow]

theorem digits_of_isReserved (b : UInt8) : Percent.isReserved b = true ->
    Percent.char (Percent.digit (b.toNat / 16)) ≠ '%' ∧
      Percent.char (Percent.digit (b.toNat % 16)) ≠ '%' ∧
      (Percent.char (Percent.digit (b.toNat / 16)) = '2' ->
        Percent.char (Percent.digit (b.toNat % 16)) ≠ 'e' ∧
          Percent.char (Percent.digit (b.toNat % 16)) ≠ 'E') := by
  revert b
  exact Percent.forall_byte (by decide +kernel)

theorem char_ne_percent (b : UInt8) :
    Percent.isReserved b = false -> Percent.char b ≠ '%' := by
  revert b
  exact Percent.forall_byte (by decide +kernel)

theorem plainDots_encodeByte (b : UInt8) (text : Text) :
    plainDots ((Percent.encodeByte b).map Percent.char ++ text) =
      (Percent.encodeByte b).map Percent.char ++ plainDots text := by
  unfold Percent.encodeByte
  split
  · rename_i hreserved
    rcases digits_of_isReserved b hreserved with ⟨hhigh, hlow, hdot⟩
    exact plainDots_triple text hhigh hlow hdot
  · rename_i hreserved
    exact plainDots_cons text (char_ne_percent b (Bool.eq_false_iff.mpr hreserved))

theorem plainDots_text (bytes : Bytes) :
    plainDots (Percent.text bytes) = Percent.text bytes := by
  induction bytes with
  | nil => rfl
  | cons b bytes ih => rw [Percent.text_cons, plainDots_encodeByte, ih]

theorem text_ne_of_ne {n : Bytes} {segment : Text}
    (h : n ≠ Percent.decode (Utf8.encode segment)) : Percent.text n ≠ segment := by
  rintro rfl
  exact h (Percent.decode_utf8_encode_text n).symm

theorem dots?_text {n : Bytes} (h : Path.IsName n) : dots? (Percent.text n) = none := by
  have hone : Percent.text n ≠ ['.'] := text_ne_of_ne h.ne_dot
  have htwo : Percent.text n ≠ ['.', '.'] := text_ne_of_ne h.ne_dots
  rw [dots?, plainDots_text]
  split
  · contradiction
  · contradiction
  · rfl

/-!
# Drive letters
-/

def withColon (segment : Text) : Text :=
  if isDrive segment then segment.take 1 ++ [':'] else segment

theorem name_root (drive : Bool) (segment : Text) :
    ((Walk.mk [] drive).name segment).1.done = [] ∧
      ((Walk.mk [] drive).name segment).2 = withColon segment := by
  unfold Walk.name withColon
  rcases segment with - | ⟨l, - | ⟨c, - | ⟨d, rest⟩⟩⟩
  · exact ⟨rfl, rfl⟩
  · exact ⟨rfl, rfl⟩
  · by_cases hdrive : isDrive [l, c] = true <;> simp [hdrive]
  · exact ⟨rfl, rfl⟩

theorem name_inside {w : Walk} (segment : Text) (h : w.done ≠ []) :
    w.name segment = (w, segment) := by
  rcases w with ⟨- | ⟨last, done⟩, drive⟩
  · exact absurd rfl h
  · rfl

theorem run_cons {w : Walk} {segment : Text} (rest : List Text) (h : dots? segment = none) :
    w.run (segment :: rest) =
      Walk.run { (w.name segment).1 with
        done := (w.name segment).2 :: (w.name segment).1.done } rest := by
  cases rest with
  | nil => simp [Walk.run, h]
  | cons next rest => simp [Walk.run, h]

theorem done_run_inside {segments : List Text} (h : forall s, s ∈ segments -> dots? s = none)
    {w : Walk} (hw : w.done ≠ []) : (w.run segments).done = segments.reverse ++ w.done := by
  induction segments generalizing w with
  | nil => rfl
  | cons s segments ih =>
      rcases List.forall_mem_cons.mp h with ⟨hs, hsegments⟩
      rw [run_cons segments hs, name_inside s hw, ih hsegments (List.cons_ne_nil s w.done),
        List.reverse_cons, List.append_assoc, List.singleton_append]

theorem done_run_root {s : Text} {segments : List Text}
    (h : forall t, t ∈ s :: segments -> dots? t = none) :
    ((Walk.mk [] false).run (s :: segments)).done.reverse = withColon s :: segments := by
  rcases List.forall_mem_cons.mp h with ⟨hs, hsegments⟩
  rcases name_root false s with ⟨hdone, hname⟩
  rw [run_cons segments hs, hname, hdone, done_run_inside hsegments (List.cons_ne_nil _ _),
    List.reverse_append, List.reverse_reverse]
  rfl

end FileUri
end LanguageClient

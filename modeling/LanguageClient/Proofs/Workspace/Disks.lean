import LanguageClient.Proofs.Path.Walks
import LanguageClient.Proofs.Text.Utf8
import LanguageClient.Workspace.Memory
import LanguageClient.Workspace.Tree

/-!
# Disks that keep their files

What edits of files rely on: when a file that has been read is written, it holds what was
written, every other file holds what it held, and the change can be recorded. Files are
named by paths in normal form. A directory tree keeps its files, and so does a memory in
which recording was not made to fail.
-/

namespace LanguageClient

namespace Path

def IsNormal (p : Path) : Prop :=
  p.normalize = p

theorem isNormal_normalize (p : Path) : p.normalize.IsNormal := by
  rw [IsNormal, normalize_eq_ofNames p, normalize_ofNames fun _ => isName_of_mem_walk_top]

theorem isAbsolute_iff_mem (p : Path) : p.isAbsolute = true <-> .root ∈ p.components := by
  cases hp : p.isAbsolute with
  | true => simp [components_of_isAbsolute hp]
  | false => simp [root_not_mem_components hp]

theorem IsNormal.eq_of_components {p q : Path} (hp : p.IsNormal) (hq : q.IsNormal)
    (h : p.components = q.components) : p = q := by
  have habsolute : p.isAbsolute = q.isAbsolute := by
    rw [Bool.eq_iff_iff, isAbsolute_iff_mem, isAbsolute_iff_mem, h]
  rw [← hp, ← hq, normalize_eq_ofNames, normalize_eq_ofNames, h, habsolute]

theorem IsNormal.exists_names {p : Path} (h : p.IsNormal) :
    exists names : List Bytes,
      p.components = (if p.isAbsolute then [.root] else []) ++ names.map .name := by
  refine ⟨walk [] p.components, ?_⟩
  have hcomponents := components_normalize p
  rwa [h] at hcomponents

end Path

/-!
# Writing to files that are there
-/

section

variable {D : Type} [FileSystem D]

/-- A file that has been found is written. -/
structure Overwrites (disk : D) (p : Path) (text : Text) (disk' : D) : Prop where
  normal : p.IsNormal
  found : exists before content, FileSystem.read disk p = .ok before ∧
    before.text? = some content
  written : FileSystem.write disk p text = .ok disk'

structure Keeps (disk : D) (p : Path) (text : Text) (disk' : D) : Prop where
  holds : FileSystem.read disk' p = .ok (.of text)
  others : forall q, q.IsNormal -> q ≠ p -> FileSystem.read disk' q = FileSystem.read disk q
  records : FileSystem.recordFault disk' p = none

inductive Overwritten (disk : D) : D -> Prop where
  | refl : Overwritten disk disk
  | next {d d' : D} {p : Path} {text : Text} (h : Overwritten disk d)
      (write : Overwrites d p text d') : Overwritten disk d'

/-- A disk that keeps its files, now and after any number of writes. -/
def KeepsFiles (disk : D) : Prop :=
  forall d p text d', Overwritten disk d -> Overwrites d p text d' -> Keeps d p text d'

theorem KeepsFiles.keeps {disk disk' : D} {p : Path} {text : Text} (h : KeepsFiles disk)
    (hwrite : Overwrites disk p text disk') : Keeps disk p text disk' :=
  h disk p text disk' .refl hwrite

theorem Overwritten.trans {disk d d' : D} (h : Overwritten disk d) (h' : Overwritten d d') :
    Overwritten disk d' := by
  induction h' with
  | refl => exact h
  | next _ write ih => exact ih.next write

theorem KeepsFiles.overwritten {disk disk' : D} (h : KeepsFiles disk)
    (hwritten : Overwritten disk disk') : KeepsFiles disk' :=
  fun d p text d' hd => h d p text d' (hwritten.trans hd)

end

/-!
# Files in memory
-/

namespace Memory

theorem read_eq_ok {m : Memory} {p : Path} {before : FileSnapshot} {content : Text}
    (h : m.read p = .ok before) (htext : before.text? = some content) :
    m.fault? .read p = none ∧ m.get? p = some (.file content) := by
  unfold read at h
  split at h
  case h_1 => contradiction
  case h_2 =>
    cases h
    contradiction
  case h_3 =>
    cases h
    contradiction
  case h_4 hfault =>
    split at h
    case h_1 content' hget =>
      cases h
      cases htext
      exact ⟨hfault, hget⟩
    case h_2 => contradiction
    case h_3 =>
      cases h
      contradiction

theorem write_eq_ok {m m' : Memory} {p : Path} {text : Text} (h : m.write p text = .ok m') :
    m' = m.set p (some (.file text)) := by
  unfold write at h
  split at h
  · contradiction
  · exact (Except.ok.inj h).symm

theorem get?_set_file (m : Memory) (p q : Path) (text : Text) :
    (m.set p (some (.file text))).get? q =
      if p.components = q.components then some (.file text) else m.get? q :=
  Table.get?_insert m.entries p.components q.components _

theorem fault?_set_file (m : Memory) (point : FaultPoint) (p q : Path) (text : Text) :
    (m.set p (some (.file text))).fault? point q = m.fault? point q := rfl

theorem keeps_of_overwrites {m m' : Memory} {p : Path} {text : Text}
    (h : Overwrites m p text m') (hrecord : m.failure? .record p = none) :
    Keeps m p text m' := by
  rcases h.found with ⟨before, content, hread, htext⟩
  rcases read_eq_ok hread htext with ⟨hfault, _⟩
  rw [write_eq_ok h.written]
  constructor
  case holds =>
    change read _ p = _
    rw [read, fault?_set_file, hfault, get?_set_file, if_pos rfl]
  case others =>
    intro q hq hne
    have hcomponents : p.components ≠ q.components := fun heq =>
      hne (hq.eq_of_components h.normal heq.symm)
    change read _ q = read _ q
    rw [read, fault?_set_file, get?_set_file, if_neg hcomponents, read]
  case records => exact hrecord

theorem keepsFiles {m : Memory} (h : forall p, m.failure? .record p = none) :
    KeepsFiles m := by
  have hrecord {m' : Memory} (hwritten : Overwritten m m') (p : Path) :
      m'.failure? .record p = none := by
    induction hwritten with
    | refl => exact h p
    | next _ write ih =>
        rw [write_eq_ok write.written, failure?, fault?_set_file]
        exact ih
  intro d p text d' hwritten hwrite
  exact keeps_of_overwrites hwrite (hrecord hwritten p)

end Memory

/-!
# Directory trees
-/

namespace Tree

open LanguageClient.Path

def name? : Component -> Option Bytes
  | .name n => some n
  | _ => none

theorem names_eq (t : Tree) (p : Path) :
    t.names p =
      match below? t.root p with
      | some rest => rest.components.filterMap name?
      | none => [] := rfl

theorem map_filterMap_name? {components : List Component}
    (h : forall c, c ∈ components -> exists n, c = .name n) :
    (components.filterMap name?).map .name = components := by
  induction components with
  | nil => rfl
  | cons c rest ih =>
      rcases h c List.mem_cons_self with ⟨n, rfl⟩
      have hrest := ih fun c hc => h c (List.mem_cons_of_mem _ hc)
      exact congrArg (Component.name n :: ·) hrest

theorem components_of_names {t : Tree} {p : Path} (hroot : t.root.isAbsolute = true)
    (hp : p.IsNormal) (h : t.names p ≠ []) :
    p.components = t.root.components ++ (t.names p).map .name := by
  rw [names_eq] at h ⊢
  split at h
  case h_2 => contradiction
  case h_1 r hr =>
    have hbelow : t.root.components <+: p.components := by
      rw [← below?_isSome_iff, hr]
      rfl
    have habsolute : p.isAbsolute = true :=
      (isAbsolute_iff_mem p).mpr (hbelow.subset ((isAbsolute_iff_mem t.root).mp hroot))
    rcases join_below? hroot habsolute hr with ⟨-, pieces, hsuffix, rfl, hpieces⟩
    have hrest := rest_inner fun piece hmem =>
      slash_not_mem_of_mem_splitPieces (hsuffix.subset hmem)
    rcases hp.exists_names with ⟨names, hnames⟩
    have hinner :
        forall c, c ∈ pieces.filterMap Component.ofPiece -> exists n, c = .name n := by
      intro c hc
      have hmem : c ∈ p.components := hpieces ▸ List.mem_append_right _ hc
      rw [hnames, if_pos habsolute, List.singleton_append, List.mem_cons] at hmem
      rcases hmem with rfl | hmem
      · rw [← hrest.2] at hc
        exact absurd hc (root_not_mem_inner _)
      · rcases List.mem_map.mp hmem with ⟨n, -, rfl⟩
        exact ⟨n, rfl⟩
    have hleading : (below?.rest pieces).leading.filterMap name? = [] := by
      unfold leading
      rw [if_neg (by simp [hrest.1])]
      split <;> rfl
    rw [components_eq (below?.rest pieces), List.filterMap_append, hleading, List.nil_append,
      hrest.2, map_filterMap_name? hinner, hpieces]

theorem find?_filter {names way : List Bytes} (h : names ≠ way)
    (entries : List (List Bytes × TreeEntry)) :
    find? names (entries.filter (·.1 ≠ way)) = find? names entries := by
  induction entries with
  | nil => rfl
  | cons e rest ih =>
      rcases e with ⟨key, entry⟩
      by_cases hkey : key = way
      · rw [List.filter_cons_of_neg (by simp [hkey]), ih, find?, if_neg (hkey ▸ h.symm)]
      · rw [List.filter_cons_of_pos (by simp [hkey]), find?, find?, ih]

theorem entry?_put_self (t : Tree) {way : List Bytes} (h : way ≠ []) (entry : TreeEntry) :
    entry? (t.put way entry) way = some entry := by
  unfold entry?
  rw [if_neg h, put, find?, if_pos rfl]

theorem entry?_put_of_ne (t : Tree) {way names : List Bytes} (h : names ≠ way)
    (entry : TreeEntry) : entry? (t.put way entry) names = t.entry? names := by
  unfold entry?
  split
  · rfl
  · rw [put, find?, if_neg h.symm, find?_filter h]

theorem entry?_of_walk {t : Tree} {above rest : List Bytes} {entry : Option TreeEntry}
    (h : t.walk above rest = .ok entry) : t.entry? (above ++ rest) = entry := by
  induction rest generalizing above with
  | nil =>
      rw [List.append_nil]
      exact Except.ok.inj h
  | cons name rest ih =>
      simp only [walk] at h
      split at h
      case h_1 => contradiction
      case h_2 => contradiction
      case h_3 =>
        split at h
        · contradiction
        · rw [← ih h, List.append_assoc, List.singleton_append]

section

variable {t : Tree} {way : List Bytes} {bytes : Bytes}

/-- Nothing but the file itself sees what a file holds: it is no directory before or after. -/
theorem walk_put_of_ne (hway : t.entry? way = some (.file bytes)) (hne : way ≠ [])
    (bytes' : Bytes) {above rest : List Bytes} (h : above ++ rest ≠ way) :
    (t.put way (.file bytes')).walk above rest = t.walk above rest := by
  induction rest generalizing above with
  | nil =>
      rw [List.append_nil] at h
      rw [walk, walk, entry?_put_of_ne t h]
  | cons name rest ih =>
      have hrest : (t.put way (.file bytes')).walk (above ++ [name]) rest =
          t.walk (above ++ [name]) rest :=
        ih (by rwa [List.append_assoc, List.singleton_append])
      by_cases habove : above = way
      · subst habove
        rw [walk, walk, entry?_put_self t hne, hway]
      · rw [walk, walk, entry?_put_of_ne t habove, hrest]

theorem walk_put_self (hne : way ≠ []) (bytes' : Bytes) {above rest : List Bytes}
    (h : t.walk above rest = .ok (some (.file bytes))) (hway : above ++ rest = way) :
    (t.put way (.file bytes')).walk above rest = .ok (some (.file bytes')) := by
  induction rest generalizing above with
  | nil =>
      rw [List.append_nil] at hway
      rw [walk, hway, entry?_put_self t hne]
  | cons name rest ih =>
      have habove : above ≠ way := by
        rintro rfl
        simp at hway
      rw [walk, entry?_put_of_ne t habove]
      simp only [walk] at h
      split at h
      case h_1 => contradiction
      case h_2 => contradiction
      case h_3 hentry =>
        split at h
        · contradiction
        · rename_i hlength
          rw [if_neg hlength]
          exact ih h (by rw [List.append_assoc, List.singleton_append, hway])

end

theorem read_eq_ok {t : Tree} {p : Path} {before : FileSnapshot} {content : Text}
    (h : t.read p = .ok before) (htext : before.text? = some content) :
    exists bytes, t.lookup p = .ok (some (.file bytes)) := by
  unfold read found at h
  cases hlookup : t.lookup p with
  | error e =>
      rw [hlookup] at h
      cases e <;> first
        | contradiction
        | (cases h
           contradiction)
  | ok entry =>
      rw [hlookup] at h
      rcases entry with _ | _ | _
      · cases h
        contradiction
      · exact ⟨_, rfl⟩
      · contradiction

theorem lookup_eq_ok {t : Tree} {p : Path} {entry : Option TreeEntry}
    (h : t.lookup p = .ok entry) :
    t.walk [] (t.names p) = .ok entry ∧
      forall t' : Tree, t'.root = t.root -> t'.lookup p = t'.walk [] (t.names p) := by
  unfold lookup at h
  split at h
  · contradiction
  · rename_i hzero
    split at h
    · contradiction
    · rename_i hlength
      refine ⟨h, fun t' hroot => ?_⟩
      rw [lookup, if_neg hzero, if_neg hlength, names, names, hroot]

theorem write_eq_ok {t t' : Tree} {p : Path} {text : Text} (h : t.write p text = .ok t') :
    t' = t.put (t.names p) (.file (Utf8.encode text)) := by
  unfold write at h
  split at h
  · contradiction
  · contradiction
  · exact (Except.ok.inj h).symm

theorem keeps_of_overwrites {t t' : Tree} {p : Path} {text : Text}
    (hroot : t.root.isAbsolute = true) (h : Overwrites t p text t') : Keeps t p text t' := by
  rcases h.found with ⟨before, content, hread, htext⟩
  rcases read_eq_ok hread htext with ⟨bytes, hlookup⟩
  rcases lookup_eq_ok hlookup with ⟨hwalk, hsame⟩
  have hfile := entry?_of_walk hwalk
  have hne : t.names p ≠ [] := by
    intro hnil
    rw [hnil] at hfile
    cases hfile
  rw [write_eq_ok h.written]
  constructor
  case holds =>
    change read _ p = _
    rw [read, hsame (t.put (t.names p) (.file (Utf8.encode text))) rfl,
      walk_put_self hne _ hwalk rfl]
    simp only [found, Utf8.decode?_encode]
  case others =>
    intro q hq hqp
    have hways : t.names q ≠ t.names p := by
      intro heq
      refine hqp (hq.eq_of_components h.normal ?_)
      rw [components_of_names hroot hq (heq ▸ hne),
        components_of_names hroot h.normal hne, heq]
    have hlookups : (t.put (t.names p) (.file (Utf8.encode text))).lookup q = t.lookup q := by
      have hwalks : (t.put (t.names p) (.file (Utf8.encode text))).walk [] (t.names q) =
          t.walk [] (t.names q) := walk_put_of_ne hfile hne _ hways
      change (if _ then _ else if _ then _ else (t.put _ _).walk [] (t.names q)) = _
      rw [hwalks, lookup]
    change read _ q = read _ q
    rw [read, hlookups, read]
  case records => rfl

theorem keepsFiles {t : Tree} (h : t.root.isAbsolute = true) : KeepsFiles t := by
  have hroot {t' : Tree} (hwritten : Overwritten t t') : t'.root = t.root := by
    induction hwritten with
    | refl => rfl
    | next _ write ih =>
        rw [write_eq_ok write.written]
        exact ih
  intro d p text d' hwritten hwrite
  exact keeps_of_overwrites (hroot hwritten ▸ h) hwrite

end Tree
end LanguageClient

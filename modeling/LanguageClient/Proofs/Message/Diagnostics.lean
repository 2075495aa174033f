import LanguageClient.Proofs.Path.Order
import LanguageClient.Proofs.Text.Utf8
import LanguageClient.Session.Step
import LanguageClient.Workspace.Memory
import Mathlib.Algebra.Group.Int.Defs
import Mathlib.Algebra.GroupWithZero.Nat

/-!
# Flattened diagnostics

A server publishes diagnostics by URI, and an entry can be any JSON value. Flattened, every
entry that has a place and a message becomes one item, whatever its URI is, and no other
item comes up. The items are sorted by file, line and column. The order in which the URIs
are gone through shows in nothing but ties between different URIs: entries of one URI that
start at one place stay in the order in which they were published.
-/

namespace LanguageClient

/-!
# What an entry says
-/

namespace Json

def along? (keys : List String) (v : Json) : Option Json :=
  keys.foldl (fun w key => w.bind (get? key)) (some v)

def numberAlong? (keys : List String) (v : Json) : Option Nat :=
  match v.along? keys with
  | some (.int n) => if 0 ≤ n ∧ n < 2 ^ 64 then some n.toNat else none
  | _ => none

def textAlong? (keys : List String) (v : Json) : Option String :=
  match v.along? keys with
  | some (.str s) => some s
  | _ => none

theorem numberAlong?_eq (keys : List String) (v : Json) :
    v.numberAlong? keys = (v.along? keys).bind word? := by
  rw [numberAlong?]
  cases v.along? keys with
  | none => rfl
  | some w => cases w <;> rfl

theorem textAlong?_eq (keys : List String) (v : Json) :
    v.textAlong? keys = (v.along? keys).bind str? := by
  rw [textAlong?]
  cases v.along? keys with
  | none => rfl
  | some w => cases w <;> rfl

end Json

namespace DiagnosticItem

def lineOf? (entry : Json) : Option Nat :=
  entry.numberAlong? ["range", "start", "line"]

def columnOf? (entry : Json) : Option Nat :=
  entry.numberAlong? ["range", "start", "character"]

def messageOf? (entry : Json) : Option String :=
  entry.textAlong? ["message"]

def severityOf (entry : Json) : Severity :=
  match entry.numberAlong? ["severity"] with
  | some 1 => .error
  | some 2 => .warning
  | some 4 => .hint
  | _ => .information

def sourceOf (server : String) (entry : Json) : String :=
  (entry.textAlong? ["source"]).getD server

def fileOf (uri : String) : Text :=
  match FileUri.toPath? uri.toList with
  | some p => p.display
  | none => uri.toList

def isComplete (entry : Json) : Bool :=
  (lineOf? entry).isSome && (columnOf? entry).isSome && (messageOf? entry).isSome

structure IsShort (entry : Json) : Prop where
  line : forall n, lineOf? entry = some n -> n < 2 ^ 32
  column : forall n, columnOf? entry = some n -> n < 2 ^ 32

/-- An item says what an entry says that was published for a URI. -/
structure Describes (server uri : String) (entry : Json) (item : DiagnosticItem) : Prop where
  file : item.file = fileOf uri
  line : lineOf? entry = some item.line
  column : columnOf? entry = some item.column
  message : messageOf? entry = some item.message
  severity : item.severity = severityOf entry
  source : item.source = sourceOf server entry

theorem severityOf_eq (entry : Json) : severityOf entry =
    (((entry.get? "severity").bind Json.word?).map Severity.ofLevel).getD .information := by
  have hnumber : entry.numberAlong? ["severity"] = (entry.get? "severity").bind Json.word? :=
    Json.numberAlong?_eq _ entry
  rw [severityOf, hnumber]
  cases (entry.get? "severity").bind Json.word? with
  | none => rfl
  | some n =>
    match n with
    | 0 | 1 | 2 | 3 | 4 => rfl
    | n + 5 => rfl

theorem ofJson?_eq (file : Text) (server : String) (entry : Json) :
    ofJson? file server entry =
      (lineOf? entry).bind fun line => (columnOf? entry).bind fun column =>
        (messageOf? entry).map fun message =>
          { file, line := line % 2 ^ 32, column := column % 2 ^ 32, message
            severity := severityOf entry, source := sourceOf server entry } := by
  have hstart (key : String) : entry.numberAlong? ["range", "start", key] =
      ((entry.get? "range").bind (Json.get? "start")).bind fun start =>
        (start.get? key).bind Json.word? := by
    rw [Json.numberAlong?_eq, ← Option.bind_assoc]
    rfl
  have hmessage : messageOf? entry = (entry.get? "message").bind Json.str? :=
    Json.textAlong?_eq _ entry
  have hsource : sourceOf server entry = ((entry.get? "source").bind Json.str?).getD server :=
    congrArg (Option.getD · server) (Json.textAlong?_eq ["source"] entry)
  rw [lineOf?, columnOf?, hstart, hstart, hmessage, severityOf_eq, hsource]
  simp only [ofJson?, coordinate?]
  cases entry.get? "range" with
  | none => rfl
  | some range =>
      rw [Option.bind_some]
      cases hs : range.get? "start" with
      | none => simp [hs]
      | some start =>
          simp only [hs, Option.bind_some, Option.bind_assoc, Option.map_eq_bind,
            Option.bind_eq_bind, Function.comp_def]
          rfl

theorem ofJson?_eq_some_iff {server uri : String} {entry : Json} (h : IsShort entry)
    (item : DiagnosticItem) :
    ofJson? (fileOf uri) server entry = some item <-> Describes server uri entry item := by
  rw [ofJson?_eq]
  constructor
  · intro hitem
    rcases Option.bind_eq_some_iff.mp hitem with ⟨line, hline, hitem⟩
    rcases Option.bind_eq_some_iff.mp hitem with ⟨column, hcolumn, hitem⟩
    rcases Option.map_eq_some_iff.mp hitem with ⟨message, hmessage, rfl⟩
    rw [Nat.mod_eq_of_lt (h.line line hline), Nat.mod_eq_of_lt (h.column column hcolumn)]
    exact ⟨rfl, hline, hcolumn, hmessage, rfl, rfl⟩
  · rintro ⟨hfile, hline, hcolumn, hmessage, hseverity, hsource⟩
    rw [hline, hcolumn, hmessage, ← hfile, ← hseverity, ← hsource]
    simp only [Option.bind_some, Option.map_some]
    rw [Nat.mod_eq_of_lt (h.line _ hline), Nat.mod_eq_of_lt (h.column _ hcolumn)]

theorem isSome_ofJson? (file : Text) (server : String) (entry : Json) :
    (ofJson? file server entry).isSome = isComplete entry := by
  rw [ofJson?_eq, isComplete]
  cases lineOf? entry <;> cases columnOf? entry <;> cases messageOf? entry <;> rfl

/-!
# The order of items
-/

/-- An item may stand before another: its file comes before, byte by byte, or its line in
one file, or its column in one line. -/
def Precedes (a b : DiagnosticItem) : Prop :=
  Utf8.encode a.file < Utf8.encode b.file ∨
    a.file = b.file ∧ (a.line < b.line ∨ a.line = b.line ∧ a.column ≤ b.column)

theorem textLe_iff {text other : Text} :
    textLe text other = true <-> text = other ∨ text < other := by
  induction text generalizing other with
  | nil => cases other <;> simp [textLe]
  | cons c text ih =>
      cases other with
      | nil => simp [textLe]
      | cons d other =>
          rw [textLe, Bool.or_eq_true, Bool.and_eq_true, ih, List.cons_lt_cons_iff]
          simp only [decide_eq_true_eq, beq_iff_eq, List.cons.injEq]
          constructor
          · rintro (hlt | ⟨rfl, rfl | hlt⟩)
            · exact Or.inr (Or.inl hlt)
            · exact Or.inl ⟨rfl, rfl⟩
            · exact Or.inr (Or.inr ⟨rfl, hlt⟩)
          · rintro (⟨rfl, rfl⟩ | hlt | ⟨rfl, hlt⟩)
            · exact Or.inr ⟨rfl, Or.inl rfl⟩
            · exact Or.inl hlt
            · exact Or.inr ⟨rfl, Or.inr hlt⟩

theorem le_iff {a b : DiagnosticItem} : le a b = true <-> a.file < b.file ∨
    a.file = b.file ∧ (a.line < b.line ∨ a.line = b.line ∧ a.column ≤ b.column) := by
  rw [le]
  by_cases hfile : a.file = b.file
  · rw [if_neg (not_not_intro hfile), hfile, or_iff_right (List.lt_irrefl _),
      and_iff_right rfl]
    by_cases hline : a.line = b.line
    · simp [hline]
    · simp [hline]
  · simp [hfile, textLe_iff]

theorem le_trans (a b c : DiagnosticItem) (hab : le a b = true) (hbc : le b c = true) :
    le a c = true := by
  rw [le_iff] at hab hbc ⊢
  rcases hab with hab | ⟨hfile, hab⟩
  · rcases hbc with hbc | ⟨hfile, _⟩
    · exact Or.inl (List.lt_trans hab hbc)
    · exact Or.inl (hfile ▸ hab)
  · rcases hbc with hbc | ⟨hfile', hbc⟩
    · exact Or.inl (hfile ▸ hbc)
    · refine Or.inr ⟨hfile.trans hfile', ?_⟩
      omega

theorem le_total (a b : DiagnosticItem) : (le a b || le b a) = true := by
  rw [Bool.or_eq_true, le_iff, le_iff]
  by_cases hfile : a.file = b.file
  · have hlines : (a.line < b.line ∨ a.line = b.line ∧ a.column ≤ b.column) ∨
        b.line < a.line ∨ b.line = a.line ∧ b.column ≤ a.column := by omega
    exact hlines.imp (Or.inr ⟨hfile, ·⟩) (Or.inr ⟨hfile.symm, ·⟩)
  · rcases List.le_total a.file b.file with hle | hle
    · exact Or.inl (Or.inl ((List.le_iff_lt_or_eq.mp hle).resolve_right hfile))
    · exact Or.inr (Or.inl ((List.le_iff_lt_or_eq.mp hle).resolve_right (Ne.symm hfile)))

theorem precedes_of_le {a b : DiagnosticItem} (h : le a b = true) : Precedes a b :=
  (le_iff.mp h).imp_left Utf8.encode_lt_encode

/-!
# All items
-/

/-- An item with the entry that it comes from and the URI that this was published for. -/
structure Labelled where
  uri : String
  entry : Json
  item : DiagnosticItem

namespace Labelled

def source (x : Labelled) : String × Json :=
  (x.uri, x.entry)

def startsAt (uri : String) (line column : Nat) (x : Labelled) : Bool :=
  x.uri = uri ∧ x.item.line = line ∧ x.item.column = column

end Labelled

/-- The entries that have a place and a message, in the order in which they were published. -/
def complete (lists : List (String × List Json)) : List (String × Json) :=
  lists.flatMap fun (uri, entries) => (entries.filter isComplete).map (uri, ·)

def startsAt (uri : String) (line column : Nat) (entry : String × Json) : Bool :=
  entry.1 = uri ∧ lineOf? entry.2 = some line ∧ columnOf? entry.2 = some column

/-- The items are those of all complete entries, each once, and they are sorted; entries of
one URI that start at one place stay in their order. -/
structure Flattens (server : String) (lists : List (String × List Json))
    (items : List Labelled) :
    Prop where
  sorted : items.Pairwise fun a b => Precedes a.item b.item
  described : forall x, x ∈ items -> Describes server x.uri x.entry x.item
  sources : (items.map Labelled.source).Perm (complete lists)
  ties : forall uri line column,
    (items.filter (Labelled.startsAt uri line column)).map Labelled.source =
      (complete lists).filter (startsAt uri line column)

def labelledOf (server uri : String) (entries : List Json) : List Labelled :=
  entries.filterMap fun entry => (ofJson? (fileOf uri) server entry).map (⟨uri, entry, ·⟩)

def labelled (server : String) (lists : List (String × List Json)) : List Labelled :=
  lists.flatMap fun (uri, entries) => labelledOf server uri entries

def AllShort (lists : List (String × List Json)) : Prop :=
  forall uri entries entry, (uri, entries) ∈ lists -> entry ∈ entries -> IsShort entry

section

variable {server : String} {lists : List (String × List Json)}

theorem describes_labelled (h : AllShort lists) {x : Labelled}
    (hx : x ∈ labelled server lists) :
    Describes server x.uri x.entry x.item := by
  rcases List.mem_flatMap.mp hx with ⟨⟨uri, entries⟩, hlist, hx⟩
  rcases List.mem_filterMap.mp hx with ⟨entry, hentry, hx⟩
  rcases Option.map_eq_some_iff.mp hx with ⟨item, hitem, rfl⟩
  exact (ofJson?_eq_some_iff (h uri entries entry hlist hentry) item).mp hitem

theorem map_source_labelledOf (server uri : String) (entries : List Json) :
    (labelledOf server uri entries).map Labelled.source =
      (entries.filter isComplete).map (uri, ·) := by
  induction entries with
  | nil => rfl
  | cons entry rest ih =>
      have hsome := isSome_ofJson? (fileOf uri) server entry
      rw [labelledOf] at ih ⊢
      cases hitem : ofJson? (fileOf uri) server entry with
      | none =>
          rw [hitem, Option.isSome_none] at hsome
          rw [List.filterMap_cons_none (by rw [hitem]; rfl),
            List.filter_cons_of_neg (by rw [← hsome]; exact Bool.false_ne_true), ih]
      | some item =>
          rw [hitem, Option.isSome_some] at hsome
          rw [List.filterMap_cons_some (by rw [hitem]; rfl),
            List.filter_cons_of_pos hsome.symm, List.map_cons, List.map_cons, ih]
          rfl

theorem map_item_labelledOf (server uri : String) (entries : List Json) :
    (labelledOf server uri entries).map (·.item) = flatten (fileOf uri) entries server := by
  rw [labelledOf, List.map_filterMap]
  change entries.filterMap _ = entries.filterMap _
  congr 1
  funext entry
  rw [Option.map_map]
  exact Option.map_id'

theorem map_source_labelled (server : String) (lists : List (String × List Json)) :
    (labelled server lists).map Labelled.source = complete lists := by
  rw [labelled, List.map_flatMap]
  exact congrArg (List.flatMap · lists) (funext fun _ => map_source_labelledOf server _ _)

theorem map_item_labelled (server : String) (lists : List (String × List Json)) :
    (labelled server lists).map (·.item) =
      lists.flatMap fun (uri, entries) => flatten (fileOf uri) entries server := by
  rw [labelled, List.map_flatMap]
  exact congrArg (List.flatMap · lists) (funext fun _ => map_item_labelledOf server _ _)

theorem startsAt_source {x : Labelled} (h : Describes server x.uri x.entry x.item)
    (uri : String) (line column : Nat) :
    startsAt uri line column x.source = Labelled.startsAt uri line column x := by
  rw [startsAt, Labelled.startsAt, Labelled.source, h.line, h.column]
  simp only [Option.some.injEq]

def arranged (server : String) (lists : List (String × List Json)) : List Labelled :=
  (labelled server lists).mergeSort fun a b => le a.item b.item

theorem flattens_arranged (h : AllShort lists) :
    Flattens server lists (arranged server lists) := by
  have hperm : (arranged server lists).Perm (labelled server lists) := List.mergeSort_perm _ _
  have hdescribed :
      forall x, x ∈ labelled server lists -> Describes server x.uri x.entry x.item :=
    fun x hx => describes_labelled h hx
  constructor
  case sorted =>
    refine List.Pairwise.imp precedes_of_le ?_
    exact List.pairwise_mergeSort (fun a b c => le_trans a.item b.item c.item)
      (fun a b => le_total a.item b.item) (labelled server lists)
  case described => exact fun x hx => hdescribed x (hperm.mem_iff.mp hx)
  case sources => exact map_source_labelled server lists ▸ hperm.map Labelled.source
  case ties =>
    intro uri line column
    have hstable : (arranged server lists).filter (Labelled.startsAt uri line column) =
        (labelled server lists).filter (Labelled.startsAt uri line column) := by
      refine filter_mergeSort (fun a b c => le_trans a.item b.item c.item)
        (fun a b => le_total a.item b.item) fun a b ha hb hat hbt => ?_
      simp only [Labelled.startsAt, decide_eq_true_eq] at hat hbt
      have hfile : a.item.file = b.item.file := by
        rw [(hdescribed a ha).file, (hdescribed b hb).file, hat.1, hbt.1]
      exact le_iff.mpr (Or.inr ⟨hfile, Or.inr ⟨hat.2.1.trans hbt.2.1.symm,
        Nat.le_of_eq (hat.2.2.trans hbt.2.2.symm)⟩⟩)
    rw [hstable, ← map_source_labelled server lists, List.filter_map]
    congr 1
    exact List.filter_congr fun x hx =>
      (startsAt_source (hdescribed x hx) uri line column).symm

end

end DiagnosticItem

namespace Session

open DiagnosticItem

theorem viewed_allItems (server : String) (lists : List (String × List Json)) :
    viewed server lists .allItems = .items ((arranged server lists).map (·.item)) := by
  have hsorted : (arranged server lists).map (·.item) =
      (lists.flatMap fun (uri, entries) => flatten (fileOf uri) entries server).mergeSort
      le := by
    rw [← map_item_labelled]
    exact List.map_mergeSort fun a _ b _ => rfl
  rw [hsorted]
  rfl

/-- Whatever is published, and in whatever order the URIs come, the items are those of all
complete entries. -/
theorem stepTask_allItems {D : Type} [FileSystem D] (s : Session D) (id : Nat) {call : Call}
    {lists : List (String × List Json)} (hmail : call.mailbox = some (.diagnostics lists))
    (hshort : AllShort lists) :
    exists items, Flattens s.settings.serverName lists items ∧
      s.stepTask id call (.listing .allItems) =
        some (s.finish id (.ok (.items (items.map (·.item))))) := by
  refine ⟨arranged s.settings.serverName lists, flattens_arranged hshort, ?_⟩
  rw [stepTask, hmail, ← viewed_allItems]

def entryAt (line column : Nat) (message : String) : Json :=
  .obj [
    ("range", .obj [("start", .obj [("line", .ofNat line), ("character", .ofNat column)])]),
    ("message", .str message)]

def untidy : List (String × List Json) :=
  [("untitled:1", [entryAt 7 0 "far"]),
    ("file:///w/f", [entryAt 2 4 "first", .obj [("message", .str "nowhere")],
      entryAt 2 4 "second"])]

theorem isShort_of_all {entry : Json} (hline : (lineOf? entry).all (· < 2 ^ 32) = true)
    (hcolumn : (columnOf? entry).all (· < 2 ^ 32) = true) : IsShort entry where
  line n hn := by simpa [hn] using hline
  column n hn := by simpa [hn] using hcolumn

theorem allShort_untidy : AllShort untidy := by
  intro uri entries entry hlist hentry
  have hall : untidy.all (fun (_, entries) => entries.all fun entry =>
      (lineOf? entry).all (· < 2 ^ 32) && (columnOf? entry).all (· < 2 ^ 32)) = true := by
    decide +kernel
  have hshort := List.all_eq_true.mp (List.all_eq_true.mp hall _ hlist) _ hentry
  rw [Bool.and_eq_true] at hshort
  exact isShort_of_all hshort.1 hshort.2

def named : Session Memory :=
  .new { (default : Settings) with serverName := "lint" } 0
    (.new (.ofString "/w") Memory.empty)

theorem stepTask_allItems_untidy :
    AllShort untidy ∧ exists items, Flattens "lint" untidy items ∧
      named.stepTask 0 ⟨.listing .allItems, 1, some (.diagnostics untidy), false⟩
          (.listing .allItems) =
        some (named.finish 0 (.ok (.items (items.map (·.item))))) :=
  ⟨allShort_untidy, stepTask_allItems named 0 rfl allShort_untidy⟩

end Session
end LanguageClient

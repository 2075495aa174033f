import LanguageClient.Proofs.Path.Components
import LanguageClient.Proofs.Path.Order
import LanguageClient.Workspace.Edits
import Mathlib.Data.List.Forall2

/-!
# The files that a workspace edit names

A workspace edit maps URIs to edits. The URIs are taken to paths, every one of them before
any file is touched, and the files are edited in the order of their paths. Where several
URIs lead to one path, the order in which the map gives them is all that is left to decide.
-/

namespace LanguageClient

/-!
# Paths of URIs
-/

theorem Percent.decode_cons_of_ne {b : UInt8} (h : b ≠ percent) (rest : Bytes) :
    decode (b :: rest) = b :: decode rest := by
  cases rest with
  | nil => rfl
  | cons c rest =>
      cases rest with
      | nil => rfl
      | cons d rest => rw [decode, if_neg h]

namespace FileUri

theorem isAbsolute_pathOf (segments : List Text) : (pathOf segments).isAbsolute = true := by
  have hslash (rest : Text) :
      exists bytes, Percent.decode (Utf8.encode ('/' :: rest)) = Path.slash :: bytes :=
    ⟨Percent.decode (Utf8.encode rest), Percent.decode_cons_of_ne (by decide) _⟩
  unfold pathOf
  cases segments.dropWhile List.isEmpty with
  | nil => decide
  | cons segment more =>
      rcases hslash (segment ++ more.flatMap ('/' :: ·)) with ⟨bytes, hbytes⟩
      simp only [List.flatMap_cons, List.cons_append, hbytes]
      split
      · split
        · rfl
        · rfl
      · rfl

theorem isAbsolute_of_toPath? {uri : Text} {p : Path} (h : toPath? uri = some p) :
    p.isAbsolute = true := by
  have hpath : exists segments, p = pathOf segments := by
    simp only [toPath?, Option.bind_eq_bind, Option.bind_eq_some_iff] at h
    rcases h with ⟨⟨scheme, rest⟩, -, h⟩
    split at h
    · contradiction
    · split at h
      case h_1 a b more =>
        split at h
        · split at h
          · exact ⟨_, (Option.some.inj h).symm⟩
          · rcases Option.bind_eq_some_iff.mp h with ⟨host, -, h⟩
            split at h
            · exact ⟨_, (Option.some.inj h).symm⟩
            · contradiction
        · exact ⟨_, (Option.some.inj h).symm⟩
      case h_2 => exact ⟨_, (Option.some.inj h).symm⟩
  rcases hpath with ⟨segments, rfl⟩
  exact isAbsolute_pathOf segments

end FileUri

namespace WorkspaceEdit

/-!
# Targets
-/

/-- The changes of a map, with the paths of its URIs in their place. -/
def Decodes (changes : List (String × List TextEdit)) (entries : List (Path × List TextEdit)) :
    Prop :=
  List.Forall₂ (fun c e => FileUri.toPath? c.1.toList = some e.1 ∧ e.2 = c.2) changes entries

theorem paths?_of_decodes {changes : List (String × List TextEdit)}
    {entries : List (Path × List TextEdit)} (h : Decodes changes entries) :
    paths? changes = .ok entries := by
  induction h with
  | nil => rfl
  | @cons c e changes entries hfirst _ ih =>
      rcases c with ⟨uri, edits⟩
      rcases e with ⟨p, edits'⟩
      rcases hfirst with ⟨hpath, rfl⟩
      simp only at hpath
      simp only [paths?, hpath, ih]
      rfl

theorem decodes_or_foreign (changes : List (String × List TextEdit)) :
    (exists entries, Decodes changes entries) ∨
      exists c, c ∈ changes ∧ FileUri.toPath? c.1.toList = none ∧
        paths? changes = .error (.unsupportedEdit ("not a file URI: " ++ c.1)) := by
  induction changes with
  | nil => exact Or.inl ⟨[], .nil⟩
  | cons c rest ih =>
      rcases c with ⟨uri, edits⟩
      cases hpath : FileUri.toPath? uri.toList with
      | none =>
          refine Or.inr ⟨(uri, edits), List.mem_cons_self, hpath, ?_⟩
          simp only [paths?, hpath]
      | some p =>
          rcases ih with ⟨entries, hentries⟩ | ⟨c, hc, hforeign, herror⟩
          · exact Or.inl ⟨(p, edits) :: entries, .cons ⟨hpath, rfl⟩ hentries⟩
          · refine Or.inr ⟨c, List.mem_cons_of_mem _ hc, hforeign, ?_⟩
            simp only [paths?, hpath, herror]
            rfl

theorem Decodes.not_foreign {changes : List (String × List TextEdit)}
    {entries : List (Path × List TextEdit)} (h : Decodes changes entries) {uri : String}
    {edits : List TextEdit} (hc : (uri, edits) ∈ changes) :
    exists p, FileUri.toPath? uri.toList = some p ∧ (p, edits) ∈ entries := by
  induction h with
  | nil => contradiction
  | @cons c e changes entries hfirst _ ih =>
      rcases List.mem_cons.mp hc with rfl | hc
      · refine ⟨e.1, hfirst.1, ?_⟩
        rw [← show e.2 = edits from hfirst.2]
        exact List.mem_cons_self
      · rcases ih hc with ⟨p, hp, hmem⟩
        exact ⟨p, hp, List.mem_cons_of_mem _ hmem⟩

theorem Decodes.exists_uri {changes : List (String × List TextEdit)}
    {entries : List (Path × List TextEdit)} (h : Decodes changes entries) {p : Path}
    {edits : List TextEdit} (he : (p, edits) ∈ entries) :
    exists uri, (uri, edits) ∈ changes ∧ FileUri.toPath? uri.toList = some p := by
  induction h with
  | nil => contradiction
  | @cons c e changes entries hfirst _ ih =>
      rcases c with ⟨uri, edits'⟩
      rcases List.mem_cons.mp he with rfl | he
      · refine ⟨uri, ?_, hfirst.1⟩
        rw [show edits = edits' from hfirst.2]
        exact List.mem_cons_self
      · rcases ih he with ⟨uri, hmem, hp⟩
        exact ⟨uri, List.mem_cons_of_mem _ hmem, hp⟩

def aim (context : EditContext) (entry : Path × List TextEdit) : EditTarget :=
  ⟨entry.1.display, entry.2, context⟩

/-- Whether a workspace edit is refused for its shape. -/
def Refused (e : WorkspaceEdit) : Prop :=
  e.documentChanges.isSome = true ∨
    exists c, c ∈ e.changes.getD [] ∧ FileUri.toPath? c.1.toList = none

theorem targets_of_decodes {e : WorkspaceEdit} {entries : List (Path × List TextEdit)}
    (hflat : e.documentChanges = none) (h : Decodes (e.changes.getD []) entries)
    (context : EditContext) :
    e.targets context = .ok ((Path.sorted entries).map (aim context)) := by
  rw [targets, hflat, if_neg (by simp)]
  cases hchanges : e.changes with
  | none =>
      rw [hchanges] at h
      cases h
      simp [Path.sorted]
  | some changes =>
      rw [hchanges] at h
      exact congrArg
        (fun paths => paths.bind fun paths => .ok ((Path.sorted paths).map (aim context)))
        (paths?_of_decodes h)

theorem targets_of_refused {e : WorkspaceEdit} (h : e.Refused) (context : EditContext) :
    exists text, e.targets context = .error (.unsupportedEdit text) := by
  rw [targets]
  split
  case isTrue => exact ⟨_, rfl⟩
  case isFalse hflat =>
    rcases h with hversioned | ⟨⟨uri, edits⟩, hc, hforeign⟩
    · exact absurd hversioned hflat
    · cases hchanges : e.changes with
      | none =>
          rw [hchanges] at hc
          contradiction
      | some changes =>
          rw [hchanges] at hc
          rcases decodes_or_foreign changes with ⟨entries, hentries⟩ | ⟨c, -, -, herror⟩
          · rcases hentries.not_foreign hc with ⟨p, hp, -⟩
            rw [hforeign] at hp
            contradiction
          · refine ⟨"not a file URI: " ++ c.1, ?_⟩
            exact congrArg
              (fun paths => paths.bind fun paths =>
                .ok ((Path.sorted paths).map (aim context)))
              herror

theorem exists_uri_of_mem_targets {e : WorkspaceEdit} {context : EditContext}
    {targets : List EditTarget} {target : EditTarget} (h : e.targets context = .ok targets)
    (hmem : target ∈ targets) :
    exists uri p, (uri, target.edits) ∈ e.changes.getD [] ∧
      FileUri.toPath? uri.toList = some p ∧ target.name = p.display := by
  have hkept : ¬ e.Refused := by
    intro hrefused
    rcases targets_of_refused hrefused context with ⟨text, herror⟩
    rw [h] at herror
    contradiction
  have hflat : e.documentChanges = none := by
    rw [← Option.not_isSome_iff_eq_none]
    exact fun hversioned => hkept (Or.inl hversioned)
  rcases decodes_or_foreign (e.changes.getD []) with ⟨entries, hentries⟩ | ⟨c, hc, hforeign, -⟩
  · rw [targets_of_decodes hflat hentries] at h
    rw [← Except.ok.inj h] at hmem
    rcases List.mem_map.mp hmem with ⟨⟨p, edits⟩, he, rfl⟩
    rcases hentries.exists_uri ((Path.sorted_perm entries).mem_iff.mp he) with ⟨uri, hmem, hp⟩
    exact ⟨uri, p, hmem, hp, rfl⟩
  · exact absurd (Or.inr ⟨c, hc, hforeign⟩) hkept

/-- What stands for each path decides about the targets, not the order of the map. -/
theorem targets_congr (e e' : WorkspaceEdit) {entries entries' : List (Path × List TextEdit)}
    (hflat : e.documentChanges = e'.documentChanges)
    (h : Decodes (e.changes.getD []) entries) (h' : Decodes (e'.changes.getD []) entries')
    (hplaces : forall components,
      Path.atPlace components entries = Path.atPlace components entries')
    (context : EditContext) : e.targets context = e'.targets context := by
  cases hversioned : e.documentChanges with
  | none =>
      rw [targets_of_decodes hversioned h, targets_of_decodes (hflat.symm.trans hversioned) h',
        Path.sorted_congr hplaces]
  | some changes =>
      rw [targets, targets, ← hflat, hversioned]
      rfl

end WorkspaceEdit
end LanguageClient

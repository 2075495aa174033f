import LanguageClient.Proofs.Path.Components
import LanguageClient.Proofs.Text.Utf8

/-!
# Paths written as texts

A slash is no part of any other character. So the pieces of a path that is given as a text
are texts themselves, and texts joined by slashes are a text.
-/

namespace LanguageClient
namespace Path

theorem splitPieces_append_of_slash_not_mem {front bytes piece : Bytes} {more : List Bytes}
    (hfront : slash ∉ front) (h : splitPieces bytes = piece :: more) :
    splitPieces (front ++ bytes) = (front ++ piece) :: more := by
  induction front with
  | nil => exact h
  | cons b rest ih =>
      rw [List.mem_cons, not_or] at hfront
      exact splitPieces_cons (Ne.symm hfront.left) (ih hfront.right)

theorem slash_not_mem_utf8EncodeChar {c : Char} (h : c ≠ '/') :
    slash ∉ String.utf8EncodeChar c := by
  have hvalue : c.val.toNat = c.toNat := rfl
  have hne : c.toNat ≠ 47 := fun heq => h (by rw [← Char.ofNat_toNat c, heq])
  have hbyte : forall n, n < 256 -> n ≠ 47 -> slash ≠ UInt8.ofNat n := by
    intro n hlt hn heq
    have hnat := congrArg UInt8.toNat heq
    rw [UInt8.toNat_ofNat', Nat.mod_eq_of_lt hlt] at hnat
    exact hn hnat.symm
  have hrange := Utf8.toNat_range c
  simp only [String.utf8EncodeChar, hvalue]
  split
  · simp only [List.mem_singleton]
    exact hbyte _ (by omega) hne
  · split
    · simp only [List.mem_cons, List.not_mem_nil, or_false, not_or]
      exact ⟨hbyte _ (by omega) (by omega), hbyte _ (by omega) (by omega)⟩
    · split <;> simp only [List.mem_cons, List.not_mem_nil, or_false, not_or]
      · exact ⟨hbyte _ (by omega) (by omega), hbyte _ (by omega) (by omega),
          hbyte _ (by omega) (by omega)⟩
      · exact ⟨hbyte _ (by omega) (by omega), hbyte _ (by omega) (by omega),
          hbyte _ (by omega) (by omega), hbyte _ (by omega) (by omega)⟩

def IsText (bytes : Bytes) : Prop :=
  exists text, bytes = Utf8.encode text

theorem isText_of_mem_splitPieces {text : Text} {piece : Bytes}
    (h : piece ∈ splitPieces (Utf8.encode text)) : IsText piece := by
  induction text generalizing piece with
  | nil =>
      rw [List.mem_singleton.mp h]
      exact ⟨[], rfl⟩
  | cons c text ih =>
      rw [Utf8.encode_cons] at h
      by_cases hc : c = '/'
      · subst hc
        have hbytes : String.utf8EncodeChar '/' ++ Utf8.encode text =
            slash :: Utf8.encode text := rfl
        rw [hbytes, splitPieces_slash_cons, List.mem_cons] at h
        rcases h with rfl | h
        · exact ⟨[], rfl⟩
        · exact ih h
      · rcases List.exists_cons_of_ne_nil (splitPieces_ne_nil (Utf8.encode text)) with
          ⟨first, more, hsplit⟩
        rw [splitPieces_append_of_slash_not_mem (slash_not_mem_utf8EncodeChar hc) hsplit,
          List.mem_cons] at h
        rw [hsplit] at ih
        rcases h with rfl | h
        · rcases ih List.mem_cons_self with ⟨u, hu⟩
          exact ⟨c :: u, by rw [Utf8.encode_cons, hu]⟩
        · exact ih (List.mem_cons_of_mem first h)

theorem isText_joinPieces {pieces : List Bytes} (h : forall piece, piece ∈ pieces ->
      IsText piece) :
    IsText (joinPieces pieces) := by
  induction pieces with
  | nil => exact ⟨[], rfl⟩
  | cons piece rest ih =>
      rcases h piece List.mem_cons_self with ⟨u, hu⟩
      cases rest with
      | nil => exact ⟨u, hu⟩
      | cons next more =>
          rcases ih fun other hother => h other (List.mem_cons_of_mem piece hother) with
            ⟨v, hv⟩
          refine ⟨u ++ '/' :: v, ?_⟩
          rw [joinPieces, hu, hv, Utf8.encode_append, Utf8.encode_cons]
          · rfl
          · simp

theorem isText_of_ofPiece {piece : Bytes}
    (h : forall n, Component.ofPiece piece = some (.name n) -> IsText n) : IsText piece := by
  unfold Component.ofPiece at h
  by_cases hidle : piece = [] ∨ piece = [dot]
  · rcases hidle with rfl | rfl
    · exact ⟨[], rfl⟩
    · exact ⟨['.'], rfl⟩
  · by_cases hdots : piece = [dot, dot]
    · rw [hdots]
      exact ⟨['.', '.'], rfl⟩
    · rw [if_neg hidle, if_neg hdots] at h
      exact h piece rfl

end Path
end LanguageClient

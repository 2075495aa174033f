import LanguageClient.Json.Basic

/-!
# Members of objects

Objects are built from lists of members in any order. These lemmas read a member back
without regard to where the sorted list keeps it.
-/

namespace LanguageClient
namespace Json

theorem lookup_insertMember (key other : String) (v : Json) (members : List (String × Json)) :
    lookup other (insertMember key v members) =
      if key = other then some v else lookup other members := by
  induction members with
  | nil =>
      simp [insertMember, lookup]
  | cons member rest ih =>
      rcases member with ⟨k, w⟩
      rw [insertMember]
      by_cases hlt : key < k
      · rw [if_pos hlt, lookup]
      · rw [if_neg hlt]
        by_cases hk : key = k
        · subst hk
          by_cases ho : key = other <;> simp [lookup, ho]
        · rw [if_neg hk, lookup, ih, lookup]
          by_cases hko : k = other
          · subst hko
            rw [if_pos rfl, if_neg hk, if_pos rfl]
          · rw [if_neg hko, if_neg hko]

theorem lookup_foldl_insertMember (other : String) (members acc : List (String × Json)) :
    lookup other (members.foldl (fun acc (k, v) => insertMember k v acc) acc) =
      ((members.reverse.find? (·.1 = other)).map (·.2)).or (lookup other acc) := by
  induction members generalizing acc with
  | nil => rfl
  | cons member rest ih =>
      rcases member with ⟨k, v⟩
      rw [List.foldl_cons, ih, lookup_insertMember, List.reverse_cons, List.find?_append]
      cases rest.reverse.find? (·.1 = other) with
      | some found => rfl
      | none =>
          by_cases hk : k = other <;> simp [hk]

theorem get?_ofMembers (key : String) (members : List (String × Json)) :
    (ofMembers members).get? key = (members.reverse.find? (·.1 = key)).map (·.2) := by
  rw [ofMembers, get?, lookup_foldl_insertMember]
  simp [lookup]

theorem present?_eq_some {key : String} {v w : Json} (h : v.present? key = some w) :
    v.get? key = some w ∧ w ≠ .null := by
  unfold Json.present? at h
  split at h
  case h_1 => contradiction
  case h_2 => contradiction
  case h_3 u hnull hget =>
    cases h
    exact ⟨hget, hnull⟩

theorem present?_of_get? {key : String} {v w : Json} (h : v.get? key = some w)
    (hw : w ≠ .null) :
    v.present? key = some w := by
  unfold Json.present?
  rw [h]
  cases w with
  | null => exact absurd rfl hw
  | _ => rfl

theorem present?_of_get?_none {key : String} {v : Json} (h : v.get? key = none) :
    v.present? key = none := by
  unfold Json.present?
  rw [h]

theorem str?_eq_some {v : Json} {text : String} (h : v.str? = some text) : v = .str text := by
  cases v <;> simp_all [Json.str?]

/-!
# Where members are kept
-/

theorem mem_of_mem_insertMember {key : String} {v : Json} {m : String × Json}
    {members : List (String × Json)} (h : m ∈ insertMember key v members) :
    m = (key, v) ∨ m ∈ members := by
  induction members with
  | nil => exact Or.inl (List.mem_singleton.mp h)
  | cons l members ih =>
      rcases l with ⟨k, w⟩
      rw [insertMember] at h
      split at h
      · exact List.mem_cons.mp h
      split at h
      · rcases List.mem_cons.mp h with hm | hm
        · exact Or.inl hm
        · exact Or.inr (List.mem_cons_of_mem _ hm)
      · rcases List.mem_cons.mp h with hm | hm
        · exact Or.inr (hm ▸ List.mem_cons_self)
        · exact (ih hm).imp_right (List.mem_cons_of_mem _)

theorem mem_of_mem_foldl_insertMember {m : String × Json} {members acc : List (String × Json)}
    (h : m ∈ members.foldl (fun acc (k, v) => insertMember k v acc) acc) :
    m ∈ acc ∨ m ∈ members := by
  induction members generalizing acc with
  | nil => exact Or.inl h
  | cons l members ih =>
      rcases ih h with hm | hm
      · rcases mem_of_mem_insertMember hm with rfl | hm
        · exact Or.inr List.mem_cons_self
        · exact Or.inl hm
      · exact Or.inr (List.mem_cons_of_mem l hm)

theorem sorted_insertMember (key : String) (v : Json) {members : List (String × Json)}
    (h : members.Pairwise (fun m l => m.1 < l.1)) :
    (insertMember key v members).Pairwise (fun m l => m.1 < l.1) := by
  induction members with
  | nil => exact List.pairwise_singleton _ _
  | cons l members ih =>
      rcases l with ⟨k, w⟩
      rcases List.pairwise_cons.mp h with ⟨hfirst, hrest⟩
      rw [insertMember]
      split
      next hlt =>
        refine List.pairwise_cons.mpr ⟨List.forall_mem_cons.mpr ⟨hlt, ?_⟩, h⟩
        intro m hm
        exact String.lt_trans hlt (hfirst m hm)
      next hlt =>
        split
        next heq => exact List.pairwise_cons.mpr ⟨heq ▸ hfirst, hrest⟩
        next hne =>
          refine List.pairwise_cons.mpr ⟨?_, ih hrest⟩
          intro m hm
          rcases mem_of_mem_insertMember hm with rfl | hm
          · exact Std.lt_of_le_of_ne (String.not_lt.mp hlt) (Ne.symm hne)
          · exact hfirst m hm

theorem sorted_foldl_insertMember (members : List (String × Json)) {acc : List (String × Json)}
    (h : acc.Pairwise (fun m l => m.1 < l.1)) :
    (members.foldl (fun acc (k, v) => insertMember k v acc) acc).Pairwise
      (fun m l => m.1 < l.1) := by
  induction members generalizing acc with
  | nil => exact h
  | cons m members ih => exact ih (sorted_insertMember m.1 m.2 h)

theorem exists_sorted_ofMembers (members : List (String × Json)) :
    exists kept, ofMembers members = .obj kept ∧ kept.Pairwise (fun m l => m.1 < l.1) ∧
      forall m, m ∈ kept -> m ∈ members := by
  refine ⟨_, rfl, sorted_foldl_insertMember members List.Pairwise.nil, ?_⟩
  intro m hm
  exact (mem_of_mem_foldl_insertMember hm).resolve_left List.not_mem_nil

end Json
end LanguageClient

import LanguageClient.Proofs.Json.Members
import LanguageClient.Proofs.Json.RoundTrip

/-!
# Objects put together

An object put together from plain values is plain and nests one level deeper than
they do. The text of a plain value has no control characters, so no line of it
ends before the text does.
-/

namespace LanguageClient
namespace Json

/-!
# Plain members
-/

/-- A value without floats that nests at most `depth` deep. -/
def IsModest (depth : Nat) (v : Json) : Prop :=
  v.IsPlain ∧ v.nesting ≤ depth

theorem IsModest.mono {depth more : Nat} {v : Json} (h : v.IsModest depth)
    (hle : depth ≤ more) :
    v.IsModest more :=
  ⟨h.left, Nat.le_trans h.right hle⟩

theorem membersPlain_iff {members : List (String × Json)} :
    MembersPlain members <-> forall m, m ∈ members -> IsPlain m.2 := by
  induction members with
  | nil => simp [MembersPlain]
  | cons m members ih => rw [MembersPlain, ih, List.forall_mem_cons]

theorem nestingMembers_le_iff {members : List (String × Json)} {depth : Nat} :
    nestingMembers members ≤ depth <-> forall m, m ∈ members -> nesting m.2 ≤ depth := by
  induction members with
  | nil => simp [nestingMembers]
  | cons m members ih => rw [nestingMembers, Nat.max_le, ih, List.forall_mem_cons]

theorem isModest_ofMembers (depth : Nat) {members : List (String × Json)}
    (h : forall m, m ∈ members -> m.2.IsModest depth) :
    (ofMembers members).IsModest (depth + 1) := by
  rcases exists_sorted_ofMembers members with ⟨kept, hobject, hsorted, hkept⟩
  have hmodest : forall m, m ∈ kept -> m.2.IsModest depth := fun m hm => h m (hkept m hm)
  rw [hobject]
  refine ⟨⟨hsorted, membersPlain_iff.mpr ?_⟩, Nat.succ_le_succ (nestingMembers_le_iff.mpr ?_)⟩
  · exact fun m hm => (hmodest m hm).left
  · exact fun m hm => (hmodest m hm).right

/-- What is written of an object, in whatever order, is read as the object of its members. -/
theorem parseBytes?_of_isModest {members : List (String × Json)} {depth : Nat}
    (h : forall m, m ∈ members -> m.2.IsModest depth) (hdepth : depth + 1 < depthLimit) :
    parseBytes? (Utf8.encode (print (.obj members))) = some (ofMembers members) := by
  have hplain := membersPlain_iff.mpr fun m hm => (h m hm).left
  have hnesting := nestingMembers_le_iff.mpr fun m hm => (h m hm).right
  exact parseBytes?_encode_print_obj hplain (by omega)

/-!
# Control characters
-/

def HasNoControls (text : Text) : Prop :=
  forall c, c ∈ text -> 0x20 ≤ c.toNat

instance (text : Text) : Decidable (HasNoControls text) :=
  List.decidableBAll (fun c : Char => 0x20 ≤ c.toNat) text

theorem HasNoControls.append {front back : Text} (hfront : HasNoControls front)
    (hback : HasNoControls back) : HasNoControls (front ++ back) := by
  intro c hc
  rcases List.mem_append.mp hc with hc | hc
  · exact hfront c hc
  · exact hback c hc

theorem HasNoControls.cons {c : Char} {text : Text} (hc : 0x20 ≤ c.toNat)
    (htext : HasNoControls text) : HasNoControls (c :: text) :=
  List.forall_mem_cons.mpr ⟨hc, htext⟩

theorem hasNoControls_hexDigit : forall n, n < 16 -> 0x20 ≤ (hexDigit n).toNat := by
  decide

theorem hasNoControls_escape (c : Char) : HasNoControls (escape c) := by
  have hshort : forall d, 0x20 ≤ d.toNat -> HasNoControls ['\\', d] := by
    intro d hd
    exact .cons (by decide) (.cons hd nofun)
  unfold escape
  split
  · exact hshort '"' (by decide)
  split
  · exact hshort '\\' (by decide)
  split
  · exact hshort 'b' (by decide)
  split
  · exact hshort 't' (by decide)
  split
  · exact hshort 'n' (by decide)
  split
  · exact hshort 'f' (by decide)
  split
  · exact hshort 'r' (by decide)
  split
  · have hhigh := hasNoControls_hexDigit (c.toNat / 16) (by omega)
    have hlow := hasNoControls_hexDigit (c.toNat % 16) (Nat.mod_lt _ (by decide))
    exact .cons (by decide) (.cons (by decide) (.cons (by decide) (.cons (by decide)
      (.cons hhigh (.cons hlow nofun)))))
  · rename_i hcontrol
    exact .cons (Nat.le_of_not_lt hcontrol) nofun

theorem hasNoControls_quoted (s : String) : HasNoControls (quoted s) := by
  refine .cons (by decide) (.append ?_ (.cons (by decide) nofun))
  intro c hc
  rcases List.mem_flatMap.mp hc with ⟨d, -, hd⟩
  exact hasNoControls_escape d c hd

theorem hasNoControls_toDigits (n : Nat) : HasNoControls (Nat.toDigits 10 n) := by
  intro c hc
  have hzero := (Unsigned.isDigit_iff.mp (Unsigned.isDigit_of_mem_digits hc)).left
  exact Nat.le_trans (by decide) (UInt32.le_iff_toNat_le.mp hzero)

theorem hasNoControls_int (n : Int) : HasNoControls (print (.int n)) := by
  cases n with
  | ofNat n =>
      rw [print_ofNat]
      exact hasNoControls_toDigits n
  | negSucc n =>
      rw [print_negSucc]
      exact .cons (by decide) (hasNoControls_toDigits (n + 1))

mutual
theorem hasNoControls_print (v : Json) (h : IsPlain v) : HasNoControls (print v) := by
  cases v with
  | null => decide
  | bool b => cases b <;> decide
  | int n => exact hasNoControls_int n
  | float x => exact absurd h (by simp [IsPlain])
  | str s => exact hasNoControls_quoted s
  | arr items =>
      cases items with
      | nil => decide
      | cons x xs =>
          exact .cons (by decide) (.append (hasNoControls_print x h.left)
            (hasNoControls_printItems xs h.right))
  | obj members => exact hasNoControls_print_obj members h.right

theorem hasNoControls_printItems (items : List Json) (h : ItemsPlain items) :
    HasNoControls (printItems items) := by
  cases items with
  | nil => decide
  | cons x xs =>
      exact .cons (by decide) (.append (hasNoControls_print x h.left)
        (hasNoControls_printItems xs h.right))

theorem hasNoControls_printMembers (members : List (String × Json))
    (h : MembersPlain members) :
    HasNoControls (printMembers members) := by
  cases members with
  | nil => decide
  | cons m members =>
      exact .cons (by decide) (.append (hasNoControls_quoted m.1) (.cons (by decide)
        (.append (hasNoControls_print m.2 h.left)
          (hasNoControls_printMembers members h.right))))

theorem hasNoControls_print_obj (members : List (String × Json)) (h : MembersPlain members) :
    HasNoControls (print (.obj members)) := by
  cases members with
  | nil => decide
  | cons m members =>
      exact .cons (by decide) (.append (hasNoControls_quoted m.1) (.cons (by decide)
        (.append (hasNoControls_print m.2 h.left)
          (hasNoControls_printMembers members h.right))))
end

end Json
end LanguageClient

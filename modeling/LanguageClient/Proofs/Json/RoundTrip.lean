import LanguageClient.Proofs.Json.Scalars
import LanguageClient.Proofs.Text.Utf8

/-!
# Values read back

What the printer writes of a value without floats, the reader reads as that value. The
reader's fuel is measured by the printed text, and its depth by the nesting of the value.
-/

namespace LanguageClient
namespace Json

/-!
# Plain values
-/

mutual
/-- A value without floats whose integers have 64 bits and whose members are sorted by key,
without repetition, at every level. -/
def IsPlain : Json -> Prop
  | .null => True
  | .bool _ => True
  | .int n => IsWord n
  | .float _ => False
  | .str _ => True
  | .arr items => ItemsPlain items
  | .obj members => members.Pairwise (fun m l => m.1 < l.1) ∧ MembersPlain members

def ItemsPlain : List Json -> Prop
  | [] => True
  | x :: xs => IsPlain x ∧ ItemsPlain xs

def MembersPlain : List (String × Json) -> Prop
  | [] => True
  | (_, x) :: rest => IsPlain x ∧ MembersPlain rest
end

mutual
def nesting : Json -> Nat
  | .null => 0
  | .bool _ => 0
  | .int _ => 0
  | .float _ => 0
  | .str _ => 0
  | .arr items => nestingItems items + 1
  | .obj members => nestingMembers members + 1

def nestingItems : List Json -> Nat
  | [] => 0
  | x :: xs => max (nesting x) (nestingItems xs)

def nestingMembers : List (String × Json) -> Nat
  | [] => 0
  | (_, x) :: rest => max (nesting x) (nestingMembers rest)
end

/-!
# Blanks and ends
-/

theorem skipSpace_cons {c : Char} (rest : List Char) (h : isSpace c = false) :
    skipSpace (c :: rest) = c :: rest := by
  rw [skipSpace, List.dropWhile_cons_of_neg (by rw [h]; exact Bool.false_ne_true)]

theorem endsNumber_cons {c : Char} (rest : List Char)
    (h : Unsigned.digit? c = none ∧ c ≠ '.' ∧ c ≠ 'e' ∧ c ≠ 'E') : EndsNumber (c :: rest) := by
  intro d hd
  cases hd
  exact h

theorem endsNumber_printItems (items : List Json) (rest : List Char) :
    EndsNumber (printItems items ++ rest) := by
  cases items <;> exact endsNumber_cons _ (by decide)

theorem endsNumber_printMembers (members : List (String × Json)) (rest : List Char) :
    EndsNumber (printMembers members ++ rest) := by
  cases members with
  | nil => exact endsNumber_cons _ (by decide)
  | cons m members => exact endsNumber_cons _ (by decide)

theorem isSpace_of_isDigit {c : Char} (h : c.isDigit = true) : isSpace c = false := by
  cases hspace : isSpace c with
  | false => rfl
  | true =>
      simp only [isSpace, Bool.or_eq_true, decide_eq_true_eq] at hspace
      rcases hspace with ((rfl | rfl) | rfl) | rfl <;> exact absurd h (by decide)

theorem print_head {v : Json} (h : IsPlain v) :
    exists c text, print v = c :: text ∧ isSpace c = false ∧ c ≠ ']' := by
  cases v with
  | null => exact ⟨_, _, rfl, rfl, by decide⟩
  | bool b => cases b <;> exact ⟨_, _, rfl, rfl, by decide⟩
  | int n =>
      rcases print_int_head n with ⟨c, text, htext, rfl | hc⟩
      · exact ⟨_, text, htext, rfl, by decide⟩
      · refine ⟨c, text, htext, isSpace_of_isDigit hc, ?_⟩
        rintro rfl
        exact absurd hc (by decide)
  | float x => exact absurd h (by simp [IsPlain])
  | str s => exact ⟨_, _, rfl, rfl, by decide⟩
  | arr items => cases items <;> exact ⟨_, _, rfl, rfl, by decide⟩
  | obj members =>
      cases members with
      | nil => exact ⟨_, _, rfl, rfl, by decide⟩
      | cons m members => exact ⟨_, _, rfl, rfl, by decide⟩

theorem skipSpace_print {v : Json} (rest : List Char) (h : IsPlain v) :
    skipSpace (print v ++ rest) = print v ++ rest := by
  rcases print_head h with ⟨c, text, htext, hspace, -⟩
  rw [htext, List.cons_append, skipSpace_cons _ hspace]

/-!
# Arrays and objects
-/

/-- The reader takes the text of `v` as `v` and stops right behind it. -/
def Reads (depth : Nat) (v : Json) : Prop :=
  forall fuel rest, (print v).length ≤ fuel -> EndsNumber rest ->
    readValue fuel depth (print v ++ rest) = some (v, rest)

theorem readItems_print {depth : Nat} (fuel : Nat) (items : List Json) {x : Json}
    (acc : List Json) (rest : List Char) (hplain : IsPlain x) (hitems : ItemsPlain items)
    (hx : Reads depth x) (hreads : forall y, y ∈ items -> Reads depth y)
    (hfuel : (print x).length + (printItems items).length ≤ fuel) :
    readItems fuel depth acc (print x ++ (printItems items ++ rest)) =
      some (acc.reverse ++ x :: items, rest) := by
  induction items generalizing x acc fuel with
  | nil =>
      cases fuel with
      | zero => simp [printItems] at hfuel
      | succ fuel =>
          have hread := hx fuel (printItems [] ++ rest)
            (by simp [printItems] at hfuel; exact hfuel) (endsNumber_printItems [] rest)
          have hspace : skipSpace (printItems [] ++ rest) = ']' :: rest :=
            skipSpace_cons rest rfl
          rw [readItems, skipSpace_print _ hplain, hread]
          simp only [hspace, List.reverse_cons]
  | cons y ys ih =>
      cases fuel with
      | zero => simp [printItems] at hfuel
      | succ fuel =>
          simp only [printItems, List.length_cons, List.length_append] at hfuel
          have hread := hx fuel (printItems (y :: ys) ++ rest) (by omega)
            (endsNumber_printItems (y :: ys) rest)
          have hspace : skipSpace (printItems (y :: ys) ++ rest) =
              ',' :: (print y ++ (printItems ys ++ rest)) := by
            rw [printItems, List.cons_append, List.append_assoc, skipSpace_cons _ rfl]
          have hrest :=
            ih fuel (x :: acc) hitems.left hitems.right (hreads y List.mem_cons_self)
            (fun z hz => hreads z (List.mem_cons_of_mem y hz)) (by omega)
          rw [readItems, skipSpace_print _ hplain, hread]
          simp only [hspace, hrest, List.reverse_cons, List.append_assoc,
            List.singleton_append]

theorem readMembers_member {depth fuel : Nat} {x : Json} (key : String)
    (acc : List (String × Json)) {rest : List Char} (hplain : IsPlain x) (hx : Reads depth x)
    (hfuel : (print x).length ≤ fuel) (hrest : EndsNumber rest) :
    (forall r, skipSpace rest = ',' :: r ->
        readMembers (fuel + 1) depth acc (quoted key ++ ':' :: (print x ++ rest)) =
          readMembers fuel depth ((key, x) :: acc) r) ∧
      forall r, skipSpace rest = '\x7d' :: r ->
        readMembers (fuel + 1) depth acc (quoted key ++ ':' :: (print x ++ rest)) =
          some (((key, x) :: acc).reverse, r) := by
  have hkey := readString_quoted key (':' :: (print x ++ rest))
  have hcolon : skipSpace (':' :: (print x ++ rest)) = ':' :: (print x ++ rest) :=
    skipSpace_cons _ rfl
  have hread := hx fuel rest hfuel hrest
  constructor
  · intro r hr
    rw [readMembers, quoted, List.cons_append, skipSpace_cons _ rfl, List.append_assoc,
      List.singleton_append]
    simp only [hkey, hcolon, skipSpace_print _ hplain, hread, hr]
  · intro r hr
    rw [readMembers, quoted, List.cons_append, skipSpace_cons _ rfl, List.append_assoc,
      List.singleton_append]
    simp only [hkey, hcolon, skipSpace_print _ hplain, hread, hr]

theorem readMembers_print {depth : Nat} (fuel : Nat) (key : String) {x : Json}
    (members acc : List (String × Json)) (rest : List Char) (hplain : IsPlain x)
    (hmembers : MembersPlain members) (hx : Reads depth x)
    (hreads : forall m, m ∈ members -> Reads depth m.2)
    (hfuel : (print x).length + (printMembers members).length ≤ fuel) :
    readMembers fuel depth acc (quoted key ++ ':' ::
      (print x ++ (printMembers members ++ rest))) =
      some (acc.reverse ++ (key, x) :: members, rest) := by
  induction members generalizing key x acc fuel with
  | nil =>
      cases fuel with
      | zero => simp [printMembers] at hfuel
      | succ fuel =>
          simp only [printMembers, List.length_singleton] at hfuel
          have hspace : skipSpace (printMembers [] ++ rest) = '\x7d' :: rest :=
            skipSpace_cons rest rfl
          have hvalue : (print x).length ≤ fuel := Nat.le_of_succ_le_succ hfuel
          have hlast := (readMembers_member key acc hplain hx hvalue
            (endsNumber_printMembers [] rest)).right rest hspace
          rw [hlast, List.reverse_cons]
  | cons m members ih =>
      rcases m with ⟨next, y⟩
      cases fuel with
      | zero => simp [printMembers] at hfuel
      | succ fuel =>
          simp only [printMembers, List.length_cons, List.length_append] at hfuel
          have hspace : skipSpace (printMembers ((next, y) :: members) ++ rest) =
              ',' :: (quoted next ++ ':' :: (print y ++ (printMembers members ++ rest))) := by
            rw [printMembers, List.cons_append, skipSpace_cons _ rfl, List.append_assoc,
              List.cons_append, List.append_assoc]
          have hrest := ih fuel next ((key, x) :: acc) hmembers.left hmembers.right
            (hreads (next, y) List.mem_cons_self)
            (fun m hm => hreads m (List.mem_cons_of_mem _ hm)) (by omega)
          have hvalue : (print x).length ≤ fuel := by
            omega
          have hmore := (readMembers_member key acc hplain hx hvalue
            (endsNumber_printMembers ((next, y) :: members) rest)).left _ hspace
          rw [hmore, hrest, List.reverse_cons, List.append_assoc, List.singleton_append]

theorem insertMember_of_lt {key : String} (x : Json) {members : List (String × Json)}
    (h : forall m, m ∈ members -> m.1 < key) :
    insertMember key x members = members ++ [(key, x)] := by
  induction members with
  | nil => rfl
  | cons m members ih =>
      rcases m with ⟨k, y⟩
      have hk : k < key := h (k, y) List.mem_cons_self
      have hne : key ≠ k := by
        rintro rfl
        exact String.lt_irrefl key hk
      rw [insertMember, if_neg (String.lt_asymm hk), if_neg hne,
        ih fun m hm => h m (List.mem_cons_of_mem _ hm), List.cons_append]

theorem foldl_insertMember {members : List (String × Json)} (acc : List (String × Json))
    (h : (acc ++ members).Pairwise (fun m l => m.1 < l.1)) :
    members.foldl (fun acc (k, v) => insertMember k v acc) acc = acc ++ members := by
  induction members generalizing acc with
  | nil => rw [List.foldl_nil, List.append_nil]
  | cons m members ih =>
      rcases m with ⟨key, x⟩
      have hacc : forall l, l ∈ acc -> l.1 < key := fun l hl =>
        (List.pairwise_append.mp h).right.right l hl (key, x) List.mem_cons_self
      rw [List.foldl_cons]
      dsimp only
      rw [insertMember_of_lt x hacc, ih, List.append_assoc, List.singleton_append]
      rw [List.append_assoc, List.singleton_append]
      exact h

theorem ofMembers_of_sorted {members : List (String × Json)}
    (h : members.Pairwise (fun m l => m.1 < l.1)) : ofMembers members = .obj members := by
  rw [ofMembers, foldl_insertMember [] h, List.nil_append]

/-!
# Values
-/

theorem reads_arr {depth : Nat} {items : List Json} (hdepth : 1 < depth)
    (hitems : ItemsPlain items) (hreads : forall y, y ∈ items -> Reads (depth - 1) y) :
    Reads depth (.arr items) := by
  intro fuel rest hfuel _
  cases fuel with
  | zero => cases items <;> simp [print] at hfuel
  | succ fuel =>
      cases items with
      | nil =>
          have hspace : skipSpace (']' :: rest) = ']' :: rest := skipSpace_cons rest rfl
          simp only [print, List.cons_append, List.nil_append, readValue,
            Nat.not_le_of_lt hdepth, if_false, hspace]
      | cons x xs =>
          simp only [print, List.length_cons, List.length_append] at hfuel
          have hread := readItems_print fuel xs [] rest hitems.left hitems.right
            (hreads x List.mem_cons_self) (fun y hy => hreads y (List.mem_cons_of_mem x hy))
            (by omega)
          -- The first item cannot be mistaken for the end of an empty array.
          rcases print_head hitems.left with ⟨c, text, htext, -, hbracket⟩
          simp only [print, List.cons_append, List.append_assoc, readValue,
            Nat.not_le_of_lt hdepth, if_false, skipSpace_print _ hitems.left]
          rw [htext] at hread ⊢
          simp only [List.cons_append] at hread ⊢
          split
          next h =>
            cases h
            exact absurd rfl hbracket
          next => rw [hread]; rfl

/-- An object is read with its members sorted, in whatever order they were written. -/
theorem readValue_obj {depth fuel : Nat} {members : List (String × Json)} (rest : List Char)
    (hdepth : 1 < depth) (hmembers : MembersPlain members)
    (hreads : forall m, m ∈ members -> Reads (depth - 1) m.2)
    (hfuel : (print (.obj members)).length ≤ fuel) :
    readValue fuel depth (print (.obj members) ++ rest) = some (ofMembers members, rest) := by
  cases fuel with
  | zero =>
      cases members with
      | nil => simp [print] at hfuel
      | cons m members => simp [print] at hfuel
  | succ fuel =>
      cases members with
      | nil =>
          have hspace : skipSpace ('\x7d' :: rest) = '\x7d' :: rest := skipSpace_cons rest rfl
          simp only [print, List.cons_append, List.nil_append, readValue,
            Nat.not_le_of_lt hdepth, if_false, hspace]
          rfl
      | cons m members =>
          rcases m with ⟨key, x⟩
          simp only [print, List.length_cons, List.length_append] at hfuel
          have hread := readMembers_print fuel key members [] rest hmembers.left
            hmembers.right (hreads (key, x) List.mem_cons_self)
            (fun m hm => hreads m (List.mem_cons_of_mem _ hm)) (by omega)
          have hspace : forall text, skipSpace (quoted key ++ text) = quoted key ++ text :=
            fun text => skipSpace_cons _ rfl
          simp only [print, List.cons_append, List.append_assoc, readValue,
            Nat.not_le_of_lt hdepth, if_false, hspace]
          rw [quoted] at hread ⊢
          simp only [List.cons_append] at hread ⊢
          split
          next h => simp at h
          next =>
            rw [hread]
            rfl

theorem reads_obj {depth : Nat} {members : List (String × Json)} (hdepth : 1 < depth)
    (hsorted : members.Pairwise (fun m l => m.1 < l.1)) (hmembers : MembersPlain members)
    (hreads : forall m, m ∈ members -> Reads (depth - 1) m.2) :
    Reads depth (.obj members) := by
  intro fuel rest hfuel _
  rw [readValue_obj rest hdepth hmembers hreads hfuel, ofMembers_of_sorted hsorted]

theorem readValue_number {c : Char} (fuel depth : Nat) (rest : List Char)
    (h : c = '-' ∨ c.isDigit = true) :
    readValue (fuel + 1) depth (c :: rest) = readNumber (c :: rest) := by
  have hstart : c = '-' ∨ (Unsigned.digit? c).isSome = true := by
    rcases h with hminus | hdigit
    · exact Or.inl hminus
    · exact Or.inr (by rw [Unsigned.digit?_of_isDigit hdigit]; rfl)
  have hne : forall d, d ≠ '-' -> d.isDigit = false -> c ≠ d := by
    rintro d hminus hdigit rfl
    rcases h with rfl | hc
    · exact hminus rfl
    · rw [hdigit] at hc
      cases hc
  simp [readValue, hstart, hne 'n', hne 't', hne 'f', hne '"', hne '[', hne '\x7b']

theorem reads_int (depth : Nat) {n : Int} (h : IsWord n) : Reads depth (.int n) := by
  intro fuel rest hfuel hrest
  rcases print_int_head n with ⟨c, text, htext, hc⟩
  have hread := readNumber_print h hrest
  rw [htext] at hfuel hread ⊢
  cases fuel with
  | zero => simp at hfuel
  | succ fuel =>
      rw [List.cons_append] at hread ⊢
      rw [readValue_number fuel depth _ hc, hread]

theorem reads_str (depth : Nat) (s : String) : Reads depth (.str s) := by
  intro fuel rest hfuel _
  cases fuel with
  | zero => simp [print, quoted] at hfuel
  | succ fuel =>
      have hread := readString_quoted s rest
      simp only [print, quoted, List.cons_append, List.append_assoc, List.nil_append,
        readValue, hread, Option.map_some]

mutual
/-- The reader takes every plain value back, as long as its nesting is allowed. -/
theorem reads_of_isPlain {depth : Nat} (v : Json) (hplain : IsPlain v)
    (hdepth : nesting v < depth) : Reads depth v := by
  cases v with
  | null =>
      intro fuel rest hfuel _
      cases fuel with
      | zero => simp [print] at hfuel
      | succ fuel => rfl
  | bool b =>
      intro fuel rest hfuel _
      cases fuel with
      | zero => cases b <;> simp [print] at hfuel
      | succ fuel => cases b <;> rfl
  | int n => exact reads_int depth hplain
  | float x => exact absurd hplain (by simp [IsPlain])
  | str s => exact reads_str depth s
  | arr items =>
      rw [nesting] at hdepth
      exact reads_arr (by omega) hplain (reads_of_itemsPlain items hplain (by omega))
  | obj members =>
      rw [nesting] at hdepth
      exact reads_obj (by omega) hplain.left hplain.right
        (reads_of_membersPlain members hplain.right (by omega))

theorem reads_of_itemsPlain {depth : Nat} (items : List Json) (hplain : ItemsPlain items)
    (hdepth : nestingItems items < depth) : forall y, y ∈ items -> Reads depth y := by
  cases items with
  | nil =>
      intro y hy
      cases hy
  | cons x xs =>
      rw [nestingItems] at hdepth
      intro y hy
      cases hy with
      | head => exact reads_of_isPlain x hplain.left (by omega)
      | tail _ hy => exact reads_of_itemsPlain xs hplain.right (by omega) y hy

theorem reads_of_membersPlain {depth : Nat} (members : List (String × Json))
    (hplain : MembersPlain members) (hdepth : nestingMembers members < depth) :
    forall m, m ∈ members -> Reads depth m.2 := by
  cases members with
  | nil =>
      intro m hm
      cases hm
  | cons l members =>
      rcases l with ⟨key, x⟩
      rw [nestingMembers] at hdepth
      intro m hm
      cases hm with
      | head => exact reads_of_isPlain x hplain.left (by omega)
      | tail _ hm => exact reads_of_membersPlain members hplain.right (by omega) m hm
end

theorem parse?_print {v : Json} (hplain : IsPlain v) (hdepth : nesting v < depthLimit) :
    parse? v.print = some v := by
  have hends : EndsNumber [] := by
    intro c hc
    cases hc
  have hread := reads_of_isPlain v hplain hdepth ((print v).length + 1) [] (by omega) hends
  have hspace := skipSpace_print [] hplain
  rw [List.append_nil] at hread hspace
  rw [parse?, hspace, hread]
  rfl

theorem parse?_print_obj {members : List (String × Json)} (hplain : MembersPlain members)
    (hdepth : nestingMembers members + 1 < depthLimit) :
    parse? (print (.obj members)) = some (ofMembers members) := by
  have hspace : skipSpace (print (.obj members)) = print (.obj members) := by
    cases members <;> exact skipSpace_cons _ rfl
  have hreads := reads_of_membersPlain members hplain
    (show nestingMembers members < depthLimit - 1 by omega)
  have hread := readValue_obj [] (show 1 < depthLimit by decide) hplain hreads
    (Nat.le_succ (print (.obj members)).length)
  rw [List.append_nil] at hread
  rw [parse?, hspace, hread]
  rfl

theorem parseBytes?_encode_print {v : Json} (hplain : IsPlain v)
    (hdepth : nesting v < depthLimit) :
    parseBytes? (Utf8.encode v.print) = some v := by
  rw [parseBytes?, Utf8.decode?_encode, Option.bind_some, parse?_print hplain hdepth]

theorem parseBytes?_encode_print_obj {members : List (String × Json)}
    (hplain : MembersPlain members) (hdepth : nestingMembers members + 1 < depthLimit) :
    parseBytes? (Utf8.encode (print (.obj members))) = some (ofMembers members) := by
  rw [parseBytes?, Utf8.decode?_encode, Option.bind_some, parse?_print_obj hplain hdepth]

end Json
end LanguageClient

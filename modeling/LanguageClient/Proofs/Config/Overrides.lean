import LanguageClient.Config.Settings
import LanguageClient.Proofs.Number.Decimal
import Mathlib.Data.List.Induction

/-!
# Overriding variables

Three fields of a configuration can be overridden, each by variables with a key of its own.
The last variable that says something usable decides; blank, unreadable and foreign ones
change nothing. So only the order of variables with one key matters. Whatever the fields are
set to, the limits of the settings that come of them are in range.
-/

namespace LanguageClient

theorem Limit.clamp_within (low high n : Nat) (h : low ≤ high) :
    (low ≤ clamp low high n ∧ clamp low high n ≤ high) ∧
      (low ≤ n -> n ≤ high -> clamp low high n = n) := by
  rw [clamp_eq h]
  omega

namespace Config

/-!
## What a variable says
-/

def switchWords : Bool -> List String
  | true => ["1", "true", "yes", "on"]
  | false => ["0", "false", "no", "off"]

def IsSwitch (text : Text) (on : Bool) : Prop :=
  String.ofList (text.map Char.toLower) ∈ switchWords on

def IsLimit (text : Text) (n : Nat) : Prop :=
  n < Unsigned.wordBound ∧ Unsigned.IsNumeral text n

/-- A variable says `a` about the field with this key, once the blanks
around its value are gone. -/
structure Says {α : Type} (key : String) (reads : Text -> α -> Prop) (pair : String × String)
    (a : α) : Prop where
  key : pair.1 = key
  nonempty : Blank.trim pair.2.toList ≠ []
  value : reads (Blank.trim pair.2.toList) a

/-- What variables make of a field that was `old`: what the last of them
says that says anything. -/
inductive Settles {α : Type} (key : String) (reads : Text -> α -> Prop)
    (pairs : List (String × String)) (old : α) : α -> Prop where
  | last (before after : List (String × String)) (pair : String × String) (a : α)
      (split : pairs = before ++ pair :: after) (usable : Says key reads pair a)
      (silent : forall later b, later ∈ after -> ¬ Says key reads later b) :
      Settles key reads pairs old a
  | unsaid (silent : forall pair a, pair ∈ pairs -> ¬ Says key reads pair a) :
      Settles key reads pairs old old

theorem flag?_eq_some_iff {text : Text} {on : Bool} :
    flag? text = some on <-> IsSwitch text on := by
  have hdisjoint : forall word, word ∈ switchWords true -> word ∉ switchWords false := by
    decide
  rw [IsSwitch]
  change (if (switchWords true).contains (String.ofList (text.map Char.toLower)) then some true
    else if (switchWords false).contains (String.ofList (text.map Char.toLower)) then
      some false
    else none) = some on <-> _
  generalize String.ofList (text.map Char.toLower) = word
  simp only [List.contains_iff_mem]
  by_cases htrue : word ∈ switchWords true
  · rw [if_pos htrue]
    cases on with
    | true => exact iff_of_true rfl htrue
    | false => exact iff_of_false nofun (hdisjoint word htrue)
  · rw [if_neg htrue]
    cases on with
    | true =>
        refine iff_of_false (fun h => ?_) htrue
        split at h <;> contradiction
    | false =>
        split
        case isTrue hfalse => exact iff_of_true rfl hfalse
        case isFalse hfalse => exact iff_of_false nofun hfalse

theorem read?_eq_some_iff_isLimit {text : Text} {n : Nat} :
    Unsigned.read? text = some n <-> IsLimit text n :=
  Unsigned.read?_eq_some_iff

/-!
## One field
-/

def setting {α : Type} (key : String) (read? : Text -> Option α) (old : α)
    (pair : String × String) : α :=
  if pair.1 = key then (read? (Blank.trim pair.2.toList)).getD old else old

def settled {α : Type} (key : String) (read? : Text -> Option α)
    (pairs : List (String × String)) (old : α) : α :=
  pairs.foldl (setting key read?) old

section

variable {α : Type} {key : String} {read? : Text -> Option α} {reads : Text -> α -> Prop}

theorem setting_of_said (hread : forall text a, read? text = some a <-> reads text a)
    {pair : String × String} {a : α} (h : Says key reads pair a) (old : α) :
    setting key read? old pair = a := by
  rw [setting, if_pos h.key, (hread _ _).mpr h.value]
  rfl

theorem setting_of_silent (hread : forall text a, read? text = some a <-> reads text a)
    (hempty : read? [] = none) {pair : String × String} (h : forall a, ¬ Says key reads pair a)
    (old : α) : setting key read? old pair = old := by
  rw [setting]
  split
  case isFalse => rfl
  case isTrue hkey =>
    cases hvalue : read? (Blank.trim pair.2.toList) with
    | none => rfl
    | some a =>
        refine absurd ⟨hkey, fun hblank => ?_, (hread _ _).mp hvalue⟩ (h a)
        rw [hblank, hempty] at hvalue
        contradiction

theorem settles_settled (hread : forall text a, read? text = some a <-> reads text a)
    (hempty : read? [] = none) (pairs : List (String × String)) (old : α) :
    Settles key reads pairs old (settled key read? pairs old) := by
  induction pairs using List.reverseRecOn with
  | nil => exact .unsaid fun pair a h => absurd h List.not_mem_nil
  | append_singleton past pair ih =>
      have hstep : settled key read? (past ++ [pair]) old =
          setting key read? (settled key read? past old) pair := by
        simp [settled]
      rw [hstep]
      by_cases hsaid : exists a, Says key reads pair a
      · rcases hsaid with ⟨a, ha⟩
        rw [setting_of_said hread ha]
        exact .last past [] pair a rfl ha fun later b h => absurd h List.not_mem_nil
      · have hsilent : forall a, ¬ Says key reads pair a := fun a ha => hsaid ⟨a, ha⟩
        rw [setting_of_silent hread hempty hsilent]
        generalize settled key read? past old = new at ih
        cases ih with
        | last before after decisive a split usable silent =>
            refine .last before (after ++ [pair]) decisive _ (by simp [split]) usable ?_
            intro later b hlater
            rcases List.mem_append.mp hlater with hlater | hlater
            · exact silent later b hlater
            · exact List.mem_singleton.mp hlater ▸ hsilent b
        | unsaid silent =>
            refine .unsaid fun other a hother => ?_
            rcases List.mem_append.mp hother with hother | hother
            · exact silent other a hother
            · exact List.mem_singleton.mp hother ▸ hsilent a

theorem settled_filter (pairs : List (String × String)) (old : α) :
    settled key read? (pairs.filter fun pair => pair.1 = key) old =
      settled key read? pairs old := by
  rw [settled, settled, List.foldl_filter]
  congr 1
  funext value pair
  rw [setting]
  by_cases hkey : pair.1 = key <;> simp [hkey]

end

/-!
## All fields
-/

/-- Each of the three fields is settled by the variables with its key. -/
theorem overrides_eq (c : Config) (pairs : List (String × String)) :
    c.overrides pairs =
      { c with
        allowWrites := settled "LSP_BRIDGE_ALLOW_WRITES" flag? pairs c.allowWrites
        maxFileBytes := settled "LSP_BRIDGE_MAX_FILE_BYTES" Unsigned.read? pairs c.maxFileBytes
        defaultTimeoutMs :=
          settled "LSP_BRIDGE_TIMEOUT_MS" Unsigned.read? pairs c.defaultTimeoutMs } := by
  induction pairs generalizing c with
  | nil => rfl
  | cons pair rest ih =>
      have hone : c.override pair.1 pair.2 =
          { c with
            allowWrites := setting "LSP_BRIDGE_ALLOW_WRITES" flag? c.allowWrites pair
            maxFileBytes :=
              setting "LSP_BRIDGE_MAX_FILE_BYTES" Unsigned.read? c.maxFileBytes pair
            defaultTimeoutMs :=
              setting "LSP_BRIDGE_TIMEOUT_MS" Unsigned.read? c.defaultTimeoutMs pair } := by
        simp only [override, setting]
        split
        case isTrue hkey => simp [hkey]
        case isFalse =>
          split
          case isTrue hkey => simp [hkey]
          case isFalse => split <;> rfl
      change (c.override pair.1 pair.2).overrides rest = _
      rw [hone, ih]
      rfl

/-- What variables make of a configuration. -/
structure Overridden (c : Config) (pairs : List (String × String)) (c' : Config) : Prop where
  allowWrites : Settles "LSP_BRIDGE_ALLOW_WRITES" IsSwitch pairs c.allowWrites c'.allowWrites
  maxFileBytes :
    Settles "LSP_BRIDGE_MAX_FILE_BYTES" IsLimit pairs c.maxFileBytes c'.maxFileBytes
  defaultTimeoutMs :
    Settles "LSP_BRIDGE_TIMEOUT_MS" IsLimit pairs c.defaultTimeoutMs c'.defaultTimeoutMs
  others : c' = { c with
    allowWrites := c'.allowWrites
    maxFileBytes := c'.maxFileBytes
    defaultTimeoutMs := c'.defaultTimeoutMs }

/-- The same variables in another order, in which those with one key stand as before. -/
structure Reordered (first second : List (String × String)) : Prop where
  perm : first.Perm second
  ties : forall key, (first.filter fun pair => pair.1 = key) = second.filter fun pair =>
    pair.1 = key

structure LimitsInRange (c : Config) (s : Settings) : Prop where
  maxFileBytes : 1024 ≤ s.maxFileBytes ∧ s.maxFileBytes ≤ 5 * 1024 * 1024
  defaultTimeoutMs : 1000 ≤ s.defaultTimeoutMs ∧ s.defaultTimeoutMs ≤ 5 * 60 * 1000
  maxFileBytes_kept : 1024 ≤ c.maxFileBytes -> c.maxFileBytes ≤ 5 * 1024 * 1024 ->
    s.maxFileBytes = c.maxFileBytes
  defaultTimeoutMs_kept : 1000 ≤ c.defaultTimeoutMs -> c.defaultTimeoutMs ≤ 5 * 60 * 1000 ->
    s.defaultTimeoutMs = c.defaultTimeoutMs

theorem overridden_overrides (c : Config) (pairs : List (String × String)) :
    Overridden c pairs (c.overrides pairs) := by
  rw [overrides_eq]
  exact {
    allowWrites := settles_settled (fun _ _ => flag?_eq_some_iff) rfl pairs _
    maxFileBytes := settles_settled (fun _ _ => read?_eq_some_iff_isLimit) rfl pairs _
    defaultTimeoutMs := settles_settled (fun _ _ => read?_eq_some_iff_isLimit) rfl pairs _
    others := rfl }

theorem Reordered.overrides_eq {first second : List (String × String)}
    (h : Reordered first second) (c : Config) : c.overrides second = c.overrides first := by
  have hsame {α : Type} (key : String) (read? : Text -> Option α) (old : α) :
      settled key read? second old = settled key read? first old := by
    rw [← settled_filter second, ← h.ties, settled_filter]
  rw [Config.overrides_eq, Config.overrides_eq, hsame, hsame, hsame]

theorem limitsInRange_resolve (c : Config) (currentDir : Path) :
    LimitsInRange c (c.resolve currentDir) := by
  have hbytes := Limit.clamp_within 1024 (5 * 1024 * 1024) c.maxFileBytes (by decide)
  have htimeout := Limit.clamp_within 1000 (5 * 60 * 1000) c.defaultTimeoutMs (by decide)
  exact ⟨hbytes.1, htimeout.1, hbytes.2, htimeout.2⟩

/-- The last usable variable for a field decides, the order of variables with different keys
does not matter, and the limits that come of it are in range whatever the variables say. -/
theorem overrides_settled (c : Config) (pairs : List (String × String)) :
    Overridden c pairs (c.overrides pairs) ∧
      (forall other, Reordered pairs other -> c.overrides other = c.overrides pairs) ∧
      forall currentDir, LimitsInRange (c.overrides pairs)
      ((c.overrides pairs).resolve currentDir) :=
  ⟨overridden_overrides c pairs, fun _ h => h.overrides_eq c,
    limitsInRange_resolve (c.overrides pairs)⟩

example : (overrides {} [("LSP_BRIDGE_ALLOW_WRITES", " Yes "),
    ("LSP_BRIDGE_ALLOW_WRITES", "maybe")]).allowWrites = true := by decide +kernel

end Config
end LanguageClient

import LanguageClient.Workspace.Basic

/-!
# A directory tree

A disk as an operating system shows it: directories hold entries by name, a path is walked
name by name, files hold bytes, and names and paths have limited lengths.
-/

namespace LanguageClient

inductive TreeEntry where
  | file (bytes : Bytes)
  | directory
  deriving DecidableEq, Repr

structure Tree where
  root : Path
  /-- The entries by their names on the way down from the root. -/
  entries : List (List Bytes × TreeEntry)

namespace Tree

def nameLimit : Nat := 255

def pathLimit : Nat := 4096

def find? (names : List Bytes) : List (List Bytes × TreeEntry) → Option TreeEntry
  | [] => none
  | (key, entry) :: rest => if key = names then some entry else find? names rest

def entry? (t : Tree) (names : List Bytes) : Option TreeEntry :=
  if names = [] then some .directory else find? names t.entries

def walk (t : Tree) (above : List Bytes) : List Bytes → Except FileFailure (Option TreeEntry)
  | [] => .ok (t.entry? above)
  | name :: rest =>
    match t.entry? above with
    | none => .error .notFound
    | some (.file _) => .error .notADirectory
    | some .directory =>
      if nameLimit < name.length then .error .invalidFilename
        else walk t (above ++ [name]) rest

def names (t : Tree) (p : Path) : List Bytes :=
  match Path.below? t.root p with
  | some rest => rest.components.filterMap fun
    | .name n => some n
    | _ => none
  | none => []

def lookup (t : Tree) (p : Path) : Except FileFailure (Option TreeEntry) :=
  if p.bytes.contains 0 then .error .invalidInput
  else if pathLimit ≤ p.bytes.length then .error .invalidFilename
  else t.walk [] (t.names p)

def put (t : Tree) (names : List Bytes) (entry : TreeEntry) : Tree :=
  { t with entries := (names, entry) :: t.entries.filter (·.1 ≠ names) }

def putDeep (t : Tree) (names : List Bytes) (entry : TreeEntry) : Tree :=
  let above := (List.range names.length).map (names.take ·)
  let t :=
    above.foldl (fun t way => if (t.entry? way).isSome then t else t.put way .directory) t
  match t.entry? names, entry with
  | some .directory, .directory => t
  | _, _ => t.put names entry

def found (r : Except FileFailure (Option TreeEntry)) :
    Except FileFailure (Option TreeEntry) :=
  match r with
  | .error .notFound => .ok none
  | r => r

def stat (t : Tree) (p : Path) : Except FileFailure (Option FileStat) :=
  match found (t.lookup p) with
  | .error e => .error e
  | .ok none => .ok none
  | .ok (some (.file bytes)) => .ok (some ⟨bytes.length, true⟩)
  | .ok (some .directory) => .ok (some ⟨0, false⟩)

def read (t : Tree) (p : Path) : Except FileFailure FileSnapshot :=
  match found (t.lookup p) with
  | .error e => .error e
  | .ok none => .ok .missing
  | .ok (some .directory) => .error .isADirectory
  | .ok (some (.file bytes)) =>
    match Utf8.decode? bytes with
    | some text => .ok (.of text)
    | none => .error .invalidData

def write (t : Tree) (p : Path) (content : Text) : Except FileFailure Tree :=
  match t.lookup p with
  | .error e => .error e
  | .ok (some .directory) => .error .isADirectory
  | .ok _ => .ok (t.put (t.names p) (.file (Utf8.encode content)))

instance : FileSystem Tree where
  stat := stat
  read := read
  write := write
  recordFault _ _ := none

end Tree
end LanguageClient

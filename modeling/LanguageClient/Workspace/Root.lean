import LanguageClient.Path.Basic

/-!
# Workspace roots

Every path a caller names is resolved below the root of the workspace, without looking at
any file. A path that leads out of it is refused.
-/

namespace LanguageClient.Root

def locate (root : Path) (text : Text) : Path :=
  (root.join (Path.ofText text)).normalize

/-- The path that a text names below the root, or the path outside to which it leads. -/
def resolve (root : Path) (text : Text) : Except Path Path :=
  let p := locate root text
  if (Path.below? root p).isSome then .ok p else .error p

def relative (root p : Path) : Text :=
  ((Path.below? root p).getD p).display

end LanguageClient.Root

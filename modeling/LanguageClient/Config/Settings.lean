import LanguageClient.Config.Basic
import LanguageClient.Uri.File

/-!
# Settings

A configuration with every default filled in and every limit in range. It does not change as
long as the session lives.
-/

namespace LanguageClient

structure Settings where
  command : String
  args : List String
  cwd : Path
  env : List (String × String)
  initializationOptions : Option Json
  rootUri : String
  rootPath : Path
  workspaceName : String
  serverName : String
  allowWrites : Bool
  maxFileBytes : Nat
  defaultTimeoutMs : Nat
  deriving DecidableEq, Repr, Inhabited

namespace Config

def nameOf (p : Path) : Option String :=
  p.fileName.map fun n => String.ofList (Utf8.display n)

def resolve (c : Config) (currentDir : Path) : Settings :=
  let cwd := match c.cwd with
    | some dir =>
      let dir := Path.ofString dir
      if dir.isAbsolute then dir else currentDir.join dir
    | none => currentDir
  let rootUri := c.rootUri.getD (String.ofList (FileUri.ofPath cwd))
  let rootPath := (FileUri.toPath? rootUri.toList).getD cwd
  { command := c.command
    args := c.args
    cwd
    env := c.env
    initializationOptions := c.initializationOptions
    rootUri
    rootPath
    workspaceName := c.workspaceName.getD ((nameOf rootPath).getD "workspace")
    serverName := c.serverName.getD ((nameOf (Path.ofString c.command)).getD c.command)
    allowWrites := c.allowWrites
    maxFileBytes := Limit.maxFileBytes c.maxFileBytes
    defaultTimeoutMs := Limit.sessionTimeout c.defaultTimeoutMs }

end Config
end LanguageClient

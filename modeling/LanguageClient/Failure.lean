import LanguageClient.Json.Basic
import LanguageClient.Path.Basic

/-!
# Failures

Why an operation of the client did not succeed, and the sentence that says so.
-/

namespace LanguageClient

inductive FileFailure where
  | notFound
  | notADirectory
  | isADirectory
  | permissionDenied
  | invalidFilename
  | invalidData
  | invalidInput
  | other
  deriving DecidableEq, Repr, Inhabited

inductive LaunchFailure where
  | blankCommand
  | notFound
  | permissionDenied
  | zeroByte
  deriving DecidableEq, Repr

inductive TransportFailure where
  | brokenPipe
  /-- A request with this number is still unanswered. -/
  | inFlight (number : Nat)
  deriving DecidableEq, Repr

inductive Failure where
  | alreadyRunning
  | notRunning
  | notInitialized
  | launch (command : String) (reason : LaunchFailure)
  | requestTimeout (method : String) (ms : Nat)
  | requestCancelled (method : String)
  | serverExited (code : Option Int)
  | serverStopped
  | transport (reason : TransportFailure)
  | serverError (code : Int) (message : String) (data : Option Json)
  | fileNotFound (path : Path)
  | notAFile (path : Path)
  | fileTooLarge (path : Path) (size limit : String)
  | outsideWorkspace (path : Path)
  | writesDisabled
  | unsupportedEdit (reason : String)
  | invalidRange (start stop : Nat)
  | file (reason : FileFailure)
  deriving DecidableEq, Repr

def LaunchFailure.message : LaunchFailure → String
  | .blankCommand => "no command configured"
  | .notFound => "No such file or directory (os error 2)"
  | .permissionDenied => "Permission denied (os error 13)"
  | .zeroByte => "nul byte found in provided data"

def TransportFailure.message : TransportFailure → String
  | .brokenPipe => "broken pipe"
  | .inFlight number => "request id " ++ toString number ++ " is already in flight"

def FileFailure.message : FileFailure → String
  | .notFound => "entity not found"
  | .notADirectory => "not a directory"
  | .isADirectory => "is a directory"
  | .permissionDenied => "permission denied"
  | .invalidFilename => "invalid filename"
  | .invalidData => "stream did not contain valid UTF-8"
  | .invalidInput => "file name contained an unexpected NUL byte"
  | .other => "other error"

namespace Failure

def shown (p : Path) : String :=
  String.ofList p.display

def message : Failure → String
  | .alreadyRunning => "language server is already running"
  | .notRunning => "language server is not running"
  | .notInitialized => "language server is not initialized"
  | .launch command reason =>
    "failed to spawn language server '" ++ command ++ "': " ++ reason.message
  | .requestTimeout method ms =>
    "LSP request '" ++ method ++ "' timed out after " ++ toString ms ++ "ms"
  | .requestCancelled method => "LSP request '" ++ method ++ "' aborted"
  | .serverExited none => "language server exited"
  | .serverExited (some code) => "language server exited with code " ++ toString code
  | .serverStopped => "language server stopped"
  | .transport reason => "transport failure: " ++ reason.message
  | .serverError code message _ => "LSP error " ++ toString code ++ ": " ++ message
  | .fileNotFound path => "file not found: " ++ shown path
  | .notAFile path => "not a regular file: " ++ shown path
  | .fileTooLarge path size limit =>
    "file too large: " ++ shown path ++ " is " ++ size ++ ", limit is " ++ limit
  | .outsideWorkspace path => "path escapes the workspace root: " ++ shown path
  | .writesDisabled =>
    "writes disabled: set allow_writes = true to let the bridge modify files"
  | .unsupportedEdit reason => "unsupported edit shape: " ++ reason
  | .invalidRange start stop =>
    "invalid edit range: start " ++ toString start ++ " is after end " ++ toString stop
  | .file reason => reason.message

end Failure
end LanguageClient

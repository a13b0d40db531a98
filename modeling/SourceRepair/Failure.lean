import SourceRepair.Json.Decode
import SourceRepair.Path

/-!
# Failures

What can go wrong outside the rules: files that cannot be read or written, a compiler that does not
start or whose output cannot be read, and a configuration that does not make sense. Only a failure
on a single file lets a run go on.
-/

namespace SourceRepair

/-- Why an operation on a file or a program failed. -/
inductive IoCause where
  | noEntry
  | permissionDenied
  | busy
  | notDirectory
  | isDirectory
  | tooManyLinks
  /-- A path, or a name in it, has too many bytes. -/
  | nameTooLong
  | noSpace
  /-- A file that may be run does not say what runs it. -/
  | notRunnable
  /-- A path holds a NUL, which no name may hold. -/
  | nulInPath
  /-- The name of a program or one of its arguments holds a NUL. -/
  | nulInArgument
  /-- The file is not text in UTF-8. -/
  | notText
  /-- Any other cause, in its own words. -/
  | other (text : String)
  deriving DecidableEq, Repr, Inhabited

/-- The cause in words. -/
def IoCause.reason : IoCause → String
  | .noEntry => "No such file or directory"
  | .permissionDenied => "Permission denied"
  | .busy => "Device or resource busy"
  | .notDirectory => "Not a directory"
  | .isDirectory => "Is a directory"
  | .tooManyLinks => "Too many levels of symbolic links"
  | .nameTooLong => "File name too long"
  | .noSpace => "No space left on device"
  | .notRunnable => "Exec format error"
  | .nulInPath => "file name contained an unexpected NUL byte"
  | .nulInArgument => "nul byte found in provided data"
  | .notText => "stream did not contain valid UTF-8"
  | .other text => text

/-- The system's number for the cause, if it has one. -/
def IoCause.number? : IoCause → Option Nat
  | .noEntry => some 2
  | .notRunnable => some 8
  | .permissionDenied => some 13
  | .busy => some 16
  | .notDirectory => some 20
  | .isDirectory => some 21
  | .noSpace => some 28
  | .nameTooLong => some 36
  | .tooManyLinks => some 40
  | .nulInPath => none
  | .nulInArgument => none
  | .notText => none
  | .other _ => none

/-- The cause in words, with the system's number for it. -/
def IoCause.message (cause : IoCause) : String :=
  match cause.number? with
  | some n => cause.reason ++ " (os error " ++ toString n ++ ")"
  | none => cause.reason

/-- What is wrong with a configuration. -/
inductive ConfigFault where
  /-- A setting on the command line lacks its `=`; it is shown in quoted form. -/
  | missingEquals (quoted : String)
  /-- A file or a setting cannot be read, or has a value of the wrong kind. -/
  | unreadable
  /-- Any other fault, in its own words. -/
  | other (text : String)
  deriving DecidableEq, Repr, Inhabited

/-- The fault in words. -/
def ConfigFault.message : ConfigFault → String
  | .missingEquals quoted => "failed to parse config value " ++ quoted ++ "; no '=' found"
  | .unreadable => "unreadable setting"
  | .other text => text

/-- A failure of an operation. -/
inductive Failure where
  | compilerLaunch (program : String) (cause : IoCause)
  | invalidProjectRoot (path : Path)
  | io (path : Path) (cause : IoCause)
  | json (fault : Json.Fault)
  | config (fault : ConfigFault)
  deriving DecidableEq, Repr, Inhabited

namespace Failure

/-- The words for a fault in JSON text. -/
def jsonMessage : Json.Fault → String
  | .truncated => "unexpected end of text"
  | .malformed => "not JSON"
  | .mismatched => "unexpected value"

/-- The failure in words. -/
def message : Failure → String
  | .compilerLaunch program cause =>
    "failed to launch compiler \x60" ++ program ++ "\x60: " ++ cause.message
  | .invalidProjectRoot path => "project root " ++ path.spelling ++ " is not a directory"
  | .io path cause => "I/O error on " ++ path.spelling ++ ": " ++ cause.message
  | .json fault => "malformed diagnostic JSON: " ++ jsonMessage fault
  | .config fault => "configuration error: " ++ fault.message

/-- Whether the failure ends a whole run and not only the work on one file. -/
def isFatal : Failure → Bool
  | .io _ _ => false
  | _ => true

end Failure

end SourceRepair

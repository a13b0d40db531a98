import SourceRepair.Failure

/-!
# Notices

What a run tells its user besides the result: warnings about what could not be done, and lines of
information.
-/

namespace SourceRepair

/-- A line for the user. -/
inductive Notice where
  /-- No rule is registered for the code to repair. -/
  | noRules (code : String)
  /-- A file is left alone. -/
  | skipping (file : Path) (failure : Failure)
  /-- A count has risen in a live run. -/
  | countRose (complaint : String)
  /-- A root cannot be searched for source files. -/
  | cannotWalk (root : Path) (cause : IoCause)
  /-- The configuration has a key that means nothing. -/
  | unknownKey (key : String)
  /-- All that has risen in a live run. -/
  | runFailed (complaints : List String)
  | info (text : String)
  deriving DecidableEq, Repr

namespace Notice

/-- Whether the line is a warning. -/
def isWarning : Notice → Bool
  | .info _ => false
  | _ => true

/-- The text of the line. -/
def message : Notice → String
  | .noRules code => "No rules registered for " ++ code
  | .skipping file failure => "  ✗ Skipping " ++ file.spelling ++ ": " ++ failure.message
  | .countRose complaint => "Validation failed: " ++ complaint
  | .cannotWalk root cause =>
    "Cannot walk " ++ root.spelling ++ ": IO error for operation on " ++ root.spelling ++ ": "
      ++ cause.message
  | .unknownKey key => "unknown config key " ++ key
  | .runFailed complaints => "⚠️  Validation failed: " ++ "; ".intercalate complaints
  | .info text => text

/-- The line with its level in front. -/
def line (notice : Notice) : String :=
  (if notice.isWarning then "WARN " else "INFO ") ++ notice.message

end Notice

end SourceRepair

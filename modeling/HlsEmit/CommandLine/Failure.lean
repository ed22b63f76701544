import HlsEmit.Json.Fault

/-!
# Failures of a run

What may go wrong outside of emission: a file that cannot be read or written, and a model text that
cannot be read.
-/

namespace HlsEmit

/-- Why a run could not do its work. -/
inductive Failure where
  | unreadable (path reason : String)
  | unwritable (path reason : String)
  | malformed (fault : Json.Fault)
deriving DecidableEq, Repr

/-- The wording of a failure. -/
def Failure.message : Failure → String
  | .unreadable path reason => "cannot read " ++ path ++ ": " ++ reason
  | .unwritable path reason => "cannot write " ++ path ++ ": " ++ reason
  | .malformed fault => "malformed program model: " ++ fault.message

end HlsEmit

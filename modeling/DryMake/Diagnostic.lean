/-!
What is said about a fault besides its message: a code that names its kind for good, and, for some
kinds, advice.
-/

namespace DryMake

structure Diagnostic where
  code : String
  help? : Option String
deriving DecidableEq, Repr

namespace Diagnostic

def plain (code : String) : Diagnostic where
  code
  help? := none

def withHelp (code help : String) : Diagnostic where
  code
  help? := some help

end Diagnostic

end DryMake

import Advisor.Failure
import Advisor.Wire.Flaw

/-!
# Flaws as failures

The same flaw is another failure in a script, in a settings file and in a text that stands alone.
-/

namespace Advisor.Wire.Flaw

def inScript (f : Flaw) : Failure := .invalidScript f.message

def inSettings (path : String) (f : Flaw) : Failure := .invalidSettings (path ++ ": " ++ f.message)

def inText (f : Flaw) : Failure := .serialization f.message

end Advisor.Wire.Flaw

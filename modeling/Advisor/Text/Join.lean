/-!
# Joining texts
-/

namespace Advisor.Text

/-- The texts in order, with the separator between each two. -/
def join (separator : String) : List String → String
  | [] => ""
  | [s] => s
  | s :: t :: rest => s ++ separator ++ join separator (t :: rest)

end Advisor.Text

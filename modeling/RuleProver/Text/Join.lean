/-!
# Joining texts
-/

namespace RuleProver.Text

/-- Puts a separator between texts. -/
def join (sep : String) : List String → String
  | [] => ""
  | [s] => s
  | s :: t :: ts => s ++ sep ++ join sep (t :: ts)

/-- Each text followed by a line feed. -/
def unlines : List String → String
  | [] => ""
  | s :: ts => s ++ "\n" ++ unlines ts

end RuleProver.Text

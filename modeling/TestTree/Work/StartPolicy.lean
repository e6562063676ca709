/-
When a scheduled unit begins to run.
-/

namespace TestTree

/-- Eager units are queued as soon as they are scheduled; lazy ones wait until they are asked for. -/
inductive StartPolicy where
  | eager
  | lazy
  deriving DecidableEq, Inhabited

/-- The policy in words. -/
def StartPolicy.describe : StartPolicy → String
  | .eager => "Eager"
  | .lazy => "Lazy"

end TestTree

/-!
# Ranges of characters

A class of characters is given by the ranges of its code points, in ascending order.
-/
namespace WorkflowCompiler

namespace Text

/-- Whether the character lies in one of the ranges, both ends included. -/
def inRanges (ranges : List (Nat × Nat)) (c : Char) : Bool :=
  ranges.any fun r => r.1 ≤ c.toNat && c.toNat ≤ r.2

end Text

end WorkflowCompiler

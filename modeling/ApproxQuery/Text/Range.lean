/-!
# Tables of character ranges

A table is a list of groups of ranges, given by their first and last code point.
-/

namespace ApproxQuery.Text

/-- Some range of the table holds the character. -/
def inRanges (table : List (List (Nat × Nat))) (c : Char) : Bool :=
  table.any fun group => group.any fun r => r.1 ≤ c.toNat && c.toNat ≤ r.2

end ApproxQuery.Text

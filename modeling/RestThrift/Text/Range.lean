/-!
# Ranges of code points

A character property is a sorted array of closed ranges of code points; membership is a
binary search whose interval shrinks at every step.
-/
namespace RestThrift.Text

abbrev Ranges := Array (Nat × Nat)

/-- Search the ranges with positions in `[lo, hi)`, at most `steps` halvings. -/
def Ranges.search (ranges : Ranges) (code : Nat) : Nat → Nat → Nat → Bool
  | 0, _, _ => false
  | steps + 1, lo, hi =>
    if hi ≤ lo then false
    else
      let mid := (lo + hi) / 2
      match ranges[mid]? with
      | none => false
      | some (first, last) =>
        if code < first then ranges.search code steps lo mid
        else if last < code then ranges.search code steps (mid + 1) hi
        else true

def Ranges.contains (ranges : Ranges) (c : Char) : Bool :=
  ranges.search c.toNat (ranges.size.log2 + 1) 0 ranges.size

end RestThrift.Text

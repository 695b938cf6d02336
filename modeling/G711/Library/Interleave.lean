import Mathlib.Data.List.Basic
import Mathlib.Tactic

/-!
# Interleaved channels

In a list of `c` interleaved channels the element `i` of channel `k` stands at `i * c + k`.
`channel` takes one channel out; elementwise functions can be applied before or after that.
-/

namespace Interleave

variable {α β : Type*} {c k : ℕ}

/-- Channel `k` of `c` interleaved channels. -/
def channel (c k : ℕ) (l : List α) : List α :=
  (List.range (l.length / c)).filterMap fun i => l[i * c + k]?

theorem channel_map (f : α → β) (l : List α) : channel c k (l.map f) = (channel c k l).map f := by
  unfold channel
  rw [List.map_filterMap, List.length_map]
  simp only [List.getElem?_map]

/-- The places of a channel lie in the list. -/
theorem index_lt (hk : k < c) {n i : ℕ} (hi : i < n / c) : i * c + k < n := by
  have hrow : (i + 1) * c ≤ n :=
    (Nat.le_div_iff_mul_le (Nat.zero_lt_of_lt hk)).1 (Nat.succ_le_of_lt hi)
  rw [Nat.succ_mul] at hrow
  omega

theorem length_channel (hk : k < c) (l : List α) : (channel c k l).length = l.length / c := by
  have hsome : ∀ i ∈ List.range (l.length / c), (l[i * c + k]?).isSome := by
    intro i hi
    rw [List.getElem?_eq_getElem (index_lt hk (List.mem_range.1 hi))]
    rfl
  rw [channel, List.filterMap_length_eq_length.2 hsome, List.length_range]

example : channel 3 1 [10, 11, 12, 20, 21, 22] = [11, 21] := by decide

end Interleave

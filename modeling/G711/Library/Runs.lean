import Mathlib.Data.List.Infix
import Mathlib.Tactic

/-!
# Runs in a stream of words

A stream is cut into words of one length.  If every word has a symbol other than `c`, a run of `c`
is shorter than two words less one symbol, since it cannot cover a word.
-/

namespace Runs

variable {α : Type*} {c : α} {n : ℕ}

/-- A stretch of `n` symbols `c` in a row. -/
def HasRun (n : ℕ) (c : α) (l : List α) : Prop := List.replicate n c <:+: l

theorem HasRun.le_length {l : List α} (h : HasRun n c l) : n ≤ l.length := by
  have := h.length_le
  rwa [List.length_replicate] at this

/-- A run at the front ends before any other symbol. -/
theorem run_at_front {d : α} (hd : d ≠ c) {l m : List α}
    (h : List.replicate n c <+: l ++ d :: m) : List.replicate n c <+: l := by
  induction l generalizing n with
  | nil =>
    cases n with
    | zero => exact List.nil_prefix
    | succ n =>
      rw [List.nil_append, List.replicate_succ, List.cons_prefix_cons] at h
      exact absurd h.1.symm hd
  | cons a l ih =>
    cases n with
    | zero => exact List.nil_prefix
    | succ n =>
      rw [List.cons_append, List.replicate_succ, List.cons_prefix_cons] at h
      rw [List.replicate_succ, List.cons_prefix_cons]
      exact ⟨h.1, ih h.2⟩

/-- A run lies on one side of any other symbol. -/
theorem HasRun.split {d : α} (hd : d ≠ c) {l m : List α} (h : HasRun n c (l ++ d :: m)) :
    HasRun n c l ∨ HasRun n c m := by
  induction l with
  | nil =>
    rcases List.infix_cons_iff.1 h with hprefix | hinfix
    · exact Or.inl (run_at_front hd (l := []) hprefix).isInfix
    · exact Or.inr hinfix
  | cons a l ih =>
    rcases List.infix_cons_iff.1 h with hprefix | hinfix
    · exact Or.inl (run_at_front hd (l := a :: l) hprefix).isInfix
    · rcases ih hinfix with hl | hm
      · exact Or.inl (List.infix_cons hl)
      · exact Or.inr hm

/-- What is left of a word behind its last other symbol, then whole words. -/
theorem not_hasRun_append_flatten {k : ℕ} {words : List (List α)}
    (hwords : ∀ w ∈ words, w.length = k ∧ ∃ d ∈ w, d ≠ c) {rest : List α}
    (hrest : rest.length < k) : ¬ HasRun (2 * k - 1) c (rest ++ words.flatten) := by
  induction words generalizing rest with
  | nil =>
    intro h
    have := h.le_length
    rw [List.flatten_nil, List.append_nil] at this
    omega
  | cons w words ih =>
    intro h
    obtain ⟨hlen, d, hmem, hd⟩ := hwords w List.mem_cons_self
    obtain ⟨front, back, hw⟩ := List.append_of_mem hmem
    have hsum : front.length + 1 + back.length = k := by
      rw [← hlen, hw, List.length_append, List.length_cons]
      omega
    have hcut : rest ++ (w :: words).flatten = (rest ++ front) ++ d :: (back ++ words.flatten) := by
      rw [List.flatten_cons, hw]
      simp
    rw [hcut] at h
    rcases h.split hd with hleft | hright
    · have := hleft.le_length
      rw [List.length_append] at this
      omega
    · exact ih (fun v hv => hwords v (List.mem_cons_of_mem w hv)) (by omega) hright

/-- **Words with another symbol in each bound the runs** of the stream that they make up. -/
theorem not_hasRun_flatten {k : ℕ} (hk : 0 < k) {words : List (List α)}
    (hwords : ∀ w ∈ words, w.length = k ∧ ∃ d ∈ w, d ≠ c) :
    ¬ HasRun (2 * k - 1) c words.flatten := by
  have hrest : ([] : List α).length < k := hk
  exact not_hasRun_append_flatten hwords hrest

end Runs

import G711.Library.Loops
import G711.Library.Slices

/-!
# Chunked files

A chunked file is a sequence of chunks, each with an identifier of four bytes, the length of its
body in four little-endian bytes, the body, and one more byte after a body of odd length.

* `Chunks`: the grammar, which forgives a missing last byte and up to seven bytes that are no chunk;
* `scan`: the loop that walks over the chunks and does to a state what each of them says;
* `scan_eq_ok_iff`: the loop reaches its end exactly on the files of the grammar whose chunks, taken
  in order, do not stop it.
-/

namespace Riff

open Loops Slices

structure Chunk where
  id : List UInt8
  body : List UInt8

/-- A file and its chunks. -/
inductive Chunks : List UInt8 → List Chunk → Prop
  | tail {bytes : List UInt8} (short : bytes.length < 8) : Chunks bytes []
  | chunk {i₀ i₁ i₂ i₃ s₀ s₁ s₂ s₃ : UInt8} {body pad rest : List UInt8} {cs : List Chunk}
      (size : (u32FromLeBytes s₀ s₁ s₂ s₃).toNat = body.length)
      (padded : pad.length = body.length % 2) (more : Chunks rest cs) :
      Chunks (i₀ :: i₁ :: i₂ :: i₃ :: s₀ :: s₁ :: s₂ :: s₃ :: (body ++ (pad ++ rest)))
        (⟨[i₀, i₁, i₂, i₃], body⟩ :: cs)
  | unpadded {i₀ i₁ i₂ i₃ s₀ s₁ s₂ s₃ : UInt8} {body : List UInt8}
      (size : (u32FromLeBytes s₀ s₁ s₂ s₃).toNat = body.length) (odd : body.length % 2 = 1) :
      Chunks (i₀ :: i₁ :: i₂ :: i₃ :: s₀ :: s₁ :: s₂ :: s₃ :: body) [⟨[i₀, i₁, i₂, i₃], body⟩]

variable {σ ε : Type}

/-- The loop over the chunks from the offset `off` on, where `bytes` are left.  It stops at a body
that is cut off, or when `f` stops at a chunk. -/
def scan (truncated : List UInt8 → ℕ → ℕ → ε) (f : σ → Chunk → Except ε σ) (off : ℕ) :
    List UInt8 → σ → Except ε σ
  | i₀ :: i₁ :: i₂ :: i₃ :: s₀ :: s₁ :: s₂ :: s₃ :: rest, s =>
    let size := (u32FromLeBytes s₀ s₁ s₂ s₃).toNat
    if rest.length < size then .error (truncated [i₀, i₁, i₂, i₃] size (off + 8))
    else
      match f s ⟨[i₀, i₁, i₂, i₃], rest.take size⟩ with
      | .error e => .error e
      | .ok s =>
        scan truncated f (off + 8 + size + size % 2) (rest.drop (size + size % 2)) s
  | _, s => .ok s
termination_by bytes => bytes.length
decreasing_by
  simp only [List.length_drop, List.length_cons]
  omega

variable {truncated : List UInt8 → ℕ → ℕ → ε} {f : σ → Chunk → Except ε σ}

/-- A rest without a chunk header ends the loop. -/
theorem scan_of_short {off : ℕ} {bytes : List UInt8} (h : bytes.length < 8) (s : σ) :
    scan truncated f off bytes s = .ok s := by
  unfold scan
  split
  · simp only [List.length_cons] at h
    omega
  · rfl

/-- A whole chunk is handed to `f`, and the loop goes on behind it. -/
theorem scan_of_chunk (off : ℕ) (i₀ i₁ i₂ i₃ : UInt8) {s₀ s₁ s₂ s₃ : UInt8} {body : List UInt8}
    (size : (u32FromLeBytes s₀ s₁ s₂ s₃).toNat = body.length) (rest : List UInt8) (s : σ) :
    scan truncated f off (i₀ :: i₁ :: i₂ :: i₃ :: s₀ :: s₁ :: s₂ :: s₃ :: (body ++ rest)) s
      = f s ⟨[i₀, i₁, i₂, i₃], body⟩ >>= scan truncated f
        (off + 8 + body.length + body.length % 2) (rest.drop (body.length % 2)) := by
  have htake : (body ++ rest).take body.length = body := List.take_left' rfl
  have hdrop : (body ++ rest).drop (body.length + body.length % 2)
      = rest.drop (body.length % 2) := by
    rw [List.drop_append, List.drop_eq_nil_of_le (by omega), List.nil_append,
      Nat.add_sub_cancel_left]
  rw [scan, size, if_neg (by simp), htake, hdrop]
  cases f s ⟨[i₀, i₁, i₂, i₃], body⟩ <;> rfl

/-- The bytes behind a header, taken apart. -/
theorem chunks_of_drop (i₀ i₁ i₂ i₃ s₀ s₁ s₂ s₃ : UInt8) {rest : List UInt8} {cs : List Chunk}
    {size : ℕ} (hsize : (u32FromLeBytes s₀ s₁ s₂ s₃).toNat = size) (hrest : size ≤ rest.length)
    (hcs : Chunks (rest.drop (size + size % 2)) cs) :
    Chunks (i₀ :: i₁ :: i₂ :: i₃ :: s₀ :: s₁ :: s₂ :: s₃ :: rest)
      (⟨[i₀, i₁, i₂, i₃], rest.take size⟩ :: cs) := by
  have hbody : (rest.take size).length = size := List.length_take_of_le hrest
  by_cases hpad : size + size % 2 ≤ rest.length
  · have hsplit : rest = rest.take size ++
        ((rest.drop size).take (size % 2) ++ rest.drop (size + size % 2)) := by
      rw [← List.drop_drop, List.take_append_drop, List.take_append_drop]
    have hpadded : ((rest.drop size).take (size % 2)).length = (rest.take size).length % 2 := by
      rw [hbody, List.length_take, List.length_drop]
      omega
    have hchunk : Chunks (i₀ :: i₁ :: i₂ :: i₃ :: s₀ :: s₁ :: s₂ :: s₃ :: (rest.take size ++
        ((rest.drop size).take (size % 2) ++ rest.drop (size + size % 2)))) _ :=
      .chunk (hsize.trans hbody.symm) hpadded hcs
    rwa [← hsplit] at hchunk
  · have hlength : rest.length = size := by omega
    rw [List.drop_eq_nil_of_le (by omega)] at hcs
    cases hcs with
    | tail short =>
      rw [List.take_of_length_le hlength.le]
      exact .unpadded (hsize.trans hlength.symm) (by omega)

/-- **What the loop accepts**: the files of the grammar, if `f` takes their chunks in order. -/
theorem scan_eq_ok_iff {off : ℕ} {bytes : List UInt8} {s s' : σ} :
    scan truncated f off bytes s = .ok s' ↔ ∃ cs, Chunks bytes cs ∧ cs.foldlM f s = .ok s' := by
  constructor
  · intro h
    fun_induction scan truncated f off bytes s with
    | case1 => cases h
    | case2 => cases h
    | case3 off i₀ i₁ i₂ i₃ s₀ s₁ s₂ s₃ rest s size hrest next hf ih =>
      obtain ⟨cs, hcs, hfold⟩ := ih h
      refine ⟨_, chunks_of_drop i₀ i₁ i₂ i₃ s₀ s₁ s₂ s₃ rfl (not_lt.1 hrest) hcs, ?_⟩
      rw [List.foldlM_cons, hf]
      exact hfold
    | case4 off bytes s hshort =>
      refine ⟨[], .tail ?_, h⟩
      rcases bytes with _ | ⟨_, _ | ⟨_, _ | ⟨_, _ | ⟨_, _ | ⟨_, _ | ⟨_, _ | ⟨_, _ | ⟨_, rest⟩⟩⟩⟩⟩⟩⟩⟩
      case cons => exact absurd rfl (hshort _ _ _ _ _ _ _ _ rest)
      all_goals simp
  · rintro ⟨cs, hcs, hfold⟩
    induction hcs generalizing off s with
    | tail short =>
      rw [scan_of_short short]
      exact hfold
    | chunk size padded more ih =>
      obtain ⟨next, hf, hrest⟩ := bind_eq_ok_iff.1 hfold
      rw [scan_of_chunk off _ _ _ _ size, ← padded, List.drop_left' rfl, hf]
      exact ih hrest
    | @unpadded i₀ i₁ i₂ i₃ s₀ s₁ s₂ s₃ body size odd =>
      obtain ⟨next, hf, hrest⟩ := bind_eq_ok_iff.1 hfold
      rw [← List.append_nil body, scan_of_chunk off i₀ i₁ i₂ i₃ size, List.drop_nil, hf]
      exact (scan_of_short (by simp) next).trans hrest

end Riff

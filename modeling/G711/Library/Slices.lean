import Mathlib.Data.List.Basic
import Mathlib.Tactic

/-!
# Tables filled by a counting loop, and loops over slices

* `fillTable`: a fixed-size table written by `while i < n { t[i] = f(i); i += 1 }`;
* `zipWrite`, `zipWritePairs`: the loops that walk an input and an output slice in step and
  overwrite the output, element by element or two by two;
* `pairs`, `unpairs`: a slice cut into chunks of two (an odd last element is left out), and back;
* `leBytes`, `ofLeBytes`: a 16-bit two's-complement number as a little-endian byte pair.
-/

namespace Slices

variable {α β γ : Type*}

/-! ### Tables -/

/-- The loop `while i < n { t[i] = f(i); i += 1 }`. -/
def fillFrom {n : ℕ} (f : ℕ → α) (i : ℕ) (t : Vector α n) : Vector α n :=
  if h : i < n then fillFrom f (i + 1) (t.set i (f i)) else t
termination_by n - i

/-- A table of `n` entries, all `init` at first, filled by the loop from index `0`. -/
def fillTable (n : ℕ) (init : α) (f : ℕ → α) : Vector α n := fillFrom f 0 (Vector.replicate n init)

theorem getElem_fillFrom {n : ℕ} (f : ℕ → α) (i : ℕ) (t : Vector α n) (j : ℕ) (hj : j < n) :
    (fillFrom f i t)[j] = if i ≤ j then f j else t[j] := by
  fun_induction fillFrom f i t with
  | case1 i t h ih =>
    rw [ih, Vector.getElem_set]
    rcases lt_trichotomy i j with hij | rfl | hij
    · rw [if_pos (by omega), if_pos hij.le]
    · rw [if_neg (by omega), if_pos rfl, if_pos le_rfl]
    · rw [if_neg (by omega), if_neg (by omega), if_neg (by omega)]
  | case2 i t h => rw [if_neg (by omega)]

/-- Every entry of a filled table is the value that the loop computed for it. -/
theorem get_fillTable {n : ℕ} (init : α) (f : ℕ → α) (j : Fin n) :
    (fillTable n init f).get j = f j := by
  have h := getElem_fillFrom f 0 (Vector.replicate n init) j j.isLt
  rwa [if_pos (Nat.zero_le _)] at h

/-! ### Chunks of two -/

/-- The chunks of two of a slice, without the remainder. -/
def pairs : List α → List (α × α)
  | [] => []
  | [_] => []
  | a :: b :: l => (a, b) :: pairs l

/-- The elements of a list of chunks of two. -/
def unpairs : List (α × α) → List α
  | [] => []
  | p :: l => p.1 :: p.2 :: unpairs l

@[simp] theorem pairs_nil : pairs ([] : List α) = [] := rfl
@[simp] theorem pairs_cons_cons (a b : α) (l : List α) : pairs (a :: b :: l) = (a, b) :: pairs l :=
  rfl
@[simp] theorem unpairs_nil : unpairs ([] : List (α × α)) = [] := rfl
@[simp] theorem unpairs_cons (p : α × α) (l : List (α × α)) :
    unpairs (p :: l) = p.1 :: p.2 :: unpairs l := rfl

@[simp] theorem pairs_unpairs (l : List (α × α)) : pairs (unpairs l) = l := by
  induction l with
  | nil => rfl
  | cons p l ih => rw [unpairs_cons, pairs_cons_cons, ih]

@[simp] theorem length_unpairs (l : List (α × α)) : (unpairs l).length = 2 * l.length := by
  induction l with
  | nil => rfl
  | cons p l ih => simp only [unpairs_cons, List.length_cons, ih]; omega

@[simp] theorem unpairs_append (l m : List (α × α)) :
    unpairs (l ++ m) = unpairs l ++ unpairs m := by
  induction l with
  | nil => rfl
  | cons p l ih => simp only [List.cons_append, unpairs_cons, ih]

@[simp] theorem length_pairs (l : List α) : (pairs l).length = l.length / 2 := by
  fun_induction pairs l with
  | case1 => simp
  | case2 a => simp
  | case3 a b l ih => simp only [List.length_cons, ih]; omega

/-- A cut at an even position does not change the chunks. -/
theorem pairs_append {l : List α} (hl : 2 ∣ l.length) (m : List α) :
    pairs (l ++ m) = pairs l ++ pairs m := by
  fun_induction pairs l with
  | case1 => rfl
  | case2 a => simp at hl
  | case3 a b l ih =>
    simp only [List.length_cons] at hl
    rw [List.cons_append, List.cons_append, pairs_cons_cons, List.cons_append, ih (by omega)]

theorem pairs_flatten {ls : List (List α)} (h : ∀ l ∈ ls, 2 ∣ l.length) :
    pairs ls.flatten = (ls.map pairs).flatten := by
  induction ls with
  | nil => rfl
  | cons l ls ih =>
    rw [List.flatten_cons, pairs_append (h l (by simp)), ih (fun m hm => h m (by simp [hm])),
      List.map_cons, List.flatten_cons]

theorem unpairs_flatten (ls : List (List (α × α))) :
    unpairs ls.flatten = (ls.map unpairs).flatten := by
  induction ls with
  | nil => rfl
  | cons l ls ih => rw [List.flatten_cons, unpairs_append, ih, List.map_cons, List.flatten_cons]

/-- A chunk of two, read out of the elements. -/
theorem take_drop_unpairs (l : List (α × α)) (i : ℕ) :
    ((unpairs l).drop (2 * i)).take 2 = (l[i]?.map fun p => [p.1, p.2]).getD [] := by
  induction l generalizing i with
  | nil => simp
  | cons p l ih =>
    cases i with
    | zero => rfl
    | succ i =>
      rw [unpairs_cons, Nat.mul_succ, List.drop_succ_cons, List.drop_succ_cons, ih,
        List.getElem?_cons_succ]

/-! ### Loops over an input and an output slice -/

/-- The loop `for (a, dst) in input.zip(output) { *dst = f(a) }`: it stops with the shorter of the
two slices and leaves the rest of the output as it was. -/
def zipWrite (f : α → β) : List α → List β → List β
  | a :: as, _ :: bs => f a :: zipWrite f as bs
  | _, bs => bs

/-- The same loop over the chunks of two of the output. -/
def zipWritePairs (f : α → β × β) : List α → List β → List β
  | a :: as, _ :: _ :: bs => (f a).1 :: (f a).2 :: zipWritePairs f as bs
  | _, bs => bs

/-- On slices of one length the loop writes the whole image and nothing of the old output stays. -/
theorem zipWrite_eq_map (f : α → β) {as : List α} {bs : List β} (h : as.length = bs.length) :
    zipWrite f as bs = as.map f := by
  induction as generalizing bs with
  | nil =>
    rw [List.length_eq_zero_iff.1 h.symm]
    rfl
  | cons a as ih =>
    cases bs with
    | nil => simp at h
    | cons b bs => rw [zipWrite, ih (by simpa using h), List.map_cons]

theorem zipWritePairs_eq_unpairs (f : α → β × β) {as : List α} {bs : List β}
    (h : as.length * 2 = bs.length) : zipWritePairs f as bs = unpairs (as.map f) := by
  induction as generalizing bs with
  | nil =>
    rw [List.length_eq_zero_iff.1 h.symm]
    rfl
  | cons a as ih =>
    match bs, h with
    | [], h => simp at h
    | [b], h => simp only [List.length_cons, List.length_nil] at h; omega
    | b :: c :: bs, h =>
      rw [zipWritePairs, ih (by simp only [List.length_cons] at h; omega), List.map_cons,
        unpairs_cons]

/-! ### Little-endian byte pairs -/

/-- `i16::to_le_bytes`: the low byte, then the high byte. -/
def leBytes (s : Int16) : UInt8 × UInt8 := (s.toUInt16.toUInt8, (s.toUInt16 >>> 8).toUInt8)

/-- `i16::from_le_bytes`. -/
def ofLeBytes (p : UInt8 × UInt8) : Int16 := (p.1.toUInt16 ||| (p.2.toUInt16 <<< 8)).toInt16

/-- `u16::from_le_bytes`. -/
def u16FromLeBytes (a b : UInt8) : UInt16 := a.toUInt16 ||| (b.toUInt16 <<< 8)

/-- `u32::from_le_bytes`. -/
def u32FromLeBytes (a b c d : UInt8) : UInt32 :=
  (u16FromLeBytes a b).toUInt32 ||| ((u16FromLeBytes c d).toUInt32 <<< 16)

/-- The two bytes of a 16-bit word put it together again. -/
theorem word_eq_or_shift (n : UInt16) :
    n.toUInt8.toUInt16 ||| ((n >>> 8).toUInt8.toUInt16 <<< 8) = n := by
  apply UInt16.toNat_inj.1
  have hn : n.toNat < 65536 := n.toNat_lt
  have hhi : n.toNat / 256 % 256 = n.toNat / 256 := Nat.mod_eq_of_lt (by omega)
  have hor := Nat.shiftLeft_add_eq_or_of_lt (Nat.mod_lt n.toNat (show 0 < 2 ^ 8 by decide))
    (n.toNat / 256)
  simp only [UInt16.toNat_or, UInt8.toNat_toUInt16, UInt16.toNat_toUInt8, UInt16.toNat_shiftLeft,
    UInt16.toNat_shiftRight, UInt16.toNat_ofNat]
  norm_num [Nat.shiftRight_eq_div_pow, hhi]
  rw [Nat.or_comm]
  simp only [Nat.shiftLeft_eq] at hor ⊢
  rw [Nat.mod_eq_of_lt (by omega), ← hor]
  omega

/-- The word of two bytes comes apart again. -/
@[simp] theorem leBytes_ofLeBytes (p : UInt8 × UInt8) : leBytes (ofLeBytes p) = p := by
  obtain ⟨a, b⟩ := p
  have ha : a.toNat < 256 := a.toNat_lt
  have hb : b.toNat < 256 := b.toNat_lt
  have hor := Nat.shiftLeft_add_eq_or_of_lt (show a.toNat < 2 ^ 8 from ha) b.toNat
  have hword : (ofLeBytes (a, b)).toUInt16.toNat = 256 * b.toNat + a.toNat := by
    show (a.toUInt16 ||| (b.toUInt16 <<< 8)).toNat = _
    simp only [UInt16.toNat_or, UInt8.toNat_toUInt16, UInt16.toNat_shiftLeft, UInt16.toNat_ofNat]
    norm_num
    rw [Nat.or_comm]
    simp only [Nat.shiftLeft_eq] at hor ⊢
    rw [Nat.mod_eq_of_lt (by omega), ← hor]
    omega
  unfold leBytes
  refine Prod.ext (UInt8.toNat_inj.1 ?_) (UInt8.toNat_inj.1 ?_)
  · rw [UInt16.toNat_toUInt8, hword]
    show (256 * b.toNat + a.toNat) % 256 = a.toNat
    omega
  · rw [UInt16.toNat_toUInt8, UInt16.toNat_shiftRight, hword, Nat.shiftRight_eq_div_pow]
    show (256 * b.toNat + a.toNat) / 2 ^ 8 % 256 = b.toNat
    omega

@[simp] theorem ofLeBytes_leBytes (s : Int16) : ofLeBytes (leBytes s) = s := by
  rw [ofLeBytes, leBytes, word_eq_or_shift]
  rfl

/-- The samples of a little-endian byte plane; an odd last byte is no sample. -/
def samples (plane : List UInt8) : List Int16 := (pairs plane).map ofLeBytes

/-- The little-endian byte plane of some samples. -/
def plane (xs : List Int16) : List UInt8 := unpairs (xs.map leBytes)

@[simp] theorem samples_plane (xs : List Int16) : samples (plane xs) = xs := by
  have h : ofLeBytes ∘ leBytes = id := funext ofLeBytes_leBytes
  unfold samples plane
  rw [pairs_unpairs, List.map_map, h, List.map_id]

theorem plane_injective : Function.Injective plane :=
  Function.LeftInverse.injective samples_plane

@[simp] theorem length_plane (xs : List Int16) : (plane xs).length = 2 * xs.length := by
  unfold plane
  rw [length_unpairs, List.length_map]

@[simp] theorem length_samples (bs : List UInt8) : (samples bs).length = bs.length / 2 := by
  unfold samples
  rw [List.length_map, length_pairs]

/-- The bytes of a plane of even length are those of its samples. -/
theorem plane_samples {bs : List UInt8} (h : 2 ∣ bs.length) : plane (samples bs) = bs := by
  unfold plane samples
  have hid : leBytes ∘ ofLeBytes = id := funext leBytes_ofLeBytes
  rw [List.map_map, hid, List.map_id]
  fun_induction pairs bs with
  | case1 => rfl
  | case2 a => simp at h
  | case3 a b bs ih =>
    simp only [List.length_cons] at h
    rw [unpairs_cons, ih (by omega)]

/-- A sample, read out of the bytes. -/
theorem getElem?_samples (bs : List UInt8) (k : ℕ) :
    (samples bs)[k]? = if 2 * k + 1 < bs.length
      then some (ofLeBytes (bs.getD (2 * k) 0, bs.getD (2 * k + 1) 0)) else none := by
  unfold samples
  fun_induction pairs bs generalizing k with
  | case1 => simp
  | case2 a => simp
  | case3 a b bs ih =>
    cases k with
    | zero => simp
    | succ k =>
      rw [List.map_cons, List.getElem?_cons_succ, ih, show 2 * (k + 1) = 2 * k + 1 + 1 by omega]
      simp

theorem plane_flatten (xss : List (List Int16)) : plane xss.flatten = (xss.map plane).flatten := by
  unfold plane
  rw [List.map_flatten, unpairs_flatten, List.map_map]
  rfl

theorem samples_flatten {ls : List (List UInt8)} (h : ∀ l ∈ ls, 2 ∣ l.length) :
    samples ls.flatten = (ls.map samples).flatten := by
  unfold samples
  rw [pairs_flatten h, List.map_flatten, List.map_map]
  rfl

end Slices

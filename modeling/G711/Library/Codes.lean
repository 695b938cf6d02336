import Mathlib.Data.List.Destutter
import Mathlib.Data.List.Iterate
import Mathlib.Tactic

/-!
# Lossy codes, and chains of them

A `Code` decodes codewords to values and encodes values as codewords.  Several codewords may have
one value, and not every value need have a codeword; but the value of a codeword is encoded as a
codeword of that value.

* `canonical` and `quantise`: decode, then encode, and the other way round; both are idempotent,
  and codewords have one value exactly when their canonical codewords are equal;
* `pointwise`: the code on lists;
* `transcode` and `hops`: from the codewords of one code to those of another, back and forth;
* `Settles`: a third hop undoes nothing of the first, so that hops repeat with period two;
* `chain`: quantisers of several codes in series; `chain_reduced` says that only the first two or
  three hops of an alternating chain matter.
-/

/-- Codewords `κ` for values `ξ`. -/
structure Code (κ ξ : Type*) where
  decode : κ → ξ
  encode : ξ → κ
  decode_encode_decode : ∀ c, decode (encode (decode c)) = decode c

namespace Code

variable {κ ξ : Type*} (C : Code κ ξ)

/-! ### Canonical codewords -/

/-- The codeword that the value of a codeword is encoded as. -/
def canonical (c : κ) : κ := C.encode (C.decode c)

/-- The value that an encoded value is decoded as. -/
def quantise (x : ξ) : ξ := C.decode (C.encode x)

@[simp] theorem decode_canonical (c : κ) : C.decode (C.canonical c) = C.decode c :=
  C.decode_encode_decode c

@[simp] theorem quantise_decode (c : κ) : C.quantise (C.decode c) = C.decode c :=
  C.decode_encode_decode c

@[simp] theorem canonical_canonical (c : κ) : C.canonical (C.canonical c) = C.canonical c :=
  congrArg C.encode (C.decode_canonical c)

@[simp] theorem quantise_quantise (x : ξ) : C.quantise (C.quantise x) = C.quantise x :=
  C.quantise_decode (C.encode x)

/-- Codewords have the same value exactly when they have the same canonical codeword. -/
theorem decode_eq_decode_iff {c c' : κ} :
    C.decode c = C.decode c' ↔ C.canonical c = C.canonical c' := by
  constructor
  · exact congrArg C.encode
  · intro h
    rw [← C.decode_canonical c, h, C.decode_canonical]

/-- From the first generation on, nothing changes. -/
theorem canonical_iterate (n : ℕ) (c : κ) : C.canonical^[n + 1] c = C.canonical c := by
  induction n with
  | zero => rfl
  | succ n ih => rw [Function.iterate_succ_apply', ih, canonical_canonical]

/-! ### Lists -/

/-- The code of lists, element by element. -/
def pointwise : Code (List κ) (List ξ) where
  decode := List.map C.decode
  encode := List.map C.encode
  decode_encode_decode w := by
    rw [List.map_map, List.map_map]
    exact List.map_congr_left fun c _ => C.decode_encode_decode c

theorem pointwise_canonical (w : List κ) : C.pointwise.canonical w = w.map C.canonical :=
  List.map_map

theorem pointwise_quantise (xs : List ξ) : C.pointwise.quantise xs = xs.map C.quantise :=
  List.map_map

/-! ### From one code to another -/

variable (A B : Code κ ξ)

/-- The codeword of `B` for the value of a codeword of `A`. -/
def transcode (c : κ) : κ := B.encode (A.decode c)

/-- A number of alternating transcodes, the first of them from `A` to `B`. -/
def hops (A B : Code κ ξ) : ℕ → κ → κ
  | 0, c => c
  | n + 1, c => hops B A n (transcode A B c)

/-- A transcode there and back and there again is the transcode there. -/
def Settles : Prop := ∀ c, transcode A B (transcode B A (transcode A B c)) = transcode A B c

theorem pointwise_transcode (w : List κ) :
    transcode A.pointwise B.pointwise w = w.map (transcode A B) :=
  List.map_map

variable {A B}

theorem Settles.pointwise (h : Settles A B) : Settles A.pointwise B.pointwise := by
  intro w
  simp only [pointwise_transcode, List.map_map]
  exact List.map_congr_left fun c _ => h c

/-- After the first transcode, two more change nothing. -/
theorem Settles.hops_add_two (h : Settles A B) {k : ℕ} (hk : 1 ≤ k) (c : κ) :
    hops A B (k + 2) c = hops A B k c := by
  obtain ⟨k, rfl⟩ := Nat.exists_eq_add_of_le' hk
  exact congrArg (hops B A k) (h c)

/-- An even number of transcodes is two of them, or none. -/
theorem Settles.hops_two_mul (h : Settles A B) {k : ℕ} (hk : 1 ≤ k) (c : κ) :
    hops A B (2 * k) c = transcode B A (transcode A B c) := by
  induction k, hk using Nat.le_induction with
  | base => rfl
  | succ k hk ih => rw [Nat.mul_add, h.hops_add_two (by omega), ih]

theorem Settles.quantise (h : Settles A B) (x : ξ) :
    B.quantise (A.quantise (B.quantise (A.quantise x))) = B.quantise (A.quantise x) :=
  congrArg B.decode (h (A.encode x))

/-! ### Chains of quantisers -/

section Chain

variable {ι : Type*} (C : ι → Code κ ξ)

/-- The quantisers of some codes, one after the other. -/
def chain (x : ξ) (l : List ι) : ξ := l.foldl (fun x i => (C i).quantise x) x

@[simp] theorem chain_cons (x : ξ) (i : ι) (l : List ι) :
    chain C x (i :: l) = chain C ((C i).quantise x) l := rfl

/-- With two codes to choose from, a list without repetitions alternates between them. -/
theorem eq_iterate_of_isChain {other : ι → ι} (htwo : ∀ i j, i ≠ j → j = other i) (i : ι)
    {l : List ι} (hl : (i :: l).IsChain (· ≠ ·)) :
    i :: l = List.iterate other i (l.length + 1) := by
  induction l generalizing i with
  | nil => rfl
  | cons j l ih =>
    obtain ⟨hij, hl⟩ := List.isChain_cons_cons.1 hl
    obtain rfl := htwo i j hij
    exact congrArg (i :: ·) (ih _ hl)

section Alternating

variable {C} {other : ι → ι}

/-- Two more hops change nothing in an alternating chain of at least two. -/
theorem chain_iterate_add_two (hinv : Function.Involutive other)
    (hs : ∀ i, Settles (C i) (C (other i))) (x : ξ) (i : ι) (n : ℕ) :
    chain C x (List.iterate other i (n + 4)) = chain C x (List.iterate other i (n + 2)) := by
  simp only [List.iterate, chain_cons, hinv i, (hs i).quantise]

theorem chain_iterate (hinv : Function.Involutive other) (hs : ∀ i, Settles (C i) (C (other i)))
    (x : ξ) (i : ι) {n : ℕ} (hn : 4 ≤ n) :
    chain C x (List.iterate other i n) = chain C x (List.iterate other i (2 + n % 2)) := by
  induction n using Nat.strong_induction_on with
  | _ n ih =>
    obtain ⟨m, rfl⟩ := Nat.exists_eq_add_of_le' hn
    rw [chain_iterate_add_two hinv hs]
    -- with two hops fewer, either the hypothesis applies or two or three hops are left
    by_cases hm : 2 ≤ m
    · rw [ih (m + 2) (by omega) (by omega)]
      congr 3
      omega
    · congr 2
      omega

end Alternating

variable [DecidableEq ι]

/-- Adjacent equal codes collapsed, and a chain of four or more hops cut to its first two if
their number is even, to its first three if it is odd. -/
def reduced (l : List ι) : List ι :=
  let d := l.destutter (· ≠ ·)
  if 4 ≤ d.length then d.take (2 + d.length % 2) else d

theorem length_reduced_le (l : List ι) : (reduced l).length ≤ 3 := by
  unfold reduced
  by_cases h : 4 ≤ (l.destutter (· ≠ ·)).length
  · rw [if_pos h, List.length_take]
    omega
  · rw [if_neg h]
    omega

theorem isChain_reduced (l : List ι) : (reduced l).IsChain (· ≠ ·) := by
  have hchain := List.isChain_destutter (· ≠ ·) l
  unfold reduced
  by_cases h : 4 ≤ (l.destutter (· ≠ ·)).length
  · rw [if_pos h]
    exact hchain.take _
  · rw [if_neg h]
    exact hchain

/-- With two codes to choose from, a reduced chain is determined by its first code and length. -/
theorem exists_reduced_eq_iterate {other : ι → ι} (htwo : ∀ i j, i ≠ j → j = other i) {i : ι}
    {l l' : List ι} (h : reduced l = i :: l') :
    ∃ n < 3, l' = List.iterate other (other i) n := by
  have hlength := length_reduced_le l
  have hchain := isChain_reduced l
  rw [h] at hlength hchain
  refine ⟨l'.length, hlength, ?_⟩
  exact (List.cons.inj (eq_iterate_of_isChain htwo i hchain)).2

theorem chain_destutter' (x : ξ) (i : ι) (l : List ι) :
    chain C x (l.destutter' (· ≠ ·) i) = chain C x (i :: l) := by
  induction l generalizing x i with
  | nil => rfl
  | cons j l ih =>
    by_cases hij : i = j
    · subst hij
      rw [List.destutter'_cons_neg _ (by simp), ih, chain_cons, chain_cons, chain_cons,
        quantise_quantise]
    · rw [List.destutter'_cons_pos _ hij, chain_cons, ih]
      rfl

/-- Repeating a hop changes nothing. -/
theorem chain_destutter (x : ξ) (l : List ι) :
    chain C x (l.destutter (· ≠ ·)) = chain C x l := by
  cases l with
  | nil => rfl
  | cons i l => exact chain_destutter' C x i l

/-- **Only the reduced chain matters.** -/
theorem chain_reduced {other : ι → ι} (hinv : Function.Involutive other)
    (htwo : ∀ i j, i ≠ j → j = other i) (hs : ∀ i, Settles (C i) (C (other i)))
    (x : ξ) (l : List ι) : chain C x (reduced l) = chain C x l := by
  rw [← chain_destutter C x l]
  unfold reduced
  have hchain := List.isChain_destutter (· ≠ ·) l
  generalize l.destutter (· ≠ ·) = d at hchain
  by_cases hd : 4 ≤ d.length
  · rw [if_pos hd]
    cases d with
    | nil => simp at hd
    | cons i d =>
      have hmin : min (2 + (d.length + 1) % 2) (d.length + 1) = 2 + (d.length + 1) % 2 := by
        simp only [List.length_cons] at hd
        omega
      rw [List.length_cons, eq_iterate_of_isChain htwo i hchain, List.take_iterate, hmin]
      exact (chain_iterate hinv hs x i hd).symm
  · rw [if_neg hd]

example : reduced [true, true, false, true, false] = [true, false] := by decide

end Chain

end Code

import G711.Cells
import G711.Distortion
import G711.Order
import G711.ZeroSuppression

/-!
# Chains over all three encoders

Chains of hops in which every µ-law hop may use `encode_slice_zero_suppress`.

* `suppression_spreads`: one suppressing hop makes the whole chain sound as if every µ-law hop
  suppressed, and apart from that only the reduced chain of laws matters;
* `chain_noise`: the error of a chain is bounded whatever its length;
* `suppression_cost`: what one suppressing hop changes, and when it changes the order of samples.
-/

namespace G711

/-- The encoder of a hop. -/
inductive Hop
  | mulaw
  | mulawZeroSuppress
  | alaw
  deriving DecidableEq

namespace Hop

def law : Hop → Law
  | .mulaw => .mulaw
  | .mulawZeroSuppress => .mulaw
  | .alaw => .alaw

def suppresses : Hop → Bool
  | .mulawZeroSuppress => true
  | _ => false

/-- The batch encoder of the hop fills every buffer of the right length with `w`. -/
def Encodes : Hop → List Int16 → List UInt8 → Prop
  | .mulaw => Law.mulaw.Encodes
  | .mulawZeroSuppress => EncodesZeroSuppress
  | .alaw => Law.alaw.Encodes

/-- The hop under a law in a chain where µ-law suppresses or not. -/
def ofLaw (suppress : Bool) : Law → Hop
  | .mulaw => if suppress then .mulawZeroSuppress else .mulaw
  | .alaw => .alaw

end Hop

/-- A PCM stream through the batch encoder and `decode_slice` of each hop in turn. -/
inductive ChainsTo : List Hop → List Int16 → List Int16 → Prop
  | nil (xs : List Int16) : ChainsTo [] xs xs
  | cons {hop : Hop} {hops : List Hop} {xs ys zs : List Int16} {w : List UInt8}
      (encodes : hop.Encodes xs w) (decodes : hop.law.Decodes w ys)
      (rest : ChainsTo hops ys zs) : ChainsTo (hop :: hops) xs zs

/-- The reduced chain of laws, with all µ-law hops suppressing if one does. -/
def normalChain (hops : List Hop) : List Hop :=
  (Code.reduced (hops.map Hop.law)).map (Hop.ofLaw (hops.any Hop.suppresses))

/-! ### Samples -/

namespace Hop

/-- What a hop makes of a sample. -/
def quantise (hop : Hop) (x : Int16) : Int16 :=
  match hop with
  | .mulaw => mulawDecode (mulawEncodeArith x)
  | .mulawZeroSuppress => mulawDecode (zeroSuppress (mulawEncodeArith x))
  | .alaw => alawDecode (alawEncodeArith x)

theorem encodes_decodes_iff (hop : Hop) {xs ys : List Int16} :
    (∃ w, hop.Encodes xs w ∧ hop.law.Decodes w ys) ↔ ys = xs.map hop.quantise := by
  have hslices : ∀ (law : Law) (encode : Int16 → UInt8) (Encodes : List UInt8 → Prop),
      (∀ w, Encodes w ↔ w = xs.map encode) →
        ((∃ w, Encodes w ∧ law.Decodes w ys)
          ↔ ys = xs.map fun x => law.decodeArith (encode x)) := by
    intro law encode Encodes h
    simp only [h, law.decodes_iff, exists_eq_left, List.map_map]
    rfl
  cases hop with
  | mulaw => exact hslices .mulaw mulawEncodeArith _ fun w => Law.mulaw.encodes_iff
  | mulawZeroSuppress =>
    exact hslices .mulaw (fun x => zeroSuppress (mulawEncodeArith x)) _
      fun w => encodesZeroSuppress_iff
  | alaw => exact hslices .alaw alawEncodeArith _ fun w => Law.alaw.encodes_iff

end Hop

/-- What a chain of hops makes of a sample. -/
def hopAlong (x : Int16) (hops : List Hop) : Int16 := hops.foldl (fun x hop => hop.quantise x) x

@[simp] theorem hopAlong_nil (x : Int16) : hopAlong x [] = x := rfl

@[simp] theorem hopAlong_cons (x : Int16) (hop : Hop) (hops : List Hop) :
    hopAlong x (hop :: hops) = hopAlong (hop.quantise x) hops := rfl

/-- The slices determine the chain, sample by sample. -/
theorem chainsTo_iff {hops : List Hop} {xs zs : List Int16} :
    ChainsTo hops xs zs ↔ zs = xs.map fun x => hopAlong x hops := by
  constructor
  · intro h
    induction h with
    | nil xs => exact (List.map_id xs).symm
    | @cons hop hops xs ys zs w encodes decodes rest ih =>
      rw [ih, hop.encodes_decodes_iff.1 ⟨w, encodes, decodes⟩, List.map_map]
      rfl
  · intro h
    induction hops generalizing xs with
    | nil =>
      obtain rfl : zs = xs := h.trans (List.map_id xs)
      exact ChainsTo.nil _
    | cons hop hops ih =>
      obtain ⟨w, encodes, decodes⟩ := hop.encodes_decodes_iff.2 (rfl : xs.map hop.quantise = _)
      refine ChainsTo.cons encodes decodes (ih ?_)
      rw [h, List.map_map]
      rfl

theorem Law.code_decode (law : Law) : law.code.decode = law.decodeArith := law.decodeSample_eq

theorem Law.code_encode (law : Law) : law.code.encode = law.encodeArith := law.encodeSample_eq

theorem Law.code_quantise (law : Law) (x : Int16) :
    law.code.quantise x = law.decodeArith (law.encodeArith x) := by
  rw [Code.quantise, code_decode, code_encode]

/-! ### Suppression spreads -/

theorem zeroSuppress_zeroSuppress (b : UInt8) : zeroSuppress (zeroSuppress b) = zeroSuppress b :=
  if_neg (zeroSuppress_ne_zero b)

namespace Hop

/-- The same hop with suppression, where its law has it. -/
abbrev suppressed (hop : Hop) : Hop := .ofLaw true hop.law

@[simp] theorem suppressed_mulaw : Hop.mulaw.suppressed = .mulawZeroSuppress := rfl
@[simp] theorem suppressed_mulawZeroSuppress :
    Hop.mulawZeroSuppress.suppressed = .mulawZeroSuppress := rfl
@[simp] theorem suppressed_alaw : Hop.alaw.suppressed = .alaw := rfl

/-- A sample that suppression has no effect on, neither now nor after a hop through A-law. -/
structure Settled (x : Int16) : Prop where
  now : Hop.mulaw.quantise x = Hop.mulawZeroSuppress.quantise x
  after : Hop.mulaw.quantise (Hop.alaw.quantise x)
    = Hop.mulawZeroSuppress.quantise (Hop.alaw.quantise x)

/-- Samples that suppression makes equal, now or after a hop through A-law. -/
structure Merged (x y : Int16) : Prop where
  now : Hop.mulawZeroSuppress.quantise x = Hop.mulawZeroSuppress.quantise y
  after : Hop.mulawZeroSuppress.quantise (Hop.alaw.quantise x)
    = Hop.mulawZeroSuppress.quantise (Hop.alaw.quantise y)

theorem alaw_alaw (x : Int16) :
    Hop.alaw.quantise (Hop.alaw.quantise x) = Hop.alaw.quantise x := by
  have h := Law.alaw.code.quantise_quantise x
  simp only [Law.code_quantise] at h
  exact h

/-- What comes out of a suppressing hop is settled. -/
theorem settled_suppress (x : Int16) : Settled (Hop.mulawZeroSuppress.quantise x) := by
  have hnow : ∀ b, Hop.mulaw.quantise (mulawDecode (zeroSuppress b))
      = Hop.mulawZeroSuppress.quantise (mulawDecode (zeroSuppress b)) :=
    forall_octet (by decide +kernel)
  have hafter : ∀ b, Hop.mulaw.quantise (Hop.alaw.quantise (mulawDecode (zeroSuppress b)))
      = Hop.mulawZeroSuppress.quantise (Hop.alaw.quantise (mulawDecode (zeroSuppress b))) :=
    forall_octet (by decide +kernel)
  exact ⟨hnow _, hafter _⟩

/-- A plain hop and a suppressing one lead to merged samples. -/
theorem merged_suppress (x : Int16) :
    Merged (Hop.mulaw.quantise x) (Hop.mulawZeroSuppress.quantise x) := by
  have hnow : ∀ b, Hop.mulawZeroSuppress.quantise (mulawDecode b)
      = Hop.mulawZeroSuppress.quantise (mulawDecode (zeroSuppress b)) :=
    forall_octet (by decide +kernel)
  have hafter : ∀ b, Hop.mulawZeroSuppress.quantise (Hop.alaw.quantise (mulawDecode b))
      = Hop.mulawZeroSuppress.quantise (Hop.alaw.quantise (mulawDecode (zeroSuppress b))) :=
    forall_octet (by decide +kernel)
  exact ⟨hnow _, hafter _⟩

theorem Settled.alaw {x : Int16} (h : Settled x) : Settled (Hop.alaw.quantise x) := by
  refine ⟨h.after, ?_⟩
  rw [alaw_alaw]
  exact h.after

theorem Merged.alaw {x y : Int16} (h : Merged x y) :
    Merged (Hop.alaw.quantise x) (Hop.alaw.quantise y) := by
  refine ⟨h.after, ?_⟩
  rw [alaw_alaw, alaw_alaw]
  exact h.after

/-- From a settled sample on, it makes no difference which hops suppress. -/
theorem Settled.hopAlong {x : Int16} (h : Settled x) (hops : List Hop) :
    hopAlong x hops = hopAlong x (hops.map suppressed) := by
  induction hops generalizing x with
  | nil => rfl
  | cons hop hops ih =>
    cases hop with
    | mulaw =>
      rw [hopAlong_cons, h.now, ih (settled_suppress x)]
      rfl
    | mulawZeroSuppress => exact ih (settled_suppress x)
    | alaw => exact ih h.alaw

/-- Merged samples come out equal from the next suppressing hop. -/
theorem Merged.hopAlong {x y : Int16} (h : Merged x y) {hops : List Hop}
    (hany : .mulawZeroSuppress ∈ hops) :
    hopAlong x (hops.map suppressed) = hopAlong y (hops.map suppressed) := by
  induction hops generalizing x y with
  | nil => simp at hany
  | cons hop hops ih =>
    cases hop with
    | mulaw => exact congrArg (G711.hopAlong · (hops.map suppressed)) h.now
    | mulawZeroSuppress => exact congrArg (G711.hopAlong · (hops.map suppressed)) h.now
    | alaw => exact ih h.alaw (by simpa using hany)

/-- One suppressing hop makes the others suppress. -/
theorem hopAlong_suppressed (x : Int16) {hops : List Hop}
    (hany : .mulawZeroSuppress ∈ hops) :
    G711.hopAlong x hops = G711.hopAlong x (hops.map suppressed) := by
  induction hops generalizing x with
  | nil => simp at hany
  | cons hop hops ih =>
    cases hop with
    | mulaw =>
      have htail : .mulawZeroSuppress ∈ hops := by simpa using hany
      rw [hopAlong_cons, ih _ htail]
      exact (merged_suppress x).hopAlong htail
    | mulawZeroSuppress => exact (settled_suppress x).hopAlong hops
    | alaw => exact ih _ (by simpa using hany)

end Hop

/-! ### The codes of a chain -/

/-- µ-law with suppression as a code: the all-zero octet is read as its replacement. -/
def Mulaw.suppressedCode : Code UInt8 Int16 where
  decode b := mulawDecode (zeroSuppress b)
  encode x := zeroSuppress (mulawEncodeArith x)
  decode_encode_decode b := by
    have hb := zeroSuppress_ne_zero b
    rw [zeroSuppress_encode_decode hb, zeroSuppress, if_neg (canonical_ne_zero _ hb)]
    exact Law.mulaw.decodeArith_canonical _

/-- The codes of a chain in which µ-law suppresses or not. -/
def Law.chainCode : Bool → Law → Code UInt8 Int16
  | true, .mulaw => Mulaw.suppressedCode
  | _, law => law.code

theorem Law.chainCode_quantise (suppress : Bool) (law : Law) (x : Int16) :
    (law.chainCode suppress).quantise x = (Hop.ofLaw suppress law).quantise x := by
  cases suppress with
  | false => cases law <;> exact Law.code_quantise _ x
  | true =>
    cases law with
    | mulaw =>
      show mulawDecode (zeroSuppress (zeroSuppress (mulawEncodeArith x))) = _
      rw [zeroSuppress_zeroSuppress]
      rfl
    | alaw => exact Law.code_quantise _ x

theorem Mulaw.transcode_suppressedCode_alaw (b : UInt8) :
    Code.transcode Mulaw.suppressedCode Law.alaw.code b
      = alawEncodeArith (mulawDecode (zeroSuppress b)) := by
  rw [Code.transcode, Law.code_encode]
  rfl

theorem Mulaw.transcode_alaw_suppressedCode (b : UInt8) :
    Code.transcode Law.alaw.code Mulaw.suppressedCode b
      = zeroSuppress (mulawEncodeArith (alawDecode b)) := by
  rw [Code.transcode, Law.code_decode]
  rfl

/-- Also with suppression, the third transcode gives the octets of the first. -/
theorem Mulaw.suppressedCode_settles :
    Code.Settles Mulaw.suppressedCode Law.alaw.code ∧
      Code.Settles Law.alaw.code Mulaw.suppressedCode := by
  have hthird : ∀ b, alawEncodeArith (mulawDecode (zeroSuppress (mulawEncodeArith (alawDecode
        (alawEncodeArith (mulawDecode (zeroSuppress b)))))))
      = alawEncodeArith (mulawDecode (zeroSuppress b)) :=
    forall_octet (by decide +kernel)
  have hthird' : ∀ b, zeroSuppress (mulawEncodeArith (alawDecode (alawEncodeArith
        (mulawDecode (zeroSuppress (mulawEncodeArith (alawDecode b)))))))
      = zeroSuppress (mulawEncodeArith (alawDecode b)) :=
    forall_octet (by decide +kernel)
  constructor
  · intro b
    simp only [transcode_suppressedCode_alaw, transcode_alaw_suppressedCode,
      zeroSuppress_zeroSuppress, hthird]
  · intro b
    simp only [transcode_suppressedCode_alaw, transcode_alaw_suppressedCode,
      zeroSuppress_zeroSuppress, hthird']

theorem Law.chainCode_settles (suppress : Bool) (law : Law) :
    Code.Settles (law.chainCode suppress) (law.other.chainCode suppress) := by
  cases suppress with
  | false => cases law <;> exact Law.settles _
  | true =>
    cases law with
    | mulaw => exact Mulaw.suppressedCode_settles.1
    | alaw => exact Mulaw.suppressedCode_settles.2

theorem hopAlong_ofLaw (suppress : Bool) (x : Int16) (laws : List Law) :
    hopAlong x (laws.map (Hop.ofLaw suppress))
      = Code.chain (Law.chainCode suppress) x laws := by
  induction laws generalizing x with
  | nil => rfl
  | cons law laws ih =>
    rw [List.map_cons, hopAlong_cons, Code.chain_cons, Law.chainCode_quantise, ih]

/-- A chain sounds like its normal form. -/
theorem hopAlong_normalChain (x : Int16) (hops : List Hop) :
    hopAlong x (normalChain hops) = hopAlong x hops := by
  have hreduced := Code.chain_reduced (Law.chainCode (hops.any Hop.suppresses)) Law.other_other
    (fun _ _ => Law.eq_other) (Law.chainCode_settles _) x (hops.map Hop.law)
  rw [normalChain, hopAlong_ofLaw, hreduced, ← hopAlong_ofLaw, List.map_map]
  cases hany : hops.any Hop.suppresses with
  | false =>
    have hplain : ∀ hop ∈ hops, (Hop.ofLaw false ∘ Hop.law) hop = hop := by
      intro hop hmem
      have hno : hop.suppresses = false := by
        simpa using List.any_eq_false.1 hany hop hmem
      cases hop <;> first | rfl | cases hno
    rw [List.map_congr_left hplain, List.map_id']
  | true =>
    obtain ⟨hop, hmem, hsuppresses⟩ := List.any_eq_true.1 hany
    have hhop : hop = .mulawZeroSuppress := by
      cases hop <;> first | rfl | cases hsuppresses
    exact (Hop.hopAlong_suppressed x (hhop ▸ hmem)).symm

/-- **Suppression spreads**: a chain of hops gives what its normal form of at most three hops gives,
in which every µ-law hop suppresses as soon as one of the chain does. -/
theorem suppression_spreads (hops : List Hop) :
    (normalChain hops).length ≤ 3 ∧
      ∀ xs zs, ChainsTo hops xs zs ↔ ChainsTo (normalChain hops) xs zs := by
  constructor
  · rw [normalChain, List.length_map]
    exact Code.length_reduced_le _
  · intro xs zs
    simp only [chainsTo_iff, hopAlong_normalChain]

/-! ### Noise -/

/-- The sample that the octet of a hop is decoded as. -/
def Hop.level : Hop → UInt8 → Int16
  | .mulaw, b => mulawDecode b
  | .mulawZeroSuppress, b => mulawDecode (zeroSuppress b)
  | .alaw, b => alawDecode b

theorem Hop.quantise_eq_level (hop : Hop) (x : Int16) :
    hop.quantise x = hop.level (hop.law.encodeArith x) := by
  cases hop <;> rfl

/-- An error bound for the two ends of a cell holds all over the cell. -/
theorem noise_of_ends {low high x y c : ℤ} (hlow : 32 * (y - low) ≤ 3 * low.natAbs + c)
    (hhigh : 32 * (high - y) ≤ 3 * high.natAbs + c) (h : low ≤ x ∧ x ≤ high) :
    32 * |y - x| ≤ 3 * |x| + c := by
  rw [Int.abs_eq_natAbs, Int.abs_eq_natAbs]
  omega

/-- The bound at the ends of all cells, for all chains in normal form. -/
theorem noise_at_ends (suppress : Bool) (law : Law) (n : Fin 3) (b : UInt8) :
    32 * ((hopAlong ((Hop.ofLaw suppress law).level b)
          ((List.iterate Law.other law.other n).map (Hop.ofLaw suppress))).toInt - law.cellLow b)
        ≤ 3 * (law.cellLow b).natAbs + 348 ∧
      32 * (law.cellHigh b - (hopAlong ((Hop.ofLaw suppress law).level b)
          ((List.iterate Law.other law.other n).map (Hop.ofLaw suppress))).toInt)
        ≤ 3 * (law.cellHigh b).natAbs + 348 := by
  revert b
  refine forall_octet ?_
  revert n
  cases suppress <;> cases law <;> decide +kernel

theorem absoluteError_hopAlong (x : Int16) (hops : List Hop) :
    32 * absoluteError x (hopAlong x hops) ≤ 3 * |x.toInt| + 348 := by
  rw [← hopAlong_normalChain, normalChain]
  generalize hops.any Hop.suppresses = suppress
  cases hlaws : Code.reduced (hops.map Hop.law) with
  | nil =>
    simp only [List.map_nil, hopAlong_nil, absoluteError, sub_self, abs_zero]
    positivity
  | cons law rest =>
    obtain ⟨n, hn, rfl⟩ := Code.exists_reduced_eq_iterate (fun _ _ => Law.eq_other) hlaws
    have hlaw : (Hop.ofLaw suppress law).law = law := by
      cases suppress <;> cases law <;> rfl
    obtain ⟨hlow, hhigh⟩ := noise_at_ends suppress law ⟨n, hn⟩ (law.encodeArith x)
    rw [List.map_cons, hopAlong_cons, Hop.quantise_eq_level, hlaw]
    exact noise_of_ends hlow hhigh ((law.encodeArith_eq_iff x _).1 rfl)

/-- **The noise of a chain** does not grow with its length: whatever the hops and however many, the
error at a sample is bounded by three 32nds of the sample, up to a constant. -/
theorem chain_noise {hops : List Hop} {xs zs : List Int16} (h : ChainsTo hops xs zs) :
    List.Forall₂ (fun x z => 32 * absoluteError x z ≤ 3 * |x.toInt| + 348) xs zs := by
  rw [chainsTo_iff.1 h, List.forall₂_map_right_iff, List.forall₂_same]
  exact fun x _ => absoluteError_hopAlong x hops

/-- A loud and a quiet sample in a chain that suppresses. -/
theorem chain_noise_pair :
    List.Forall₂ (fun x z => 32 * absoluteError x z ≤ 3 * |x.toInt| + 348)
      [-32768, 100] [-30208, 104] :=
  @chain_noise [.mulawZeroSuppress, .alaw] [-32768, 100] [-30208, 104]
    (chainsTo_iff.2 (by decide))

/-! ### What suppression costs -/

/-- The samples below the last negative decision value are encoded as the all-zero octet. -/
theorem mulawEncodeArith_eq_zero_iff (x : Int16) : mulawEncodeArith x = 0 ↔ x ≤ -31612 := by
  have hcell := Law.mulaw.encodeArith_eq_iff x 0
  have hlow : Law.mulaw.cellLow 0 = -32768 := by decide
  have hhigh : Law.mulaw.cellHigh 0 = -31612 := by decide
  have hx := x.le_toInt
  rw [hlow, hhigh] at hcell
  rw [Int16.le_iff_toInt_le]
  show Law.mulaw.encodeArith x = 0 ↔ x.toInt ≤ -31612
  rw [hcell]
  omega

theorem quantise_suppress (x : Int16) :
    Hop.mulawZeroSuppress.quantise x = if x ≤ -31612 then -30076 else Hop.mulaw.quantise x := by
  by_cases h : x ≤ -31612
  · rw [if_pos h]
    show mulawDecode (zeroSuppress (mulawEncodeArith x)) = -30076
    rw [(mulawEncodeArith_eq_zero_iff x).2 h]
    decide
  · have hne : mulawEncodeArith x ≠ 0 := fun h0 => h ((mulawEncodeArith_eq_zero_iff x).1 h0)
    rw [if_neg h]
    show mulawDecode (zeroSuppress (mulawEncodeArith x)) = _
    rw [zeroSuppress, if_neg hne]
    rfl

theorem quantise_mulaw_le {x y : Int16} (h : x ≤ y) :
    Hop.mulaw.quantise x ≤ Hop.mulaw.quantise y := by
  have hle := Law.mulaw.quantise_le h
  rwa [Law.decodeSample_eq, Law.encodeSample_eq] at hle

/-- The cell below the replaced level. -/
theorem quantise_next_cell {x : Int16} (hlow : -31611 ≤ x) (hhigh : x ≤ -30588) :
    Hop.mulaw.quantise x = -31100 := by
  have hlow' : Law.mulaw.cellLow 1 = -31611 := by decide
  have hhigh' : Law.mulaw.cellHigh 1 = -30588 := by decide
  have hcell : Law.mulaw.encodeArith x = 1 := by
    rw [Law.encodeArith_eq_iff, hlow', hhigh']
    exact ⟨Int16.le_iff_toInt_le.1 hlow, Int16.le_iff_toInt_le.1 hhigh⟩
  have hencode : mulawEncodeArith x = 1 := hcell
  show mulawDecode (mulawEncodeArith x) = _
  rw [hencode]
  decide

/-- Suppression raises the lowest level above the next one, and nothing else. -/
theorem quantise_suppress_le_iff {x y : Int16} (h : x ≤ y) :
    Hop.mulawZeroSuppress.quantise x ≤ Hop.mulawZeroSuppress.quantise y ↔
      ¬ (x ≤ -31612 ∧ -31611 ≤ y ∧ y ≤ -30588) := by
  rw [quantise_suppress, quantise_suppress]
  by_cases hx : x ≤ -31612
  · rw [if_pos hx]
    by_cases hy : y ≤ -31612
    · have hnot : ¬ -31611 ≤ y := by
        rw [Int16.le_iff_toInt_le] at hy ⊢
        exact fun h' => absurd (h'.trans hy) (by decide)
      rw [if_pos hy]
      simp [hnot]
    · have hlow : -31611 ≤ y := by
        rw [Int16.le_iff_toInt_le] at hy ⊢
        exact not_le.1 hy
      rw [if_neg hy]
      by_cases hnext : y ≤ -30588
      · rw [quantise_next_cell hlow hnext]
        simp only [hx, hlow, hnext, and_self, not_true_eq_false, iff_false]
        decide
      · have hle : -30587 ≤ y := by
          rw [Int16.le_iff_toInt_le] at hnext ⊢
          exact not_le.1 hnext
        have hlevel : Hop.mulaw.quantise (-30587) = -30076 := by decide
        have hquantise := quantise_mulaw_le hle
        rw [hlevel] at hquantise
        simp [hquantise, hnext]
  · have hy : ¬ y ≤ -31612 := fun hy => hx (Int16.le_trans h hy)
    rw [if_neg hx, if_neg hy]
    simp [quantise_mulaw_le h, hx]

/-- **What suppression costs**: a suppressing hop differs from a plain one at the samples up to
-31612, which come out as -30076; and it keeps the order of two streams unless it meets such a
sample where the other stream has one of the next lower level. -/
theorem suppression_cost :
    (∀ xs ys zs, ChainsTo [.mulaw] xs ys → ChainsTo [.mulawZeroSuppress] xs zs →
      zs = List.zipWith (fun x y => if x ≤ -31612 then -30076 else y) xs ys) ∧
    ∀ xs xs' zs zs', ChainsTo [.mulawZeroSuppress] xs zs → ChainsTo [.mulawZeroSuppress] xs' zs' →
      List.Forall₂ (· ≤ ·) xs xs' →
      (List.Forall₂ (· ≤ ·) zs zs' ↔
        List.Forall₂ (fun x x' => ¬ (x ≤ -31612 ∧ -31611 ≤ x' ∧ x' ≤ -30588)) xs xs') := by
  constructor
  · intro xs ys zs hys hzs
    rw [chainsTo_iff.1 hys, chainsTo_iff.1 hzs, List.zipWith_map_right, List.zipWith_self]
    exact List.map_congr_left fun x _ => quantise_suppress x
  · intro xs xs' zs zs' hzs hzs' hle
    rw [chainsTo_iff.1 hzs, chainsTo_iff.1 hzs', List.forall₂_map_left_iff,
      List.forall₂_map_right_iff]
    induction hle generalizing zs zs' with
    | nil => simp
    | cons h _ ih =>
      rw [List.forall₂_cons, List.forall₂_cons, ih _ _ (chainsTo_iff.2 rfl) (chainsTo_iff.2 rfl)]
      exact and_congr_left fun _ => quantise_suppress_le_iff h

/-- The lowest sample, plain and suppressed, and against one of the next cell. -/
theorem suppression_cost_lowest :
    ([-30076, 104] : List Int16)
        = List.zipWith (fun x y => if x ≤ -31612 then -30076 else y) [-32768, 100] [-32124, 104] ∧
      (List.Forall₂ (· ≤ ·) [-30076] ([-31100] : List Int16) ↔
        List.Forall₂ (fun x x' : Int16 => ¬ (x ≤ -31612 ∧ -31611 ≤ x' ∧ x' ≤ -30588))
          [-32768] [-31000]) :=
  ⟨suppression_cost.1 [-32768, 100] [-32124, 104] [-30076, 104] (chainsTo_iff.2 (by decide))
      (chainsTo_iff.2 (by decide)),
    suppression_cost.2 [-32768] [-31000] [-30076] [-31100] (chainsTo_iff.2 (by decide))
      (chainsTo_iff.2 (by decide)) (.cons (by decide) .nil)⟩

end G711

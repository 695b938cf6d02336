import G711.Cells
import G711.Tandem

/-!
# Tables 3 and 4

The Recommendation converts between the laws by two tables, from value number to value number; the
crate requantises through PCM instead.  `conversion_tables` says where the two differ, on wire
streams of any length: by one value number, at the value numbers of two lists, so that double
conversions by the tables keep the bits 1 to 7 of every octet and those of the crate do not.
-/

namespace G711

/-- Octets in the order of the samples they are decoded to. -/
def sortByValue (decode : UInt8 → Int16) (octets : List UInt8) : List UInt8 :=
  ((octets.map fun b => (decode b, b)).mergeSort fun x y => x.1.toInt ≤ y.1.toInt).map Prod.snd

/-- `mulaw_positive_codewords_by_value_number`. -/
def mulawPositiveCodewordsByValueNumber : List UInt8 :=
  sortByValue Mulaw.decodeSample ((List.range' 0x80 128).map UInt8.ofNat)

/-- `alaw_positive_codewords_by_value_number`. -/
def alawPositiveCodewordsByValueNumber : List UInt8 :=
  sortByValue Alaw.decodeSample
    (((List.range 256).map UInt8.ofNat).filter fun b => (b ^^^ 0x55) &&& 0x80 ≠ 0)

/-- `value_number_by_magnitude`, with nothing where the source panics. -/
def valueNumberByMagnitude (codewordsByValue : List UInt8) (target : UInt8)
    (decode : UInt8 → Int16) : Option ℕ :=
  let mag := (decode target).toInt.natAbs
  codewordsByValue.findIdx? fun cw => (decode cw).toInt.natAbs = mag

/-- `TABLE3_MU_TO_A`, from the value numbers 0 to 127 of µ-law to those of A-law. -/
def table3MuToA : List ℕ := [
  1, 1, 2, 2, 3, 3, 4, 4, 5, 5, 6, 6, 7, 7,
  8, 8, 9, 10, 11, 12, 13, 14, 15, 16, 17, 18, 19, 20,
  21, 22, 23, 24, 25, 27, 29, 31, 33, 34, 35, 36, 37, 38,
  39, 40, 41, 42, 43, 44, 46, 48, 49, 50, 51, 52, 53, 54,
  55, 56, 57, 58, 59, 60, 61, 62, 64, 65, 66, 67, 68, 69,
  70, 71, 72, 73, 74, 75, 76, 77, 78, 79, 81, 82, 83, 84,
  85, 86, 87, 88, 89, 90, 91, 92, 93, 94, 95, 96, 97, 98,
  99, 100, 101, 102, 103, 104, 105, 106, 107, 108, 109, 110, 111, 112,
  113, 114, 115, 116, 117, 118, 119, 120, 121, 122, 123, 124, 125, 126,
  127, 128]

/-- `TABLE4_A_TO_MU`, from the value numbers 1 to 128 of A-law to those of µ-law. -/
def table4AToMu : List ℕ := [
  1, 3, 5, 7, 9, 11, 13, 15, 16, 17, 18, 19, 20, 21,
  22, 23, 24, 25, 26, 27, 28, 29, 30, 31, 32, 32, 33, 33,
  34, 34, 35, 35, 36, 37, 38, 39, 40, 41, 42, 43, 44, 45,
  46, 47, 48, 48, 49, 49, 50, 51, 52, 53, 54, 55, 56, 57,
  58, 59, 60, 61, 62, 63, 64, 64, 65, 66, 67, 68, 69, 70,
  71, 72, 73, 74, 75, 76, 77, 78, 79, 79, 80, 81, 82, 83,
  84, 85, 86, 87, 88, 89, 90, 91, 92, 93, 94, 95, 96, 97,
  98, 99, 100, 101, 102, 103, 104, 105, 106, 107, 108, 109, 110, 111,
  112, 113, 114, 115, 116, 117, 118, 119, 120, 121, 122, 123, 124, 125,
  126, 127]

/-- `MU_TO_A_EQUIP_DIVERGENCE`. -/
def muToAEquipDivergence : List ℕ :=
  [48, 49, 64, 80, 81, 82, 83, 84, 85, 86, 87, 88, 89, 90, 91, 92, 93, 94, 95]

/-- `A_TO_MU_EQUIP_DIVERGENCE`. -/
def aToMuEquipDivergence : List ℕ :=
  [80, 81, 82, 83, 84, 85, 86, 87, 88, 89, 90, 91, 92, 93, 94, 95, 96]

namespace Law

/-- The value number of the least magnitude. -/
def firstValue : Law → ℕ
  | .mulaw => 0
  | .alaw => 1

/-- The positive octets by value number. -/
def positiveCodewordsByValueNumber : Law → List UInt8
  | .mulaw => mulawPositiveCodewordsByValueNumber
  | .alaw => alawPositiveCodewordsByValueNumber

/-- The value number of an octet. -/
def valueNumber (law : Law) (b : UInt8) : ℕ :=
  16 * (law.fields b).seg + (law.fields b).mant + law.firstValue

/-- The value number that the tables give for one of a law. -/
def tableValue : Law → ℕ → ℕ
  | .mulaw, n => table3MuToA.getD n 0
  | .alaw, n => table4AToMu.getD (n - 1) 0

/-- The value numbers for which the crate does not follow the tables. -/
def divergence : Law → List ℕ
  | .mulaw => muToAEquipDivergence
  | .alaw => aToMuEquipDivergence

/-- The value number that the crate gives for one of a law: the next one where it does not follow
the tables. -/
def equipmentValue : Law → ℕ → ℕ
  | .mulaw, n => if n ∈ Law.mulaw.divergence then Law.mulaw.tableValue n - 1
    else Law.mulaw.tableValue n
  | .alaw, n => if n ∈ Law.alaw.divergence then Law.alaw.tableValue n + 1
    else Law.alaw.tableValue n

/-- An octet converted to the other law by the tables, with its polarity. -/
def tableConvert (law : Law) (b : UInt8) : UInt8 :=
  let n := law.tableValue (law.valueNumber b) - law.other.firstValue
  law.other.octet (law.fields b).negative (n / 16) (n % 16)

end Law

/-- How a gateway converts: as the crate does, which is the equipment option, or by the tables. -/
inductive Conversion
  | equipment
  | tables
  deriving DecidableEq

namespace Law

/-- An octet of a law converted to the other law. -/
def convert (law : Law) : Conversion → UInt8 → UInt8
  | .equipment, b => law.other.encodeSample (law.decodeSample b)
  | .tables, b => law.tableConvert b

/-- A conversion to the other law and one back. -/
def convertTwice (law : Law) (r : Conversion × Conversion) (b : UInt8) : UInt8 :=
  law.other.convert r.2 (law.convert r.1 b)

/-- A wire stream after double conversions, one after the other. -/
def convertRounds (law : Law) (w : List UInt8) (rs : List (Conversion × Conversion)) : List UInt8 :=
  rs.foldl (fun w r => w.map (law.convertTwice r)) w

/-- The value numbers that double conversions of one kind change. -/
def changedBy : Law → Conversion → List ℕ
  | .mulaw, _ => [0, 2, 4, 6, 8, 10, 12, 14]
  | .alaw, .equipment => [26, 28, 30, 32, 46, 48, 64, 96]
  | .alaw, .tables => [26, 28, 30, 32, 45, 47, 63, 80]

/-! ### Value numbers -/

theorem outputMagnitude_succ (law : Law) : ∀ n : Fin 127,
    law.outputMagnitude (n / 16) (n % 16)
      < law.outputMagnitude ((n + 1 : ℕ) / 16) ((n + 1 : ℕ) % 16) := by
  cases law <;> decide +kernel

theorem outputMagnitude_lt (law : Law) {m n : ℕ} (hmn : m < n) (hn : n < 128) :
    law.outputMagnitude (m / 16) (m % 16) < law.outputMagnitude (n / 16) (n % 16) := by
  induction n, hmn using Nat.le_induction with
  | base => exact law.outputMagnitude_succ ⟨m, by omega⟩
  | succ n hmn ih => exact (ih (by omega)).trans (law.outputMagnitude_succ ⟨n, by omega⟩)

theorem outputMagnitude_lt_iff (law : Law) {m n : ℕ} (hm : m < 128) (hn : n < 128) :
    m < n ↔ law.outputMagnitude (m / 16) (m % 16) < law.outputMagnitude (n / 16) (n % 16) := by
  constructor
  · exact fun hmn => law.outputMagnitude_lt hmn hn
  · intro h
    rcases lt_trichotomy m n with hmn | rfl | hnm
    · exact hmn
    · exact absurd h (lt_irrefl _)
    · exact absurd h (law.outputMagnitude_lt hnm hm).asymm

/-- The magnitude of an octet, from its rank among the magnitudes. -/
theorem natAbs_decodeArith (law : Law) (b : UInt8) :
    16 * (law.fields b).seg + (law.fields b).mant < 128 ∧
      (law.decodeArith b).toInt.natAbs
        = law.outputMagnitude ((16 * (law.fields b).seg + (law.fields b).mant) / 16)
          ((16 * (law.fields b).seg + (law.fields b).mant) % 16) := by
  obtain ⟨hseg, hmant⟩ := law.fields_lt b
  have hlevel := law.decodeArith_octet (law.fields b).negative hseg hmant
  rw [law.octet_fields] at hlevel
  rw [hlevel, natAbs_withSign, show (16 * (law.fields b).seg + (law.fields b).mant) / 16
    = (law.fields b).seg by omega, show (16 * (law.fields b).seg + (law.fields b).mant) % 16
    = (law.fields b).mant by omega]
  exact ⟨by omega, rfl⟩

/-- Value numbers are ordered as the magnitudes are. -/
theorem valueNumber_lt_iff (law : Law) (b c : UInt8) :
    law.valueNumber b < law.valueNumber c ↔
      (law.decodeArith b).toInt.natAbs < (law.decodeArith c).toInt.natAbs := by
  obtain ⟨hb, hlevelb⟩ := law.natAbs_decodeArith b
  obtain ⟨hc, hlevelc⟩ := law.natAbs_decodeArith c
  rw [hlevelb, hlevelc, ← law.outputMagnitude_lt_iff hb hc]
  exact Nat.add_lt_add_iff_right

theorem valueNumber_eq_iff (law : Law) (b c : UInt8) :
    law.valueNumber b = law.valueNumber c ↔
      (law.decodeArith b).toInt.natAbs = (law.decodeArith c).toInt.natAbs := by
  have hbc := law.valueNumber_lt_iff b c
  have hcb := law.valueNumber_lt_iff c b
  omega

/-- A number below 128 and a polarity make an octet of that value number. -/
theorem fields_octet_number (law : Law) (negative : Bool) {n : ℕ} (hn : n < 128) :
    (law.fields (law.octet negative (n / 16) (n % 16))).negative = negative ∧
      law.valueNumber (law.octet negative (n / 16) (n % 16)) = n + law.firstValue := by
  unfold valueNumber
  rw [law.fields_octet negative (by omega) (by omega)]
  exact ⟨rfl, by dsimp only; omega⟩

theorem valueNumber_bounds (law : Law) (b : UInt8) :
    law.firstValue ≤ law.valueNumber b ∧ law.valueNumber b < law.firstValue + 128 := by
  obtain ⟨hseg, hmant⟩ := law.fields_lt b
  unfold valueNumber
  omega

/-- A property of all value numbers, checked on the numbers below 128. -/
theorem forall_valueNumber {law : Law} {P : ℕ → Prop}
    (h : ∀ i : Fin 128, P (i + law.firstValue)) (b : UInt8) : P (law.valueNumber b) := by
  obtain ⟨hlow, hhigh⟩ := law.valueNumber_bounds b
  have hnumber := h ⟨law.valueNumber b - law.firstValue, by omega⟩
  rwa [Nat.sub_add_cancel hlow] at hnumber

/-- Polarity and value number make out an octet. -/
theorem eq_of_valueNumber_eq (law : Law) {b c : UInt8}
    (hnegative : (law.fields b).negative = (law.fields c).negative)
    (hnumber : law.valueNumber b = law.valueNumber c) : b = c := by
  obtain ⟨hsegb, hmantb⟩ := law.fields_lt b
  obtain ⟨hsegc, hmantc⟩ := law.fields_lt c
  unfold valueNumber at hnumber
  rw [← law.octet_fields b, ← law.octet_fields c, hnegative,
    show (law.fields b).seg = (law.fields c).seg by omega,
    show (law.fields b).mant = (law.fields c).mant by omega]

/-- The positive octet of a value number, less the first one. -/
def positiveOctet (law : Law) (n : ℕ) : UInt8 := law.octet false (n / 16) (n % 16)

theorem decodeSample_positiveOctet (law : Law) {n : ℕ} (hn : n < 128) :
    (law.decodeSample (law.positiveOctet n)).toInt = law.outputMagnitude (n / 16) (n % 16) := by
  rw [law.decodeSample_eq]
  exact law.decodeArith_octet false (by omega) (by omega)

theorem positiveOctet_of_value {law : Law} {m n : ℕ} (hm : m < 128) (hn : n < 128)
    (h : (law.decodeSample (law.positiveOctet m)).toInt
      = (law.decodeSample (law.positiveOctet n)).toInt) : m = n := by
  rw [law.decodeSample_positiveOctet hm, law.decodeSample_positiveOctet hn] at h
  rcases lt_trichotomy m n with hmn | hmn | hnm
  · exact absurd (Int.ofNat.inj h) (law.outputMagnitude_lt hmn hn).ne
  · exact hmn
  · exact absurd (Int.ofNat.inj h) (law.outputMagnitude_lt hnm hm).ne'

theorem mem_positiveOctets (law : Law) (b : UInt8) :
    b ∈ (List.range 128).map law.positiveOctet ↔ (law.fields b).negative = false := by
  rw [List.mem_map]
  constructor
  · rintro ⟨n, hn, rfl⟩
    exact (law.fields_octet_number false (List.mem_range.1 hn)).1
  · intro hnegative
    obtain ⟨hlow, hhigh⟩ := law.valueNumber_bounds b
    obtain ⟨hnegative', hnumber⟩ := law.fields_octet_number false
      (n := law.valueNumber b - law.firstValue) (by omega)
    exact ⟨_, List.mem_range.2 (by omega), law.eq_of_valueNumber_eq
      (hnegative'.trans hnegative.symm) (hnumber.trans (Nat.sub_add_cancel hlow))⟩

theorem nodup_positiveOctets (law : Law) : ((List.range 128).map law.positiveOctet).Nodup := by
  refine List.nodup_range.map_on fun m hm n hn h => ?_
  rw [List.mem_range] at hm hn
  exact positiveOctet_of_value hm hn (by rw [h])

/-- Sorted by their values, the positive octets stand in the order of their fields. -/
theorem sortByValue_eq (law : Law) {octets : List UInt8} (hnodup : octets.Nodup)
    (hmem : ∀ b, b ∈ octets ↔ (law.fields b).negative = false) :
    sortByValue law.decodeSample octets = (List.range 128).map law.positiveOctet := by
  have hperm : octets.Perm ((List.range 128).map law.positiveOctet) :=
    (List.perm_ext_iff_of_nodup hnodup law.nodup_positiveOctets).2 fun b =>
      (hmem b).trans (law.mem_positiveOctets b).symm
  let entry (b : UInt8) := (law.decodeSample b, b)
  have hordered : (((List.range 128).map law.positiveOctet).map entry).Pairwise
      fun x y => decide (x.1.toInt ≤ y.1.toInt) = true := by
    rw [List.map_map, List.pairwise_map]
    refine List.pairwise_lt_range.imp_of_mem fun {m n} hm hn hmn => decide_eq_true ?_
    rw [List.mem_range] at hm hn
    show (law.decodeSample (law.positiveOctet m)).toInt
      ≤ (law.decodeSample (law.positiveOctet n)).toInt
    rw [law.decodeSample_positiveOctet hm, law.decodeSample_positiveOctet hn]
    exact_mod_cast (law.outputMagnitude_lt hmn hn).le
  have hsorts : (octets.map entry).mergeSort (fun x y => x.1.toInt ≤ y.1.toInt)
      = ((List.range 128).map law.positiveOctet).map entry := by
    have hentries := (List.mergeSort_perm (octets.map entry) fun x y =>
      x.1.toInt ≤ y.1.toInt).trans (hperm.map entry)
    refine hentries.eq_of_pairwise ?_ (List.pairwise_mergeSort ?_ ?_ _) hordered
    · -- octets of one value are equal, as two sorted lists of the same octets must be
      intro x y hx hy hxy hyx
      rw [hentries.mem_iff, List.map_map, List.mem_map] at hx
      rw [List.map_map, List.mem_map] at hy
      obtain ⟨m, hm, rfl⟩ := hx
      obtain ⟨n, hn, rfl⟩ := hy
      rw [List.mem_range] at hm hn
      rw [positiveOctet_of_value hm hn (le_antisymm (of_decide_eq_true hxy) (of_decide_eq_true hyx))]
    · intro x y z hxy hyz
      exact decide_eq_true ((of_decide_eq_true hxy).trans (of_decide_eq_true hyz))
    · intro x y
      simpa using le_total x.1.toInt y.1.toInt
  unfold sortByValue
  rw [hsorts, List.map_map]
  exact List.map_id _

/-- Octets counted up are distinct, and those between the bounds. -/
theorem octets_range' {a n : ℕ} (hle : a + n ≤ 256) :
    ((List.range' a n).map UInt8.ofNat).Nodup ∧
      ∀ b, b ∈ (List.range' a n).map UInt8.ofNat ↔ a ≤ b.toNat ∧ b.toNat < a + n := by
  have hoctet {k : ℕ} (hk : k ∈ List.range' a n) : (UInt8.ofNat k).toNat = k := by
    rw [List.mem_range'_1] at hk
    exact UInt8.toNat_ofNat_of_lt' (show k < 256 by omega)
  constructor
  · refine List.Nodup.map_on (fun j hj k hk h => ?_) List.nodup_range'
    rw [← hoctet hj, h, hoctet hk]
  · intro b
    rw [List.mem_map, ← List.mem_range'_1]
    constructor
    · rintro ⟨k, hk, rfl⟩
      rwa [hoctet hk]
    · exact fun h => ⟨b.toNat, h, UInt8.ofNat_toNat⟩

theorem positiveCodewordsByValueNumber_eq (law : Law) :
    law.positiveCodewordsByValueNumber = (List.range 128).map law.positiveOctet := by
  cases law with
  | mulaw =>
    obtain ⟨hnodup, hmem⟩ := octets_range' (a := 0x80) (n := 128) le_rfl
    refine Law.mulaw.sortByValue_eq hnodup fun b => ?_
    rw [hmem, and_iff_left b.toNat_lt]
    exact forall_octet (P := fun b => 0x80 ≤ b.toNat ↔ (Law.mulaw.fields b).negative = false)
      (by decide +kernel) b
  | alaw =>
    obtain ⟨hnodup, hmem⟩ := octets_range' (a := 0) (n := 256) le_rfl
    rw [← List.range_eq_range'] at hnodup hmem
    refine Law.alaw.sortByValue_eq (hnodup.filter _) fun b => ?_
    rw [List.mem_filter, hmem, and_iff_right ⟨b.toNat.zero_le, b.toNat_lt⟩, decide_eq_true_eq]
    exact decide_eq_false_iff_not.symm

/-- The octets of a polarity are numbered in the order of the list. -/
theorem getElem?_positiveCodewordsByValueNumber (law : Law) (n : ℕ) (b : UInt8) :
    law.positiveCodewordsByValueNumber[n]? = some b ↔
      (law.fields b).negative = false ∧ law.valueNumber b = n + law.firstValue := by
  rw [positiveCodewordsByValueNumber_eq, List.getElem?_map, Option.map_eq_some_iff]
  constructor
  · rintro ⟨m, hm, rfl⟩
    obtain ⟨hlt, rfl⟩ := List.getElem?_eq_some_iff.1 hm
    rw [List.length_range] at hlt
    rw [List.getElem_range]
    exact law.fields_octet_number false hlt
  · rintro ⟨hnegative, hnumber⟩
    obtain ⟨-, hhigh⟩ := law.valueNumber_bounds b
    obtain ⟨hnegative', hnumber'⟩ := law.fields_octet_number false (n := n) (by omega)
    exact ⟨n, List.getElem?_range (by omega),
      law.eq_of_valueNumber_eq (hnegative'.trans hnegative.symm) (hnumber'.trans hnumber.symm)⟩

theorem valueNumberByMagnitude_eq (law : Law) (b : UInt8) :
    valueNumberByMagnitude law.positiveCodewordsByValueNumber b law.decodeSample
      = some (law.valueNumber b - law.firstValue) := by
  obtain ⟨hlow, hhigh⟩ := law.valueNumber_bounds b
  have hmagnitude {n : ℕ} (hn : n < 128) :
      (law.decodeSample (law.positiveOctet n)).toInt.natAbs = (law.decodeSample b).toInt.natAbs ↔
        n = law.valueNumber b - law.firstValue := by
    have hnumber : law.valueNumber (law.positiveOctet n) = n + law.firstValue :=
      (law.fields_octet_number false hn).2
    rw [decodeSample_eq, ← valueNumber_eq_iff, hnumber]
    omega
  unfold valueNumberByMagnitude
  rw [positiveCodewordsByValueNumber_eq, List.findIdx?_eq_some_iff_getElem]
  simp only [List.length_map, List.length_range, List.getElem_map, List.getElem_range,
    decide_eq_true_eq]
  refine ⟨by omega, (hmagnitude (by omega)).2 rfl, fun n hn h => ?_⟩
  exact hn.ne ((hmagnitude (by omega)).1 h)

/-! ### Conversions of octets -/

/-- The value number after a conversion. -/
def convertValue (law : Law) : Conversion → ℕ → ℕ
  | .equipment => law.equipmentValue
  | .tables => law.tableValue

theorem valueNumber_transcode (law : Law) : ∀ b,
    law.other.valueNumber (law.other.encodeArith (law.decodeArith b))
      = law.equipmentValue (law.valueNumber b) := by
  cases law <;> exact forall_octet (by decide +kernel)

theorem negative_transcode (law : Law) : ∀ b, ¬ (law = .mulaw ∧ b = 0x7F) →
    (law.other.fields (law.other.encodeArith (law.decodeArith b))).negative
      = (law.fields b).negative := by
  cases law <;> exact forall_octet (by decide +kernel)

theorem tableValue_bounds (law : Law) (b : UInt8) :
    law.other.firstValue ≤ law.tableValue (law.valueNumber b) ∧
      law.tableValue (law.valueNumber b) < law.other.firstValue + 128 := by
  refine forall_valueNumber (P := fun n => law.other.firstValue ≤ law.tableValue n ∧
    law.tableValue n < law.other.firstValue + 128) ?_ b
  cases law <;> decide +kernel

theorem tableConvert_spec (law : Law) (b : UInt8) :
    (law.other.fields (law.tableConvert b)).negative = (law.fields b).negative ∧
      law.other.valueNumber (law.tableConvert b) = law.tableValue (law.valueNumber b) := by
  obtain ⟨hlow, hhigh⟩ := law.tableValue_bounds b
  obtain ⟨hnegative, hnumber⟩ := law.other.fields_octet_number (law.fields b).negative
    (n := law.tableValue (law.valueNumber b) - law.other.firstValue) (by omega)
  exact ⟨hnegative, hnumber.trans (Nat.sub_add_cancel hlow)⟩

theorem convert_equipment (law : Law) (b : UInt8) :
    law.convert .equipment b = law.other.encodeArith (law.decodeArith b) := by
  rw [convert, decodeSample_eq, encodeSample_eq]

theorem valueNumber_convert (law : Law) (c : Conversion) (b : UInt8) :
    law.other.valueNumber (law.convert c b) = law.convertValue c (law.valueNumber b) := by
  cases c with
  | equipment => rw [convert_equipment, valueNumber_transcode, convertValue]
  | tables => exact (law.tableConvert_spec b).2

/-- Only the crate changes a polarity, that of the negative zero. -/
theorem negative_convert (law : Law) (c : Conversion) {b : UInt8}
    (hb : ¬ (law = .mulaw ∧ b = 0x7F)) :
    (law.other.fields (law.convert c b)).negative = (law.fields b).negative := by
  cases c with
  | equipment => rw [convert_equipment, law.negative_transcode b hb]
  | tables => exact (law.tableConvert_spec b).1

/-- No conversion gives the value number zero, which both zeros of µ-law have. -/
theorem convert_ne_zero (law : Law) (c : Conversion) (b : UInt8) :
    ¬ (law.other = .mulaw ∧ law.convert c b = 0x7F) := by
  rintro ⟨hlaw, hzero⟩
  have hnumber := law.valueNumber_convert c b
  rw [hlaw, hzero] at hnumber
  have hnonzero : law.convertValue c (law.valueNumber b) ≠ 0 := by
    refine forall_valueNumber (P := fun n => law.convertValue c n ≠ 0) ?_ b
    cases law with
    | mulaw => cases hlaw
    | alaw => cases c <;> decide +kernel
  exact hnonzero (hnumber.symm.trans (by decide))

/-! ### Double conversions of octets -/

theorem valueNumber_convertTwice (law : Law) (r : Conversion × Conversion) (b : UInt8) :
    law.valueNumber (law.convertTwice r b)
      = law.other.convertValue r.2 (law.convertValue r.1 (law.valueNumber b)) := by
  have hback := law.other.valueNumber_convert r.2 (law.convert r.1 b)
  rwa [other_other, law.valueNumber_convert] at hback

theorem negative_convertTwice (law : Law) (r : Conversion × Conversion) {b : UInt8}
    (hb : ¬ (law = .mulaw ∧ b = 0x7F)) :
    (law.fields (law.convertTwice r b)).negative = (law.fields b).negative ∧
      ¬ (law = .mulaw ∧ law.convertTwice r b = 0x7F) := by
  have hback := law.other.negative_convert r.2 (law.convert_ne_zero r.1 b)
  have hzero := law.other.convert_ne_zero r.2 (law.convert r.1 b)
  rw [other_other] at hback hzero
  exact ⟨hback.trans (law.negative_convert r.1 hb), hzero⟩

/-- A double conversion keeps an octet when it keeps the value number. -/
theorem convertTwice_eq_iff (law : Law) (r : Conversion × Conversion) (b : UInt8) :
    law.convertTwice r b = b ↔
      law.other.convertValue r.2 (law.convertValue r.1 (law.valueNumber b))
        = law.valueNumber b := by
  rw [← valueNumber_convertTwice]
  constructor
  · exact fun h => congrArg law.valueNumber h
  · intro h
    refine law.eq_of_valueNumber_eq (law.negative_convertTwice r ?_).1 h
    rintro ⟨rfl, rfl⟩
    rw [valueNumber_convertTwice] at h
    obtain ⟨first, second⟩ := r
    cases first <;> cases second <;> exact absurd h (by decide)

/-- Two conversions of one kind settle: the second pair of them changes nothing. -/
theorem convertTwice_convertTwice (law : Law) (c : Conversion) (b : UInt8) :
    law.convertTwice (c, c) (law.convertTwice (c, c) b) = law.convertTwice (c, c) b := by
  rw [convertTwice_eq_iff, valueNumber_convertTwice]
  refine forall_valueNumber (P := fun n => law.other.convertValue c (law.convertValue c
    (law.other.convertValue c (law.convertValue c n)))
      = law.other.convertValue c (law.convertValue c n)) ?_ b
  cases law <;> cases c <;> decide +kernel

/-- What a double conversion of one kind changes. -/
theorem convertTwice_ne_iff (law : Law) (c : Conversion) (b : UInt8) :
    law.convertTwice (c, c) b ≠ b ↔ law.valueNumber b ∈ law.changedBy c := by
  rw [Ne, convertTwice_eq_iff]
  refine forall_valueNumber (P := fun n =>
    ¬ law.other.convertValue c (law.convertValue c n) = n ↔ n ∈ law.changedBy c) ?_ b
  cases law <;> cases c <;> decide +kernel

theorem convertTwice_tables_and (law : Law) : ∀ b,
    law.convertTwice (.tables, .tables) b &&& 0xFE = b &&& 0xFE := by
  cases law <;> exact forall_octet (by decide +kernel)

/-- Any number of double conversions of one kind is none, or one. -/
theorem convertRounds_replicate (law : Law) (c : Conversion) {n : ℕ} (hn : 1 ≤ n)
    (w : List UInt8) :
    law.convertRounds w (List.replicate n (c, c)) = w.map (law.convertTwice (c, c)) := by
  induction n, hn using Nat.le_induction generalizing w with
  | base => rfl
  | succ n hn ih =>
    have hstep : law.convertRounds w (List.replicate (n + 1) (c, c))
        = law.convertRounds (w.map (law.convertTwice (c, c))) (List.replicate n (c, c)) := rfl
    rw [hstep, ih, List.map_map]
    exact List.map_congr_left fun b _ => law.convertTwice_convertTwice c b

end Law

/-! ### Tables and equipment apart -/

/-- What the tables are to the conversions of the crate. -/
structure ConversionTables (law : Law) : Prop where
  /-- The sorted list of the positive octets numbers them, and magnitude gives an octet of either
  polarity its number. -/
  numbered : (∀ n b, law.positiveCodewordsByValueNumber[n]? = some b ↔
      (law.fields b).negative = false ∧ law.valueNumber b = n + law.firstValue) ∧
    ∀ b, valueNumberByMagnitude law.positiveCodewordsByValueNumber b law.decodeSample
      = some (law.valueNumber b - law.firstValue)
  /-- The slices of the crate convert by the tables, but for the value numbers of a list, where
  they give the next one; they keep the polarity of all octets but the negative zero. -/
  diverges : ∀ w ys v, law.Decodes w ys → law.other.Encodes ys v → List.Forall₂ (fun b c =>
    law.other.valueNumber c = law.equipmentValue (law.valueNumber b) ∧
    (¬ (law = .mulaw ∧ b = 0x7F) →
      (law.other.fields c).negative = (law.fields b).negative)) w v
  /-- Double conversions by the tables keep the bits 1 to 7. -/
  transparent : ∀ n w,
    SameSevenBits w (law.convertRounds w (List.replicate n (.tables, .tables)))
  /-- Double conversions of one kind, however many, change the octets of a list and no others. -/
  changes : ∀ c n w, 1 ≤ n → List.Forall₂ (fun b b' =>
    b' ≠ b ↔ law.valueNumber b ∈ law.changedBy c) w (law.convertRounds w (List.replicate n (c, c)))

/-- **Tables 3 and 4 and the conversion of the crate**, on wire streams of any length. -/
theorem conversion_tables (law : Law) : ConversionTables law where
  numbered := ⟨law.getElem?_positiveCodewordsByValueNumber, law.valueNumberByMagnitude_eq⟩
  diverges w ys v hdecodes hencodes := by
    rw [law.other.encodes_iff.1 hencodes, law.decodes_iff.1 hdecodes, List.map_map,
      List.forall₂_map_right_iff, List.forall₂_same]
    exact fun b _ => ⟨law.valueNumber_transcode b, law.negative_transcode b⟩
  transparent n w := by
    rcases Nat.eq_zero_or_pos n with rfl | hn
    · exact List.forall₂_same.2 fun b _ => rfl
    · rw [law.convertRounds_replicate .tables hn]
      unfold SameSevenBits
      rw [List.forall₂_map_right_iff, List.forall₂_same]
      exact fun b _ => law.convertTwice_tables_and b
  changes c n w hn := by
    rw [law.convertRounds_replicate c hn, List.forall₂_map_right_iff, List.forall₂_same]
    exact fun b _ => law.convertTwice_ne_iff c b

/-! ### Tables and equipment mixed -/

namespace Law

/-- The least value number that an octet can come to. -/
def driftLow (law : Law) (n : ℕ) : ℕ :=
  if 80 ≤ n ∧ n ≤ 95 + law.firstValue then 79
  else if law = .alaw ∧ n ∈ [26, 28, 30, 32, 46, 48, 64] then n - 1
  else n

/-- The greatest value number that an octet can come to. -/
def driftHigh (law : Law) (n : ℕ) : ℕ :=
  if 80 ≤ n ∧ n ≤ 95 + law.firstValue then 96 + law.firstValue
  else if law = .mulaw ∧ n ∈ [0, 2, 4, 6, 8, 10, 12, 14] ∨ law = .alaw ∧ n ∈ [45, 47, 63] then n + 1
  else n

/-- To A-law as the crate does and back by the tables: the smaller value number each time. -/
def downward : Law → Conversion × Conversion
  | .mulaw => (.equipment, .tables)
  | .alaw => (.tables, .equipment)

/-- To A-law by the tables and back as the crate does: the greater value number each time. -/
def upward : Law → Conversion × Conversion
  | .mulaw => (.tables, .equipment)
  | .alaw => (.equipment, .tables)

/-- An octet after double conversions, one after the other. -/
def convertOctet (law : Law) (b : UInt8) (rs : List (Conversion × Conversion)) : UInt8 :=
  rs.foldl (fun b r => law.convertTwice r b) b

theorem convertRounds_eq (law : Law) (w : List UInt8) (rs : List (Conversion × Conversion)) :
    law.convertRounds w rs = w.map fun b => law.convertOctet b rs := by
  induction rs generalizing w with
  | nil => exact (List.map_id w).symm
  | cons r rs ih =>
    have hstep : law.convertRounds w (r :: rs) = law.convertRounds (w.map (law.convertTwice r)) rs :=
      rfl
    rw [hstep, ih, List.map_map]
    rfl

theorem driftLow_le (law : Law) (n : ℕ) : law.driftLow n ≤ n := by
  unfold driftLow
  split_ifs <;> omega

theorem le_driftHigh (law : Law) (n : ℕ) : n ≤ law.driftHigh n := by
  unfold driftHigh
  split_ifs <;> omega

/-- No double conversion leaves the range of an octet. -/
theorem convertTwice_drift (law : Law) (r : Conversion × Conversion) (b : UInt8) :
    law.driftLow (law.valueNumber b) ≤ law.driftLow (law.valueNumber (law.convertTwice r b)) ∧
      law.driftHigh (law.valueNumber (law.convertTwice r b))
        ≤ law.driftHigh (law.valueNumber b) := by
  rw [valueNumber_convertTwice]
  obtain ⟨first, second⟩ := r
  refine forall_valueNumber (P := fun n =>
    law.driftLow n ≤ law.driftLow (law.other.convertValue second (law.convertValue first n)) ∧
      law.driftHigh (law.other.convertValue second (law.convertValue first n))
        ≤ law.driftHigh n) ?_ b
  cases law <;> cases first <;> cases second <;> decide +kernel

theorem convertTwice_downward (law : Law) (b : UInt8) :
    law.driftLow (law.valueNumber b) < law.valueNumber b →
    law.valueNumber (law.convertTwice law.downward b) + 1 = law.valueNumber b ∧
      law.driftLow (law.valueNumber (law.convertTwice law.downward b))
        = law.driftLow (law.valueNumber b) := by
  rw [valueNumber_convertTwice]
  refine forall_valueNumber (P := fun n => law.driftLow n < n →
    law.other.convertValue law.downward.2 (law.convertValue law.downward.1 n) + 1 = n ∧
      law.driftLow (law.other.convertValue law.downward.2 (law.convertValue law.downward.1 n))
        = law.driftLow n) ?_ b
  cases law <;> decide +kernel

theorem convertTwice_upward (law : Law) (b : UInt8) :
    law.valueNumber b < law.driftHigh (law.valueNumber b) →
    law.valueNumber (law.convertTwice law.upward b) = law.valueNumber b + 1 ∧
      law.driftHigh (law.valueNumber (law.convertTwice law.upward b))
        = law.driftHigh (law.valueNumber b) := by
  rw [valueNumber_convertTwice]
  refine forall_valueNumber (P := fun n => n < law.driftHigh n →
    law.other.convertValue law.upward.2 (law.convertValue law.upward.1 n) = n + 1 ∧
      law.driftHigh (law.other.convertValue law.upward.2 (law.convertValue law.upward.1 n))
        = law.driftHigh n) ?_ b
  cases law <;> decide +kernel

/-- Along any chain an octet stays in its range and, but for the negative zero, keeps its
polarity. -/
theorem convertOctet_drift (law : Law) (rs : List (Conversion × Conversion)) (b : UInt8) :
    law.driftLow (law.valueNumber b) ≤ law.valueNumber (law.convertOctet b rs) ∧
      law.valueNumber (law.convertOctet b rs) ≤ law.driftHigh (law.valueNumber b) ∧
      (¬ (law = .mulaw ∧ b = 0x7F) →
        (law.fields (law.convertOctet b rs)).negative = (law.fields b).negative) := by
  induction rs generalizing b with
  | nil => exact ⟨law.driftLow_le _, law.le_driftHigh _, fun _ => rfl⟩
  | cons r rs ih =>
    obtain ⟨hlow, hhigh⟩ := law.convertTwice_drift r b
    obtain ⟨hlow', hhigh', hpolarity⟩ := ih (law.convertTwice r b)
    refine ⟨hlow.trans hlow', hhigh'.trans hhigh, fun hb => ?_⟩
    obtain ⟨hnegative, hzero⟩ := law.negative_convertTwice r hb
    exact (hpolarity hzero).trans hnegative

/-- Downward rounds take an octet down one by one, as far as its range goes. -/
theorem convertOctet_downward (law : Law) (k : ℕ) (b : UInt8)
    (h : law.driftLow (law.valueNumber b) + k ≤ law.valueNumber b) :
    law.valueNumber (law.convertOctet b (List.replicate k law.downward)) + k
      = law.valueNumber b := by
  induction k generalizing b with
  | zero => rfl
  | succ k ih =>
    obtain ⟨hnumber, hlow⟩ := law.convertTwice_downward b (by omega)
    have hrest := ih (law.convertTwice law.downward b) (by omega)
    show law.valueNumber (law.convertOctet (law.convertTwice law.downward b) _) + _ = _
    omega

theorem convertOctet_upward (law : Law) (k : ℕ) (b : UInt8)
    (h : law.valueNumber b + k ≤ law.driftHigh (law.valueNumber b)) :
    law.valueNumber (law.convertOctet b (List.replicate k law.upward))
      = law.valueNumber b + k := by
  induction k generalizing b with
  | zero => rfl
  | succ k ih =>
    obtain ⟨hnumber, hhigh⟩ := law.convertTwice_upward b (by omega)
    have hrest := ih (law.convertTwice law.upward b) (by omega)
    show law.valueNumber (law.convertOctet (law.convertTwice law.upward b) _) = _
    omega

end Law

/-- What becomes of a wire in a network where some gateways convert by the tables and others as the
crate does. -/
structure MixedConversions (law : Law) : Prop where
  /-- Whatever the chain, every octet stays in its range and keeps its polarity. -/
  confined : ∀ rs w, List.Forall₂ (fun b c =>
    law.driftLow (law.valueNumber b) ≤ law.valueNumber c ∧
    law.valueNumber c ≤ law.driftHigh (law.valueNumber b) ∧
    (¬ (law = .mulaw ∧ b = 0x7F) → (law.fields c).negative = (law.fields b).negative))
    w (law.convertRounds w rs)
  /-- Some chain takes an octet to each value number of its range. -/
  reached : ∀ b n, law.driftLow (law.valueNumber b) ≤ n → n ≤ law.driftHigh (law.valueNumber b) →
    ∃ rs c, law.convertRounds [b] rs = [c] ∧ law.valueNumber c = n

/-- **Mixed gateways drift**: in a network with gateways of both kinds an octet of the value numbers
80 to 95 (or 96, in A-law) can come to any value number from 79 to 96 (or 97), and every other octet
stays within one. -/
theorem mixed_conversions (law : Law) : MixedConversions law where
  confined rs w := by
    rw [law.convertRounds_eq, List.forall₂_map_right_iff, List.forall₂_same]
    exact fun b _ => law.convertOctet_drift rs b
  reached b n hlow hhigh := by
    rcases le_total n (law.valueNumber b) with hle | hle
    · have hdown := law.convertOctet_downward (law.valueNumber b - n) b (by omega)
      refine ⟨_, law.convertOctet b (List.replicate (law.valueNumber b - n) law.downward),
        law.convertRounds_eq [b] _, ?_⟩
      omega
    · have hup := law.convertOctet_upward (n - law.valueNumber b) b (by omega)
      refine ⟨_, law.convertOctet b (List.replicate (n - law.valueNumber b) law.upward),
        law.convertRounds_eq [b] _, ?_⟩
      omega

end G711

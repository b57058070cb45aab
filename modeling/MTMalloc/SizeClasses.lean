import MTMalloc.Basic
import Mathlib.Data.Nat.Find
import Mathlib.Data.Nat.Prime.Basic
import Mathlib.Tactic.Ring

/-!
# Size classes and the division by multiplication

`SCArray`, the descriptor `InitAll` builds for each entry, `SizeToSizeClass`, and the
multiply-shift that replaces `Offset / ChunkSize` in the hot paths.

`InitAll` bumps a chunk size by `kSizeAlignmentForSecondRange` until
`IsCorrectDivToMul` accepts it. The model keeps that loop as `Nat.find` over the number
of bumps. Running `IsCorrectDivToMul` means `2^19` divisions, so nothing here evaluates
it: `isCorrectDivToMul_of_corners` reduces it to two inequalities per divisor, which
`decide` checks for the whole table, and every entry turns out to need no bump.
-/

namespace MTMalloc

/-- `SCArray` of `mtmalloc_size_classes.h`. -/
def scArray : List Nat :=
  [16, 32, 48, 64, 80, 96, 112, 128, 144, 160, 176, 192, 208, 224, 240, 256,
   272, 288, 336, 368, 448, 480, 512, 576, 640, 704, 768, 896, 1024, 1152, 1280, 1408,
   1536, 1792, 2048, 2304, 2688, 2816, 3200, 3456, 3584, 4096, 4736, 5376, 6144, 6528,
   7168, 8192, 9216, 10240, 12288, 14336, 16384, 20480, 24576, 28672, 32768, 40960,
   49152, 57344, 65536, 73728, 81920, 98304, 131072, 172032, 262144]

def kNumSizeClasses : Nat := scArray.length

def kMaxSizeClass : Nat := scArray.getD (kNumSizeClasses - 1) 0

/-- `SizeClassDescr`, whose fields are bit-fields of widths 1, 15, 16 and 32. -/
structure SizeClassDescr where
  rangeNum : Nat
  numChunks : Nat
  chunkSizeDiv16 : Nat
  chunkSizeMulDiv : Nat
  deriving DecidableEq, Repr

def SizeClassDescr.chunkSize (d : SizeClassDescr) : Nat := d.chunkSizeDiv16 * 16

/-- `ComputeMulForDiv(Div, Shift)` on `uint32_t`: `2^Shift / Div`, plus one unless `Div`
is a power of two. -/
def computeMulForDiv (div shift : Nat) : Nat :=
  let mul := 2 ^ shift / div % 2 ^ 32
  if div &&& (div - 1) ≠ 0 then (mul + 1) % 2 ^ 32 else mul

/-- `IsCorrectDivToMul(Div, Mul, Shift, MaxLeft)`: the multiply-shift agrees with the
division for every `Left` in `[1, MaxLeft]`. -/
def isCorrectDivToMul (div mul shift maxLeft : Nat) : Bool :=
  (List.range' 1 maxLeft).all fun left =>
    left / div % 2 ^ 32 == ((left * mul % wordBound) >>> shift) % 2 ^ 32

/-- `DivBySizeViaMul(Left, DivMul)`. -/
def divBySizeViaMul (left divMul : Nat) : Nat :=
  ((left * divMul % wordBound) >>> kDivMulShift) % 2 ^ 32

/-- `SizeOfInlineMeta(NumChunks, RangeNum)`: range 0 keeps its state bytes at the tail of
the super page. -/
def sizeOfInlineMeta (numChunks rangeNum : Nat) : Nat :=
  if rangeNum = 1 then 0 else roundUpTo numChunks kStateArrayAlignment

/-- The loop of `ComputeNumChunks`, counting down from `n`; `none` is its
`__builtin_trap()`. -/
def computeNumChunks.loop (chunkSize rangeNum : Nat) : Nat → Option Nat
  | 0 => none
  | n + 1 =>
    if sizeOfInlineMeta (n + 1) rangeNum + (n + 1) * chunkSize ≤ kSuperPageSize then some (n + 1)
    else loop chunkSize rangeNum n

/-- `ComputeNumChunks(ChunkSize, RangeNum)`. -/
def computeNumChunks (chunkSize rangeNum : Nat) : Option Nat :=
  computeNumChunks.loop chunkSize rangeNum (kSuperPageSize / chunkSize)

-- ---------------------------------------------------------------------------
-- The multiply-shift, by two corner inequalities
-- ---------------------------------------------------------------------------

/-- With `Mul * D = 2^K + e`, `(L * Mul) >> K` is `L / D` exactly when the error that
`L` accumulates, `q * e + r * Mul` for `L = q * D + r`, stays below `2^K`. -/
theorem mul_shift_eq_div {d m k l : Nat} (he : 2 ^ k ≤ m * d)
    (h : l / d * (m * d - 2 ^ k) + l % d * m < 2 ^ k) : l * m / 2 ^ k = l / d := by
  obtain ⟨e, hm⟩ : ∃ e, m * d = 2 ^ k + e := ⟨m * d - 2 ^ k, by omega⟩
  rw [hm, Nat.add_sub_cancel_left] at h
  have hl : l * m = (l / d * e + l % d * m) + l / d * 2 ^ k := by
    have h1 : l * m = l / d * (m * d) + l % d * m := by
      conv_lhs => rw [← Nat.div_add_mod l d]
      ring
    rw [h1, hm]
    ring
  rw [hl, Nat.add_mul_div_right _ _ (Nat.two_pow_pos k), Nat.div_eq_of_lt h, Nat.zero_add]

/-- The two corners that bound the error for every `L ≤ MaxLeft`: the last full
quotient with the largest remainder, and `MaxLeft` itself. -/
def DivCorners (d m maxLeft : Nat) : Prop :=
  (maxLeft / d - 1) * (m * d - 2 ^ 35) + (d - 1) * m < 2 ^ 35 ∧
    maxLeft / d * (m * d - 2 ^ 35) + maxLeft % d * m < 2 ^ 35

instance (d m maxLeft : Nat) : Decidable (DivCorners d m maxLeft) :=
  inferInstanceAs (Decidable (_ ∧ _))

theorem error_lt_of_corners {d m maxLeft l : Nat} (hd : 0 < d) (hc : DivCorners d m maxLeft)
    (hl : l ≤ maxLeft) : l / d * (m * d - 2 ^ 35) + l % d * m < 2 ^ 35 := by
  have hq : l / d ≤ maxLeft / d := Nat.div_le_div_right hl
  have hr : l % d < d := Nat.mod_lt _ hd
  rcases Nat.lt_or_ge (l / d) (maxLeft / d) with hlt | hge
  · calc l / d * (m * d - 2 ^ 35) + l % d * m
        ≤ (maxLeft / d - 1) * (m * d - 2 ^ 35) + (d - 1) * m :=
          Nat.add_le_add (Nat.mul_le_mul_right _ (by omega)) (Nat.mul_le_mul_right _ (by omega))
      _ < 2 ^ 35 := hc.1
  · have hqe : l / d = maxLeft / d := by omega
    have hrm : l % d ≤ maxLeft % d := by
      have h1 := Nat.div_add_mod l d
      have h2 := Nat.div_add_mod maxLeft d
      rw [hqe] at h1
      omega
    calc l / d * (m * d - 2 ^ 35) + l % d * m
        ≤ maxLeft / d * (m * d - 2 ^ 35) + maxLeft % d * m := by
          rw [hqe]; exact Nat.add_le_add_left (Nat.mul_le_mul_right _ hrm) _
      _ < 2 ^ 35 := hc.2

theorem divBySizeViaMul_of_corners {d m maxLeft l : Nat} (hd : 0 < d) (hm : m < 2 ^ 32)
    (he : 2 ^ 35 ≤ m * d) (hc : DivCorners d m maxLeft) (hl : l ≤ maxLeft)
    (hmax : maxLeft < 2 ^ 32) : divBySizeViaMul l m = l / d := by
  have hprod : l * m < wordBound :=
    calc l * m < 2 ^ 32 * 2 ^ 32 := Nat.mul_lt_mul_of_le_of_lt (by omega) hm (by decide)
      _ = wordBound := by decide
  have hq : l / d < 2 ^ 32 := Nat.lt_of_le_of_lt (Nat.div_le_self _ _) (by omega)
  rw [divBySizeViaMul, Nat.mod_eq_of_lt hprod, Nat.shiftRight_eq_div_pow, kDivMulShift,
    mul_shift_eq_div he (error_lt_of_corners hd hc hl), Nat.mod_eq_of_lt hq]

theorem isCorrectDivToMul_of_corners {d m maxLeft : Nat} (hd : 0 < d) (hm : m < 2 ^ 32)
    (he : 2 ^ 35 ≤ m * d) (hc : DivCorners d m maxLeft) (hmax : maxLeft < 2 ^ 32) :
    isCorrectDivToMul d m 35 maxLeft = true := by
  simp only [isCorrectDivToMul, List.all_eq_true, List.mem_range'_1, beq_iff_eq]
  intro l hl
  have h := divBySizeViaMul_of_corners hd hm he hc (show l ≤ maxLeft by omega) hmax
  rw [divBySizeViaMul, kDivMulShift] at h
  rw [h, Nat.mod_eq_of_lt (Nat.lt_of_le_of_lt (Nat.div_le_self _ _) (by omega))]

theorem scArray_corners :
    scArray.all (fun cs => 0 < cs && computeMulForDiv cs 35 < 2 ^ 32 &&
      2 ^ 35 ≤ computeMulForDiv cs 35 * cs &&
      decide (DivCorners cs (computeMulForDiv cs 35) kSuperPageSize)) = true := by
  decide

theorem divBySizeViaMul_of_isCorrect {d m maxLeft l : Nat}
    (h : isCorrectDivToMul d m kDivMulShift maxLeft = true) (hl : l ≤ maxLeft)
    (hmax : maxLeft < 2 ^ 32) : divBySizeViaMul l m = l / d := by
  rcases Nat.eq_zero_or_pos l with rfl | hl0
  · simp [divBySizeViaMul]
  · simp only [isCorrectDivToMul, List.all_eq_true, List.mem_range'_1, beq_iff_eq] at h
    rw [divBySizeViaMul, ← h l (by omega),
      Nat.mod_eq_of_lt (Nat.lt_of_le_of_lt (Nat.div_le_self _ _) (by omega))]

theorem isCorrectDivToMul_scArray {cs : Nat} (h : cs ∈ scArray) :
    isCorrectDivToMul cs (computeMulForDiv cs kDivMulShift) kDivMulShift kSuperPageSize = true := by
  have hc := List.all_eq_true.mp scArray_corners cs h
  simp only [Bool.and_eq_true, decide_eq_true_eq] at hc
  obtain ⟨⟨⟨h0, hm⟩, he⟩, hc⟩ := hc
  exact isCorrectDivToMul_of_corners h0 hm he hc (by decide)

-- ---------------------------------------------------------------------------
-- Every divisor up to 2^16, and every power of two
-- ---------------------------------------------------------------------------

theorem and_sub_one_eq_zero_iff {d : Nat} (hd : 0 < d) : d &&& (d - 1) = 0 ↔ ∃ k, d = 2 ^ k := by
  constructor
  · intro h
    have hlo := Nat.log2_self_le hd.ne'
    have hhi : d < 2 ^ d.log2 * 2 := Nat.pow_succ 2 _ ▸ Nat.lt_log2_self
    -- the top bit of `d` is also set in `d - 1` unless `d` is that bit alone
    have hbit : ∀ x, 2 ^ d.log2 ≤ x → x < 2 ^ d.log2 * 2 → x.testBit d.log2 = true := by
      intro x h1 h2
      obtain ⟨a, rfl⟩ : ∃ a, x = 2 ^ d.log2 + a := ⟨x - 2 ^ d.log2, by omega⟩
      rw [Nat.testBit_two_pow_add_eq, Nat.testBit_lt_two_pow (by omega), Bool.not_false]
    refine ⟨d.log2, Nat.le_antisymm ?_ hlo⟩
    by_contra hne
    have := congrArg (Nat.testBit · d.log2) h
    simp [hbit d hlo hhi, hbit (d - 1) (by omega) (by omega)] at this
  · rintro ⟨k, rfl⟩
    rw [Nat.and_pow_two_sub_one_eq_mod, Nat.mod_self]

/-- `ComputeMulForDiv(D, 35)` for `D ≥ 16`: `2^35 / D`, plus one unless `D` is a power of
two. Neither step wraps a `uint32_t`. -/
theorem computeMulForDiv_eq {d : Nat} (hd : 16 ≤ d) :
    computeMulForDiv d 35 = 2 ^ 35 / d + if d &&& (d - 1) ≠ 0 then 1 else 0 := by
  have hq : 2 ^ 35 / d ≤ 2 ^ 31 := (Nat.div_le_div_left hd (by decide)).trans (by decide)
  by_cases hp : d &&& (d - 1) = 0
  · simp only [computeMulForDiv, hp, ne_eq, not_true_eq_false, if_false, Nat.add_zero]
    exact Nat.mod_eq_of_lt (by omega)
  · simp only [computeMulForDiv, hp, ne_eq, not_false_eq_true, if_true]
    rw [Nat.mod_eq_of_lt (show 2 ^ 35 / d < 2 ^ 32 by omega),
      Nat.mod_eq_of_lt (show 2 ^ 35 / d + 1 < 2 ^ 32 by omega)]

theorem mul_shift_eq_div_of_error {d m k l : Nat} (he : 2 ^ k ≤ m * d)
    (h : l * (m * d - 2 ^ k) + l % d * 2 ^ k < d * 2 ^ k) : l * m / 2 ^ k = l / d := by
  apply mul_shift_eq_div he
  obtain ⟨e, hm⟩ : ∃ e, m * d = 2 ^ k + e := ⟨m * d - 2 ^ k, by omega⟩
  rw [hm, Nat.add_sub_cancel_left] at h ⊢
  have key : (l / d * e + l % d * m) * d = l * e + l % d * 2 ^ k :=
    calc (l / d * e + l % d * m) * d = d * (l / d) * e + l % d * (m * d) := by ring
      _ = (d * (l / d) + l % d) * e + l % d * 2 ^ k := by rw [hm]; ring
      _ = l * e + l % d * 2 ^ k := by rw [Nat.div_add_mod]
  exact Nat.lt_of_mul_lt_mul_right (by rw [key, Nat.mul_comm (2 ^ k)]; exact h)

theorem divBySizeViaMul_eq_div {d m l : Nat} (hm : m < 2 ^ 32) (hl : l < 2 ^ 32)
    (he : 2 ^ 35 ≤ m * d) (h : l * (m * d - 2 ^ 35) + l % d * 2 ^ 35 < d * 2 ^ 35) :
    divBySizeViaMul l m = l / d := by
  have hprod : l * m < wordBound :=
    calc l * m < 2 ^ 32 * 2 ^ 32 := Nat.mul_lt_mul'' hl hm
      _ = wordBound := by decide
  rw [divBySizeViaMul, Nat.mod_eq_of_lt hprod, Nat.shiftRight_eq_div_pow, kDivMulShift,
    mul_shift_eq_div_of_error he h, Nat.mod_eq_of_lt (Nat.lt_of_le_of_lt (Nat.div_le_self _ _) hl)]

/-- For every divisor `16 ≤ D ≤ 2^16`, and every power of two `16 ≤ D ≤ 2^19`,
`ComputeMulForDiv(D, 35)` fits in 32 bits and `DivBySizeViaMul` divides every `L ≤ 2^19`
by `D` exactly. A power of two gets the exact reciprocal; any other `D` a multiplier that
overshoots `2^35` by `D - 2^35 mod D < 2^16`, which `L ≤ 2^19` keeps below `2^35`. -/
theorem divBySizeViaMul_computeMulForDiv {d l : Nat} (hd : 16 ≤ d)
    (hD : d ≤ 65536 ∨ (∃ k, d = 2 ^ k) ∧ d ≤ 2 ^ 19) (hl : l ≤ 2 ^ 19) :
    computeMulForDiv d 35 < 2 ^ 32 ∧ divBySizeViaMul l (computeMulForDiv d 35) = l / d := by
  have hq : 2 ^ 35 / d ≤ 2 ^ 31 := (Nat.div_le_div_left hd (by decide)).trans (by decide)
  have hr : l % d < d := Nat.mod_lt _ (by omega)
  rw [computeMulForDiv_eq hd]
  by_cases hp : d &&& (d - 1) = 0
  · obtain ⟨k, rfl⟩ := (and_sub_one_eq_zero_iff (by omega)).1 hp
    have hk : k ≤ 35 := (Nat.pow_le_pow_iff_right (by decide)).1 (show 2 ^ k ≤ 2 ^ 35 by omega)
    have hexact : 2 ^ 35 / 2 ^ k * 2 ^ k = 2 ^ 35 := Nat.div_mul_cancel (Nat.pow_dvd_pow 2 hk)
    simp only [hp, ne_eq, not_true_eq_false, if_false, Nat.add_zero]
    refine ⟨by omega, divBySizeViaMul_eq_div (by omega) (by omega) hexact.ge ?_⟩
    rw [hexact, Nat.sub_self, Nat.mul_zero, Nat.zero_add]
    exact Nat.mul_lt_mul_of_pos_right hr (Nat.two_pow_pos 35)
  · have hpow : ¬ ∃ k, d = 2 ^ k := fun hk => hp ((and_sub_one_eq_zero_iff (by omega)).2 hk)
    have hmod : 2 ^ 35 % d ≠ 0 := fun h0 => hpow <|
      let ⟨j, _, hj⟩ := (Nat.dvd_prime_pow Nat.prime_two).1 (Nat.dvd_of_mod_eq_zero h0); ⟨j, hj⟩
    have hd16 : d ≤ 65536 := hD.resolve_right fun h => hpow h.1
    have hdm := Nat.div_add_mod (2 ^ 35) d
    have hlt := Nat.mod_lt (2 ^ 35) (show d > 0 by omega)
    have hmd : (2 ^ 35 / d + 1) * d = d * (2 ^ 35 / d) + d := by ring
    have hle : l * ((2 ^ 35 / d + 1) * d - 2 ^ 35) ≤ 2 ^ 19 * 65535 :=
      Nat.mul_le_mul hl (by omega)
    simp only [hp, ne_eq, not_false_eq_true, if_true]
    exact ⟨by omega, divBySizeViaMul_eq_div (by omega) (by omega) (by omega) (by omega)⟩

-- ---------------------------------------------------------------------------
-- InitAll
-- ---------------------------------------------------------------------------

theorem fixUp_exists (i : Fin kNumSizeClasses) : ∃ k,
    isCorrectDivToMul (scArray.get i + k * kSizeAlignmentForSecondRange)
      (computeMulForDiv (scArray.get i + k * kSizeAlignmentForSecondRange) kDivMulShift)
      kDivMulShift kSuperPageSize = true :=
  ⟨0, by simpa using isCorrectDivToMul_scArray (List.get_mem scArray i i.2)⟩

/-- `while (!IsCorrectDivToMul(...)) ChunkSize += kSizeAlignmentForSecondRange;` from
`SCArray[i]`: the least number of bumps the test accepts. -/
def fixUpSize (i : Fin kNumSizeClasses) : Nat :=
  scArray.get i + Nat.find (fixUp_exists i) * kSizeAlignmentForSecondRange

/-- The rest of `InitAll`'s loop body: the two `assert`s, the bit-fields, and the final
`IsCorrectDivToMul` check. `none` is a failed `assert` or a trap in `ComputeNumChunks`. -/
def initDescr (chunkSize : Nat) : Option SizeClassDescr :=
  if chunkSize % 16 = 0 ∧ chunkSize / 16 < 2 ^ 16 then
    let rangeNum := if chunkSize % kSizeAlignmentForSecondRange = 0 then 1 else 0
    (computeNumChunks chunkSize rangeNum).bind fun numChunks =>
      let mulDiv := computeMulForDiv chunkSize kDivMulShift
      if isCorrectDivToMul chunkSize mulDiv kDivMulShift kSuperPageSize then
        some ⟨rangeNum, numChunks % 2 ^ 15, chunkSize / 16 % 2 ^ 16, mulDiv⟩
      else none
  else none

/-- `SCDescr[i]` as `InitAll` leaves it; indices past the table read a zero descriptor. -/
def scDescr (i : Nat) : SizeClassDescr :=
  if h : i < kNumSizeClasses then (initDescr (fixUpSize ⟨i, h⟩)).getD ⟨0, 0, 0, 0⟩
  else ⟨0, 0, 0, 0⟩

/-- `SizeClassToSize(sc)`. -/
def sizeClassToSize (SCDescr : Nat → SizeClassDescr) (sc : Nat) : Nat := (SCDescr sc).chunkSize

/-- `SizeToSizeClass(Size, SCD)`: the class and the descriptor it copies into `SCD`. The
class is a `uint8_t`. -/
def sizeToSizeClass (SCDescr : Nat → SizeClassDescr) (size : Nat) : Nat × SizeClassDescr :=
  if size ≤ 256 then
    let sc := ((size + 15) / 16 + wordBound - 1) % wordBound % 256
    (sc, SCDescr sc)
  else
    match (List.range kNumSizeClasses).find? (fun idx => size ≤ (SCDescr idx).chunkSize) with
    | some idx => (idx, SCDescr idx)
    | none => (0, SCDescr 0)

-- ---------------------------------------------------------------------------
-- What InitAll guarantees
-- ---------------------------------------------------------------------------

theorem fixUpSize_eq (i : Fin kNumSizeClasses) : fixUpSize i = scArray.get i := by
  simp only [fixUpSize, Nat.add_right_eq_self, Nat.mul_eq_zero, Nat.find_eq_zero]
  left
  simpa using isCorrectDivToMul_scArray (List.get_mem scArray i i.2)

theorem computeNumChunks_loop_spec {cs r n m : Nat} (h : computeNumChunks.loop cs r n = some m) :
    0 < m ∧ m ≤ n ∧ sizeOfInlineMeta m r + m * cs ≤ kSuperPageSize := by
  induction n with
  | zero => simp [computeNumChunks.loop] at h
  | succ n ih =>
    simp only [computeNumChunks.loop] at h
    split at h
    · cases h
      exact ⟨by omega, le_refl _, ‹_›⟩
    · obtain ⟨h0, hle, hlay⟩ := ih h
      exact ⟨h0, by omega, hlay⟩

theorem computeNumChunks_loop_ge {cs r n m k : Nat} (h : computeNumChunks.loop cs r n = some m)
    (hk : k ≤ n) (hfit : sizeOfInlineMeta k r + k * cs ≤ kSuperPageSize) : k ≤ m := by
  induction n with
  | zero => simp [computeNumChunks.loop] at h
  | succ n ih =>
    simp only [computeNumChunks.loop] at h
    split at h
    · cases h; exact hk
    · rcases Nat.lt_or_ge k (n + 1) with hlt | hge
      · exact ih h (by omega)
      · obtain rfl : k = n + 1 := by omega
        contradiction

theorem computeNumChunks_loop_isSome {cs r n : Nat} (hn : 0 < n)
    (h1 : sizeOfInlineMeta 1 r + cs ≤ kSuperPageSize) :
    (computeNumChunks.loop cs r n).isSome := by
  induction n with
  | zero => omega
  | succ n ih =>
    simp only [computeNumChunks.loop]
    split
    · rfl
    · rcases Nat.eq_zero_or_pos n with rfl | hpos
      · simp_all
      · exact ih hpos

theorem le_roundUpTo_32 (n : Nat) (hn : n < 2 ^ 32) : n ≤ roundUpTo n kStateArrayAlignment := by
  rw [kStateArrayAlignment, show (32 : Nat) = 2 ^ 5 by rfl,
    roundUpTo_pow (by unfold wordBound; omega) (by omega)]
  have := Nat.div_add_mod (n + 2 ^ 5 - 1) (2 ^ 5)
  have := Nat.mod_lt (n + 2 ^ 5 - 1) (show 0 < 2 ^ 5 by decide)
  omega

/-- What `InitAll` guarantees of each descriptor it writes. -/
structure SizeClassDescr.Valid (d : SizeClassDescr) : Prop where
  chunkSize_ge : 16 ≤ d.chunkSize
  chunkSize_le : d.chunkSize ≤ kMaxSizeClass
  chunkSize_mod : d.chunkSize % 16 = 0
  rangeNum_eq : d.rangeNum = if d.chunkSize % kSizeAlignmentForSecondRange = 0 then 1 else 0
  numChunks_pos : 0 < d.numChunks
  layout : sizeOfInlineMeta d.numChunks d.rangeNum + d.numChunks * d.chunkSize ≤ kSuperPageSize
  div_eq : ∀ l ≤ kSuperPageSize, divBySizeViaMul l d.chunkSizeMulDiv = l / d.chunkSize

/-- A valid descriptor's state array, with the 8 bytes past it that `FindByte_PEXT` reads,
lies far below `2^64`. -/
theorem SizeClassDescr.Valid.numChunks_add_eight_le {d : SizeClassDescr} (hv : d.Valid) :
    d.numChunks + 8 ≤ wordBound := by
  have := hv.layout
  have := Nat.le_mul_of_pos_right d.numChunks (show 0 < d.chunkSize by have := hv.chunkSize_ge; omega)
  unfold kSuperPageSize at *; unfold wordBound; omega

theorem scArray_bounds :
    scArray.all (fun cs => cs % 16 == 0 && 16 ≤ cs && cs ≤ kMaxSizeClass) = true := by decide

theorem initDescr_valid {cs : Nat} (h : cs ∈ scArray) :
    ∃ d, initDescr cs = some d ∧ d.Valid ∧ d.chunkSize = cs ∧
      computeNumChunks.loop cs d.rangeNum (kSuperPageSize / cs) = some d.numChunks := by
  have hb := List.all_eq_true.mp scArray_bounds cs h
  simp only [Bool.and_eq_true, beq_iff_eq, decide_eq_true_eq] at hb
  obtain ⟨⟨h16, hge⟩, hle⟩ := hb
  have hmax : kMaxSizeClass = 262144 := rfl
  set r := if cs % kSizeAlignmentForSecondRange = 0 then 1 else 0 with hr
  have h1 : sizeOfInlineMeta 1 r + cs ≤ kSuperPageSize := by
    have : sizeOfInlineMeta 1 r ≤ 32 := by
      unfold sizeOfInlineMeta; split
      · omega
      · decide
    unfold kSuperPageSize; omega
  obtain ⟨n, hn⟩ := Option.isSome_iff_exists.mp
    (computeNumChunks_loop_isSome (n := kSuperPageSize / cs)
      (Nat.div_pos (by unfold kSuperPageSize; omega) (by omega)) h1)
  obtain ⟨hn0, -, hlay⟩ := computeNumChunks_loop_spec hn
  have hn15 : n < 2 ^ 15 := by
    have h16n : n * 16 ≤ n * cs := Nat.mul_le_mul_left _ hge
    unfold kSuperPageSize at hlay
    by_cases h1r : r = 1
    · have hc : cs % kSizeAlignmentForSecondRange = 0 := by
        by_contra hc
        simp [hr, hc] at h1r
      have hcs : n * 1024 ≤ n * cs :=
        Nat.mul_le_mul_left _ (by unfold kSizeAlignmentForSecondRange at hc; omega)
      omega
    · have hm : n ≤ sizeOfInlineMeta n r := by
        simp only [sizeOfInlineMeta, h1r, if_false]
        exact le_roundUpTo_32 n (by omega)
      omega
  have hmul := isCorrectDivToMul_scArray h
  refine ⟨⟨r, n, cs / 16, computeMulForDiv cs kDivMulShift⟩, ?_, ?_, ?_, hn⟩
  · simp only [initDescr, h16, true_and, show cs / 16 < 2 ^ 16 by omega, if_true,
      computeNumChunks, ← hr, hn, Option.some_bind, hmul, Nat.mod_eq_of_lt hn15,
      Nat.mod_eq_of_lt (show cs / 16 < 2 ^ 16 by omega)]
  · have hcs : (⟨r, n, cs / 16, computeMulForDiv cs kDivMulShift⟩ : SizeClassDescr).chunkSize
        = cs := by simp only [SizeClassDescr.chunkSize]; omega
    constructor <;> (try rw [hcs])
    · exact hge
    · exact hle
    · exact h16
    · exact hn0
    · exact hlay
    · exact fun l hl => divBySizeViaMul_of_isCorrect hmul hl (by decide)
  · simp only [SizeClassDescr.chunkSize]
    omega

theorem scDescr_valid {i : Nat} (h : i < kNumSizeClasses) :
    (scDescr i).Valid ∧ (scDescr i).chunkSize = scArray.get ⟨i, h⟩ := by
  obtain ⟨d, hd, hv, hcs, -⟩ := initDescr_valid (List.get_mem scArray i h)
  simp only [scDescr, h, dif_pos, fixUpSize_eq, hd, Option.getD_some]
  exact ⟨hv, hcs⟩

theorem le_scDescr_numChunks {i k : Nat} (h : i < kNumSizeClasses)
    (hk : k ≤ kSuperPageSize / scArray.get ⟨i, h⟩)
    (hfit : sizeOfInlineMeta k (scDescr i).rangeNum + k * scArray.get ⟨i, h⟩ ≤ kSuperPageSize) :
    k ≤ (scDescr i).numChunks := by
  obtain ⟨d, hd, -, -, hloop⟩ := initDescr_valid (List.get_mem scArray i h)
  have hs : scDescr i = d := by simp only [scDescr, h, dif_pos, fixUpSize_eq, hd, Option.getD_some]
  rw [hs] at hfit ⊢
  exact computeNumChunks_loop_ge hloop hk hfit

theorem two_le_scDescr_numChunks {i : Nat} (h : i < kNumSizeClasses) : 2 ≤ (scDescr i).numChunks := by
  obtain ⟨hv, hcs⟩ := scDescr_valid h
  have hge := hv.chunkSize_ge
  have hle := hv.chunkSize_le
  have hmod := hv.chunkSize_mod
  have hk : kMaxSizeClass = 262144 := rfl
  have hr := hv.rangeNum_eq
  rw [hcs] at hge hle hmod hr
  have hmeta : roundUpTo 2 kStateArrayAlignment = 32 := rfl
  refine le_scDescr_numChunks h ((Nat.le_div_iff_mul_le (by omega)).2 (by unfold kSuperPageSize; omega)) ?_
  unfold sizeOfInlineMeta kSuperPageSize
  unfold kSizeAlignmentForSecondRange at hr
  split <;> split at hr <;> omega

end MTMalloc

import Mathlib.Algebra.Group.Nat.Basic
import Mathlib.Data.Nat.Defs
import Mathlib.Logic.Function.Basic

/-!
# Layout constants and `size_t` helpers

The constants of `mtmalloc.h` that fix the address-space layout, the rounding helpers of
`mtmalloc_util.h`, and the ways a call can stop the process.

Addresses, sizes and words are `Nat`. The source computes on `size_t`/`uintptr_t`; where
it relies on wrap-around (`~x`, a subtraction that may go below zero, a sum that may pass
`2^64`) the model reduces modulo `2^64` explicitly, and `compl64` is `~x` on 64 bits.
-/

namespace MTMalloc

/-- Values of `size_t`, `uintptr_t` and `uint64_t` are below this bound. -/
def wordBound : Nat := 2 ^ 64

/-- `~x` on a 64-bit value. -/
def compl64 (x : Nat) : Nat := wordBound - 1 - x

def kSuperPageSize : Nat := 2 ^ 19
def kMaxThreads : Nat := 2 ^ 12
def kAllocatorSpace : Nat := 0x600000000000
def kAllocatorSize : Nat := 0x10000000000
def kPrimaryMetaSpace : Nat := 0x700000000000
def kPrimaryMetaSize : Nat := kAllocatorSize / kSuperPageSize
def kSecondRangeMeta : Nat := 0x710000000000
def kNumSizeClassRanges : Nat := 2
def kSizeAlignmentForSecondRange : Nat := 1024
def kSizeOfLocalQuarantine : Nat := 2 ^ 20
def kStateArrayAlignment : Nat := 32
def kDivMulShift : Nat := 35

/-- `kMeta[RangeNum]`: the first `SuperPageMetadata` byte of a range. -/
def kMeta (RangeNum : Nat) : Nat := kPrimaryMetaSpace + RangeNum * (kPrimaryMetaSize / 2)

/-- `kFirstSuperPage[RangeNum]`: each range owns one half of the region. -/
def kFirstSuperPage (RangeNum : Nat) : Nat := kAllocatorSpace + RangeNum * (kAllocatorSize / 2)

/-- `a - b` on `uintptr_t`: it wraps below zero. -/
def sub64 (a b : Nat) : Nat := (a % wordBound + wordBound - b % wordBound) % wordBound

/-- `RoundUpTo(size, boundary)`: `(size + boundary - 1) & ~(boundary - 1)` on `uintptr_t`. -/
def roundUpTo (size boundary : Nat) : Nat :=
  ((size + boundary + wordBound - 1) % wordBound) &&& compl64 (sub64 boundary 1)

/-- `RoundDownTo(x, boundary)`: `x & ~(boundary - 1)` on `uintptr_t`. -/
def roundDownTo (x boundary : Nat) : Nat := x &&& compl64 (sub64 boundary 1)

/-- How a call stops the process. Each ends in `__builtin_trap()` after printing. -/
inductive Fault
  /-- `TRAP()`, which prints the line it stands on. -/
  | trap
  /-- `ExchangeAndCheckForDoubleFree` found a state other than `USED_*`. -/
  | doubleFree
  /-- `RemoveAddressTagAndCheckForDoubleFree` found an address tag that is not the
  memory tag. -/
  | tagDoubleFree
  /-- `__mtm_access` found an address tag that is not the memory tag. -/
  | tagMismatch
  /-- An `assert` failed (the build keeps assertions). -/
  | assertion
  deriving DecidableEq, Repr

/-- The text the source prints before it traps (`%p` and `%x` stand for the operands). -/
def Fault.message : Fault → String
  | .trap => "TRAP %d"
  | .doubleFree => "DoubleFree on %p"
  | .tagDoubleFree => "ERROR: double-free %p"
  | .tagMismatch => "ERROR: address-memory-tag-mismatch %p %x %x"
  | .assertion => "Assertion failed"

-- ---------------------------------------------------------------------------
-- Masks with a power of two
-- ---------------------------------------------------------------------------

theorem testBit_compl64_pow_sub_one {k i : Nat} (hk : k ≤ 64) :
    (compl64 (2 ^ k - 1)).testBit i = decide (k ≤ i ∧ i < 64) := by
  have h : compl64 (2 ^ k - 1) = 2 ^ k * (2 ^ (64 - k) - 1) := by
    have hp : 2 ^ 64 = 2 ^ k * 2 ^ (64 - k) := by rw [← Nat.pow_add]; congr 1; omega
    have h1 : 1 ≤ 2 ^ k := Nat.one_le_two_pow
    simp only [compl64, wordBound, hp, Nat.mul_sub_one]
    omega
  rw [h, Nat.testBit_mul_pow_two, Nat.testBit_two_pow_sub_one]
  by_cases hi : k ≤ i
  · simp only [ge_iff_le, hi, decide_True, Bool.true_and, true_and, decide_eq_decide]
    omega
  · simp [hi]

/-- Clearing the low `k` bits of a 64-bit value rounds it down to a multiple of `2^k`. -/
theorem and_compl64_pow {x k : Nat} (hx : x < wordBound) (hk : k ≤ 64) :
    x &&& compl64 (2 ^ k - 1) = x / 2 ^ k * 2 ^ k := by
  apply Nat.eq_of_testBit_eq
  intro i
  rw [Nat.testBit_and, testBit_compl64_pow_sub_one hk, Nat.mul_comm, Nat.testBit_mul_pow_two,
    ← Nat.shiftRight_eq_div_pow, Nat.testBit_shiftRight]
  by_cases hi : k ≤ i
  · have hxi : i < 64 ∨ x.testBit i = false := by
      by_cases h64 : i < 64
      · exact .inl h64
      · exact .inr (Nat.testBit_lt_two_pow (Nat.lt_of_lt_of_le hx (Nat.pow_le_pow_right
          (by decide) (by omega))))
    rw [show k + (i - k) = i by omega]
    rcases hxi with h | h <;> simp [hi, h]
  · simp [hi]

theorem sub64_pow_one {k : Nat} (hk : k ≤ 64) : sub64 (2 ^ k) 1 = 2 ^ k - 1 := by
  have h1 : 1 ≤ 2 ^ k := Nat.one_le_two_pow
  have h2 : 2 ^ k ≤ 2 ^ 64 := Nat.pow_le_pow_right (by decide) hk
  unfold sub64 wordBound
  rcases Nat.lt_or_eq_of_le h2 with h | h
  · rw [Nat.mod_eq_of_lt h, show 2 ^ k + 2 ^ 64 - 1 % 2 ^ 64 = 2 ^ k - 1 + 2 ^ 64 by omega,
      Nat.add_mod_right, Nat.mod_eq_of_lt (by omega)]
  · rw [h, Nat.mod_self]
    rfl

theorem roundDownTo_pow {x k : Nat} (hx : x < wordBound) (hk : k ≤ 64) :
    roundDownTo x (2 ^ k) = x / 2 ^ k * 2 ^ k := by
  rw [roundDownTo, sub64_pow_one hk, and_compl64_pow hx hk]

theorem roundUpTo_pow {x k : Nat} (hx : x + 2 ^ k - 1 < wordBound) (hk : k ≤ 64) :
    roundUpTo x (2 ^ k) = (x + 2 ^ k - 1) / 2 ^ k * 2 ^ k := by
  have h1 : 1 ≤ 2 ^ k := Nat.one_le_two_pow
  rw [roundUpTo, show x + 2 ^ k + wordBound - 1 = x + 2 ^ k - 1 + wordBound by omega,
    Nat.add_mod_right, Nat.mod_eq_of_lt hx, sub64_pow_one hk, and_compl64_pow hx hk]

/-- A boundary of 0 wraps to the all-ones mask, whose complement clears every bit. -/
example : roundDownTo 4096 0 = 0 ∧ roundUpTo 4096 0 = 0 := by decide

-- ---------------------------------------------------------------------------
-- Bit fields
-- ---------------------------------------------------------------------------

theorem testBit_compl64 {y i : Nat} (hy : y < wordBound) :
    (compl64 y).testBit i = (decide (i < 64) && !y.testBit i) := by
  rw [compl64, wordBound, Nat.sub_sub, Nat.add_comm 1 y]
  exact Nat.testBit_two_pow_sub_succ hy i

/-- `(x & ~(m << k)) | (v << k)` with `m = 2^w - 1`: the `w`-bit field at bit `k` of the
64-bit value `x` replaced by `v`. -/
theorem setField_eq {x v k w : Nat} (hx : x < wordBound) (hkw : k + w ≤ 64) (hv : v < 2 ^ w) :
    (x &&& compl64 ((2 ^ w - 1) <<< k)) ||| (v <<< k) =
      2 ^ (k + w) * (x / 2 ^ (k + w)) + (2 ^ k * v + x % 2 ^ k) := by
  have hm : (2 ^ w - 1) <<< k < wordBound := by
    rw [Nat.shiftLeft_eq, wordBound]
    calc (2 ^ w - 1) * 2 ^ k < 2 ^ w * 2 ^ k :=
          Nat.mul_lt_mul_of_pos_right (Nat.sub_lt Nat.one_le_two_pow Nat.one_pos) (Nat.two_pow_pos k)
      _ = 2 ^ (w + k) := (Nat.pow_add 2 w k).symm
      _ ≤ 2 ^ 64 := Nat.pow_le_pow_right (by decide) (by omega)
  have hlow : 2 ^ k * v + x % 2 ^ k < 2 ^ (k + w) := by
    have h1 : x % 2 ^ k < 2 ^ k := Nat.mod_lt _ (Nat.two_pow_pos k)
    have h2 : 2 ^ k * v + 2 ^ k ≤ 2 ^ k * 2 ^ w := by
      rw [← Nat.mul_succ]; exact Nat.mul_le_mul_left _ hv
    rw [Nat.pow_add]; omega
  apply Nat.eq_of_testBit_eq
  intro i
  rw [Nat.testBit_or, Nat.testBit_and, testBit_compl64 hm, Nat.testBit_shiftLeft,
    Nat.testBit_shiftLeft, Nat.testBit_two_pow_sub_one, Nat.testBit_mul_pow_two_add _ hlow,
    ← Nat.shiftRight_eq_div_pow, Nat.testBit_shiftRight]
  by_cases hik : i < k
  · rw [if_pos (by omega), Nat.testBit_mul_pow_two_add _ (Nat.mod_lt _ (Nat.two_pow_pos k)),
      if_pos hik, Nat.testBit_mod_two_pow]
    simp [hik, show ¬ k ≤ i by omega, show i < 64 by omega]
  by_cases hikw : i < k + w
  · rw [if_pos hikw, Nat.testBit_mul_pow_two_add _ (Nat.mod_lt _ (Nat.two_pow_pos k)),
      if_neg hik]
    simp [show k ≤ i by omega, show i - k < w by omega]
  · rw [if_neg hikw, show k + w + (i - (k + w)) = i by omega]
    have hv' : v.testBit (i - k) = false := Nat.testBit_lt_two_pow
      (Nat.lt_of_lt_of_le hv (Nat.pow_le_pow_right (by decide) (by omega)))
    by_cases hi64 : i < 64
    · simp [hi64, show k ≤ i by omega, show ¬ i - k < w by omega, hv']
    · have hx' : x.testBit i = false := Nat.testBit_lt_two_pow
        (Nat.lt_of_lt_of_le hx (Nat.pow_le_pow_right (by decide) (by omega)))
      simp [hi64, hv', hx']

theorem toNat_uint8OfNat (n : Nat) : (UInt8.ofNat n).toNat = n % 256 := BitVec.toNat_ofNat n 8

theorem getField_eq (x k w : Nat) : (x >>> k) &&& (2 ^ w - 1) = x / 2 ^ k % 2 ^ w := by
  rw [Nat.shiftRight_eq_div_pow, Nat.and_pow_two_sub_one_eq_mod]

end MTMalloc

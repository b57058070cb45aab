import MTMalloc.Basic
import Mathlib.Data.List.Range

/-!
# Finding a zero state byte

`FindByte_Plain` and `FindByte_PEXT` of `mtmalloc.h`. Both offer the positions of `N`
bytes that hold `Value` to a callback, starting at a hint and wrapping around, and return
the first position the callback accepts.

`FindByte_PEXT` reads eight bytes at a time and gathers bit 0 of each with `_pext_u64`,
so a byte counts as zero when it is even: the allocator keeps every state other than
`AVAILABLE` odd for this. The callback runs in any monad (in `TryAllocate` it is a
compare-and-swap on the state array), so agreement of the two searches as monadic
programs says that they make the same calls in the same order and return the same.
-/

namespace MTMalloc

section Loops

variable {m : Type → Type} [Monad m]

/-- `Idx = I + Hint; if (Idx >= N) Idx -= N;`: iteration `i` of a search that starts at
`hint` and wraps at `n`. -/
def wrapIdx (n hint i : Nat) : Nat := if i + hint ≥ n then i + hint - n else i + hint

/-- Offer positions to `cb` in order; the first it accepts is the result. -/
def firstAccepted (cb : Nat → m Bool) : List Nat → m (Option Nat)
  | [] => pure none
  | p :: ps => cb p >>= fun found => if found then pure (some p) else firstAccepted cb ps

/-- The loop of `FindByte_Plain` from iteration `i`. -/
def findBytePlain.loop (bytes : Nat → UInt8) (value : UInt8) (n startPosHint : Nat)
    (cb : Nat → m Bool) (i : Nat) : m (Option Nat) :=
  if i < n then
    if bytes (wrapIdx n startPosHint i) = value then
      cb (wrapIdx n startPosHint i) >>= fun found =>
        if found then pure (some (wrapIdx n startPosHint i))
        else loop bytes value n startPosHint cb (i + 1)
    else loop bytes value n startPosHint cb (i + 1)
  else pure none
termination_by n - i

/-- `FindByte_Plain(Bytes, Value, N, StartPosHint, CB)`; `none` is the `-1` result. -/
def findBytePlain [MonadExceptOf Fault m] (bytes : Nat → UInt8) (value : UInt8) (n startPosHint : Nat)
    (cb : Nat → m Bool) : m (Option Nat) :=
  if startPosHint > n then throwThe Fault .trap
  else findBytePlain.loop bytes value n startPosHint cb 0

/-- `_pext_u64(x, mask)` on the low `k` bits: the bits of `x` where `mask` has a one,
packed from bit 0. -/
def pextGo : Nat → Nat → Nat → Nat
  | 0, _, _ => 0
  | k + 1, x, mask =>
    if mask % 2 = 1 then x % 2 + 2 * pextGo k (x / 2) (mask / 2)
    else pextGo k (x / 2) (mask / 2)

def pextU64 (x mask : Nat) : Nat := pextGo 64 x mask

/-- `__builtin_ctz(x)`: the index of the lowest set bit (`x ≠ 0`). -/
def ctz (x : Nat) : Nat :=
  if h : x = 0 ∨ x % 2 = 1 then 0 else ctz (x / 2) + 1
termination_by x
decreasing_by omega

/-- `*reinterpret_cast<uint64_t*>(&Bytes[Idx])`, little-endian. -/
def loadLE (bytes : Nat → UInt8) (idx : Nat) : Nat → Nat
  | 0 => 0
  | k + 1 => (bytes idx).toNat + 256 * loadLE bytes (idx + 1) k

/-- `Mask = (~_pext_u64(Tuple, 0x0101010101010101ULL)) & 0xFF` for the group at `idx`. -/
def zeroMask (bytes : Nat → UInt8) (idx : Nat) : Nat :=
  compl64 (pextU64 (loadLE bytes idx 8) 0x0101010101010101) &&& 0xFF

theorem ctz_testBit {x : Nat} (h : x ≠ 0) : x.testBit (ctz x) = true := by
  induction x using ctz.induct with
  | case1 x hx =>
    rw [ctz, dif_pos hx]
    simpa [h] using hx
  | case2 x hx ih =>
    rw [ctz, dif_neg hx, Nat.testBit_add_one]
    exact ih (by omega)

theorem testBit_lt_ctz {x j : Nat} (h : j < ctz x) : x.testBit j = false := by
  induction x using ctz.induct generalizing j with
  | case1 x hx => rw [ctz, dif_pos hx] at h; omega
  | case2 x hx ih =>
    rw [ctz, dif_neg hx] at h
    cases j with
    | zero => simp only [Nat.testBit_zero, decide_eq_false_iff_not]; omega
    | succ j => rw [Nat.testBit_add_one]; exact ih (by omega)

theorem testBit_compl64_two_pow {b j : Nat} (hb : b < 64) :
    (compl64 (2 ^ b)).testBit j = decide (j < 64 ∧ j ≠ b) := by
  have h : compl64 (2 ^ b) = 2 ^ (b + 1) * (2 ^ (63 - b) - 1) + (2 ^ b - 1) := by
    have hp : 2 ^ 64 = 2 ^ (b + 1) * 2 ^ (63 - b) := by rw [← Nat.pow_add]; congr 1; omega
    have h1 : 1 ≤ 2 ^ (63 - b) := Nat.one_le_two_pow
    have h2 : 2 ^ (b + 1) = 2 * 2 ^ b := by rw [Nat.pow_succ, Nat.mul_comm]
    simp only [compl64, wordBound, hp, Nat.mul_sub_one, h2]
    have h3 : 1 ≤ 2 ^ b := Nat.one_le_two_pow
    have h4 : 2 * 2 ^ b ≤ 2 * 2 ^ b * 2 ^ (63 - b) := Nat.le_mul_of_pos_right _ h1
    omega
  rw [h, Nat.testBit_mul_pow_two_add _
    (by have := @Nat.one_le_two_pow b; rw [Nat.pow_succ]; omega)]
  split
  · rw [Nat.testBit_two_pow_sub_one]
    simp only [decide_eq_decide]
    omega
  · rw [Nat.testBit_two_pow_sub_one]
    simp only [decide_eq_decide]
    omega

theorem and_compl64_two_pow_lt {mask b : Nat} (h : mask.testBit b = true) :
    mask &&& compl64 (2 ^ b) < mask := by
  have hle : mask &&& compl64 (2 ^ b) ≤ mask := Nat.and_le_left
  have hne : mask &&& compl64 (2 ^ b) ≠ mask := by
    intro he
    rcases Nat.lt_or_ge b 64 with hb | hb
    · have h2 := congrArg (Nat.testBit · b) he
      simp only [Nat.testBit_and, h, testBit_compl64_two_pow hb] at h2
      simp at h2
    · have h0 : compl64 (2 ^ b) = 0 := by
        have : 2 ^ 64 ≤ 2 ^ b := Nat.pow_le_pow_right (by decide) hb
        unfold compl64 wordBound; omega
      rw [h0, Nat.and_zero] at he
      rw [← he] at h
      simp at h
  omega

/-- The `while (Mask)` loop over one group of eight: `some Pos` is `return Pos`, `none`
is the `break` at `Pos >= N` or an empty mask. `__builtin_ctz` reads the low 32 bits of
`Mask`, which never exceeds `0xFF`. -/
def findBytePEXT.bits (n idx : Nat) (cb : Nat → m Bool) (mask : Nat) : m (Option Nat) :=
  if mask = 0 then pure none
  else
    let bitIdx := ctz mask
    let pos := idx + bitIdx
    if pos ≥ n then pure none
    else cb pos >>= fun found =>
      if found then pure (some pos) else bits n idx cb (mask &&& compl64 (2 ^ bitIdx))
termination_by mask
decreasing_by exact and_compl64_two_pow_lt (ctz_testBit ‹_›)

/-- The loop of `FindByte_PEXT` from `I = i`: one group of eight per iteration, starting
at the hint rounded down to a group and wrapping at `NRounded`. -/
def findBytePEXT.loop (bytes : Nat → UInt8) (n nRounded hint : Nat) (cb : Nat → m Bool)
    (i : Nat) : m (Option Nat) :=
  if i < n then
    bits n (wrapIdx nRounded hint i) cb (zeroMask bytes (wrapIdx nRounded hint i)) >>= fun r =>
      match r with
      | some pos => pure (some pos)
      | none => loop bytes n nRounded hint cb (i + 8)
  else pure none
termination_by n - i

/-- `FindByte_PEXT(Bytes, Value, N, StartPosHint, CB)`; `none` is the `-1` result. -/
def findBytePEXT [MonadExceptOf Fault m] (bytes : Nat → UInt8) (value : UInt8) (n startPosHint : Nat)
    (cb : Nat → m Bool) : m (Option Nat) :=
  if value ≠ 0 then throwThe Fault .assertion
  else
    let nRounded := roundUpTo n 8
    let hint := roundDownTo startPosHint 8
    if startPosHint > n then throwThe Fault .trap
    else findBytePEXT.loop bytes n nRounded hint cb 0

end Loops

-- ---------------------------------------------------------------------------
-- Both loops offer a list of candidates
-- ---------------------------------------------------------------------------

theorem filter_range'_eq_nil {p : Nat → Bool} {lo len : Nat}
    (h : ∀ b, lo ≤ b → b < lo + len → p b = false) : (List.range' lo len).filter p = [] :=
  List.filter_eq_nil_iff.mpr fun b hb => by
    rw [h b (List.mem_range'_1.1 hb).1 (List.mem_range'_1.1 hb).2]; exact Bool.false_ne_true

theorem filter_range'_congr {p q : Nat → Bool} {lo len : Nat}
    (h : ∀ b, lo ≤ b → b < lo + len → p b = q b) :
    (List.range' lo len).filter p = (List.range' lo len).filter q :=
  List.filter_congr fun b hb => h b (List.mem_range'_1.1 hb).1 (List.mem_range'_1.1 hb).2

section Candidates

variable {m : Type → Type} [Monad m] [LawfulMonad m]

/-- Continue with `k` when the first search found nothing. -/
def orElseFind (k : m (Option Nat)) : Option Nat → m (Option Nat)
  | some p => pure (some p)
  | none => k

theorem firstAccepted_append (cb : Nat → m Bool) (l₁ l₂ : List Nat) :
    firstAccepted cb (l₁ ++ l₂) = firstAccepted cb l₁ >>= orElseFind (firstAccepted cb l₂) := by
  induction l₁ with
  | nil => simp [firstAccepted, orElseFind]
  | cons p ps ih =>
    simp only [List.cons_append, firstAccepted, bind_assoc]
    congr 1
    funext found
    cases found <;> simp [ih, orElseFind]

omit [LawfulMonad m] in
theorem findBytePlain_loop_eq (bytes : Nat → UInt8) (value : UInt8) (n hint : Nat)
    (cb : Nat → m Bool) (i : Nat) :
    findBytePlain.loop bytes value n hint cb i =
      firstAccepted cb (((List.range' i (n - i)).map (wrapIdx n hint)).filter
        (fun p => bytes p = value)) := by
  obtain ⟨k, hk⟩ : ∃ k, n - i = k := ⟨_, rfl⟩
  induction k generalizing i with
  | zero => rw [findBytePlain.loop, if_neg (by omega), hk]; rfl
  | succ k ih =>
    have ih' := ih (i + 1) (by omega)
    rw [show n - (i + 1) = k by omega] at ih'
    rw [findBytePlain.loop, if_pos (by omega), hk, List.range'_succ, ih']
    by_cases hv : bytes (wrapIdx n hint i) = value <;> simp [hv, firstAccepted]

theorem testBit_and_compl64 {mask b j : Nat} (hb : b < 64) (hj : j < 64) :
    (mask &&& compl64 (2 ^ b)).testBit j = (mask.testBit j && decide (j ≠ b)) := by
  rw [Nat.testBit_and, testBit_compl64_two_pow hb]
  simp [hj]

omit [LawfulMonad m] in
theorem findBytePEXT_bits_eq (n idx : Nat) (cb : Nat → m Bool) (mask : Nat)
    (hmask : mask < 2 ^ 64) (lo : Nat) (hlo : ∀ j < lo, mask.testBit j = false) :
    findBytePEXT.bits n idx cb mask =
      firstAccepted cb (((List.range' lo (64 - lo)).filter
        (fun b => mask.testBit b && decide (idx + b < n))).map (idx + ·)) := by
  induction mask using Nat.strong_induction_on generalizing lo with
  | _ mask ih =>
  rw [findBytePEXT.bits]
  by_cases h0 : mask = 0
  · subst h0
    simp [firstAccepted]
  rw [if_neg h0]
  have hc := ctz_testBit h0
  have hclo : lo ≤ ctz mask := by
    by_contra hlt
    rw [hlo _ (by omega)] at hc
    exact absurd hc (by decide)
  have hc64 : ctz mask < 64 := by
    by_contra hge
    rw [Nat.testBit_lt_two_pow (Nat.lt_of_lt_of_le hmask
      (Nat.pow_le_pow_right (by decide) (by omega)))] at hc
    exact absurd hc (by decide)
  have hsplit : List.range' lo (64 - lo) =
      List.range' lo (ctz mask - lo) ++ ctz mask :: List.range' (ctz mask + 1) (63 - ctz mask) := by
    have h := List.range'_append_1 lo (ctz mask - lo) (64 - ctz mask)
    rw [show lo + (ctz mask - lo) = ctz mask by omega,
      show 64 - ctz mask + (ctz mask - lo) = 64 - lo by omega] at h
    rw [← h, show 64 - ctz mask = (63 - ctz mask) + 1 by omega, List.range'_succ]
  have hlow : (List.range' lo (ctz mask - lo)).filter
      (fun b => mask.testBit b && decide (idx + b < n)) = [] :=
    filter_range'_eq_nil fun b _ hb => by simp [testBit_lt_ctz (show b < ctz mask by omega)]
  rw [hsplit, List.filter_append, hlow, List.nil_append, List.filter_cons, hc, Bool.true_and]
  by_cases hn : idx + ctz mask ≥ n
  · have hhigh : (List.range' (ctz mask + 1) (63 - ctz mask)).filter
        (fun b => mask.testBit b && decide (idx + b < n)) = [] :=
      filter_range'_eq_nil fun b hb _ => by
        rw [decide_eq_false (show ¬ idx + b < n by omega), Bool.and_false]
    rw [if_pos hn, decide_eq_false (show ¬ idx + ctz mask < n by omega), hhigh]
    rfl
  · have hf : (List.range' (ctz mask + 1) (63 - ctz mask)).filter
          (fun b => (mask &&& compl64 (2 ^ ctz mask)).testBit b && decide (idx + b < n)) =
        (List.range' (ctz mask + 1) (63 - ctz mask)).filter
          (fun b => mask.testBit b && decide (idx + b < n)) :=
      filter_range'_congr fun b hb hb' => by
        rw [testBit_and_compl64 hc64 (by omega)]
        simp [show b ≠ ctz mask by omega]
    have ih' := ih _ (and_compl64_two_pow_lt hc)
      (Nat.lt_trans (and_compl64_two_pow_lt hc) hmask) (ctz mask + 1) (by
      intro j hj
      rw [Nat.testBit_and, testBit_compl64_two_pow hc64]
      rcases Nat.lt_or_ge j (ctz mask) with hj' | hj'
      · simp [testBit_lt_ctz hj']
      · simp [show j = ctz mask by omega])
    rw [show 64 - (ctz mask + 1) = 63 - ctz mask by omega, hf] at ih'
    rw [if_neg hn, decide_eq_true (show idx + ctz mask < n by omega)]
    simp only [if_true, List.map_cons, firstAccepted, ih']

-- ---------------------------------------------------------------------------
-- The gather: which bits of the mask are set
-- ---------------------------------------------------------------------------

/-- The number whose bit `b < k` is `f b`. -/
def hornerBits (f : Nat → Bool) : Nat → Nat
  | 0 => 0
  | k + 1 => (f 0).toNat + 2 * hornerBits (fun b => f (b + 1)) k

omit [Monad m] [LawfulMonad m] in
theorem testBit_hornerBits (f : Nat → Bool) (k b : Nat) :
    (hornerBits f k).testBit b = (decide (b < k) && f b) := by
  induction k generalizing f b with
  | zero => simp [hornerBits]
  | succ k ih =>
    cases b with
    | zero => cases h : f 0 <;> simp [hornerBits, h, Nat.add_mul_mod_self_left]
    | succ b =>
      rw [hornerBits, Nat.testBit_add_one]
      have : ((f 0).toNat + 2 * hornerBits (fun b => f (b + 1)) k) / 2 =
          hornerBits (fun b => f (b + 1)) k := by cases f 0 <;> simp; omega
      rw [this, ih]
      simp

omit [Monad m] [LawfulMonad m] in
theorem hornerBits_add_not (f : Nat → Bool) (k : Nat) :
    hornerBits f k + hornerBits (fun b => !f b) k = 2 ^ k - 1 := by
  induction k generalizing f with
  | zero => rfl
  | succ k ih =>
    have h := ih (fun b => f (b + 1))
    have hp : 1 ≤ 2 ^ k := Nat.one_le_two_pow
    simp only [hornerBits, Nat.pow_succ] at h ⊢
    cases f 0 <;> simp <;> omega

/-- `0x0101010101010101` with `k` bytes: bit 0 of each. -/
def byteLowBits : Nat → Nat
  | 0 => 0
  | k + 1 => 1 + 256 * byteLowBits k

omit [Monad m] [LawfulMonad m] in
theorem pextGo_skip (s k x mask : Nat) :
    pextGo (k + s) x (2 ^ s * mask) = pextGo k (x / 2 ^ s) mask := by
  induction s generalizing x with
  | zero => simp
  | succ s ih =>
    have h2 : 2 ^ (s + 1) * mask = 2 * (2 ^ s * mask) := by
      rw [Nat.pow_succ, Nat.mul_comm (2 ^ s) 2, Nat.mul_assoc]
    rw [← Nat.add_assoc, pextGo, h2, if_neg (by rw [Nat.mul_mod_right]; decide),
      Nat.mul_div_cancel_left _ (by decide), ih, Nat.div_div_eq_div_mul, Nat.mul_comm 2,
      ← Nat.pow_succ]

omit [Monad m] [LawfulMonad m] in
theorem pextGo_loadLE (bytes : Nat → UInt8) (k idx : Nat) :
    pextGo (8 * k) (loadLE bytes idx k) (byteLowBits k) =
      hornerBits (fun b => (bytes (idx + b)).toNat % 2 == 1) k := by
  induction k generalizing idx with
  | zero => rfl
  | succ k ih =>
    have hb : (bytes idx).toNat < 256 := (bytes idx).toNat_lt_size
    rw [show 8 * (k + 1) = (8 * k + 7) + 1 by omega, pextGo, byteLowBits,
      if_pos (by omega), show (1 + 256 * byteLowBits k) / 2 = 2 ^ 7 * byteLowBits k by omega,
      pextGo_skip, Nat.div_div_eq_div_mul, loadLE,
      show (bytes idx).toNat + 256 * loadLE bytes (idx + 1) k = (bytes idx).toNat + 256 * loadLE bytes (idx + 1) k from rfl,
      show ((bytes idx).toNat + 256 * loadLE bytes (idx + 1) k) / (2 * 2 ^ 7) =
        loadLE bytes (idx + 1) k by omega, ih, hornerBits]
    simp only [Nat.add_zero, Nat.add_comm idx, Nat.add_assoc, Nat.add_left_comm 1]
    congr 1
    · cases h : (bytes idx).toNat % 2 == 1 <;> simp_all <;> omega

theorem zeroMask_eq (bytes : Nat → UInt8) (idx : Nat) :
    zeroMask bytes idx = hornerBits (fun b => (bytes (idx + b)).toNat % 2 == 0) 8 := by
  have hsum := hornerBits_add_not (fun b => (bytes (idx + b)).toNat % 2 == 1) 8
  have hnot : (fun b => !((bytes (idx + b)).toNat % 2 == 1)) =
      (fun b => (bytes (idx + b)).toNat % 2 == 0) := by
    funext b
    rcases Nat.mod_two_eq_zero_or_one (bytes (idx + b)).toNat with h | h <;> simp [h]
  rw [hnot] at hsum
  rw [zeroMask, pextU64, show (64 : Nat) = 8 * 8 from rfl,
    show (0x0101010101010101 : Nat) = byteLowBits 8 from rfl, pextGo_loadLE,
    show (0xFF : Nat) = 2 ^ 8 - 1 from rfl, Nat.and_pow_two_sub_one_eq_mod, compl64, wordBound]
  omega

/-- The positions one group of eight offers: below `n`, holding an even byte. -/
def groupCands (bytes : Nat → UInt8) (n idx : Nat) : List Nat :=
  (List.range' idx 8).filter (fun p => decide (p < n) && (bytes p).toNat % 2 == 0)

omit [LawfulMonad m] in
theorem findBytePEXT_bits_zeroMask (bytes : Nat → UInt8) (n idx : Nat) (cb : Nat → m Bool) :
    findBytePEXT.bits n idx cb (zeroMask bytes idx) = firstAccepted cb (groupCands bytes n idx) := by
  have hlt : zeroMask bytes idx < 2 ^ 64 :=
    Nat.lt_of_le_of_lt Nat.and_le_right (by decide)
  have hr : List.range' idx 8 = (List.range' 0 8).map (idx + ·) := by
    rw [List.map_add_range', Nat.add_zero]
  rw [findBytePEXT_bits_eq n idx cb _ hlt 0 (by simp), zeroMask_eq, groupCands, hr,
    List.filter_map, Nat.sub_zero,
    show (64 : Nat) = 56 + 8 from rfl, ← List.range'_append_1 0 8 56]
  congr 1
  rw [List.filter_append, (filter_range'_eq_nil ?high :
    List.filter _ (List.range' (0 + 8) 56) = []), List.append_nil]
  · congr 1
    apply filter_range'_congr
    intro b _ hb
    simp [testBit_hornerBits, show b < 8 by omega, Bool.and_comm]
  case high =>
    intro b hb _
    simp [testBit_hornerBits, show ¬ b < 8 by omega]

theorem findBytePEXT_loop_eq (bytes : Nat → UInt8) (n nRounded hint : Nat) (cb : Nat → m Bool)
    (i : Nat) : findBytePEXT.loop bytes n nRounded hint cb i =
      firstAccepted cb ((List.range' i ((n - i + 7) / 8) 8).flatMap
        (fun j => groupCands bytes n (wrapIdx nRounded hint j))) := by
  obtain ⟨k, hk⟩ : ∃ k, (n - i + 7) / 8 = k := ⟨_, rfl⟩
  induction k generalizing i with
  | zero => rw [findBytePEXT.loop, if_neg (by omega), hk]; rfl
  | succ k ih =>
    have ih' := ih (i + 8) (by omega)
    rw [show (n - (i + 8) + 7) / 8 = k by omega] at ih'
    rw [findBytePEXT.loop, if_pos (by omega), hk, List.range'_succ, List.flatMap_cons,
      firstAccepted_append, findBytePEXT_bits_zeroMask, ← ih']
    congr 1

omit [Monad m] [LawfulMonad m] in
theorem map_wrapIdx_range' {len s : Nat} (hs : s ≤ len) :
    (List.range' 0 len).map (wrapIdx len s) = List.range' s (len - s) ++ List.range' 0 s := by
  have h := List.range'_append_1 0 (len - s) s
  rw [Nat.zero_add, show s + (len - s) = len by omega] at h
  rw [← h, List.map_append]
  congr 1
  · rw [List.map_congr_left (g := (s + ·)), List.map_add_range', Nat.add_zero]
    intro j hj
    rw [List.mem_range'_1] at hj
    simp only [wrapIdx]
    split <;> omega
  · rw [List.map_congr_left (g := (· - (len - s))), List.map_sub_range' _ _ _ (le_refl _),
      Nat.sub_self]
    intro j hj
    rw [List.mem_range'_1] at hj
    simp only [wrapIdx]
    split <;> omega

omit [Monad m] [LawfulMonad m] in
theorem add_le_of_dvd_of_lt {g x y : Nat} (hx : g ∣ x) (hy : g ∣ y) (hlt : x < y) : x + g ≤ y := by
  obtain ⟨p, rfl⟩ := hx
  obtain ⟨q, rfl⟩ := hy
  have hpq : p < q := Nat.lt_of_mul_lt_mul_left hlt
  calc g * p + g = g * (p + 1) := by rw [Nat.mul_succ]
    _ ≤ g * q := Nat.mul_le_mul_left _ hpq

omit [Monad m] [LawfulMonad m] in
theorem flatMap_groups {g a w nRounded hint : Nat} (ha : g ∣ a) (hh : g ∣ hint)
    (hn : g ∣ nRounded) :
    (List.range' a w g).flatMap (fun j => List.range' (wrapIdx nRounded hint j) g) =
      (List.range' a (g * w)).map (wrapIdx nRounded hint) := by
  induction w generalizing a with
  | zero => rfl
  | succ w ih =>
    rw [List.range'_succ, List.flatMap_cons, ih (Nat.dvd_add ha (Nat.dvd_refl g)), Nat.mul_succ,
      ← List.range'_append_1 a g (g * w), List.map_append]
    congr 1
    have hr : ∀ s, List.range' s g = (List.range' 0 g).map (s + ·) := fun s => by
      rw [List.map_add_range', Nat.add_zero]
    rw [hr, hr a, List.map_map]
    apply List.map_congr_left
    intro b hb
    rw [List.mem_range'_1] at hb
    -- `a + hint` and `nRounded` are multiples of `g`, so `a + b` wraps exactly when `a` does
    have hgap := fun h => add_le_of_dvd_of_lt (Nat.dvd_add ha hh) hn h
    simp only [Function.comp, wrapIdx, Nat.add_zero]
    split <;> split <;> omega

omit [Monad m] [LawfulMonad m] in
theorem mem_map_wrapIdx_range' {n h p : Nat} (hh : h ≤ n) :
    p ∈ (List.range' 0 n).map (wrapIdx n h) ↔ p < n := by
  rw [map_wrapIdx_range' hh, List.mem_append, List.mem_range'_1, List.mem_range'_1]
  omega

omit [Monad m] [LawfulMonad m] in
theorem even_eq_zero_of_zero_or_odd {b : UInt8} (hb : b = 0 ∨ b.toNat % 2 = 1) :
    (b.toNat % 2 == 0) = decide (b = 0) := by
  rcases hb with h | h
  · simp [h]
  · have : b ≠ 0 := fun h0 => by simp [h0] at h
    simp [h, this]

/-- The positions `FindByte_PEXT` offers, group by group. -/
def pextCands (bytes : Nat → UInt8) (n startPosHint : Nat) : List Nat :=
  (List.range' 0 ((n + 7) / 8) 8).flatMap
    (fun j => groupCands bytes n (wrapIdx (roundUpTo n 8) (roundDownTo startPosHint 8) j))

omit [Monad m] [LawfulMonad m] in
/-- Every position offered lies below `N`: the mask loop breaks at `Pos >= N`. -/
theorem lt_of_mem_pextCands {bytes : Nat → UInt8} {n startPosHint p : Nat}
    (hp : p ∈ pextCands bytes n startPosHint) : p < n := by
  simp only [pextCands, List.mem_flatMap, groupCands, List.mem_filter, Bool.and_eq_true,
    decide_eq_true_eq] at hp
  obtain ⟨_, _, _, hlt, _⟩ := hp
  exact hlt

theorem findBytePEXT_eq_firstAccepted [MonadExceptOf Fault m] (bytes : Nat → UInt8)
    {n startPosHint : Nat} (cb : Nat → m Bool) (hH : startPosHint ≤ n) :
    findBytePEXT bytes 0 n startPosHint cb = firstAccepted cb (pextCands bytes n startPosHint) := by
  simp only [findBytePEXT, ne_eq, not_true_eq_false, if_false,
    if_neg (show ¬ startPosHint > n by omega), findBytePEXT_loop_eq, Nat.sub_zero, pextCands]

omit [Monad m] [LawfulMonad m] in
/-- The groups of `FindByte_PEXT` list the same positions, in the same order, as the plain
rotation from the rounded-down hint. -/
theorem pextCands_eq_plainCands {bytes : Nat → UInt8} {n startPosHint : Nat}
    (hN : n + 8 ≤ wordBound) (hH : startPosHint ≤ n)
    (hb : ∀ p < n, bytes p = 0 ∨ (bytes p).toNat % 2 = 1) :
    pextCands bytes n startPosHint =
      ((List.range' 0 n).map (wrapIdx n (roundDownTo startPosHint 8))).filter
        (fun p => bytes p = 0) := by
  have hR : roundUpTo n 8 = 8 * ((n + 7) / 8) := by
    rw [show (8 : Nat) = 2 ^ 3 from rfl, roundUpTo_pow (by omega) (by decide)]; omega
  have hD : roundDownTo startPosHint 8 = startPosHint / 8 * 8 :=
    roundDownTo_pow (k := 3) (by unfold wordBound at *; omega) (by decide)
  have hsplit : List.range' (startPosHint / 8 * 8) (roundUpTo n 8 - startPosHint / 8 * 8) =
      List.range' (startPosHint / 8 * 8) (n - startPosHint / 8 * 8) ++
        List.range' n (roundUpTo n 8 - n) := by
    have h := List.range'_append_1 (startPosHint / 8 * 8) (n - startPosHint / 8 * 8)
      (roundUpTo n 8 - n)
    rw [show startPosHint / 8 * 8 + (n - startPosHint / 8 * 8) = n by omega,
      show roundUpTo n 8 - n + (n - startPosHint / 8 * 8) = roundUpTo n 8 - startPosHint / 8 * 8
        by omega] at h
    exact h.symm
  simp only [pextCands, groupCands, ← List.filter_flatMap]
  rw [flatMap_groups (Nat.dvd_zero 8) (Nat.dvd_of_mod_eq_zero (by omega))
    (Nat.dvd_of_mod_eq_zero (by omega)), ← hR, hD,
    map_wrapIdx_range' (by omega), map_wrapIdx_range' (by omega), hsplit,
    List.filter_append, List.filter_append, List.filter_append,
    (filter_range'_eq_nil ?high : List.filter _ (List.range' n _) = []), List.append_nil]
  · congr 1 <;> apply filter_range'_congr <;> intro p _ hp <;>
      simp [show p < n by omega, even_eq_zero_of_zero_or_odd (hb p (by omega))]
  case high =>
    intro p hp _
    simp [show ¬ p < n by omega]

/-- `FindByte_PEXT` agrees with `FindByte_Plain` from the rounded-down hint: both make the
same calls of `cb`, in the same order, and return the same position. The Nat positions
model the `size_t` ones while `RoundUpTo(N, 8)` does not wrap, which holds for the length
of every array. -/
theorem findBytePEXT_eq_findBytePlain [MonadExceptOf Fault m] (bytes : Nat → UInt8)
    (n startPosHint : Nat) (cb : Nat → m Bool) (hN : n + 8 ≤ wordBound)
    (hH : startPosHint ≤ n) (hb : ∀ p < n, bytes p = 0 ∨ (bytes p).toNat % 2 = 1) :
    findBytePEXT bytes 0 n startPosHint cb =
      findBytePlain bytes 0 n (roundDownTo startPosHint 8) cb := by
  have hD : roundDownTo startPosHint 8 ≤ startPosHint := by
    rw [show (8 : Nat) = 2 ^ 3 from rfl,
      roundDownTo_pow (by unfold wordBound at *; omega) (by decide)]
    omega
  rw [findBytePEXT_eq_firstAccepted _ _ hH, pextCands_eq_plainCands hN hH hb, findBytePlain,
    if_neg (show ¬ roundDownTo startPosHint 8 > n by omega), findBytePlain_loop_eq, Nat.sub_zero]

theorem firstAccepted_bind_congr {β : Type} (cb : Nat → m Bool) (l : List Nat)
    {g k : Option Nat → m β} (hnone : g none = k none)
    (hsome : ∀ p ∈ l, g (some p) = k (some p)) :
    firstAccepted cb l >>= g = firstAccepted cb l >>= k := by
  induction l with
  | nil => simpa [firstAccepted] using hnone
  | cons p ps ih =>
    simp only [firstAccepted, bind_assoc]
    congr 1
    funext found
    cases found
    · simpa using ih fun q hq => hsome q (List.mem_cons_of_mem p hq)
    · simpa using hsome p (List.mem_cons_self p ps)

theorem firstAccepted_pure (f : Nat → Bool) (l : List Nat) :
    firstAccepted (m := m) (fun p => pure (f p)) l = pure (l.find? f) := by
  induction l with
  | nil => rfl
  | cons p ps ih => cases h : f p <;> simp [firstAccepted, h, ih]

theorem findBytePlain_pure_spec [MonadExceptOf Fault m] (bytes : Nat → UInt8) (value : UInt8)
    (n startPosHint : Nat) (f : Nat → Bool) (hH : startPosHint ≤ n) :
    ∃ r, findBytePlain bytes value n startPosHint (fun p => (pure (f p) : m Bool)) = pure r ∧
      (r = none ↔ ∀ p < n, bytes p = value → f p = false) ∧
      ∀ p, r = some p → p < n ∧ bytes p = value ∧ f p = true := by
  refine ⟨_, by rw [findBytePlain, if_neg (by omega), findBytePlain_loop_eq, firstAccepted_pure],
    ?_, fun p hp => ?_⟩
  · rw [List.find?_eq_none]
    simp only [List.mem_filter, Nat.sub_zero, mem_map_wrapIdx_range' hH, decide_eq_true_eq,
      Bool.not_eq_true, and_imp]
  · have hmem := List.mem_of_find?_eq_some hp
    rw [List.mem_filter, Nat.sub_zero, mem_map_wrapIdx_range' hH, decide_eq_true_eq] at hmem
    exact ⟨hmem.1, hmem.2, List.find?_some hp⟩

end Candidates

-- ---------------------------------------------------------------------------
-- FindByte_AVX256
-- ---------------------------------------------------------------------------

section AVX256

variable {m : Type → Type} [Monad m]

/-- `_mm256_testn_epi8_mask(Tuple, Tuple)` on the 32 bytes at `idx`: bit `b` is set when
byte `idx + b` is zero. -/
def testnMask (bytes : Nat → UInt8) (idx : Nat) : Nat :=
  hornerBits (fun b => bytes (idx + b) = 0) 32

/-- The `while (Mask)` loop of `FindByte_AVX256` over one group of 32. Unlike
`FindByte_PEXT` it has no `Pos >= N` test. -/
def findByteAVX256.bits (idx : Nat) (cb : Nat → m Bool) (mask : Nat) : m (Option Nat) :=
  if mask = 0 then pure none
  else
    let bitIdx := ctz mask
    let pos := idx + bitIdx
    cb pos >>= fun found =>
      if found then pure (some pos) else bits idx cb (mask &&& compl64 (2 ^ bitIdx))
termination_by mask
decreasing_by exact and_compl64_two_pow_lt (ctz_testBit ‹_›)

/-- The loop of `FindByte_AVX256` from `I = i`: one group of 32 per iteration, while
`I < NRounded`, from the hint rounded down to a group. -/
def findByteAVX256.loop (bytes : Nat → UInt8) (nRounded hint : Nat) (cb : Nat → m Bool)
    (i : Nat) : m (Option Nat) :=
  if i < nRounded then
    bits (wrapIdx nRounded hint i) cb (testnMask bytes (wrapIdx nRounded hint i)) >>= fun r =>
      match r with
      | some pos => pure (some pos)
      | none => loop bytes nRounded hint cb (i + 32)
  else pure none
termination_by nRounded - i

/-- `FindByte_AVX256(Bytes, Value, N, StartPosHint, CB)`; `none` is the `-1` result. -/
def findByteAVX256 [MonadExceptOf Fault m] (bytes : Nat → UInt8) (value : UInt8)
    (n startPosHint : Nat) (cb : Nat → m Bool) : m (Option Nat) :=
  let nRounded := roundUpTo n 32
  if value ≠ 0 then throwThe Fault .assertion
  else if startPosHint > n then throwThe Fault .trap
  else findByteAVX256.loop bytes nRounded (roundDownTo startPosHint 32) cb 0

theorem findByteAVX256_bits_eq (idx : Nat) (cb : Nat → m Bool) (mask : Nat) (hmask : mask < 2 ^ 64) :
    findByteAVX256.bits idx cb mask = findBytePEXT.bits (idx + 64) idx cb mask := by
  induction mask using Nat.strong_induction_on with
  | _ mask ih =>
  rw [findByteAVX256.bits, findBytePEXT.bits]
  by_cases h0 : mask = 0
  · simp [h0]
  have hc64 : ctz mask < 64 := by
    by_contra hge
    have hc := ctz_testBit h0
    rw [Nat.testBit_lt_two_pow (Nat.lt_of_lt_of_le hmask
      (Nat.pow_le_pow_right (by decide) (by omega)))] at hc
    exact absurd hc (by decide)
  have hlt := and_compl64_two_pow_lt (ctz_testBit h0)
  simp only [if_neg h0, if_neg (show ¬ idx + ctz mask ≥ idx + 64 by omega),
    ih _ hlt (Nat.lt_trans hlt hmask)]

theorem findByteAVX256_bits_testnMask (bytes : Nat → UInt8) (idx : Nat) (cb : Nat → m Bool) :
    findByteAVX256.bits idx cb (testnMask bytes idx) =
      firstAccepted cb ((List.range' idx 32).filter fun p => bytes p = 0) := by
  have hlt : testnMask bytes idx < 2 ^ 64 := by
    have := hornerBits_add_not (fun b => decide (bytes (idx + b) = 0)) 32
    exact Nat.lt_of_le_of_lt (by unfold testnMask; omega) (by decide : 2 ^ 32 - 1 < 2 ^ 64)
  have hr : List.range' idx 32 = (List.range' 0 32).map (idx + ·) := by
    rw [List.map_add_range', Nat.add_zero]
  rw [findByteAVX256_bits_eq idx cb _ hlt, findBytePEXT_bits_eq _ idx cb _ hlt 0 (by simp), hr,
    List.filter_map, Nat.sub_zero, show (64 : Nat) = 32 + 32 from rfl,
    ← List.range'_append_1 0 32 32, List.filter_append,
    (filter_range'_eq_nil ?high : List.filter _ (List.range' (0 + 32) 32) = []),
    List.append_nil]
  · congr 2
    apply filter_range'_congr
    intro b _ hb
    simp [testnMask, testBit_hornerBits, show b < 32 by omega, show b < 64 by omega]
  case high =>
    intro b hb _
    simp [testnMask, testBit_hornerBits, show ¬ b < 32 by omega]

variable [LawfulMonad m]

theorem findByteAVX256_loop_eq (bytes : Nat → UInt8) (nRounded hint : Nat) (cb : Nat → m Bool)
    (i : Nat) : findByteAVX256.loop bytes nRounded hint cb i =
      firstAccepted cb ((List.range' i ((nRounded - i + 31) / 32) 32).flatMap
        (fun j => (List.range' (wrapIdx nRounded hint j) 32).filter fun p => bytes p = 0)) := by
  obtain ⟨k, hk⟩ : ∃ k, (nRounded - i + 31) / 32 = k := ⟨_, rfl⟩
  induction k generalizing i with
  | zero => rw [findByteAVX256.loop, if_neg (by omega), hk]; rfl
  | succ k ih =>
    have ih' := ih (i + 32) (by omega)
    rw [show (nRounded - (i + 32) + 31) / 32 = k by omega] at ih'
    rw [findByteAVX256.loop, if_pos (by omega), hk, List.range'_succ, List.flatMap_cons,
      firstAccepted_append, findByteAVX256_bits_testnMask, ← ih']
    congr 1

/-- `FindByte_AVX256` offers the zero bytes of the whole rounded array, in the rotation from
the hint rounded down to 32: the padding from `N` to `RoundUpTo(N, 32)` included. -/
theorem findByteAVX256_eq_firstAccepted [MonadExceptOf Fault m] (bytes : Nat → UInt8)
    {n startPosHint : Nat} (cb : Nat → m Bool) (hN : n + 32 ≤ wordBound) (hH : startPosHint ≤ n) :
    findByteAVX256 bytes 0 n startPosHint cb =
      firstAccepted cb (((List.range' 0 (roundUpTo n 32)).map
        (wrapIdx (roundUpTo n 32) (roundDownTo startPosHint 32))).filter fun p => bytes p = 0) := by
  have hR : roundUpTo n 32 = 32 * ((n + 31) / 32) := by
    rw [show (32 : Nat) = 2 ^ 5 from rfl, roundUpTo_pow (by omega) (by decide)]; omega
  have hD : roundDownTo startPosHint 32 = startPosHint / 32 * 32 :=
    roundDownTo_pow (k := 5) (by unfold wordBound at *; omega) (by decide)
  simp only [findByteAVX256, ne_eq, not_true_eq_false, if_false,
    if_neg (show ¬ startPosHint > n by omega), findByteAVX256_loop_eq, Nat.sub_zero,
    ← List.filter_flatMap]
  rw [show (roundUpTo n 32 + 31) / 32 = (n + 31) / 32 by omega,
    flatMap_groups (Nat.dvd_zero 32) (by rw [hD]; exact Nat.dvd_mul_left 32 _)
      (by rw [hR]; exact Nat.dvd_mul_right 32 _), ← hR]

omit [Monad m] [LawfulMonad m] in
theorem filter_rotation_padding {bytes : Nat → UInt8} {n nRounded hint : Nat} (hn : n ≤ nRounded)
    (hH : hint ≤ n) (hfull : ∀ p < n, bytes p ≠ 0) (hpad : ∀ p, n ≤ p → bytes p = 0) :
    ((List.range' 0 nRounded).map (wrapIdx nRounded hint)).filter (fun p => bytes p = 0) =
      List.range' n (nRounded - n) := by
  have hsplit := List.range'_append_1 hint (n - hint) (nRounded - n)
  rw [show hint + (n - hint) = n by omega, show nRounded - n + (n - hint) = nRounded - hint by omega]
    at hsplit
  have hlow : ∀ k, k ≤ n → (List.range' 0 k).filter (fun p => bytes p = 0) = [] ∧
      (List.range' hint (n - hint)).filter (fun p => bytes p = 0) = [] := fun k hk =>
    ⟨filter_range'_eq_nil fun p _ hp => by simpa using hfull p (by omega),
     filter_range'_eq_nil fun p _ hp => by simpa using hfull p (by omega)⟩
  have hhigh : (List.range' n (nRounded - n)).filter (fun p => bytes p = 0) =
      List.range' n (nRounded - n) :=
    List.filter_eq_self.mpr fun p hp => by
      rw [List.mem_range'_1] at hp; simpa using hpad p (by omega)
  rw [map_wrapIdx_range' (by omega), ← hsplit, List.filter_append, List.filter_append,
    (hlow hint hH).1, (hlow hint hH).2, hhigh, List.nil_append, List.append_nil]

/-- `FindByte_AVX256` has no `Pos >= N` test. When `N` is not a multiple of 32 and no byte
below `N` is zero, it offers the zero padding of the array: a callback that accepts every
position gets position `N` back, one past the array, where `FindByte_Plain` from the hint
rounded down to 32 offers nothing and returns `-1`. -/
theorem findByteAVX256_returns_padding (bytes : Nat → UInt8) (n startPosHint : Nat)
    (hN : n % 32 ≠ 0) (hW : n + 32 ≤ wordBound) (hH : startPosHint ≤ n)
    (hfull : ∀ p < n, bytes p ≠ 0) (hpad : ∀ p, n ≤ p → bytes p = 0) :
    findByteAVX256 bytes 0 n startPosHint (fun _ => (pure true : Except Fault Bool)) =
        .ok (some n) ∧
      findBytePlain bytes 0 n (roundDownTo startPosHint 32)
        (fun _ => (pure true : Except Fault Bool)) = .ok none := by
  have hR : roundUpTo n 32 = (n + 31) / 32 * 32 := by
    rw [show (32 : Nat) = 2 ^ 5 from rfl, roundUpTo_pow (by omega) (by decide)]; omega
  have hD : roundDownTo startPosHint 32 ≤ startPosHint := by
    rw [show (32 : Nat) = 2 ^ 5 from rfl,
      roundDownTo_pow (by unfold wordBound at *; omega) (by decide)]
    omega
  constructor
  · rw [findByteAVX256_eq_firstAccepted _ _ hW hH, firstAccepted_pure,
      @filter_rotation_padding bytes n (roundUpTo n 32) _ (by omega) (by omega) hfull hpad,
      show roundUpTo n 32 - n = (roundUpTo n 32 - n - 1) + 1 by omega, List.range'_succ]
    rfl
  · obtain ⟨r, hr, hnone, -⟩ := findBytePlain_pure_spec (m := Except Fault) bytes 0 n
      (roundDownTo startPosHint 32) (fun _ => true) (by omega)
    rw [hr, hnone.2 fun p hp h0 => absurd h0 (hfull p hp)]
    rfl

/-- The state array of a class with two chunks, both in use (state `1`), followed by thirty
bytes of zero padding: `FindByte_AVX256` from hint 0 hands the accepting callback position
2, past the array; `FindByte_Plain` returns `-1`. -/
theorem findByteAVX256_two_chunks_in_use :
    findByteAVX256 (fun p => if p < 2 then 1 else 0) 0 2 0
        (fun _ => (pure true : Except Fault Bool)) = .ok (some 2) ∧
      findBytePlain (fun p => if p < 2 then 1 else 0) 0 2 (roundDownTo 0 32)
        (fun _ => (pure true : Except Fault Bool)) = .ok none :=
  findByteAVX256_returns_padding _ 2 0 (by decide) (by decide) (by decide)
    (fun p hp => by simp [hp]) (fun p hp => by simp [show ¬ p < 2 by omega])

end AVX256

end MTMalloc

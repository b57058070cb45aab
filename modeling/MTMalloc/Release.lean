import MTMalloc.SuperPage
import Mathlib.Data.List.Pairwise

/-!
# Releasing a super page while other threads use it

`MaybeReleaseToOs` of `mtmalloc.h` as one thread runs it on a super page `X` while other
threads run `TryAllocate`, `Deallocate`, `Quarantine`, `Mark` and
`MoveFromQuarantineToAvailable` on `X`'s state bytes.

The atomic steps are those of the source. The releasing thread reads the bytes one by one
in `CountAvailable`, makes one weak compare-and-swap per byte (which may fail spuriously),
and in the revert loop loads a byte and then stores to it. `TryPos` is one
compare-and-swap. `ExchangeAndCheckForDoubleFree` is a load and a later store, and so is
`Mark`: between the two, other threads run. `MoveFromQuarantineToAvailable` rewrites a
byte in one step. A schedule names who moves next.

Runs without double frees are what matter: a free of a byte that is not `USED_*`, or of a
byte another thread is already freeing, is a step that does nothing.
-/

namespace MTMalloc.Release

open SuperPage

/-- Where the releasing thread is in `MaybeReleaseToOs`. -/
inductive RelPc where
  /-- `CountAvailable`: `i` state bytes read, `ava` of them `AVAILABLE`. -/
  | count (i ava : Nat)
  /-- The compare-and-swaps to `RELEASING`, at byte `i` with `numReadyToRelease` successes. -/
  | cas (i numReadyToRelease : Nat)
  /-- Every swap succeeded: `madvise(this, kSuperPageSize, MADV_DONTNEED)` is next. -/
  | madvise
  /-- Range 1, whose state bytes lie outside the page: the store of `AVAILABLE` to byte `i`. -/
  | reset (i : Nat)
  /-- The revert loop: the load of byte `i`. -/
  | revertLoad (i : Nat)
  /-- The revert loop: byte `i` was `RELEASING`; the store of `AVAILABLE` is next. -/
  | revertStore (i : Nat)
  | done
  deriving DecidableEq, Repr

/-- The state bytes of `X`, the releasing thread, the stores other threads have loaded for
and not made yet (thread, byte, value), and the first `NumChunks` state bytes as `madvise`
found them. -/
structure RelSys where
  bytes : Nat → UInt8
  pc : RelPc
  pending : List (Nat × Nat × UInt8)
  madvised : Option (List UInt8)

/-- One step of a schedule. -/
inductive Act where
  /-- The releasing thread's next step. -/
  | release
  /-- The releasing thread's weak compare-and-swap fails spuriously. -/
  | releaseFail
  /-- `TryPos(i)` of `TryAllocate`: `AVAILABLE` to `USED_DATA` or `USED_MIXED`. -/
  | tryAllocate (i : Nat) (dataOnly : Bool)
  /-- The load of `ExchangeAndCheckForDoubleFree` by thread `t`, for `Quarantine`'s
  `QUARANTINED` or for the `AVAILABLE` of `Deallocate` and of `Quarantine` with `UseTag`. -/
  | free (t i : Nat) (toQuarantine : Bool)
  /-- The load of `Mark` by thread `t`. -/
  | mark (t i : Nat)
  /-- The store thread `t` has loaded for. -/
  | store (t : Nat)
  /-- `MoveFromQuarantineToAvailable` on byte `i`. -/
  | move (i : Nat)
  deriving DecidableEq, Repr

namespace RelSys

/-- `MaybeReleaseToOs` about to start, nothing pending. -/
def init (bytes : Nat → UInt8) : RelSys := ⟨bytes, .count 0 0, [], none⟩

def setByte (s : RelSys) (i : Nat) (v : UInt8) : RelSys :=
  { s with bytes := Function.update s.bytes i v }

/-- Thread `t` has no store pending. -/
def Idle (s : RelSys) (t : Nat) : Prop := ∀ e ∈ s.pending, e.1 ≠ t

/-- No thread has a store pending to byte `i`. -/
def Unclaimed (s : RelSys) (i : Nat) : Prop := ∀ e ∈ s.pending, e.2.1 ≠ i

instance (s : RelSys) (t : Nat) : Decidable (s.Idle t) := List.decidableBAll _ _
instance (s : RelSys) (i : Nat) : Decidable (s.Unclaimed i) := List.decidableBAll _ _

/-- The releasing thread's next atomic step on a page of `n` chunks of range `rangeNum`;
`useAliases` is `Config.UseAliases`, under which the allocator's space is a shared mapping. -/
def release (useAliases : Bool) (n rangeNum : Nat) (s : RelSys) : RelSys :=
  match s.pc with
  | .count i ava =>
    if i < n then { s with pc := .count (i + 1) (if s.bytes i = available then ava + 1 else ava) }
    else if ava ≠ n then { s with pc := .done }
    else { s with pc := .cas 0 0 }
  | .cas i numReady =>
    if i < n then
      if s.bytes i = available then { s.setByte i releasing with pc := .cas (i + 1) (numReady + 1) }
      else { s with pc := .cas (i + 1) numReady }
    else if numReady = n then { s with pc := .madvise }
    else { s with pc := .revertLoad 0 }
  | .madvise =>
    let s := { s with madvised := some ((List.range n).map s.bytes) }
    -- range 0 keeps its state bytes in the page: `madvise` zero-fills a private mapping,
    -- and a shared one keeps its bytes
    if rangeNum = 1 then { s with pc := .reset 0 }
    else if useAliases then { s with pc := .done }
    else { s with bytes := fun j => if j < n then available else s.bytes j, pc := .done }
  | .reset i =>
    if i < n then { s.setByte i available with pc := .reset (i + 1) } else { s with pc := .done }
  | .revertLoad i =>
    if i < n then
      if s.bytes i = releasing then { s with pc := .revertStore i } else { s with pc := .revertLoad (i + 1) }
    else { s with pc := .done }
  | .revertStore i => { s.setByte i available with pc := .revertLoad (i + 1) }
  | .done => s

/-- One step of the schedule. -/
def step (useAliases : Bool) (n rangeNum : Nat) (s : RelSys) : Act → RelSys
  | .release => s.release useAliases n rangeNum
  | .releaseFail =>
    match s.pc with
    | .cas i numReady => if i < n then { s with pc := .cas (i + 1) numReady } else s
    | _ => s
  | .tryAllocate i dataOnly =>
    if i < n ∧ s.bytes i = available then s.setByte i (if dataOnly then usedData else usedMixed)
    else s
  | .free t i toQuarantine =>
    if i < n ∧ (s.bytes i = usedMixed ∨ s.bytes i = usedData) ∧ s.Idle t ∧ s.Unclaimed i then
      { s with pending := s.pending ++ [(t, i, if toQuarantine then quarantined else available)] }
    else s
  | .mark t i =>
    if i < n ∧ s.bytes i = quarantined ∧ s.Idle t then { s with pending := s.pending ++ [(t, i, marked)] }
    else s
  | .store t =>
    match s.pending.find? (·.1 = t) with
    | some (_, i, v) => { s.setByte i v with pending := s.pending.filter (·.1 ≠ t) }
    | none => s
  | .move i => if i < n then s.setByte i (moveState (s.bytes i)) else s

/-- The steps in the order the schedule names them. -/
def run (useAliases : Bool) (n rangeNum : Nat) (s : RelSys) (sched : List Act) : RelSys :=
  sched.foldl (step useAliases n rangeNum) s

end RelSys

namespace RelSys

@[simp] theorem setByte_bytes (s : RelSys) (i : Nat) (v : UInt8) (j : Nat) :
    (s.setByte i v).bytes j = if j = i then v else s.bytes j := Function.update_apply _ _ _ _
@[simp] theorem setByte_pc (s : RelSys) (i : Nat) (v : UInt8) : (s.setByte i v).pc = s.pc := rfl
@[simp] theorem setByte_pending (s : RelSys) (i : Nat) (v : UInt8) :
    (s.setByte i v).pending = s.pending := rfl

end RelSys

theorem RelSys.setByte_releasing {s : RelSys} {i : Nat} {v : UInt8} (hv : v ≠ releasing) {j : Nat}
    (h : (s.setByte i v).bytes j = releasing) : j ≠ i ∧ s.bytes j = releasing := by
  rw [RelSys.setByte_bytes] at h
  split at h
  · exact absurd h hv
  · exact ⟨‹_›, h⟩

@[simp] theorem RelSys.release_pending (s : RelSys) (useAliases : Bool) (n rangeNum : Nat) :
    (s.release useAliases n rangeNum).pending = s.pending := by
  unfold RelSys.release
  split <;> (repeat' split) <;> rfl

theorem moveState_eq_releasing {b : UInt8} : moveState b = releasing ↔ b = releasing := by
  unfold moveState
  by_cases hq : b = quarantined
  · subst hq; decide
  · by_cases hm : b = marked
    · subst hm; decide
    · simp only [hq, hm, if_false]

/-- What a step of a thread other than the releasing one does: nothing, when its guard fails,
or one of the steps of `TryPos`, the load of `ExchangeAndCheckForDoubleFree` or of `Mark`,
a pending store, or `MoveFromQuarantineToAvailable`. -/
inductive OtherStep (n : Nat) (s : RelSys) : Act → RelSys → Prop
  | stay (a : Act) : OtherStep n s a s
  | claim (i : Nat) (dataOnly : Bool) (hi : i < n) (ha : s.bytes i = available) :
    OtherStep n s (.tryAllocate i dataOnly) (s.setByte i (if dataOnly then usedData else usedMixed))
  | load (t i : Nat) (toQuarantine : Bool) (hi : i < n)
    (hu : s.bytes i = usedMixed ∨ s.bytes i = usedData) (ht : s.Idle t) (hc : s.Unclaimed i) :
    OtherStep n s (.free t i toQuarantine)
      { s with pending := s.pending ++ [(t, i, if toQuarantine then quarantined else available)] }
  | markLoad (t i : Nat) (hi : i < n) (hq : s.bytes i = quarantined) (ht : s.Idle t) :
    OtherStep n s (.mark t i) { s with pending := s.pending ++ [(t, i, marked)] }
  | store (t i : Nat) (v : UInt8) (he : (t, i, v) ∈ s.pending) :
    OtherStep n s (.store t) { s.setByte i v with pending := s.pending.filter (·.1 ≠ t) }
  | move (i : Nat) (hi : i < n) : OtherStep n s (.move i) (s.setByte i (moveState (s.bytes i)))

theorem RelSys.step_other {useAliases : Bool} {n rangeNum : Nat} {s : RelSys} {a : Act}
    (hr : a ≠ .release) (hf : a ≠ .releaseFail) : OtherStep n s a (RelSys.step useAliases n rangeNum s a) := by
  cases a with
  | release => exact absurd rfl hr
  | releaseFail => exact absurd rfl hf
  | tryAllocate i dataOnly =>
    simp only [RelSys.step]; split
    · next h => exact .claim i dataOnly h.1 h.2
    · exact .stay _
  | free t i toQuarantine =>
    simp only [RelSys.step]; split
    · next h => exact .load t i toQuarantine h.1 h.2.1 h.2.2.1 h.2.2.2
    · exact .stay _
  | mark t i =>
    simp only [RelSys.step]; split
    · next h => exact .markLoad t i h.1 h.2.1 h.2.2
    · exact .stay _
  | store t =>
    simp only [RelSys.step]; split
    · next t' i v hfind =>
      obtain rfl : t' = t := by simpa using List.find?_some hfind
      exact .store t' i v (List.mem_of_find?_eq_some hfind)
    · exact .stay _
  | move i =>
    simp only [RelSys.step]; split
    · next hi => exact .move i hi
    · exact .stay _

-- ---------------------------------------------------------------------------
-- No state byte is left `RELEASING`
-- ---------------------------------------------------------------------------

/-- The bytes at which `RELEASING` may stand while the releasing thread is at `pc`: none
before its swaps and once it is done; during the swaps those it has passed; during the
revert loop and the range-1 reset those it has not reached yet. -/
def mayHoldReleasing : RelPc → Nat → Bool
  | .count _ _, _ | .done, _ => false
  | .cas i _, j => j < i
  | .madvise, _ => true
  | .reset i, j | .revertLoad i, j | .revertStore i, j => i ≤ j

/-- Other threads never store `RELEASING`, and it stands only where `mayHoldReleasing`
allows. -/
def NoStray (n : Nat) (s : RelSys) : Prop :=
  (∀ e ∈ s.pending, e.2.2 ≠ releasing) ∧
    ∀ j < n, s.bytes j = releasing → mayHoldReleasing s.pc j = true

section NoStray

variable {useAliases : Bool} {n rangeNum : Nat}

theorem noStray_init {b : Nat → UInt8} (hb : ∀ j < n, b j ≠ releasing) : NoStray n (RelSys.init b) :=
  ⟨fun _ h => absurd h (List.not_mem_nil _), fun j hj h => absurd h (hb j hj)⟩

theorem NoStray.other {s s' : RelSys} (hs : NoStray n s) {a : Act} (h : OtherStep n s a s') :
    s'.pc = s.pc ∧ NoStray n s' := by
  obtain ⟨hp, hb⟩ := hs
  have happend : ∀ {t i : Nat} {v : UInt8}, v ≠ releasing →
      ∀ e ∈ s.pending ++ [(t, i, v)], e.2.2 ≠ releasing := fun hv e he => by
    rcases List.mem_append.1 he with he | he
    · exact hp e he
    · rw [List.mem_singleton.1 he]; exact hv
  cases h with
  | stay => exact ⟨rfl, hp, hb⟩
  | claim i dataOnly =>
    exact ⟨rfl, hp, fun j hj h => hb j hj (RelSys.setByte_releasing (by cases dataOnly <;> decide) h).2⟩
  | load t i toQuarantine => exact ⟨rfl, happend (by cases toQuarantine <;> decide), hb⟩
  | markLoad t i => exact ⟨rfl, happend (by decide), hb⟩
  | store t i v he =>
    exact ⟨rfl, fun e he' => hp e (List.mem_filter.1 he').1,
      fun j hj h => hb j hj (RelSys.setByte_releasing (hp _ he) h).2⟩
  | move i =>
    refine ⟨rfl, hp, fun j hj h => hb j hj ?_⟩
    rw [RelSys.setByte_bytes] at h
    split at h
    · subst_vars; exact moveState_eq_releasing.1 h
    · exact h

/-- The releasing thread's steps keep `RELEASING` inside its window, where `madvise` either
zero-fills the state bytes (range 0 in a private mapping) or the range-1 reset follows. -/
theorem NoStray.release {s : RelSys} (hz : rangeNum = 1 ∨ useAliases = false) (hs : NoStray n s) :
    NoStray n (s.release useAliases n rangeNum) := by
  obtain ⟨hp, hb⟩ := hs
  refine ⟨(RelSys.release_pending s useAliases n rangeNum).symm ▸ hp, ?_⟩
  rcases hpc : s.pc with ⟨i, ava⟩ | ⟨i, numReady⟩ | _ | i | i | i | _ <;>
    simp only [RelSys.release, hpc] <;> rw [hpc] at hb
  · -- count
    split
    · exact hb
    · split <;> exact hb
  · -- cas
    split
    · split
      · intro j hj h
        rw [RelSys.setByte_bytes] at h
        split at h
        · subst_vars; simp [mayHoldReleasing]
        · have := hb j hj h; simp only [mayHoldReleasing, decide_eq_true_eq] at this ⊢; omega
      · intro j hj h
        have := hb j hj h; simp only [mayHoldReleasing, decide_eq_true_eq] at this ⊢; omega
    · split <;> intro j _ _ <;> simp [mayHoldReleasing]
  · -- madvise
    split
    · intro j _ _; simp [mayHoldReleasing]
    · split
      · next h1 ha => exact absurd hz (by simp [h1, ha])
      · intro j hj h
        simp only [if_pos hj] at h
        exact absurd h (by decide)
  · -- reset
    split
    · intro j hj h
      obtain ⟨hji, h⟩ := RelSys.setByte_releasing (by decide) h
      have := hb j hj h; simp only [mayHoldReleasing, decide_eq_true_eq] at this ⊢; omega
    · intro j hj h
      have := hb j hj h; simp only [mayHoldReleasing, decide_eq_true_eq] at this; omega
  · -- revertLoad
    split
    · split
      · exact hb
      · rename_i hi
        intro j hj h
        have := hb j hj h
        have hji : j ≠ i := fun e => hi (e ▸ h)
        simp only [mayHoldReleasing, decide_eq_true_eq] at this ⊢; omega
    · intro j hj h
      have := hb j hj h; simp only [mayHoldReleasing, decide_eq_true_eq] at this; omega
  · -- revertStore
    intro j hj h
    obtain ⟨hji, h⟩ := RelSys.setByte_releasing (by decide) h
    have := hb j hj h; simp only [mayHoldReleasing, decide_eq_true_eq] at this ⊢; omega
  · exact hb

theorem NoStray.step {s : RelSys} (hz : rangeNum = 1 ∨ useAliases = false) (hs : NoStray n s)
    (a : Act) : NoStray n (RelSys.step useAliases n rangeNum s a) := by
  by_cases hr : a = .release
  · subst hr; exact hs.release hz
  by_cases hf : a = .releaseFail
  · subst hf
    obtain ⟨hp, hb⟩ := hs
    simp only [RelSys.step]
    split
    · rename_i i numReady hpc
      split
      · refine ⟨hp, fun j hj h => ?_⟩
        have := hb j hj h; rw [hpc] at this
        simp only [mayHoldReleasing, decide_eq_true_eq] at this ⊢; omega
      · exact ⟨hp, hb⟩
    · exact ⟨hp, hb⟩
  exact (hs.other (RelSys.step_other hr hf)).2

theorem NoStray.run {s : RelSys} (hz : rangeNum = 1 ∨ useAliases = false) (hs : NoStray n s)
    (sched : List Act) : NoStray n (RelSys.run useAliases n rangeNum s sched) := by
  induction sched generalizing s with
  | nil => exact hs
  | cons a sched ih => exact ih (hs.step hz a)

end NoStray

/-- Two chunks: the first `QUARANTINED`, the second `AVAILABLE`. -/
def quarantinedThenAvailable : Nat → UInt8 := fun i => if i = 0 then quarantined else available

/-- A marker (thread 1) loads chunk 0 as `QUARANTINED`; `MoveFromQuarantineToAvailable` makes
it `AVAILABLE`; the releasing thread counts two `AVAILABLE` chunks and swaps both to
`RELEASING`; the marker's store of `MARKED` lands; the releasing thread finishes. -/
def markRace : List Act :=
  [.mark 1 0, .move 0, .release, .release, .release, .release, .release, .store 1, .release,
    .release, .release, .release, .release]

/-- Over every interleaving, from state bytes none of which is `RELEASING`: once
`MaybeReleaseToOs` is done, none of the super page's state bytes is `RELEASING`. For range 0
this rests on `madvise` zero-filling the state bytes inside the page, which it does in the
private mapping of a build without `UseAliases`. -/
theorem maybeReleaseToOs_leaves_no_releasing (useAliases : Bool) (n rangeNum : Nat)
    (b : Nat → UInt8) (sched : List Act) (hz : rangeNum = 1 ∨ useAliases = false)
    (hb : ∀ j < n, b j ≠ releasing)
    (hdone : (RelSys.run useAliases n rangeNum (RelSys.init b) sched).pc = .done) :
    ∀ j < n, (RelSys.run useAliases n rangeNum (RelSys.init b) sched).bytes j ≠ releasing := by
  intro j hj h
  have hm := ((noStray_init hb).run hz sched).2 j hj h
  rw [hdone] at hm
  exact Bool.false_ne_true hm

/-- The marker's race below, with aliases and range 1: no state byte is left `RELEASING`. -/
theorem maybeReleaseToOs_leaves_no_releasing_markRace :
    ((1 : Nat) = 1 ∨ true = false) ∧ (∀ j < 2, quarantinedThenAvailable j ≠ releasing) ∧
      (RelSys.run true 2 1 (RelSys.init quarantinedThenAvailable) markRace).pc = .done ∧
      ∀ j < 2, (RelSys.run true 2 1 (RelSys.init quarantinedThenAvailable) markRace).bytes j ≠ releasing :=
  ⟨Or.inl rfl, by decide, by decide,
    maybeReleaseToOs_leaves_no_releasing true 2 1 _ _ (Or.inl rfl) (by decide) (by decide)⟩

/-- In range 0 of a shared mapping the state bytes keep `RELEASING` once the page is
released, so its chunks are never handed out again. -/
example : (RelSys.run true 2 0 (RelSys.init fun _ => available) (List.replicate 7 .release)).pc = .done ∧
    (RelSys.run true 2 0 (RelSys.init fun _ => available) (List.replicate 7 .release)).bytes 0 =
      releasing := by
  decide

-- ---------------------------------------------------------------------------
-- Without Mark, madvise finds only RELEASING bytes
-- ---------------------------------------------------------------------------

/-- What the releasing thread's swaps guarantee at `pc`: while every swap so far has
succeeded, the bytes passed are `RELEASING`; `madvise` comes only after all of them; the
range-1 reset and the revert store meet `RELEASING` where they write. -/
def Swapped (n : Nat) (s : RelSys) : Prop :=
  match s.pc with
  | .cas i numReady => i ≤ n ∧ numReady ≤ i ∧ (numReady = i → ∀ j < i, s.bytes j = releasing)
  | .madvise => ∀ j < n, s.bytes j = releasing
  | .reset i => ∀ j < n, i ≤ j → s.bytes j = releasing
  | .revertStore i => s.bytes i = releasing
  | _ => True

/-- The invariant of runs without `Mark`: the stores other threads have loaded for go to
distinct chunks of the page that are in use; the swaps hold; and `madvise`, if it ran, found
every state byte `RELEASING`. -/
structure Safe (n : Nat) (s : RelSys) : Prop where
  pending_used : ∀ e ∈ s.pending, e.2.1 < n ∧ (s.bytes e.2.1 = usedMixed ∨ s.bytes e.2.1 = usedData)
  pending_distinct : s.pending.Pairwise (fun e e' => e.2.1 ≠ e'.2.1)
  swapped : Swapped n s
  madvised : ∀ l, s.madvised = some l → l = List.replicate n releasing

section Safe

variable {useAliases : Bool} {n rangeNum : Nat}

theorem used_ne_releasing {v : UInt8} (h : v = usedMixed ∨ v = usedData) : v ≠ releasing := by
  rcases h with rfl | rfl <;> decide

theorem used_ne_available {v : UInt8} (h : v = usedMixed ∨ v = usedData) : v ≠ available := by
  rcases h with rfl | rfl <;> decide

theorem safe_init (b : Nat → UInt8) : Safe n (RelSys.init b) :=
  ⟨fun _ h => absurd h (List.not_mem_nil _), List.Pairwise.nil, trivial,
    fun _ h => Option.noConfusion h⟩

theorem Safe.unclaimed {s : RelSys} (hs : Safe n s) {i : Nat} (hi : s.bytes i = releasing) :
    ∀ e ∈ s.pending, e.2.1 ≠ i := fun e he h =>
  used_ne_releasing (hs.pending_used e he).2 (h ▸ hi)

theorem Safe.pending_used_setByte {s : RelSys} (hs : Safe n s) {i : Nat} {v : UInt8}
    (hi : ∀ e ∈ s.pending, e.2.1 ≠ i) :
    ∀ e ∈ s.pending, e.2.1 < n ∧ ((s.setByte i v).bytes e.2.1 = usedMixed ∨
      (s.setByte i v).bytes e.2.1 = usedData) := fun e he => by
  rw [RelSys.setByte_bytes, if_neg (hi e he)]
  exact hs.pending_used e he

theorem Swapped.keep {s s' : RelSys} (hsw : Swapped n s) (hpc : s'.pc = s.pc)
    (hkeep : ∀ j, s.bytes j = releasing → s'.bytes j = releasing) : Swapped n s' := by
  unfold Swapped at hsw ⊢
  rw [hpc]
  split
  · next hpc' => rw [hpc'] at hsw; exact ⟨hsw.1, hsw.2.1, fun h j hj => hkeep j (hsw.2.2 h j hj)⟩
  · next hpc' => rw [hpc'] at hsw; exact fun j hj => hkeep j (hsw j hj)
  · next hpc' => rw [hpc'] at hsw; exact fun j hj hij => hkeep j (hsw j hj hij)
  · next hpc' => rw [hpc'] at hsw; exact hkeep _ hsw
  · trivial

/-- A step of another thread other than `Mark`'s load keeps the invariant: it leaves every
`RELEASING` byte as it is. -/
theorem Safe.other {s s' : RelSys} (hs : Safe n s) {a : Act} (h : OtherStep n s a s')
    (hm : ∀ t i, a ≠ .mark t i) : Safe n s' := by
  -- every `RELEASING` byte stays, and the releasing thread stays where it is
  suffices hstep : s'.pc = s.pc ∧ s'.madvised = s.madvised ∧
      (∀ j, s.bytes j = releasing → s'.bytes j = releasing) ∧
      (∀ e ∈ s'.pending, e.2.1 < n ∧ (s'.bytes e.2.1 = usedMixed ∨ s'.bytes e.2.1 = usedData)) ∧
      s'.pending.Pairwise (fun e e' => e.2.1 ≠ e'.2.1) by
    obtain ⟨hpc, hmad, hkeep, hused, hdist⟩ := hstep
    exact ⟨hused, hdist, hs.swapped.keep hpc hkeep, hmad ▸ hs.madvised⟩
  cases h with
  | stay => exact ⟨rfl, rfl, fun _ hj => hj, hs.pending_used, hs.pending_distinct⟩
  | markLoad t i => exact absurd rfl (hm t i)
  | claim i dataOnly _ ha =>
    have hi : ∀ e ∈ s.pending, e.2.1 ≠ i := fun e he hei =>
      used_ne_available (hs.pending_used e he).2 (hei ▸ ha)
    refine ⟨rfl, rfl, fun j hj => ?_, hs.pending_used_setByte hi, hs.pending_distinct⟩
    have hji : j ≠ i := fun hji => absurd ((hji ▸ hj).symm.trans ha) (by decide)
    rw [RelSys.setByte_bytes, if_neg hji]
    exact hj
  | load t i toQuarantine hi hu _ hc =>
    refine ⟨rfl, rfl, fun _ hj => hj, fun e he => ?_, ?_⟩
    · rcases List.mem_append.1 he with he | he
      · exact hs.pending_used e he
      · rw [List.mem_singleton.1 he]; exact ⟨hi, hu⟩
    · rw [List.pairwise_append]
      refine ⟨hs.pending_distinct, List.pairwise_singleton _ _, fun e he e' he' => ?_⟩
      rw [List.mem_singleton.1 he']
      exact hc e he
  | store t i v he₀ =>
    have hused := hs.pending_used _ he₀
    refine ⟨rfl, rfl, fun j hj => ?_, fun e he => ?_, List.Pairwise.filter _ hs.pending_distinct⟩
    · have hji : j ≠ i := fun hji => used_ne_releasing hused.2 (hji ▸ hj)
      rw [RelSys.setByte_bytes, if_neg hji]
      exact hj
    · obtain ⟨he, het⟩ := List.mem_filter.1 he
      have hne : e ≠ (t, i, v) := fun h => by subst h; simp at het
      have hei : e.2.1 ≠ i :=
        List.Pairwise.forall (fun _ _ h => Ne.symm h) hs.pending_distinct he he₀ hne
      rw [RelSys.setByte_bytes, if_neg hei]
      exact hs.pending_used e he
  | move i =>
    have hfix : ∀ e ∈ s.pending, e.2.1 = i → moveState (s.bytes i) = s.bytes i := fun e he hei => by
      obtain ⟨-, hu⟩ := hs.pending_used e he
      rw [hei] at hu
      rcases hu with hu | hu <;> rw [hu] <;> decide
    refine ⟨rfl, rfl, fun j hj => ?_, fun e he => ?_, hs.pending_distinct⟩
    · rw [RelSys.setByte_bytes]
      split
      · subst_vars; rw [hj]; decide
      · exact hj
    · rw [RelSys.setByte_bytes]
      split
      · next hei => rw [hei, hfix e he hei, ← hei]; exact hs.pending_used e he
      · exact hs.pending_used e he

theorem Safe.withPc {s : RelSys} (hs : Safe n s) {pc : RelPc} (hsw : Swapped n { s with pc := pc }) :
    Safe n { s with pc := pc } :=
  ⟨hs.pending_used, hs.pending_distinct, hsw, hs.madvised⟩

theorem Safe.setByteWithPc {s : RelSys} (hs : Safe n s) {i : Nat} {v : UInt8} {pc : RelPc}
    (hi : ∀ e ∈ s.pending, e.2.1 ≠ i) (hsw : Swapped n { s.setByte i v with pc := pc }) :
    Safe n { s.setByte i v with pc := pc } :=
  ⟨hs.pending_used_setByte hi, hs.pending_distinct, hsw, hs.madvised⟩

/-- The releasing thread's steps keep the invariant: a swap that succeeds extends the run of
`RELEASING` bytes, `madvise` comes only after `NumChunks` successes, and the reset and the
revert write only to `RELEASING` bytes, to which no store is pending. -/
theorem Safe.release {s : RelSys} (hs : Safe n s) : Safe n (s.release useAliases n rangeNum) := by
  have hsw := hs.swapped
  unfold Swapped at hsw
  rcases hpc : s.pc with ⟨i, ava⟩ | ⟨i, numReady⟩ | _ | i | i | i | _ <;>
    simp only [RelSys.release, hpc] <;> rw [hpc] at hsw
  · -- count
    split
    · exact hs.withPc trivial
    · split
      · exact hs.withPc trivial
      · exact hs.withPc ⟨Nat.zero_le n, le_refl 0, fun _ j hj => absurd hj (Nat.not_lt_zero j)⟩
  · -- cas
    obtain ⟨hin, hri, hall⟩ := hsw
    split
    · split
      · next hi ha =>
        refine hs.setByteWithPc (fun e he hei => used_ne_available (hs.pending_used e he).2 (hei ▸ ha))
          ⟨hi, by omega, fun hr j hj => ?_⟩
        show (s.setByte i releasing).bytes j = releasing
        rw [RelSys.setByte_bytes]
        split
        · rfl
        · exact hall (by omega) j (by omega)
      · exact hs.withPc ⟨by omega, by omega, fun hr => absurd hr (by omega)⟩
    · split
      · exact hs.withPc (fun j hj => hall (by omega) j (by omega))
      · exact hs.withPc trivial
  · -- madvise
    have hmad : ∀ l, some ((List.range n).map s.bytes) = some l → l = List.replicate n releasing :=
      fun l hl => by
        rw [← Option.some.inj hl, List.eq_replicate_iff]
        refine ⟨by simp, fun x hx => ?_⟩
        obtain ⟨j, hj, rfl⟩ := List.mem_map.1 hx
        exact hsw j (List.mem_range.1 hj)
    split
    · exact ⟨hs.pending_used, hs.pending_distinct, fun j hj _ => hsw j hj, hmad⟩
    split
    · exact ⟨hs.pending_used, hs.pending_distinct, trivial, hmad⟩
    · refine ⟨fun e he => absurd (hsw _ (hs.pending_used e he).1)
        (used_ne_releasing (hs.pending_used e he).2), hs.pending_distinct, trivial, hmad⟩
  · -- reset
    split
    · next hi =>
      exact hs.setByteWithPc (hs.unclaimed (hsw i hi (le_refl i))) (fun j hj hij => by
        show (s.setByte i available).bytes j = releasing
        rw [RelSys.setByte_bytes, if_neg (by omega)]
        exact hsw j hj (by omega))
    · exact hs.withPc trivial
  · -- revertLoad
    split
    · split
      · next h => exact hs.withPc h
      · exact hs.withPc trivial
    · exact hs.withPc trivial
  · -- revertStore
    exact hs.setByteWithPc (hs.unclaimed hsw) trivial
  · exact hs

/-- A spurious failure of the swap leaves the run of successes short of the bytes passed. -/
theorem Safe.releaseFail {s : RelSys} (hs : Safe n s) :
    Safe n (RelSys.step useAliases n rangeNum s .releaseFail) := by
  have hsw := hs.swapped
  unfold Swapped at hsw
  simp only [RelSys.step]
  split
  · next i numReady hpc =>
    rw [hpc] at hsw
    split
    · exact hs.withPc ⟨by omega, by omega, fun hr => absurd hr (by omega)⟩
    · exact hs
  · exact hs

theorem Safe.run {s : RelSys} (hs : Safe n s) (sched : List Act) (hm : ∀ a ∈ sched, ∀ t i, a ≠ .mark t i) :
    Safe n (RelSys.run useAliases n rangeNum s sched) := by
  induction sched generalizing s with
  | nil => exact hs
  | cons a sched ih =>
    refine ih ?_ (fun a' ha' => hm a' (List.mem_cons_of_mem _ ha'))
    by_cases hr : a = .release
    · subst hr; exact hs.release
    by_cases hf : a = .releaseFail
    · subst hf; exact hs.releaseFail
    exact hs.other (RelSys.step_other hr hf) (hm a (List.mem_cons_self _ _))

end Safe

/-- Over every interleaving in which no thread runs `Mark`, from any state bytes with nothing
pending: if `madvise` runs, every one of the super page's `NumChunks` state bytes is
`RELEASING` at that moment, so no chunk that is in use, quarantined or marked is discarded. -/
theorem maybeReleaseToOs_madvise_only_releasing (useAliases : Bool) (n rangeNum : Nat)
    (b : Nat → UInt8) (sched : List Act) (hm : ∀ a ∈ sched, ∀ t i, a ≠ .mark t i) (l : List UInt8)
    (hl : (RelSys.run useAliases n rangeNum (RelSys.init b) sched).madvised = some l) :
    l = List.replicate n releasing :=
  ((safe_init b).run sched hm).madvised l hl

/-- Two `AVAILABLE` chunks and the releasing thread alone: `madvise` finds both `RELEASING`. -/
theorem maybeReleaseToOs_madvise_only_releasing_alone :
    (∀ a ∈ List.replicate 7 Act.release, ∀ t i, a ≠ .mark t i) ∧
      (RelSys.run false 2 0 (RelSys.init fun _ => available) (List.replicate 7 .release)).madvised =
        some [releasing, releasing] ∧
      [releasing, releasing] = List.replicate 2 releasing :=
  ⟨(fun a ha t i h => by rw [List.eq_of_mem_replicate ha] at h; cases h), by decide,
    maybeReleaseToOs_madvise_only_releasing false 2 0 (fun _ => available) (List.replicate 7 .release)
      (fun a ha t i h => by rw [List.eq_of_mem_replicate ha] at h; cases h) _ (by decide)⟩

-- ---------------------------------------------------------------------------
-- A marker's store lands on a page being released
-- ---------------------------------------------------------------------------

open RelSys

/-- On the marker's race, in either range of a private mapping, `madvise` runs while chunk 0
is `MARKED`, and when `MaybeReleaseToOs` is done the marked chunk is `AVAILABLE`. -/
theorem maybeReleaseToOs_discards_marked_chunk :
    ∀ rangeNum : Fin kNumSizeClassRanges,
      (run false 2 rangeNum (init quarantinedThenAvailable) markRace).madvised =
        some [marked, releasing] ∧
      (run false 2 rangeNum (init quarantinedThenAvailable) markRace).pc = .done ∧
      (run false 2 rangeNum (init quarantinedThenAvailable) markRace).bytes 0 = available := by
  decide

end MTMalloc.Release

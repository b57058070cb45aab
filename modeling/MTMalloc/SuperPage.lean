import MTMalloc.SizeClasses
import MTMalloc.FindByte
import MTMalloc.Tags

/-!
# Super pages

`struct SuperPage` of `mtmalloc.h`: a 512 KiB page of chunks of one size class with one
state byte per chunk, and the operations that move a chunk from state to state.

The heap is the memory the allocator shares between threads, kept as the source
addresses it:

* `meta`: the bytes outside the region, at their addresses: `SuperPageMetadata` (the
  size class of each super page, also read as `kMeta[RangeNum][Idx]`) and the two
  memory-tag shadows;
* `state sp i`: byte `i` of `State(NumChunks, RangeNum)` of the super page at `sp`, inline
  at the tail of a range-0 super page and in a `SecondRangeMeta` slot for range 1.
  `stateArrayAddr` is its address, and `stateArray_disjoint_chunks` shows that no chunk
  overlaps it, so a store into a chunk never changes a state byte;
* `word a`: the 64-bit word at the 8-byte-aligned chunk address `a`;
* the counters of `Allocator` that every thread reads and writes.

A call that traps ends in `Except.error`. `__atomic_compare_exchange_n` is called weak,
so it may fail although the byte holds the expected value: `casFails` says for which
positions it does.
-/

namespace MTMalloc

/-- The fields of `MallocConfig` that the allocator reads after `Init`. -/
structure MallocConfig where
  /-- 0: no tag, 1: 4-bit tag, 2: 8-bit tag (`UseTag`). -/
  useTag : Nat
  useShadow : Bool
  useAliases : Bool
  deriving DecidableEq, Repr

/-- The memory and the counters the threads share. -/
structure Heap where
  meta : Nat → UInt8
  state : Nat → Nat → UInt8
  word : Nat → Nat
  numSuperPages : Nat → Nat
  bytesInQuarantine : Nat
  lastQurantineSize : Nat
  scanPos : Nat → Nat
  dataOnlyScopeLevel : Nat

/-- The heap at process start: the reserved region and the shadows are fresh anonymous
mappings, so every byte is zero, and no super page exists yet. -/
def Heap.empty : Heap :=
  ⟨fun _ => 0, fun _ _ => 0, fun _ => 0, fun _ => 0, 0, 0, fun _ => 0, 0⟩

/-- `StateT` over the heap, with `Except Fault` for a trap. -/
abbrev HeapM := StateT Heap (Except Fault)

namespace HeapM

variable {α β : Type}

@[simp] theorem run_pure (a : α) (h : Heap) : (pure a : HeapM α) h = .ok (a, h) := rfl
@[simp] theorem run_bind (x : HeapM α) (f : α → HeapM β) (h : Heap) :
    (x >>= f) h = match x h with
      | .ok p => f p.1 p.2
      | .error e => .error e := by
  show StateT.bind x f h = _
  simp only [StateT.bind]
  split <;> (rename_i hx; rw [hx]; rfl)
@[simp] theorem run_map (g : α → β) (x : HeapM α) (h : Heap) :
    (g <$> x) h = match x h with
      | .ok p => .ok (g p.1, p.2)
      | .error e => .error e := by
  show StateT.map g x h = _
  simp only [StateT.map]
  split <;> (rename_i hx; rw [hx]; rfl)
@[simp] theorem run_get (h : Heap) : (get : HeapM Heap) h = .ok (h, h) := rfl
@[simp] theorem run_set (h' h : Heap) : (set h' : HeapM Unit) h = .ok ((), h') := rfl
@[simp] theorem run_modify (f : Heap → Heap) (h : Heap) :
    (modify f : HeapM Unit) h = .ok ((), f h) := rfl
@[simp] theorem run_throw (e : Fault) (h : Heap) : (throw e : HeapM α) h = .error e := rfl
@[simp] theorem run_lift (x : Except Fault α) (h : Heap) :
    (liftM x : HeapM α) h = x.map (·, h) := by cases x <;> rfl

theorem ok_bind {x : HeapM α} {f : α → HeapM β} {h : Heap} {r : β × Heap}
    (hr : (x >>= f) h = .ok r) : ∃ a h', x h = .ok (a, h') ∧ f a h' = .ok r := by
  rw [run_bind] at hr
  split at hr
  · rename_i p hx; exact ⟨p.1, p.2, hx, hr⟩
  · cases hr

end HeapM

namespace Heap

def setState (h : Heap) (sp i : Nat) (v : UInt8) : Heap :=
  { h with state := fun sp' i' => if sp' = sp ∧ i' = i then v else h.state sp' i' }

/-- `IterateStates`: `f` applied to the first `n` state bytes of the super page at `sp`. -/
def mapStates (h : Heap) (sp n : Nat) (f : UInt8 → UInt8) : Heap :=
  { h with state := fun sp' i => if sp' = sp ∧ i < n then f (h.state sp i) else h.state sp' i }

@[simp] theorem setState_state (h : Heap) (sp i : Nat) (v : UInt8) (sp' i' : Nat) :
    (h.setState sp i v).state sp' i' = if sp' = sp ∧ i' = i then v else h.state sp' i' := rfl
@[simp] theorem setState_meta (h : Heap) (sp i : Nat) (v : UInt8) :
    (h.setState sp i v).meta = h.meta := rfl
@[simp] theorem setState_word (h : Heap) (sp i : Nat) (v : UInt8) :
    (h.setState sp i v).word = h.word := rfl
@[simp] theorem setState_numSuperPages (h : Heap) (sp i : Nat) (v : UInt8) :
    (h.setState sp i v).numSuperPages = h.numSuperPages := rfl
@[simp] theorem mapStates_state (h : Heap) (sp n : Nat) (f : UInt8 → UInt8) (sp' i : Nat) :
    (h.mapStates sp n f).state sp' i = if sp' = sp ∧ i < n then f (h.state sp i) else h.state sp' i :=
  rfl
@[simp] theorem mapStates_meta (h : Heap) (sp n : Nat) (f : UInt8 → UInt8) :
    (h.mapStates sp n f).meta = h.meta := rfl
@[simp] theorem mapStates_word (h : Heap) (sp n : Nat) (f : UInt8 → UInt8) :
    (h.mapStates sp n f).word = h.word := rfl
@[simp] theorem mapStates_numSuperPages (h : Heap) (sp n : Nat) (f : UInt8 → UInt8) :
    (h.mapStates sp n f).numSuperPages = h.numSuperPages := rfl

end Heap

/-- `SuperPageMetadata`: one byte per super page of the region, from `kPrimaryMetaSpace`. -/
def superPageMetadata : FixedShadow := ⟨kPrimaryMetaSpace, kAllocatorSpace, kAllocatorSize, kSuperPageSize⟩

/-- `GetSizeClass(Ptr)`. -/
def getSizeClass (ptr : Nat) : HeapM Nat := do
  if !superPageMetadata.isMine ptr then throw .trap
  pure (superPageMetadata.get (← get).meta ptr).toNat

/-- `GetSuperPage(RangeNum, Idx)`. -/
def getSuperPage (rangeNum idx : Nat) : Except Fault Nat :=
  let addr := kFirstSuperPage rangeNum + idx * kSuperPageSize
  if addr ≥ kAllocatorSpace + kAllocatorSize then throw .trap else pure addr

namespace SuperPage

/-! The values of `state_t`: every one but `AVAILABLE` is odd. -/
def available : UInt8 := 0
def usedMixed : UInt8 := 1
def usedData : UInt8 := 3
def quarantined : UInt8 := 5
def marked : UInt8 := 7
def releasing : UInt8 := 255

theorem marked_ne_quarantined : marked ≠ quarantined := by decide

/-- `GetSCD()`: the descriptor of the super page's class. -/
def getSCD (sp : Nat) : HeapM SizeClassDescr := do pure (scDescr (← getSizeClass sp))

/-- `AddressOfChunk(Idx, SCD)`. -/
def addressOfChunk (sp idx : Nat) (scd : SizeClassDescr) : Nat := sp + idx * scd.chunkSize

@[simp] theorem addressOfChunk_zero (sp : Nat) (scd : SizeClassDescr) : addressOfChunk sp 0 scd = sp := by
  rw [addressOfChunk, Nat.zero_mul, Nat.add_zero]

/-- The address of `State(NumChunks, RangeNum)`. Modelled from the spec: the
`SecondRangeMeta` shadow keeps `kSuperPageSize / kSizeAlignmentForSecondRange` bytes per
range-1 super page (its five-parameter `FixedShadow` is not in the repository). -/
def stateArrayAddr (sp numChunks rangeNum : Nat) : Nat :=
  if rangeNum = 1 then
    kSecondRangeMeta + (sp - kFirstSuperPage 1) / kSuperPageSize *
      (kSuperPageSize / kSizeAlignmentForSecondRange)
  else sp + kSuperPageSize - sizeOfInlineMeta numChunks 0

/-- `TryPos(Pos)`: the weak compare-and-swap of state byte `Pos` from `AVAILABLE` to
`NewState`. -/
def tryPos (casFails : Nat → Bool) (sp : Nat) (newState : UInt8) (pos : Nat) : HeapM Bool := do
  let h ← get
  if h.state sp pos = available ∧ !casFails pos then
    set (h.setState sp pos newState)
    pure true
  else pure false

/-- The search and the compare-and-swap of `TryAllocate`: the position claimed, if any. -/
def claimChunk (casFails : Nat → Bool) (sp : Nat) (dataOnly : Bool) (scd : SizeClassDescr)
    (hint : Nat) : HeapM (Option Nat) := do
  let numChunks := scd.numChunks
  let newState := if dataOnly then usedData else usedMixed
  let s := (← get).state sp
  match ← findBytePEXT s available numChunks hint (tryPos casFails sp newState) with
  | none => pure none
  | some pos => if pos ≥ numChunks then throw .trap else pure (some pos)

/-- `TryAllocate(DataOnly, SCD, HintPtr)`: the pointer, tagged with the chunk's memory tag,
and the new `*HintPtr`. -/
def tryAllocate (cfg : MallocConfig) (tags : AddressTags) (casFails : Nat → Bool) (sp : Nat)
    (dataOnly : Bool) (scd : SizeClassDescr) (hint : Nat) : HeapM (Option Nat × Nat) := do
  match ← claimChunk casFails sp dataOnly scd hint with
  | none => pure (none, hint)
  | some pos =>
    let res := addressOfChunk sp pos scd
    let tag ← getMemoryTag cfg.useShadow (← get).meta res
    pure (some (tags.applyAddressTag res tag), pos + 1)

/-- `ComputeStatePtr(Ptr, SCD)`: the index of the chunk that starts at `Ptr`. -/
def computeStatePtr (ptr : Nat) (scd : SizeClassDescr) : Except Fault Nat :=
  let offset := ptr % kSuperPageSize
  let idx := divBySizeViaMul offset scd.chunkSizeMulDiv
  if idx * scd.chunkSize ≠ offset then throw .trap
  else if idx ≥ scd.numChunks then throw .trap
  else pure idx

/-- The chunk `Mark(P)` looks at: `none` when `P % kSuperPageSize` lands past the last
chunk, in the slack or the inline state array. -/
def markIdx (sp p : Nat) : HeapM (Option Nat) := do
  let scd ← getSCD sp
  let idx := divBySizeViaMul (p % kSuperPageSize) scd.chunkSizeMulDiv
  pure (if idx ≥ scd.numChunks then none else some idx)

/-- `Mark(P)`: a `QUARANTINED` chunk becomes `MARKED`. The load and the store are two atomic
accesses; run by one thread they act as one step. -/
def mark (sp p : Nat) : HeapM Unit := do
  match ← markIdx sp p with
  | none => pure ()
  | some idx => if (← get).state sp idx = quarantined then modify (·.setState sp idx marked)

/-- The callback `MoveFromQuarantineToAvailable` gives `IterateStates`. -/
def moveState (s : UInt8) : UInt8 :=
  let s := if s = quarantined then available else s
  if s = marked then quarantined else s

/-- `MoveFromQuarantineToAvailable()`. -/
def moveFromQuarantineToAvailable (sp : Nat) : HeapM Unit := do
  let scd ← getSCD sp
  modify (·.mapStates sp scd.numChunks moveState)

/-- `CountStates(State)`. -/
def countStates (sp : Nat) (st : UInt8) : HeapM Nat := do
  let scd ← getSCD sp
  let h ← get
  pure ((List.range scd.numChunks).countP fun i => h.state sp i = st)

/-- `ExchangeAndCheckForDoubleFree(Ptr, S, NewValue)`: a load, a store, then the check. -/
def exchangeAndCheckForDoubleFree (sp idx : Nat) (newValue : UInt8) : HeapM Unit := do
  let oldValue := (← get).state sp idx
  modify (·.setState sp idx newValue)
  if oldValue ≠ usedMixed ∧ oldValue ≠ usedData then throw .doubleFree

/-- `UpdateMemoryTagOnFree(P, Size)`: the chunk's memory tag plus one, as a `uint8_t`. -/
def updateMemoryTagOnFree (cfg : MallocConfig) (p size : Nat) : HeapM UInt8 := do
  if !cfg.useShadow then return 0
  let oldMemoryTag ← getMemoryTag cfg.useShadow (← get).meta p
  let newMemoryTag := oldMemoryTag + 1
  let meta ← setMemoryTag cfg.useShadow (← get).meta p size newMemoryTag
  modify fun h => { h with meta := meta }
  pure newMemoryTag

/-- `SuperPage::Deallocate(Ptr)`. -/
def deallocate (cfg : MallocConfig) (sp ptr : Nat) : HeapM Unit := do
  let scd ← getSCD sp
  let idx ← computeStatePtr ptr scd
  let _ ← updateMemoryTagOnFree cfg ptr scd.chunkSize
  exchangeAndCheckForDoubleFree sp idx available

/-- `SuperPage::Quarantine(Ptr)`: the bytes it added to the quarantine. With `UseTag` a new
tag that is not the safe one sends the chunk straight to `AVAILABLE`. -/
def quarantine (cfg : MallocConfig) (sp ptr : Nat) : HeapM Nat := do
  let scd ← getSCD sp
  let idx ← computeStatePtr ptr scd
  let newTag ← updateMemoryTagOnFree cfg ptr scd.chunkSize
  let newValue := quarantined
  let newValue := if cfg.useTag = 1 ∧ newTag &&& 15 ≠ 0 then available else newValue
  let newValue := if cfg.useTag = 2 ∧ newTag &&& 255 ≠ 0 then available else newValue
  exchangeAndCheckForDoubleFree sp idx newValue
  pure (if newValue = available then 0 else scd.chunkSize)

/-- The range test of `MarkAllLivePointers`, on `uintptr_t`:
`!(Value - kFirstSuperPage[0] >= SuperPageRegionSize[0] &&
   Value - kFirstSuperPage[1] >= SuperPageRegionSize[1])`. -/
def inSuperPageRegion (numSuperPages : Nat → Nat) (value : Nat) : Bool :=
  !(decide (sub64 value (kFirstSuperPage 0) ≥ numSuperPages 0 * kSuperPageSize) &&
    decide (sub64 value (kFirstSuperPage 1) ≥ numSuperPages 1 * kSuperPageSize))

/-- The inner loop of `MarkAllLivePointers`: `n` words from `p`. -/
def markWords (numSuperPages : Nat → Nat) (p : Nat) : Nat → HeapM Unit
  | 0 => pure ()
  | n + 1 => do
    let value := (← get).word p
    if inSuperPageRegion numSuperPages value then mark (roundDownTo value kSuperPageSize) value
    markWords numSuperPages (p + 8) n

/-- The outer loop of `MarkAllLivePointers`: `n` chunks from `idx`. -/
def markChunks (sp : Nat) (scd : SizeClassDescr) (numSuperPages : Nat → Nat) (idx : Nat) :
    Nat → HeapM Unit
  | 0 => pure ()
  | n + 1 => do
    if (← get).state sp idx = usedMixed then
      markWords numSuperPages (addressOfChunk sp idx scd) (scd.chunkSize / 8)
    markChunks sp scd numSuperPages (idx + 1) n

/-- `MarkAllLivePointers(NumSuperPages)`. -/
def markAllLivePointers (sp : Nat) (numSuperPages : Nat → Nat) : HeapM Unit := do
  let scd ← getSCD sp
  markChunks sp scd numSuperPages 0 scd.numChunks

/-- `MaybeReleaseToOs()`, run without interruption: a super page whose chunks are all
`AVAILABLE` is moved to `RELEASING` by compare-and-swap; if every swap succeeds it is
given back with `madvise(MADV_DONTNEED)`, which zeroes its words, and its states are
`AVAILABLE` again either way. -/
def maybeReleaseToOs (casFails : Nat → Bool) (sp : Nat) : HeapM Unit := do
  let scd ← getSCD sp
  let ava ← countStates sp available
  if ava ≠ scd.numChunks then return
  let numReadyToRelease := (List.range scd.numChunks).countP fun i => !casFails i
  if numReadyToRelease = scd.numChunks then
    modify fun h => { h with word := fun a => if sp ≤ a ∧ a < sp + kSuperPageSize then 0 else h.word a }

end SuperPage

-- ---------------------------------------------------------------------------
-- What each call does
-- ---------------------------------------------------------------------------

namespace Heap

/-- The size class `SuperPageMetadata` holds for the super page at `sp`. -/
def sizeClassOf (h : Heap) (sp : Nat) : Nat := (superPageMetadata.get h.meta sp).toNat

/-- The descriptor of that class. -/
def scdOf (h : Heap) (sp : Nat) : SizeClassDescr := scDescr (h.sizeClassOf sp)

end Heap

section Calls

open SuperPage

theorem getSizeClass_run {sp : Nat} (hsp : superPageMetadata.isMine sp = true) (h : Heap) :
    getSizeClass sp h = .ok (h.sizeClassOf sp, h) := by
  simp [getSizeClass, hsp, Heap.sizeClassOf]

theorem getSCD_run {sp : Nat} (hsp : superPageMetadata.isMine sp = true) (h : Heap) :
    getSCD sp h = .ok (h.scdOf sp, h) := by
  simp [getSCD, getSizeClass_run hsp, Heap.scdOf]

/-- The compare-and-swap succeeds on `p`: it holds `AVAILABLE` and the weak swap does not
fail. -/
def casOk (h : Heap) (casFails : Nat → Bool) (sp p : Nat) : Bool :=
  decide (h.state sp p = available) && !casFails p

theorem firstAccepted_tryPos (casFails : Nat → Bool) (sp : Nat) (newState : UInt8)
    (l : List Nat) (h : Heap) :
    firstAccepted (tryPos casFails sp newState) l h =
      .ok (l.find? (casOk h casFails sp),
        match l.find? (casOk h casFails sp) with
        | none => h
        | some p => h.setState sp p newState) := by
  induction l with
  | nil => rfl
  | cons p ps ih =>
    by_cases hp : casOk h casFails sp p = true
    · have hp' : h.state sp p = available ∧ casFails p = false := by
        simpa [casOk] using hp
      simp [firstAccepted, tryPos, hp, hp', List.find?_cons]
    · have hp' : ¬ (h.state sp p = available ∧ casFails p = false) := by
        simpa [casOk] using hp
      simp only [Bool.not_eq_true] at hp
      simp [firstAccepted, tryPos, hp, hp', List.find?_cons, ih]

/-- The positions `FindByte` offers `TryPos`: the rotation of the first `NumChunks` state
bytes from the hint rounded down to eight, those that hold `AVAILABLE`. -/
def claimCands (h : Heap) (sp : Nat) (scd : SizeClassDescr) (hint : Nat) : List Nat :=
  ((List.range' 0 scd.numChunks).map (wrapIdx scd.numChunks (roundDownTo hint 8))).filter
    (fun p => h.state sp p = available)

/-- The state bytes of a super page are `AVAILABLE` or odd, as `state_t` makes them. -/
def StatesZeroOrOdd (h : Heap) (sp n : Nat) : Prop :=
  ∀ i < n, h.state sp i = available ∨ (h.state sp i).toNat % 2 = 1

theorem roundDownTo_eight_le {x : Nat} (hx : x < wordBound) : roundDownTo x 8 ≤ x := by
  rw [show (8 : Nat) = 2 ^ 3 from rfl, roundDownTo_pow hx (by decide)]
  omega

theorem mem_claimCands {h : Heap} {sp : Nat} {scd : SizeClassDescr} {hint p : Nat}
    (hH : roundDownTo hint 8 ≤ scd.numChunks) (hp : p ∈ claimCands h sp scd hint) :
    p < scd.numChunks ∧ h.state sp p = available := by
  rw [claimCands, List.mem_filter, mem_map_wrapIdx_range' hH, decide_eq_true_eq] at hp
  exact hp

theorem claimChunk_eq (casFails : Nat → Bool) (sp : Nat) (dataOnly : Bool)
    (scd : SizeClassDescr) (hint : Nat) (h : Heap) (hN : scd.numChunks + 8 ≤ wordBound)
    (hH : hint ≤ scd.numChunks) (hb : StatesZeroOrOdd h sp scd.numChunks) :
    claimChunk casFails sp dataOnly scd hint h =
      .ok ((claimCands h sp scd hint).find? (casOk h casFails sp),
        match (claimCands h sp scd hint).find? (casOk h casFails sp) with
        | none => h
        | some p => h.setState sp p (if dataOnly then usedData else usedMixed)) := by
  have hD : roundDownTo hint 8 ≤ scd.numChunks :=
    Nat.le_trans (roundDownTo_eight_le (by omega)) hH
  have hsearch : (findBytePEXT (h.state sp) available scd.numChunks hint
      (tryPos casFails sp (if dataOnly then usedData else usedMixed)) >>= fun r =>
        match r with
        | none => pure none
        | some pos => if pos ≥ scd.numChunks then throw Fault.trap else pure (some pos)) =
      firstAccepted (tryPos casFails sp (if dataOnly then usedData else usedMixed))
        (claimCands h sp scd hint) := by
    rw [show available = (0 : UInt8) from rfl, findBytePEXT_eq_findBytePlain _ _ _ _ hN hH hb,
      findBytePlain, if_neg (by omega), findBytePlain_loop_eq, Nat.sub_zero]
    change (firstAccepted _ (claimCands h sp scd hint) >>= _) = _
    rw [firstAccepted_bind_congr _ _ (k := pure) (by rfl) fun p hp => ?_, bind_pure]
    show (if p ≥ scd.numChunks then throw Fault.trap else pure (some p)) = pure (some p)
    rw [if_neg (by have := (mem_claimCands hD hp).1; omega)]
  unfold claimChunk
  rw [HeapM.run_bind, HeapM.run_get]
  dsimp only
  rw [hsearch, firstAccepted_tryPos]

/-- `TryAllocate`'s search read off the state bytes: the first position `FindByte_PEXT` offers
whose compare-and-swap succeeds. -/
theorem claimChunk_find (casFails : Nat → Bool) (sp : Nat) (dataOnly : Bool)
    (scd : SizeClassDescr) {hint : Nat} (hH : hint ≤ scd.numChunks) (h : Heap) :
    claimChunk casFails sp dataOnly scd hint h =
      .ok ((pextCands (h.state sp) scd.numChunks hint).find? (casOk h casFails sp),
        match (pextCands (h.state sp) scd.numChunks hint).find? (casOk h casFails sp) with
        | none => h
        | some p => h.setState sp p (if dataOnly then usedData else usedMixed)) := by
  have hsearch : (findBytePEXT (h.state sp) available scd.numChunks hint
      (tryPos casFails sp (if dataOnly then usedData else usedMixed)) >>= fun r =>
        match r with
        | none => pure none
        | some pos => if pos ≥ scd.numChunks then throw Fault.trap else pure (some pos)) =
      firstAccepted (tryPos casFails sp (if dataOnly then usedData else usedMixed))
        (pextCands (h.state sp) scd.numChunks hint) := by
    rw [show available = (0 : UInt8) from rfl, findBytePEXT_eq_firstAccepted _ _ hH,
      firstAccepted_bind_congr _ _ (k := pure) (by rfl) fun p hp => ?_, bind_pure]
    show (if p ≥ scd.numChunks then throw Fault.trap else pure (some p)) = pure (some p)
    rw [if_neg (by have := lt_of_mem_pextCands hp; omega)]
  unfold claimChunk
  rw [HeapM.run_bind, HeapM.run_get]
  dsimp only
  rw [hsearch, firstAccepted_tryPos]

/-- Whatever the state bytes hold, `TryAllocate`'s search with a hint at most `NumChunks`
ends: it claims a chunk below `NumChunks` that held `AVAILABLE`, or nothing. Its
`StartPosHint > N` trap and its `Pos >= NumChunks` trap are never reached. -/
theorem claimChunk_run (casFails : Nat → Bool) (sp : Nat) (dataOnly : Bool)
    (scd : SizeClassDescr) {hint : Nat} (hH : hint ≤ scd.numChunks) (h : Heap) :
    ∃ r, claimChunk casFails sp dataOnly scd hint h =
        .ok (r, match r with
          | none => h
          | some p => h.setState sp p (if dataOnly then usedData else usedMixed)) ∧
      ∀ p, r = some p → p < scd.numChunks ∧ h.state sp p = available := by
  refine ⟨_, claimChunk_find casFails sp dataOnly scd hH h, fun p hp => ?_⟩
  have hc := List.find?_some hp
  simp only [casOk, Bool.and_eq_true, decide_eq_true_eq] at hc
  exact ⟨lt_of_mem_pextCands (List.mem_of_find?_eq_some hp), hc.1⟩

end Calls

-- ---------------------------------------------------------------------------
-- Marking
-- ---------------------------------------------------------------------------

namespace Heap

/-- The chunk of the super page at `sp` that `Mark(P)` looks at. -/
def markIdxOf (h : Heap) (sp p : Nat) : Option Nat :=
  let scd := h.scdOf sp
  let idx := divBySizeViaMul (p % kSuperPageSize) scd.chunkSizeMulDiv
  if idx ≥ scd.numChunks then none else some idx

/-- The chunk a word value makes `MarkAllLivePointers` mark: none when the value fails the
range test or lands past the chunks of its super page. -/
def markTarget (h : Heap) (numSuperPages : Nat → Nat) (value : Nat) : Option (Nat × Nat) :=
  if SuperPage.inSuperPageRegion numSuperPages value then
    (h.markIdxOf (roundDownTo value kSuperPageSize) value).map (roundDownTo value kSuperPageSize, ·)
  else none

/-- Every `QUARANTINED` chunk on which `P` holds becomes `MARKED`. -/
def markWhere (h : Heap) (P : Nat → Nat → Bool) : Heap :=
  { h with state := fun sp i =>
      if h.state sp i = SuperPage.quarantined ∧ P sp i = true then SuperPage.marked else h.state sp i }

@[simp] theorem markWhere_meta (h : Heap) (P : Nat → Nat → Bool) : (h.markWhere P).meta = h.meta := rfl
@[simp] theorem markWhere_word (h : Heap) (P : Nat → Nat → Bool) : (h.markWhere P).word = h.word := rfl
@[simp] theorem markWhere_numSuperPages (h : Heap) (P : Nat → Nat → Bool) :
    (h.markWhere P).numSuperPages = h.numSuperPages := rfl
@[simp] theorem markWhere_state (h : Heap) (P : Nat → Nat → Bool) (sp i : Nat) :
    (h.markWhere P).state sp i =
      if h.state sp i = SuperPage.quarantined ∧ P sp i = true then SuperPage.marked else h.state sp i := rfl
@[simp] theorem scdOf_markWhere (h : Heap) (P : Nat → Nat → Bool) (sp : Nat) :
    (h.markWhere P).scdOf sp = h.scdOf sp := rfl
@[simp] theorem markIdxOf_markWhere (h : Heap) (P : Nat → Nat → Bool) (sp p : Nat) :
    (h.markWhere P).markIdxOf sp p = h.markIdxOf sp p := rfl
@[simp] theorem markTarget_markWhere (h : Heap) (P : Nat → Nat → Bool) (n : Nat → Nat) (v : Nat) :
    (h.markWhere P).markTarget n v = h.markTarget n v := rfl

theorem markWhere_false (h : Heap) : h.markWhere (fun _ _ => false) = h := by
  cases h; simp [markWhere]

/-- Marking twice marks where either predicate holds: a mark only turns `QUARANTINED` into
`MARKED`, which no later mark touches. -/
theorem markWhere_markWhere (h : Heap) (P Q : Nat → Nat → Bool) :
    (h.markWhere P).markWhere Q = h.markWhere (fun sp i => P sp i || Q sp i) := by
  simp only [markWhere, mk.injEq, and_self, and_true, true_and]
  funext sp i
  by_cases hq : h.state sp i = SuperPage.quarantined <;> by_cases hp : P sp i = true <;>
    simp [hq, hp, SuperPage.marked_ne_quarantined]

theorem markWhere_single (h : Heap) (sp i : Nat) :
    h.markWhere (fun sp' i' => decide (sp' = sp ∧ i = i')) =
      if h.state sp i = SuperPage.quarantined then h.setState sp i SuperPage.marked else h := by
  split <;> rename_i hq <;> cases h <;> simp only [markWhere, setState, mk.injEq, and_true, true_and]
  · funext sp' i'
    by_cases he : sp' = sp ∧ i' = i
    · obtain ⟨rfl, rfl⟩ := he; simp_all
    · have he' : ¬ (sp' = sp ∧ i = i') := fun ⟨h1, h2⟩ => he ⟨h1, h2.symm⟩
      simp only [decide_eq_true_eq, he, he', and_false, if_false]
  · funext sp' i'
    by_cases he : sp' = sp ∧ i = i'
    · obtain ⟨rfl, rfl⟩ := he; simp_all
    · simp only [decide_eq_true_eq, he, and_false, if_false]

theorem markWhere_state_usedMixed (h : Heap) (P : Nat → Nat → Bool) (sp i : Nat) :
    (h.markWhere P).state sp i = SuperPage.usedMixed ↔ h.state sp i = SuperPage.usedMixed := by
  simp only [markWhere]
  split <;> rename_i hq
  · rw [hq.1]; decide
  · rfl

/-- The addresses of the words `MarkAllLivePointers` reads in the super page at `sp`: every
8-byte word of every `USED_MIXED` chunk. -/
def liveWordAddrs (h : Heap) (sp : Nat) : List Nat :=
  (List.range (h.scdOf sp).numChunks).flatMap fun j =>
    if h.state sp j = SuperPage.usedMixed then
      List.range' (SuperPage.addressOfChunk sp j (h.scdOf sp)) ((h.scdOf sp).chunkSize / 8) 8
    else []

end Heap

section MarkRuns

open SuperPage

variable {numSuperPages : Nat → Nat}

/-- The super pages the range test admits lie in the region. -/
def RangesFit (numSuperPages : Nat → Nat) : Prop :=
  ∀ r < 2, kFirstSuperPage r + numSuperPages r * kSuperPageSize ≤ kAllocatorSpace + kAllocatorSize

/-- Every word is a 64-bit value. -/
def WordsBounded (h : Heap) : Prop := ∀ a, h.word a < wordBound

theorem isMine_of_inSuperPageRegion (hfit : RangesFit numSuperPages) {v : Nat} (hv : v < wordBound)
    (hin : inSuperPageRegion numSuperPages v = true) :
    superPageMetadata.isMine (roundDownTo v kSuperPageSize) = true := by
  have hr := roundDownTo_pow (k := 19) hv (by decide)
  have h0 := hfit 0 (by decide)
  have h1 := hfit 1 (by decide)
  simp only [inSuperPageRegion, Bool.not_eq_true', Bool.and_eq_false_iff, decide_eq_false_iff_not,
    Nat.not_le] at hin
  unfold sub64 at hin
  simp only [superPageMetadata, FixedShadow.isMine, Bool.and_eq_true, decide_eq_true_eq]
  rw [show kSuperPageSize = 2 ^ 19 from rfl, hr]
  unfold kFirstSuperPage kAllocatorSpace kAllocatorSize kSuperPageSize wordBound at *
  omega

theorem markIdx_run {sp : Nat} (hsp : superPageMetadata.isMine sp = true) (p : Nat) (h : Heap) :
    markIdx sp p h = .ok (h.markIdxOf sp p, h) := by
  simp [markIdx, getSCD_run hsp, Heap.markIdxOf]

theorem mark_run {sp : Nat} (hsp : superPageMetadata.isMine sp = true) (p : Nat) (h : Heap) :
    mark sp p h = .ok ((), h.markWhere fun sp' i => decide (sp' = sp ∧ h.markIdxOf sp p = some i)) := by
  simp only [mark, HeapM.run_bind, markIdx_run hsp]
  rcases hi : h.markIdxOf sp p with _ | i
  · simp [Heap.markWhere_false]
  · simp only [HeapM.run_bind, HeapM.run_get, Option.some.injEq]
    rw [Heap.markWhere_single]
    split <;> simp

theorem markTarget_eq_some {h : Heap} {v sp i : Nat}
    (hin : inSuperPageRegion numSuperPages v = true) :
    h.markTarget numSuperPages v = some (sp, i) ↔
      sp = roundDownTo v kSuperPageSize ∧ h.markIdxOf (roundDownTo v kSuperPageSize) v = some i := by
  simp only [Heap.markTarget, hin, if_true, Option.map_eq_some', Prod.mk.injEq]
  constructor
  · rintro ⟨a, ha, rfl, rfl⟩; exact ⟨rfl, ha⟩
  · rintro ⟨rfl, ha⟩; exact ⟨i, ha, rfl, rfl⟩

theorem markTarget_of_not_in {h : Heap} {v : Nat}
    (hin : ¬ inSuperPageRegion numSuperPages v = true) : h.markTarget numSuperPages v = none := by
  simp [Heap.markTarget, hin]

theorem markWords_run (hfit : RangesFit numSuperPages) {h : Heap} (hw : WordsBounded h)
    (k : Nat) (p : Nat) (P : Nat → Nat → Bool) :
    markWords numSuperPages p k (h.markWhere P) =
      .ok ((), h.markWhere fun sp i => P sp i ||
        (List.range' p k 8).any fun a => decide (h.markTarget numSuperPages (h.word a) = some (sp, i))) := by
  induction k generalizing p P with
  | zero => simp [markWords]
  | succ k ih =>
    simp only [markWords, HeapM.run_bind, HeapM.run_get, Heap.markWhere_word]
    by_cases hin : inSuperPageRegion numSuperPages (h.word p) = true
    · rw [if_pos hin, HeapM.run_bind, mark_run (isMine_of_inSuperPageRegion hfit (hw p) hin)]
      dsimp only
      rw [Heap.markIdxOf_markWhere, Heap.markWhere_markWhere, ih]
      congr 3
      funext sp i
      simp only [List.range'_succ, List.any_cons, markTarget_eq_some hin, Bool.or_assoc]
    · rw [if_neg hin, pure_bind, ih]
      congr 3
      funext sp i
      simp [List.range'_succ, markTarget_of_not_in hin]

/-- The outer loop marks the targets of the words of the `USED_MIXED` chunks among the `k`
from `idx`. A mark never changes whether a chunk is `USED_MIXED`. -/
theorem markChunks_run (hfit : RangesFit numSuperPages) {h : Heap} (hw : WordsBounded h)
    (sp : Nat) (scd : SizeClassDescr) (k idx : Nat) (P : Nat → Nat → Bool) :
    markChunks sp scd numSuperPages idx k (h.markWhere P) =
      .ok ((), h.markWhere fun sp' i => P sp' i ||
        ((List.range' idx k).flatMap fun j =>
          if h.state sp j = usedMixed then
            List.range' (addressOfChunk sp j scd) (scd.chunkSize / 8) 8
          else []).any fun a => decide (h.markTarget numSuperPages (h.word a) = some (sp', i))) := by
  induction k generalizing idx P with
  | zero => simp [markChunks]
  | succ k ih =>
    simp only [markChunks, HeapM.run_bind, HeapM.run_get, Heap.markWhere_state_usedMixed]
    by_cases hu : h.state sp idx = usedMixed
    · rw [if_pos hu, HeapM.run_bind, markWords_run hfit hw]
      dsimp only
      rw [ih]
      congr 3
      funext sp' i
      simp only [List.range'_succ, List.flatMap_cons, hu, if_true, List.any_append, Bool.or_assoc]
    · rw [if_neg hu, pure_bind, ih]
      congr 3
      funext sp' i
      simp [List.range'_succ, hu]

theorem markAllLivePointers_run (hfit : RangesFit numSuperPages) {h : Heap} (hw : WordsBounded h)
    {sp : Nat} (hsp : superPageMetadata.isMine sp = true) (P : Nat → Nat → Bool) :
    markAllLivePointers sp numSuperPages (h.markWhere P) =
      .ok ((), h.markWhere fun sp' i => P sp' i ||
        (h.liveWordAddrs sp).any fun a => decide (h.markTarget numSuperPages (h.word a) = some (sp', i))) := by
  simp only [markAllLivePointers, HeapM.run_bind, getSCD_run hsp, Heap.scdOf_markWhere]
  rw [markChunks_run hfit hw, Heap.liveWordAddrs, List.range_eq_range']

end MarkRuns

-- ---------------------------------------------------------------------------
-- Chunk indices by multiply-shift
-- ---------------------------------------------------------------------------

section ChunkIndex

open SuperPage

theorem computeStatePtr_chunk {sp i : Nat} {scd : SizeClassDescr} (hv : scd.Valid)
    (hsp : sp % kSuperPageSize = 0) (hi : i < scd.numChunks) :
    computeStatePtr (addressOfChunk sp i scd) scd = .ok i := by
  have hcs := hv.chunkSize_ge
  have hic : i * scd.chunkSize < kSuperPageSize := by
    have := hv.layout
    have : (i + 1) * scd.chunkSize ≤ scd.numChunks * scd.chunkSize := Nat.mul_le_mul_right _ hi
    rw [Nat.succ_mul] at this
    omega
  have hoff : addressOfChunk sp i scd % kSuperPageSize = i * scd.chunkSize := by
    unfold addressOfChunk kSuperPageSize at *; omega
  have hdiv : divBySizeViaMul (i * scd.chunkSize) scd.chunkSizeMulDiv = i := by
    rw [hv.div_eq _ hic.le, Nat.mul_div_cancel _ (by omega)]
  simp only [computeStatePtr, hoff, hdiv, ne_eq, not_true_eq_false, if_false,
    if_neg (show ¬ i ≥ scd.numChunks by omega)]
  rfl

theorem computeStatePtr_trap {ptr : Nat} {scd : SizeClassDescr} (hv : scd.Valid)
    (hp : ∀ i < scd.numChunks, ptr % kSuperPageSize ≠ i * scd.chunkSize) :
    computeStatePtr ptr scd = .error .trap := by
  have hoff : ptr % kSuperPageSize ≤ kSuperPageSize := (Nat.mod_lt _ (by decide)).le
  simp only [computeStatePtr, hv.div_eq _ hoff]
  split
  · rfl
  · rw [if_pos (Nat.not_lt.mp fun hlt => hp _ hlt (by omega))]
    rfl

theorem markIdxOf_eq {h : Heap} {sp p : Nat} (hv : (h.scdOf sp).Valid) :
    h.markIdxOf sp p = if p % kSuperPageSize / (h.scdOf sp).chunkSize < (h.scdOf sp).numChunks
      then some (p % kSuperPageSize / (h.scdOf sp).chunkSize) else none := by
  simp only [Heap.markIdxOf, hv.div_eq _ (Nat.mod_lt _ (by decide : kSuperPageSize > 0)).le]
  split <;> split <;> first | rfl | omega

/-- The division by multiplication and what rests on it. For every divisor `16 ≤ D ≤ 2^16`,
and every power of two `16 ≤ D ≤ 2^19`, `ComputeMulForDiv(D, 35)` is a 32-bit multiplier
with which `DivBySizeViaMul` divides every offset `L ≤ 2^19` by `D`; so it does for every
chunk size `InitAll` settles on, since its fix-up loop keeps each `SCArray` entry. For
every class, `ComputeStatePtr` maps the start of chunk `i` to `i` and traps on every other
offset, and `Mark(P)` marks chunk `(P mod kSuperPageSize) / ChunkSize` exactly when that
index is below `NumChunks`. -/
theorem divBySizeViaMul_law :
    (∀ d l, 16 ≤ d → (d ≤ 65536 ∨ (∃ k, d = 2 ^ k) ∧ d ≤ 2 ^ 19) → l ≤ 2 ^ 19 →
      computeMulForDiv d kDivMulShift < 2 ^ 32 ∧
        divBySizeViaMul l (computeMulForDiv d kDivMulShift) = l / d) ∧
    (∀ i : Fin kNumSizeClasses, fixUpSize i = scArray.get i ∧
      computeMulForDiv (fixUpSize i) kDivMulShift < 2 ^ 32 ∧
      ∀ l ≤ 2 ^ 19, divBySizeViaMul l (computeMulForDiv (fixUpSize i) kDivMulShift) =
        l / fixUpSize i) ∧
    (∀ c < kNumSizeClasses, ∀ sp i, sp % kSuperPageSize = 0 → i < (scDescr c).numChunks →
      computeStatePtr (addressOfChunk sp i (scDescr c)) (scDescr c) = .ok i) ∧
    (∀ c < kNumSizeClasses, ∀ ptr,
      (∀ i < (scDescr c).numChunks, ptr % kSuperPageSize ≠ i * (scDescr c).chunkSize) →
      computeStatePtr ptr (scDescr c) = .error .trap) ∧
    (∀ (h : Heap) sp p, superPageMetadata.isMine sp = true → h.sizeClassOf sp < kNumSizeClasses →
      mark sp p h = .ok ((), h.markWhere fun sp' i =>
        decide (sp' = sp ∧ i = p % kSuperPageSize / (h.scdOf sp).chunkSize ∧
          i < (h.scdOf sp).numChunks))) := by
  refine ⟨fun d l hd hD hl => divBySizeViaMul_computeMulForDiv hd hD hl, fun i => ?_,
    fun c hc sp i hsp hi => computeStatePtr_chunk (scDescr_valid hc).1 hsp hi,
    fun c hc ptr hp => computeStatePtr_trap (scDescr_valid hc).1 hp, fun h sp p hsp hc => ?_⟩
  · -- the table: the corners of every entry
    have hmem := List.get_mem scArray i i.2
    have hc := List.all_eq_true.mp scArray_corners _ hmem
    simp only [Bool.and_eq_true, decide_eq_true_eq] at hc
    rw [fixUpSize_eq]
    exact ⟨rfl, hc.1.1.2, fun l hl =>
      divBySizeViaMul_of_isCorrect (isCorrectDivToMul_scArray hmem) hl (by decide)⟩
  · -- `Mark`
    rw [mark_run hsp]
    congr 3
    funext sp' i
    rw [markIdxOf_eq (scDescr_valid hc).1]
    split <;> simp only [Option.some.injEq, reduceCtorEq, false_and, and_false, decide_eq_decide]
    · constructor
      · rintro ⟨rfl, rfl⟩; exact ⟨rfl, rfl, ‹_›⟩
      · rintro ⟨rfl, rfl, -⟩; exact ⟨rfl, rfl⟩
    · exact ⟨fun h => h.elim, fun ⟨_, hi, hlt⟩ => absurd (hi ▸ hlt) ‹_›⟩

end ChunkIndex

end MTMalloc

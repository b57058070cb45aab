import MTMalloc.ScanLaw

/-!
# The allocator

`struct Allocator` of `mtmalloc.h` as one thread runs it: `Allocate`, `AllocateSlower`
and `AllocateSuperPage`, `Deallocate`, `Quarantine` and `QuarantineAndMaybeScan`, with
the thread-local `ThreadLocalAllocator` passed in and returned.

`AllocateSlower` loops until it returns a chunk; `fuel` bounds the passes of its
`while (true)` loop, and `none` means that the loop had not returned within `fuel` passes.
`InitAll` has run when a thread first calls in (`Heap.empty` is the heap it leaves), and
the lock `Mu` is held by the one thread that runs here.
-/

namespace MTMalloc

open SuperPage

/-- One slot of `TLS.PerSC`: the super page `Allocate` tries first (`0` for `nullptr`) and
`LastIdxHint`. -/
structure PerSC where
  sp : Nat
  lastIdxHint : Nat
  deriving DecidableEq, Repr

/-- `ThreadLocalAllocator`, without `Stats`, which no modelled call reads. -/
structure TLS where
  rand : Nat
  localQuarantineSize : Nat
  perSC : Nat → PerSC

namespace TLS

/-- `__thread` storage starts zeroed. -/
def init : TLS := ⟨0, 0, fun _ => ⟨0, 0⟩⟩

/-- `PerSC.LastIdxHint = hint` for class `sc`. -/
def setHint (tls : TLS) (sc hint : Nat) : TLS :=
  { tls with perSC := Function.update tls.perSC sc { tls.perSC sc with lastIdxHint := hint } }

/-- `PerSC.SP = sp` for class `sc`. -/
def setSP (tls : TLS) (sc sp : Nat) : TLS :=
  { tls with perSC := Function.update tls.perSC sc { tls.perSC sc with sp := sp } }

@[simp] theorem setHint_rand (tls : TLS) (sc hint : Nat) : (tls.setHint sc hint).rand = tls.rand := rfl
@[simp] theorem setSP_rand (tls : TLS) (sc sp : Nat) : (tls.setSP sc sp).rand = tls.rand := rfl
@[simp] theorem setHint_localQuarantineSize (tls : TLS) (sc hint : Nat) :
    (tls.setHint sc hint).localQuarantineSize = tls.localQuarantineSize := rfl
@[simp] theorem setSP_localQuarantineSize (tls : TLS) (sc sp : Nat) :
    (tls.setSP sc sp).localQuarantineSize = tls.localQuarantineSize := rfl
@[simp] theorem setHint_perSC (tls : TLS) (sc hint sc' : Nat) :
    (tls.setHint sc hint).perSC sc' =
      if sc' = sc then { tls.perSC sc with lastIdxHint := hint } else tls.perSC sc' := by
  simp only [setHint, Function.update_apply]
@[simp] theorem setSP_perSC (tls : TLS) (sc sp sc' : Nat) :
    (tls.setSP sc sp).perSC sc' = if sc' = sc then { tls.perSC sc with sp := sp } else tls.perSC sc' := by
  simp only [setSP, Function.update_apply]

end TLS

/-- `RandR(&State)`, the ANSI C generator on `uint32_t`: the result and the new state. -/
def randR (state : Nat) : Nat × Nat :=
  let newState := (state * 1103515245 + 12345) % 2 ^ 32
  (newState >>> 16, newState)

-- ---------------------------------------------------------------------------
-- AllocateSuperPage
-- ---------------------------------------------------------------------------

namespace Heap

/-- The memory `mmap(Res, kSuperPageSize, ..., MAP_FIXED | MAP_ANONYMOUS ...)` gives the super
page at `sp`: zero words, and for range 0 a zero inline state array, every chunk
`AVAILABLE`. A range-1 state array lives in `SecondRangeMeta`, which the call leaves. -/
def mapSuperPage (h : Heap) (sp rangeNum : Nat) : Heap :=
  { h with
    word := fun a => if sp ≤ a ∧ a < sp + kSuperPageSize then 0 else h.word a
    state := fun sp' i => if rangeNum = 0 ∧ sp' = sp then available else h.state sp' i }

/-- `NumSuperPages[RangeNum]++`. -/
def addSuperPage (h : Heap) (rangeNum : Nat) : Heap :=
  { h with numSuperPages := Function.update h.numSuperPages rangeNum (h.numSuperPages rangeNum + 1) }

/-- The heap with the bytes outside the region replaced. -/
def withMeta (h : Heap) (meta : Nat → UInt8) : Heap := { h with meta := meta }

end Heap

/-- `SetSizeClass(Ptr, SC)`. -/
def setSizeClass (ptr sc : Nat) : HeapM Unit := do
  if !superPageMetadata.isMine ptr then throw .trap
  let meta ← liftM (superPageMetadata.set (← get).meta ptr (UInt8.ofNat sc))
  modify (·.withMeta meta)

/-- The loop of `AllocateSuperPage` that seeds the memory tags: `SetMemoryTag(Pos,
ChunkSize, RandR(&TLS.Rand))` for `n` chunks from `pos`; the result is the new
`TLS.Rand`. -/
def seedMemoryTags (cfg : MallocConfig) (chunkSize : Nat) : Nat → Nat → Nat → HeapM Nat
  | 0, _, rand => pure rand
  | n + 1, pos, rand => do
    let (tag, rand) := randR rand
    let meta ← liftM (setMemoryTag cfg.useShadow (← get).meta pos chunkSize (UInt8.ofNat tag))
    modify (·.withMeta meta)
    seedMemoryTags cfg chunkSize n (pos + chunkSize) rand

/-- `AllocateSuperPage(Size)`: map the next super page of the size's range, give it the
size class, seed its chunks' memory tags, and count it. -/
def allocateSuperPage (cfg : MallocConfig) (size : Nat) (tls : TLS) : HeapM (Nat × TLS) := do
  let (sc, scd) := sizeToSizeClass scDescr size
  let res ← liftM (getSuperPage scd.rangeNum ((← get).numSuperPages scd.rangeNum))
  modify (·.mapSuperPage res scd.rangeNum)
  setSizeClass res sc
  let rand ← seedMemoryTags cfg scd.chunkSize scd.numChunks res tls.rand
  modify (·.addSuperPage scd.rangeNum)
  pure (res, { tls with rand := rand })

-- ---------------------------------------------------------------------------
-- Allocate
-- ---------------------------------------------------------------------------

section Allocate

variable (cfg : MallocConfig) (tags : AddressTags) (casFails : Nat → Bool)

/-- The `for` loop of `AllocateSlower` from `I = i`: the super pages of the range whose
`kMeta[RangeNum][Idx]` is the class, from `Offset` with wrap-around, are tried in turn and
each becomes `PerSC.SP`. -/
def trySuperPages (sc : Nat) (scd : SizeClassDescr) (n offset : Nat) :
    Nat → Nat → TLS → HeapM (Option Nat × TLS)
  | 0, _, tls => pure (none, tls)
  | k + 1, i, tls => do
    let idx := if i + offset ≥ n then i + offset - n else i + offset
    if ((← get).meta (kMeta scd.rangeNum + idx)).toNat = sc then
      let sp ← liftM (getSuperPage scd.rangeNum idx)
      let tls := tls.setSP sc sp
      let (res, hint) ← tryAllocate cfg tags casFails sp ((← get).dataOnlyScopeLevel ≠ 0) scd
        (tls.perSC sc).lastIdxHint
      let tls := tls.setHint sc hint
      match res with
      | some r => pure (some r, tls)
      | none => trySuperPages sc scd n offset k (i + 1) tls
    else trySuperPages sc scd n offset k (i + 1) tls

/-- The `while (true)` loop of `AllocateSlower`, at most `fuel` passes: search the super
pages of the class from a random offset, and when none has a free chunk map a new one
and reset `LastIdxHint`. -/
def allocateSlowerLoop (size sc : Nat) (scd : SizeClassDescr) : Nat → TLS → HeapM (Option Nat × TLS)
  | 0, tls => pure (none, tls)
  | fuel + 1, tls => do
    let n := (← get).numSuperPages scd.rangeNum
    let (offset, tls) :=
      if n ≠ 0 then let (r, rand) := randR tls.rand; (r % n, { tls with rand := rand }) else (0, tls)
    let (res, tls) ← trySuperPages cfg tags casFails sc scd n offset n 0 tls
    match res with
    | some r => pure (some r, tls)
    | none =>
      let (_, tls) ← allocateSuperPage cfg size tls
      allocateSlowerLoop size sc scd fuel (tls.setHint sc 0)

/-- `AllocateSlower(Size)`: a thread's first call seeds `TLS.Rand` with `pthread_self()`. -/
def allocateSlower (self size fuel : Nat) (tls : TLS) : HeapM (Option Nat × TLS) :=
  let tls := if tls.rand = 0 then { tls with rand := self } else tls
  let (sc, scd) := sizeToSizeClass scDescr size
  allocateSlowerLoop cfg tags casFails size sc scd fuel tls

/-- `Allocate(Size)`: the super page of the class tried last, then `AllocateSlower`. -/
def allocate (self size fuel : Nat) (tls : TLS) : HeapM (Option Nat × TLS) := do
  let (sc, scd) := sizeToSizeClass scDescr size
  let perSC := tls.perSC sc
  if perSC.sp ≠ 0 then
    let (res, hint) ← tryAllocate cfg tags casFails perSC.sp ((← get).dataOnlyScopeLevel ≠ 0) scd
      perSC.lastIdxHint
    let tls := tls.setHint sc hint
    match res with
    | some r => pure (some r, tls)
    | none => allocateSlower cfg tags casFails self size fuel tls
  else allocateSlower cfg tags casFails self size fuel tls

end Allocate

-- ---------------------------------------------------------------------------
-- Deallocate and Quarantine
-- ---------------------------------------------------------------------------

section Free

variable (cfg : MallocConfig) (tags : AddressTags)

/-- `Allocator::IsMine(Ptr)`: with aliases the 16 alias windows count as the region. -/
def isMine (ptr : Nat) : Bool :=
  if cfg.useAliases then kAllocatorSpace ≤ ptr ∧ ptr < kAllocatorSpace + 16 * kAllocatorSize
  else kAllocatorSpace ≤ ptr ∧ ptr < kAllocatorSpace + kAllocatorSize

/-- `RemoveAddressTagAndCheckForDoubleFree(Ptr)`: the untagged pointer. -/
def removeAddressTagAndCheckForDoubleFree (ptr : Nat) : HeapM Nat := do
  let addressTag := tags.getAddressTag ptr
  let ptr := tags.applyAddressTag ptr 0
  let memoryTag := (← liftM (getMemoryTag cfg.useShadow (← get).meta ptr)) &&& 15
  if cfg.useShadow ∧ cfg.useAliases ∧ addressTag ≠ memoryTag then throw .tagDoubleFree
  pure ptr

/-- The super page of an untagged pointer, `RoundDownTo(P, kSuperPageSize)`, which must lie
in the region. -/
def startSuperPage (ptr : Nat) : HeapM Nat := do
  let startSP := roundDownTo ptr kSuperPageSize
  if startSP < kAllocatorSpace then throw .trap
  if startSP ≥ kAllocatorSpace + kAllocatorSize then throw .trap
  pure startSP

/-- `Allocator::Deallocate(Ptr)`. -/
def deallocate (ptr : Nat) : HeapM Unit := do
  let ptr ← removeAddressTagAndCheckForDoubleFree cfg tags ptr
  let sp ← startSuperPage ptr
  SuperPage.deallocate cfg sp ptr

/-- `Allocator::Quarantine(Ptr)`: the chunk's bytes go to `TLS.LocalQuarantineSize`. -/
def quarantine (ptr : Nat) (tls : TLS) : HeapM TLS := do
  let ptr ← removeAddressTagAndCheckForDoubleFree cfg tags ptr
  let sp ← startSuperPage ptr
  let size ← SuperPage.quarantine cfg sp ptr
  pure { tls with localQuarantineSize := tls.localQuarantineSize + size }

/-- The part of `QuarantineAndMaybeScan` past the limit: under `Mu`, scan unless
`BytesInQuarantine` has dropped below the limit meanwhile. `scan` is `Scan` as the unit-test
build runs it, without the report whose `stdio` calls re-enter the allocator in `part_004`. -/
def maybeScan (totalQuarantineSize limit : Nat) : HeapM Unit :=
  if totalQuarantineSize ≤ limit then pure ()
  else do if (← get).bytesInQuarantine < limit then pure () else scan

/-- `QuarantineAndMaybeScan(Ptr, MaxQuarantineSize)`: past `kSizeOfLocalQuarantine` the local
bytes go to `BytesInQuarantine`, and past the limit the thread may scan. -/
def quarantineAndMaybeScan (ptr maxQuarantineSize : Nat) (tls : TLS) : HeapM TLS := do
  let tls ← quarantine cfg tags ptr tls
  if tls.localQuarantineSize < kSizeOfLocalQuarantine then return tls
  let totalQuarantineSize := (← get).bytesInQuarantine + tls.localQuarantineSize
  modify fun h => { h with bytesInQuarantine := totalQuarantineSize }
  let limit := maxQuarantineSize + (← get).lastQurantineSize
  maybeScan totalQuarantineSize limit
  pure { tls with localQuarantineSize := 0 }

end Free

-- ---------------------------------------------------------------------------
-- AllocateSuperPage at the end of a range
-- ---------------------------------------------------------------------------

section NewSuperPage

theorem seedMemoryTags_noShadow {cfg : MallocConfig} (hsh : cfg.useShadow = false) (cs : Nat) :
    ∀ n pos rand (h : Heap), ∃ rand', seedMemoryTags cfg cs n pos rand h = .ok (rand', h)
  | 0, _, rand, _ => ⟨rand, rfl⟩
  | n + 1, pos, rand, h => by
    obtain ⟨rand', hr⟩ := seedMemoryTags_noShadow hsh cs n (pos + cs) (randR rand).2 h
    exact ⟨rand', by simpa [seedMemoryTags, setMemoryTag, hsh, Heap.withMeta] using hr⟩

theorem allocateSuperPage_run {cfg : MallocConfig} (hsh : cfg.useShadow = false)
    {size sc res : Nat} {scd : SizeClassDescr} (hs : sizeToSizeClass scDescr size = (sc, scd))
    (tls : TLS) (h : Heap) (hg : getSuperPage scd.rangeNum (h.numSuperPages scd.rangeNum) = .ok res)
    (hmine : superPageMetadata.isMine res = true) (halign : res % kSuperPageSize = 0) :
    ∃ rand, allocateSuperPage cfg size tls h = .ok ((res, { tls with rand := rand }),
      ((h.mapSuperPage res scd.rangeNum).withMeta
        (Function.update h.meta (superPageMetadata.getShadowPtr res) (UInt8.ofNat sc))).addSuperPage
        scd.rangeNum) := by
  obtain ⟨rand, hr⟩ := seedMemoryTags_noShadow hsh scd.chunkSize scd.numChunks res tls.rand
    ((h.mapSuperPage res scd.rangeNum).withMeta
      (Function.update h.meta (superPageMetadata.getShadowPtr res) (UInt8.ofNat sc)))
  refine ⟨rand, ?_⟩
  have hcheck : superPageMetadata.check res = .ok () := by
    simp only [FixedShadow.check, superPageMetadata, kSuperPageSize] at halign ⊢
    rw [if_neg (by simpa using halign)]; rfl
  have hset : ∀ mem v, superPageMetadata.set mem res v =
      .ok (Function.update mem (superPageMetadata.getShadowPtr res) v) := by
    intro mem v; rw [FixedShadow.set, hcheck]; rfl
  simp only [allocateSuperPage, hs, HeapM.run_bind, HeapM.run_get, HeapM.run_lift, hg,
    Except.map, HeapM.run_modify, setSizeClass, hmine, Bool.not_true, hset,
    Bool.false_eq_true, if_false, HeapM.run_pure, HeapM.run_map, Except.map_ok]
  have hm : (h.mapSuperPage res scd.rangeNum).meta = h.meta := rfl
  simp only [Heap.withMeta, hm] at hr ⊢
  rw [hr]

theorem sizeToSizeClass_sixteen : sizeToSizeClass scDescr 16 = (0, scDescr 0) := rfl

/-- Range 0 full with `2^20` super pages of class 0, and range 1 with one super page, of
class 28 (1024-byte chunks). -/
def fullRangeHeap : Heap :=
  { Heap.empty with
    meta := fun a => if a = superPageMetadata.getShadowPtr (kFirstSuperPage 1) then 28 else 0
    numSuperPages := fun r => if r = 0 then 2 ^ 20 else 1 }

/-- `AllocateSuperPage(16)` once range 0 holds `kAllocatorSize / 2 / kSuperPageSize` super
pages: it does not trap, and returns the page at `kFirstSuperPage[1]`, past range 0's half
and already super page 0 of range 1, whose metadata byte it overwrites with class 0. -/
theorem allocateSuperPage_overflows_into_range_one :
    fullRangeHeap.numSuperPages 0 = kAllocatorSize / 2 / kSuperPageSize ∧
      fullRangeHeap.sizeClassOf (spAddr 1 0) = 28 ∧ 0 < fullRangeHeap.numSuperPages 1 ∧
      ∃ tls h', allocateSuperPage ⟨0, false, false⟩ 16 TLS.init fullRangeHeap =
          .ok ((spAddr 0 (2 ^ 20), tls), h') ∧
        kFirstSuperPage 0 + kAllocatorSize / 2 ≤ spAddr 0 (2 ^ 20) ∧
        spAddr 0 (2 ^ 20) = spAddr 1 0 ∧ h'.sizeClassOf (spAddr 1 0) = 0 ∧
        h'.numSuperPages 0 = 2 ^ 20 + 1 := by
  obtain ⟨hv, hcs⟩ := scDescr_valid (show 0 < kNumSizeClasses by decide)
  have hr0 : (scDescr 0).rangeNum = 0 := by rw [hv.rangeNum_eq, hcs]; decide
  have hsame : spAddr 0 (2 ^ 20) = spAddr 1 0 := by decide
  have hg : getSuperPage (scDescr 0).rangeNum (fullRangeHeap.numSuperPages (scDescr 0).rangeNum) =
      .ok (spAddr 0 (2 ^ 20)) := by rw [hr0]; rfl
  obtain ⟨rand, hrun⟩ := allocateSuperPage_run
    (show (⟨0, false, false⟩ : MallocConfig).useShadow = false from rfl) sizeToSizeClass_sixteen
    TLS.init fullRangeHeap hg (by decide) (spAddr_mod 0 _)
  rw [hr0] at hrun
  refine ⟨by decide, by decide, by decide, _, _, hrun, by decide, hsame, ?_, ?_⟩
  · rw [← hsame]
    simp [Heap.sizeClassOf, Heap.addSuperPage, Heap.withMeta, FixedShadow.get]
  · simp [Heap.addSuperPage, Heap.mapSuperPage, Heap.withMeta, fullRangeHeap]

end NewSuperPage

end MTMalloc

namespace MTMalloc

open SuperPage

-- ---------------------------------------------------------------------------
-- The hints stay inside their state arrays
-- ---------------------------------------------------------------------------

section Hints

variable {cfg : MallocConfig} {tags : AddressTags} {casFails : Nat → Bool}

/-- Every `LastIdxHint` of a thread is at most `NumChunks` of its class. -/
def HintsBounded (tls : TLS) : Prop := ∀ sc, (tls.perSC sc).lastIdxHint ≤ (scDescr sc).numChunks

theorem hintsBounded_init : HintsBounded TLS.init := fun _ => Nat.zero_le _

theorem HintsBounded.setHint {tls : TLS} (ht : HintsBounded tls) {sc hint : Nat}
    (hh : hint ≤ (scDescr sc).numChunks) : HintsBounded (tls.setHint sc hint) := fun sc' => by
  rw [TLS.setHint_perSC]
  split
  · subst_vars; exact hh
  · exact ht sc'

theorem HintsBounded.setSP {tls : TLS} (ht : HintsBounded tls) (sc sp : Nat) :
    HintsBounded (tls.setSP sc sp) := fun sc' => by
  rw [TLS.setSP_perSC]
  split
  · subst_vars; exact ht _
  · exact ht sc'

theorem sizeToSizeClass_eq (size : Nat) :
    sizeToSizeClass scDescr size =
      ((sizeToSizeClass scDescr size).1, scDescr (sizeToSizeClass scDescr size).1) := by
  unfold sizeToSizeClass
  split
  · rfl
  · split <;> rfl

theorem tryAllocate_hint_le {sp : Nat} {dataOnly : Bool} {scd : SizeClassDescr} {hint : Nat}
    {h : Heap} {r : (Option Nat × Nat) × Heap} (hH : hint ≤ scd.numChunks)
    (hr : tryAllocate cfg tags casFails sp dataOnly scd hint h = .ok r) : r.1.2 ≤ scd.numChunks := by
  obtain ⟨c, h1, hc, hrest⟩ := HeapM.ok_bind hr
  obtain ⟨c', hrun, hmem⟩ := claimChunk_run casFails sp dataOnly scd hH h
  rw [hrun] at hc
  obtain ⟨rfl, rfl⟩ := Prod.mk.inj (Except.ok.inj hc)
  cases c' with
  | none => cases hrest; exact hH
  | some p =>
    obtain ⟨_, _, _, hrest⟩ := HeapM.ok_bind hrest
    obtain ⟨_, _, _, hrest⟩ := HeapM.ok_bind hrest
    cases hrest
    exact hmem p rfl |>.1

theorem trySuperPages_hints {sc n offset : Nat} :
    ∀ (k i : Nat) (tls : TLS) (h : Heap) (r : (Option Nat × TLS) × Heap), HintsBounded tls →
      trySuperPages cfg tags casFails sc (scDescr sc) n offset k i tls h = .ok r → HintsBounded r.1.2
  | 0, _, tls, h, r, ht, hr => by cases hr; exact ht
  | k + 1, i, tls, h, r, ht, hr => by
    simp only [trySuperPages] at hr
    generalize (if i + offset ≥ n then i + offset - n else i + offset) = idx at hr
    obtain ⟨_, _, hget, hr⟩ := HeapM.ok_bind hr
    cases hget
    split at hr
    · obtain ⟨sp, h1, hsp, hr⟩ := HeapM.ok_bind hr
      obtain ⟨_, _, hget, hr⟩ := HeapM.ok_bind hr
      cases hget
      obtain ⟨⟨res, hint⟩, h2, htry, hr⟩ := HeapM.ok_bind hr
      have ht' := (ht.setSP sc sp).setHint (tryAllocate_hint_le (ht.setSP sc sp sc) htry)
      cases res with
      | some q => cases hr; exact ht'
      | none => exact trySuperPages_hints k (i + 1) _ h2 r ht' hr
    · exact trySuperPages_hints k (i + 1) tls _ r ht hr

theorem allocateSuperPage_tls {size : Nat} {tls : TLS} {h : Heap} {r : (Nat × TLS) × Heap}
    (hr : allocateSuperPage cfg size tls h = .ok r) : r.1.2 = { tls with rand := r.1.2.rand } := by
  unfold allocateSuperPage at hr
  rcases hs : sizeToSizeClass scDescr size with ⟨sc, scd⟩
  rw [hs] at hr
  obtain ⟨_, _, _, hr⟩ := HeapM.ok_bind hr
  obtain ⟨_, _, _, hr⟩ := HeapM.ok_bind hr
  obtain ⟨_, _, _, hr⟩ := HeapM.ok_bind hr
  obtain ⟨_, _, _, hr⟩ := HeapM.ok_bind hr
  obtain ⟨_, _, _, hr⟩ := HeapM.ok_bind hr
  obtain ⟨_, _, _, hr⟩ := HeapM.ok_bind hr
  cases hr
  rfl

theorem allocateSlowerLoop_hints {size sc : Nat} :
    ∀ (fuel : Nat) (tls : TLS) (h : Heap) (r : (Option Nat × TLS) × Heap), HintsBounded tls →
      allocateSlowerLoop cfg tags casFails size sc (scDescr sc) fuel tls h = .ok r → HintsBounded r.1.2
  | 0, tls, h, r, ht, hr => by cases hr; exact ht
  | fuel + 1, tls, h, r, ht, hr => by
    simp only [allocateSlowerLoop] at hr
    obtain ⟨_, _, hget, hr⟩ := HeapM.ok_bind hr
    cases hget
    generalize hot : (if _ ≠ 0 then _ else _) = ot at hr
    have hp : ot.2.perSC = tls.perSC := by rw [← hot]; split <;> rfl
    have ht0 : HintsBounded ot.2 := fun sc' => hp ▸ ht sc'
    obtain ⟨⟨res, tls1⟩, h1, htry, hr⟩ := HeapM.ok_bind hr
    have ht1 := trySuperPages_hints _ _ _ _ _ ht0 htry
    cases res with
    | some q => cases hr; exact ht1
    | none =>
      obtain ⟨⟨_, tls2⟩, h2, hsp, hr⟩ := HeapM.ok_bind hr
      have ht2 : HintsBounded tls2 := by
        have e := allocateSuperPage_tls hsp
        dsimp only at e
        rw [e]; exact ht1
      exact allocateSlowerLoop_hints fuel _ h2 r (ht2.setHint (Nat.zero_le _)) hr

theorem allocate_hints {self size fuel : Nat} {tls : TLS} {h : Heap} {r : (Option Nat × TLS) × Heap}
    (ht : HintsBounded tls) (hr : allocate cfg tags casFails self size fuel tls h = .ok r) :
    HintsBounded r.1.2 := by
  have hslower : ∀ tls h r, HintsBounded tls →
      allocateSlower cfg tags casFails self size fuel tls h = .ok r → HintsBounded r.1.2 := by
    intro tls h r ht hr
    unfold allocateSlower at hr
    rw [sizeToSizeClass_eq] at hr
    refine allocateSlowerLoop_hints fuel _ h r ?_ hr
    split
    · exact ht
    · exact ht
  unfold allocate at hr
  rw [sizeToSizeClass_eq] at hr
  dsimp only at hr
  split at hr
  · obtain ⟨_, _, hget, hr⟩ := HeapM.ok_bind hr
    cases hget
    obtain ⟨⟨res, hint⟩, h1, htry, hr⟩ := HeapM.ok_bind hr
    have ht' := ht.setHint (tryAllocate_hint_le (ht _) htry)
    cases res with
    | some q => cases hr; exact ht'
    | none => exact hslower _ h1 r ht' hr
  · exact hslower tls h r ht hr

theorem quarantine_perSC {ptr : Nat} {tls : TLS} {h : Heap} {r : TLS × Heap}
    (hr : quarantine cfg tags ptr tls h = .ok r) : r.1.perSC = tls.perSC := by
  obtain ⟨_, _, _, hr⟩ := HeapM.ok_bind hr
  obtain ⟨_, _, _, hr⟩ := HeapM.ok_bind hr
  obtain ⟨_, _, _, hr⟩ := HeapM.ok_bind hr
  cases hr; rfl

theorem quarantineAndMaybeScan_perSC {ptr maxQuarantineSize : Nat} {tls : TLS} {h : Heap}
    {r : TLS × Heap} (hr : quarantineAndMaybeScan cfg tags ptr maxQuarantineSize tls h = .ok r) :
    r.1.perSC = tls.perSC := by
  obtain ⟨tls1, h1, hq, hr⟩ := HeapM.ok_bind hr
  have hp := quarantine_perSC hq
  dsimp only at hp
  split at hr
  · cases hr; exact hp
  · obtain ⟨_, _, _, hr⟩ := HeapM.ok_bind hr
    obtain ⟨_, _, _, hr⟩ := HeapM.ok_bind hr
    obtain ⟨_, _, _, hr⟩ := HeapM.ok_bind hr
    obtain ⟨_, _, _, hr⟩ := HeapM.ok_bind hr
    obtain ⟨_, _, _, hr⟩ := HeapM.ok_bind hr
    cases hr; exact hp

/-- `FindByte_PEXT` makes the calls and returns the result of `FindByte_Plain` from the hint
rounded down to eight on every array whose first `N` bytes are zero or odd; with a
side-effect-free callback that result is `-1` or an accepted zero byte below `N`.
Consequently, whatever the state bytes hold, `TryAllocate`'s search with a hint at most
`NumChunks` never traps and claims only an `AVAILABLE` chunk below `NumChunks`; the hint
`Pos + 1` it stores keeps every `LastIdxHint` of a thread at most `NumChunks` of its
class, from the zeroed thread-local storage through every `Allocate` and every
`QuarantineAndMaybeScan` (`Deallocate` has no thread-local state), so the search's
`StartPosHint > N` trap is never reached either. -/
theorem findByte_tryAllocate_sound :
    (∀ {m : Type → Type} [Monad m] [LawfulMonad m] [MonadExceptOf Fault m]
      (bytes : Nat → UInt8) (n startPosHint : Nat) (cb : Nat → m Bool),
      n + 8 ≤ wordBound → startPosHint ≤ n → (∀ p < n, bytes p = 0 ∨ (bytes p).toNat % 2 = 1) →
      findBytePEXT bytes 0 n startPosHint cb = findBytePlain bytes 0 n (roundDownTo startPosHint 8) cb) ∧
    (∀ {m : Type → Type} [Monad m] [LawfulMonad m] [MonadExceptOf Fault m]
      (bytes : Nat → UInt8) (n startPosHint : Nat) (f : Nat → Bool), startPosHint ≤ n →
      ∃ r, findBytePlain bytes 0 n startPosHint (fun p => (pure (f p) : m Bool)) = pure r ∧
        (r = none ↔ ∀ p < n, bytes p = 0 → f p = false) ∧
        ∀ p, r = some p → p < n ∧ bytes p = 0 ∧ f p = true) ∧
    (∀ (casFails : Nat → Bool) (sp : Nat) (dataOnly : Bool) (scd : SizeClassDescr) (hint : Nat)
      (h : Heap), hint ≤ scd.numChunks →
      ∃ r, claimChunk casFails sp dataOnly scd hint h =
          .ok (r, match r with
            | none => h
            | some p => h.setState sp p (if dataOnly then usedData else usedMixed)) ∧
        ∀ p, r = some p → p < scd.numChunks ∧ h.state sp p = available) ∧
    HintsBounded TLS.init ∧
    (∀ (cfg : MallocConfig) (tags : AddressTags) (casFails : Nat → Bool) (self size fuel : Nat)
      (tls : TLS) (h : Heap) (r : (Option Nat × TLS) × Heap), HintsBounded tls →
      allocate cfg tags casFails self size fuel tls h = .ok r → HintsBounded r.1.2) ∧
    (∀ (cfg : MallocConfig) (tags : AddressTags) (ptr maxQuarantineSize : Nat) (tls : TLS) (h : Heap)
      (r : TLS × Heap), HintsBounded tls →
      quarantineAndMaybeScan cfg tags ptr maxQuarantineSize tls h = .ok r → HintsBounded r.1) :=
  ⟨fun bytes n hint cb hN hH hb => findBytePEXT_eq_findBytePlain bytes n hint cb hN hH hb,
    fun bytes n hint f hH => findBytePlain_pure_spec bytes 0 n hint f hH,
    fun casFails sp dataOnly scd _ h hH => claimChunk_run casFails sp dataOnly scd hH h,
    hintsBounded_init, fun _ _ _ _ _ _ _ _ _ ht hr => allocate_hints ht hr,
    fun _ _ _ _ _ _ _ ht hr sc => quarantineAndMaybeScan_perSC hr ▸ ht sc⟩

end Hints

-- ---------------------------------------------------------------------------
-- The passes of AllocateSlower
-- ---------------------------------------------------------------------------

section Passes

variable {cfg : MallocConfig} {tags : AddressTags} {casFails : Nat → Bool}

theorem wrapIdx_lt {n offset i : Nat} (ho : offset < n) (hi : i < n) : wrapIdx n offset i < n := by
  unfold wrapIdx; split <;> omega

theorem trySuperPages_skip {sc n offset : Nat} {scd : SizeClassDescr} {h : Heap} (m : Nat) :
    ∀ (k i : Nat) (tls : TLS),
      (∀ j < k, (h.meta (kMeta scd.rangeNum + wrapIdx n offset (i + j))).toNat ≠ sc) →
      trySuperPages cfg tags casFails sc scd n offset (k + m) i tls h =
        trySuperPages cfg tags casFails sc scd n offset m (i + k) tls h
  | 0, i, tls, _ => by rw [Nat.zero_add, Nat.add_zero]
  | k + 1, i, tls, hk => by
    have h0 := hk 0 (Nat.succ_pos k)
    rw [Nat.add_zero, wrapIdx] at h0
    rw [show k + 1 + m = k + m + 1 by omega]
    simp only [trySuperPages, HeapM.run_bind, HeapM.run_get, if_neg h0]
    rw [trySuperPages_skip m k (i + 1) tls fun j hj => by
      rw [show i + 1 + j = i + (j + 1) by omega]; exact hk (j + 1) (by omega),
      show i + 1 + k = i + (k + 1) by omega]

theorem trySuperPages_found {sc n offset k i sp p hint : Nat} {scd : SizeClassDescr} {tls : TLS}
    {h h' : Heap} (hm : (h.meta (kMeta scd.rangeNum + wrapIdx n offset i)).toNat = sc)
    (hg : getSuperPage scd.rangeNum (wrapIdx n offset i) = .ok sp)
    (ht : tryAllocate cfg tags casFails sp (h.dataOnlyScopeLevel ≠ 0) scd
      ((tls.setSP sc sp).perSC sc).lastIdxHint h = .ok ((some p, hint), h')) :
    trySuperPages cfg tags casFails sc scd n offset (k + 1) i tls h =
      .ok ((some p, (tls.setSP sc sp).setHint sc hint), h') := by
  rw [wrapIdx] at hm hg
  simp only [trySuperPages, HeapM.run_bind, HeapM.run_get, if_pos hm, HeapM.run_lift, hg, Except.map, ht]
  rfl

theorem trySuperPages_none {sc n offset : Nat} {scd : SizeClassDescr} {h : Heap} (tls : TLS)
    (ho : offset < n) (hm : ∀ idx < n, (h.meta (kMeta scd.rangeNum + idx)).toNat ≠ sc) :
    trySuperPages cfg tags casFails sc scd n offset n 0 tls h = .ok ((none, tls), h) :=
  (trySuperPages_skip 0 n 0 tls fun j hj => hm _ (wrapIdx_lt ho (by omega))).trans rfl

theorem trySuperPages_only {sc n offset idx sp p hint : Nat} {scd : SizeClassDescr} {tls : TLS}
    {h h' : Heap} (ho : offset < n) (hidx : idx < n)
    (hm : ∀ j < n, j ≠ idx → (h.meta (kMeta scd.rangeNum + j)).toNat ≠ sc)
    (hmi : (h.meta (kMeta scd.rangeNum + idx)).toNat = sc)
    (hg : getSuperPage scd.rangeNum idx = .ok sp)
    (ht : tryAllocate cfg tags casFails sp (h.dataOnlyScopeLevel ≠ 0) scd
      ((tls.setSP sc sp).perSC sc).lastIdxHint h = .ok ((some p, hint), h')) :
    trySuperPages cfg tags casFails sc scd n offset n 0 tls h =
      .ok ((some p, (tls.setSP sc sp).setHint sc hint), h') := by
  -- the step of the pass at which `Idx` is `idx`
  obtain ⟨i, hi, hwi, hbefore⟩ : ∃ i < n, wrapIdx n offset i = idx ∧
      ∀ j < i, wrapIdx n offset j ≠ idx := by
    refine ⟨if offset ≤ idx then idx - offset else idx + n - offset, ?_, ?_, fun j hj => ?_⟩ <;>
      (try unfold wrapIdx at *) <;> split_ifs at * <;> omega
  calc trySuperPages cfg tags casFails sc scd n offset n 0 tls h
      = trySuperPages cfg tags casFails sc scd n offset (i + (n - i - 1 + 1)) 0 tls h := by
        rw [show i + (n - i - 1 + 1) = n by omega]
    _ = trySuperPages cfg tags casFails sc scd n offset (n - i - 1 + 1) (0 + i) tls h :=
        trySuperPages_skip _ i 0 tls fun j hj => by
          rw [Nat.zero_add]
          exact hm _ (wrapIdx_lt ho (by omega)) (hbefore j hj)
    _ = _ := trySuperPages_found (by rw [Nat.zero_add, hwi]; exact hmi)
        (by rw [Nat.zero_add, hwi]; exact hg) ht

theorem allocateSlowerLoop_found {size sc fuel p : Nat} {scd : SizeClassDescr} {tls tls' : TLS}
    {h h' : Heap} (hn : h.numSuperPages scd.rangeNum ≠ 0)
    (hp : trySuperPages cfg tags casFails sc scd (h.numSuperPages scd.rangeNum)
      ((randR tls.rand).1 % h.numSuperPages scd.rangeNum) (h.numSuperPages scd.rangeNum) 0
      { tls with rand := (randR tls.rand).2 } h = .ok ((some p, tls'), h')) :
    allocateSlowerLoop cfg tags casFails size sc scd (fuel + 1) tls h = .ok ((some p, tls'), h') := by
  simp only [allocateSlowerLoop, HeapM.run_bind, HeapM.run_get, if_pos hn]
  rw [hp]
  rfl

theorem allocateSlowerLoop_next {size sc fuel sp : Nat} {scd : SizeClassDescr} {tls tls' tls'' : TLS}
    {h h₁ h' : Heap} (hn : h.numSuperPages scd.rangeNum ≠ 0)
    (hp : trySuperPages cfg tags casFails sc scd (h.numSuperPages scd.rangeNum)
      ((randR tls.rand).1 % h.numSuperPages scd.rangeNum) (h.numSuperPages scd.rangeNum) 0
      { tls with rand := (randR tls.rand).2 } h = .ok ((none, tls'), h₁))
    (ha : allocateSuperPage cfg size tls' h₁ = .ok ((sp, tls''), h')) :
    allocateSlowerLoop cfg tags casFails size sc scd (fuel + 1) tls h =
      allocateSlowerLoop cfg tags casFails size sc scd fuel (tls''.setHint sc 0) h' := by
  simp only [allocateSlowerLoop, HeapM.run_bind, HeapM.run_get, if_pos hn]
  rw [hp]
  simp only [HeapM.run_bind, ha]

end Passes

end MTMalloc

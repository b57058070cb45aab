import MTMalloc.Allocator

/-!
# The C entry points

`malloc`, `free`, `calloc`, `posix_memalign` and the access hook `__mtm_access` of
`unnamed/part_004`, with the `LargeAllocator` of `mtmalloc_large.h` that serves the sizes
past `kMaxSizeClass`.

`mmap len` is the kernel's answer to `mmap(0, len, ...)` for an anonymous mapping: the
address it picks, or `none` for `MAP_FAILED`. The header words of a large block are stored
in the heap's word map like any other word. `__mtm_access` calls the tag functions of the
configured `Tags`; `CountAccess` before it only updates statistics, and its
`GetSizeClass` cannot trap on a pointer `IsMine` accepted.
-/

namespace MTMalloc

open SuperPage

namespace Heap

/-- A store of the 64-bit value `v` at `a`. -/
def setWord (h : Heap) (a v : Nat) : Heap := { h with word := Function.update h.word a v }

/-- `memset(p, 0, n)`. -/
def zeroWords (h : Heap) (p n : Nat) : Heap :=
  { h with word := fun a => if p ≤ a ∧ a < p + n then 0 else h.word a }

@[simp] theorem setWord_word (h : Heap) (a v a' : Nat) :
    (h.setWord a v).word a' = if a' = a then v else h.word a' := Function.update_apply _ _ _ _

end Heap

-- ---------------------------------------------------------------------------
-- LargeAllocator
-- ---------------------------------------------------------------------------

def kCpuPageSize : Nat := 2 ^ 12
def kLeftHeaderMagic : Nat := 0x039C823525B0237E
def kRightHeaderMagic : Nat := 0x1C2C5300098D85AD

/-- `LargeAllocator::Allocate(Size)`: a page-rounded mapping with one header page in front,
whose first three words are the left magic, the mapped size and the right magic. -/
def largeAllocate (mmap : Nat → Option Nat) (size : Nat) : HeapM Nat := do
  let roundedSize := roundUpTo size kCpuPageSize
  let sizeWithHeader := (roundedSize + kCpuPageSize) % wordBound
  match mmap sizeWithHeader with
  | none => throw .trap
  | some header =>
    modify fun h => ((h.setWord header kLeftHeaderMagic).setWord (header + 8) sizeWithHeader).setWord
      (header + 16) kRightHeaderMagic
    pure (header + kCpuPageSize)

/-- `LargeAllocator::GetHeader(Ptr)`: it traps only when both magics are wrong. -/
def getHeader (ptr : Nat) : HeapM Nat := do
  let header := sub64 ptr kCpuPageSize
  let h ← get
  if h.word header ≠ kLeftHeaderMagic ∧ h.word (header + 16) ≠ kRightHeaderMagic then throw .trap
  pure header

/-- `LargeAllocator::GetPtrChunkSize(Ptr)`: `Header[1] - kCpuPageSize`. -/
def largeGetPtrChunkSize (ptr : Nat) : HeapM Nat := do
  let header ← getHeader ptr
  pure (sub64 ((← get).word (header + 8)) kCpuPageSize)

/-- `LargeAllocator::Deallocate(Ptr, Protect)`: the header check; the mapping is then
given back or made inaccessible, which the word map does not record. -/
def largeDeallocate (ptr : Nat) : HeapM Unit := do
  let _ ← getHeader ptr

-- ---------------------------------------------------------------------------
-- The C functions
-- ---------------------------------------------------------------------------

section Entry

variable (cfg : MallocConfig) (tags : AddressTags) (casFails : Nat → Bool)
  (mmap : Nat → Option Nat) (self fuel : Nat)

/-- `malloc(size)`: sizes below 8 ask for one byte; past `kMaxSizeClass` the large
allocator serves the request. -/
def malloc (size : Nat) (tls : TLS) : HeapM (Option Nat × TLS) := do
  let size := if size < 8 then 1 else size
  if size > kMaxSizeClass then
    let p ← largeAllocate mmap size
    pure (some p, tls)
  else allocate cfg tags casFails self size fuel tls

/-- `free(p)`, with `Config.QuarantineSize` as `quarantineSize`. -/
def free (p quarantineSize : Nat) (tls : TLS) : HeapM TLS :=
  if p = 0 then pure tls
  else if isMine cfg p then
    if quarantineSize = 0 then do
      deallocate cfg tags p
      pure tls
    else quarantineAndMaybeScan cfg tags p (quarantineSize <<< 20 % wordBound) tls
  else do
    largeDeallocate p
    pure tls

/-- `calloc(nmemb, size)`: the product is a `size_t`. -/
def calloc (nmemb size : Nat) (tls : TLS) : HeapM (Option Nat × TLS) := do
  let n := nmemb * size % wordBound
  let (res, tls) ← malloc cfg tags casFails mmap self fuel n tls
  match res with
  | none => pure (none, tls)
  | some p =>
    modify (·.zeroWords p n)
    pure (some p, tls)

/-- `posix_memalign(&p, alignment, size)`: the pointer it stores. Past 16 bytes of
alignment the size is rounded down to the alignment; past 4096 an `assert` fails. -/
def posixMemalign (alignment size : Nat) (tls : TLS) : HeapM (Option Nat × TLS) :=
  if alignment ≤ 16 then malloc cfg tags casFails mmap self fuel size tls
  else if alignment ≤ 4096 then malloc cfg tags casFails mmap self fuel (roundDownTo size alignment) tls
  else throw .assertion

/-- `__mtm_access(Ptr)`: a pointer into the region must carry the low four bits of its
chunk's memory tag as address tag. -/
def mtmAccess (ptr : Nat) : HeapM Unit :=
  if isMine cfg ptr then do
    let addressTag := tags.getAddressTag ptr
    let memoryTag := (← liftM (getMemoryTag cfg.useShadow (← get).meta (tags.applyAddressTag ptr 0))) &&& 15
    if addressTag ≠ memoryTag then throw .tagMismatch
  else pure ()

end Entry

-- ---------------------------------------------------------------------------
-- The fast path of Allocate
-- ---------------------------------------------------------------------------

section FastPath

variable {cfg : MallocConfig} {tags : AddressTags} {casFails : Nat → Bool}

/-- `TryAllocate`'s search claims the first `AVAILABLE` chunk from the hint rounded down to
eight when its swap succeeds. -/
theorem claimChunk_first_free (sp : Nat) (dataOnly : Bool) {scd : SizeClassDescr} {hint k : Nat}
    {h : Heap} (hN : scd.numChunks + 8 ≤ wordBound) (hH : hint ≤ scd.numChunks)
    (hb : StatesZeroOrOdd h sp scd.numChunks) (hk : roundDownTo hint 8 ≤ k) (hkn : k < scd.numChunks)
    (hused : ∀ p, roundDownTo hint 8 ≤ p → p < k → h.state sp p ≠ available)
    (hav : h.state sp k = available) (hcas : casFails k = false) :
    claimChunk casFails sp dataOnly scd hint h =
      .ok (some k, h.setState sp k (if dataOnly then usedData else usedMixed)) := by
  set D := roundDownTo hint 8
  have hcands : claimCands h sp scd hint =
      k :: ((List.range' (k + 1) (scd.numChunks - (k + 1)) ++ List.range' 0 D).filter
        fun p => h.state sp p = available) := by
    have hsplit : List.range' D (scd.numChunks - D) =
        List.range' D (k - D) ++ k :: List.range' (k + 1) (scd.numChunks - (k + 1)) := by
      have e := List.range'_append_1 D (k - D) (scd.numChunks - (k + 1) + 1)
      rw [show D + (k - D) = k by omega, List.range'_succ] at e
      rw [e]; congr 1; omega
    rw [claimCands, map_wrapIdx_range' (by omega), hsplit, List.append_assoc, List.filter_append,
      filter_range'_eq_nil, List.nil_append, List.cons_append,
      List.filter_cons_of_pos (by simpa using hav)]
    intro p hp hp'
    simpa using hused p hp (by omega)
  rw [claimChunk_eq casFails sp dataOnly scd hint h hN hH hb, hcands,
    List.find?_cons_of_pos _ (by simp [casOk, hav, hcas])]

theorem tryAllocate_of_claim {sp : Nat} {dataOnly : Bool} {scd : SizeClassDescr} {hint pos : Nat}
    {h h' : Heap} {tag : UInt8} (hc : claimChunk casFails sp dataOnly scd hint h = .ok (some pos, h'))
    (ht : getMemoryTag cfg.useShadow h'.meta (addressOfChunk sp pos scd) = .ok tag) :
    tryAllocate cfg tags casFails sp dataOnly scd hint h =
      .ok ((some (tags.applyAddressTag (addressOfChunk sp pos scd) tag), pos + 1), h') := by
  simp only [tryAllocate, HeapM.run_bind, hc, HeapM.run_get, HeapM.run_lift, ht]
  rfl

theorem tryAllocate_untagged (sp : Nat) {scd : SizeClassDescr} {hint k : Nat} {h : Heap}
    (hdata : h.dataOnlyScopeLevel = 0) (hN : scd.numChunks + 8 ≤ wordBound)
    (hH : hint ≤ scd.numChunks) (hb : StatesZeroOrOdd h sp scd.numChunks)
    (hk : roundDownTo hint 8 ≤ k) (hkn : k < scd.numChunks)
    (hused : ∀ p, roundDownTo hint 8 ≤ p → p < k → h.state sp p ≠ available)
    (hav : h.state sp k = available) :
    tryAllocate ⟨0, false, false⟩ (MemtagTags.engine false false) (fun _ => false) sp
        (h.dataOnlyScopeLevel ≠ 0) scd hint h =
      .ok ((some (addressOfChunk sp k scd), k + 1), h.setState sp k usedMixed) := by
  have hc := @claimChunk_first_free (fun _ => false) sp (decide (h.dataOnlyScopeLevel ≠ 0)) scd hint k h
    hN hH hb hk hkn hused hav rfl
  rw [show (if decide (h.dataOnlyScopeLevel ≠ 0) = true then usedData else usedMixed) = usedMixed by
    rw [hdata]; rfl] at hc
  exact tryAllocate_of_claim hc rfl

theorem allocate_of_tryAllocate {self size fuel sc p hint : Nat} {scd : SizeClassDescr} {tls : TLS}
    {h h' : Heap} (hs : sizeToSizeClass scDescr size = (sc, scd)) (hsp : (tls.perSC sc).sp ≠ 0)
    (ht : tryAllocate cfg tags casFails (tls.perSC sc).sp (h.dataOnlyScopeLevel ≠ 0) scd
      (tls.perSC sc).lastIdxHint h = .ok ((some p, hint), h')) :
    allocate cfg tags casFails self size fuel tls h = .ok ((some p, tls.setHint sc hint), h') := by
  simp only [allocate, hs, if_pos hsp, HeapM.run_bind, HeapM.run_get, ht]
  rfl

theorem allocate_of_no_sp {self size fuel sc : Nat} {scd : SizeClassDescr} {tls : TLS}
    (hs : sizeToSizeClass scDescr size = (sc, scd)) (hsp : (tls.perSC sc).sp = 0) :
    allocate cfg tags casFails self size fuel tls = allocateSlowerLoop cfg tags casFails size sc scd fuel
      (if tls.rand = 0 then { tls with rand := self } else tls) := by
  simp only [allocate, allocateSlower, hs, hsp, ne_eq, not_true_eq_false, if_false]

end FastPath

-- ---------------------------------------------------------------------------
-- The fast path after range 0 overflows into range 1
-- ---------------------------------------------------------------------------

section Remapped

theorem sizeToSizeClass_of_table {size i : Nat} (hs : 256 < size) (hi : i < kNumSizeClasses)
    (hfit : size ≤ scArray.getD i 0) (hmin : ∀ j < i, scArray.getD j 0 < size) :
    sizeToSizeClass scDescr size = (i, scDescr i) := by
  have hcs : ∀ j < kNumSizeClasses, (scDescr j).chunkSize = scArray.getD j 0 := fun j hj => by
    rw [(scDescr_valid hj).2]; simp [List.getElem?_eq_getElem (show j < scArray.length from hj)]
  have hfind : (List.range kNumSizeClasses).find?
      (fun idx => decide (size ≤ (scDescr idx).chunkSize)) = some i := by
    rw [List.find?_range_eq_some]
    refine ⟨by simpa [hcs i hi] using hfit, List.mem_range.2 hi, fun j hj => ?_⟩
    simpa [hcs j (by omega)] using hmin j hj
  simp only [sizeToSizeClass, if_neg (show ¬ size ≤ 256 by omega), hfind]

/-- Range 0 full with `2^20` super pages whose chunks are all in use, and range 1 with two
super pages of class 28 (1024-byte chunks) whose chunks are all `AVAILABLE`. -/
def overflowHeap : Heap :=
  { Heap.empty with
    meta := fun a => if a = superPageMetadata.getShadowPtr (spAddr 1 0) ∨
      a = superPageMetadata.getShadowPtr (spAddr 1 1) then 28 else 0
    state := fun sp _ => if sp < kFirstSuperPage 1 then usedMixed else available
    numSuperPages := fun r => if r = 0 then 2 ^ 20 else 2 }

/-- A thread whose class-28 slot holds range 1's first super page. -/
def class28TLS : TLS :=
  { TLS.init with perSC := fun sc => if sc = 28 then ⟨spAddr 1 0, 0⟩ else ⟨0, 0⟩ }

/-- After `AllocateSuperPage(16)` has mapped range 0's super page over range 1's first one,
`Allocate(1024)` of a thread whose `PerSC.SP` for class 28 is that page takes the fast path
and returns its chunk 0, while the page's metadata byte now says class 0 and range 1's
second super page, of class 28, still has an `AVAILABLE` chunk. -/
theorem allocate_returns_chunk_of_remapped_page (self fuel : Nat) :
    ∃ tls h', allocateSuperPage ⟨0, false, false⟩ 16 class28TLS overflowHeap =
        .ok ((spAddr 1 0, tls), h') ∧
      h'.sizeClassOf (spAddr 1 0) = 0 ∧ h'.numSuperPages 1 = 2 ∧
      h'.sizeClassOf (spAddr 1 1) = 28 ∧ h'.state (spAddr 1 1) 0 = available ∧
      ∃ tls' h'', allocate ⟨0, false, false⟩ (MemtagTags.engine false false) (fun _ => false)
        self 1024 fuel tls h' = .ok ((some (spAddr 1 0), tls'), h'') := by
  obtain ⟨hv0, hcs0⟩ := scDescr_valid (show 0 < kNumSizeClasses by decide)
  have hr0 : (scDescr 0).rangeNum = 0 := by rw [hv0.rangeNum_eq, hcs0]; decide
  have hsame : spAddr 0 (2 ^ 20) = spAddr 1 0 := by decide
  have hg : getSuperPage (scDescr 0).rangeNum (overflowHeap.numSuperPages (scDescr 0).rangeNum) =
      .ok (spAddr 0 (2 ^ 20)) := by rw [hr0]; rfl
  obtain ⟨rand, hrun⟩ := allocateSuperPage_run
    (show (⟨0, false, false⟩ : MallocConfig).useShadow = false from rfl) sizeToSizeClass_sixteen
    class28TLS overflowHeap hg (by decide) (spAddr_mod 0 _)
  rw [hr0, hsame] at hrun
  set h' := ((overflowHeap.mapSuperPage (spAddr 1 0) 0).withMeta (Function.update overflowHeap.meta
    (superPageMetadata.getShadowPtr (spAddr 1 0)) (UInt8.ofNat 0))).addSuperPage 0
  have hstate : ∀ sp i, kFirstSuperPage 1 ≤ sp → h'.state sp i = available := fun sp i hsp => by
    simp only [h', Heap.addSuperPage, Heap.withMeta, Heap.mapSuperPage, overflowHeap]
    split <;> simp only [if_neg (show ¬ sp < kFirstSuperPage 1 by omega)]
  refine ⟨_, _, hrun, ?_, by decide, ?_, hstate _ _ (by decide), ?_⟩
  · simp [h', Heap.sizeClassOf, Heap.addSuperPage, Heap.withMeta, FixedShadow.get]
  · simp only [h', Heap.sizeClassOf, Heap.addSuperPage, Heap.withMeta, FixedShadow.get]
    rw [Function.update_noteq (by decide)]
    simp [overflowHeap]
  -- the fast path: chunk 0 of `PerSC[28].SP`
  obtain ⟨hv, -⟩ := scDescr_valid (show 28 < kNumSizeClasses by decide)
  have htry := tryAllocate_untagged (spAddr 1 0) rfl hv.numChunks_add_eight_le (Nat.zero_le _)
    (fun i _ => .inl (hstate _ i (by decide))) (by decide) hv.numChunks_pos
    (fun p _ hp => absurd hp (Nat.not_lt_zero p)) (hstate _ 0 (by decide))
  rw [addressOfChunk_zero] at htry
  exact ⟨_, _, allocate_of_tryAllocate
    (sizeToSizeClass_of_table (by decide) (by decide) (by decide) (by decide))
    (show (class28TLS.perSC 28).sp ≠ 0 by decide) htry⟩

end Remapped

-- ---------------------------------------------------------------------------
-- Large blocks
-- ---------------------------------------------------------------------------

section Large

/-- The size `LargeAllocator::Allocate` maps for a request: the request rounded up to a page,
plus the header page, on 64 bits. -/
def largeMapSize (size : Nat) : Nat := (roundUpTo size kCpuPageSize + kCpuPageSize) % wordBound

theorem largeAllocate_run {mmap : Nat → Option Nat} {size header : Nat}
    (hm : mmap (largeMapSize size) = some header) (h : Heap) :
    largeAllocate mmap size h = .ok (header + kCpuPageSize,
      ((h.setWord header kLeftHeaderMagic).setWord (header + 8) (largeMapSize size)).setWord
        (header + 16) kRightHeaderMagic) := by
  have hm' : mmap ((roundUpTo size kCpuPageSize + kCpuPageSize) % wordBound) = some header := hm
  simp only [largeAllocate, hm']
  rfl

theorem largeAllocate_getPtrChunkSize {mmap : Nat → Option Nat} {size header : Nat}
    (hm : mmap (largeMapSize size) = some header) (hh : header + kCpuPageSize < wordBound) (h : Heap) :
    ∃ h', largeAllocate mmap size h = .ok (header + kCpuPageSize, h') ∧
      largeGetPtrChunkSize (header + kCpuPageSize) h' = .ok (sub64 (largeMapSize size) kCpuPageSize, h') := by
  have hsub : sub64 (header + kCpuPageSize) kCpuPageSize = header := by
    unfold sub64 kCpuPageSize wordBound at *
    rw [Nat.mod_eq_of_lt hh, Nat.mod_eq_of_lt (by omega : 2 ^ 12 < 2 ^ 64),
      show header + 2 ^ 12 + 2 ^ 64 - 2 ^ 12 = header + 2 ^ 64 by omega, Nat.add_mod_right,
      Nat.mod_eq_of_lt (by omega)]
  refine ⟨_, largeAllocate_run hm h, ?_⟩
  simp only [largeGetPtrChunkSize, getHeader, HeapM.run_bind, HeapM.run_get, hsub,
      Heap.setWord_word, if_pos, show header ≠ header + 16 by omega, show header ≠ header + 8 by omega,
      show header + 8 ≠ header + 16 by omega, if_false, if_true, ne_eq, not_true_eq_false,
      false_and, HeapM.run_pure]

/-- `malloc` of a size within one page of `2^64`: the page round-up wraps to zero, and the
block `GetPtrChunkSize` reports has no bytes. -/
theorem malloc_near_wordBound {cfg : MallocConfig} {tags : AddressTags} {casFails : Nat → Bool}
    {mmap : Nat → Option Nat} {self fuel size header : Nat}
    (hs : wordBound - kCpuPageSize < size ∧ size < wordBound) (hm : mmap kCpuPageSize = some header)
    (hh : header + kCpuPageSize < wordBound) (tls : TLS) (h : Heap) :
    ∃ h', malloc cfg tags casFails mmap self fuel size tls h = .ok ((some (header + kCpuPageSize), tls), h') ∧
      largeGetPtrChunkSize (header + kCpuPageSize) h' = .ok (0, h') := by
  have hmap : largeMapSize size = kCpuPageSize := by
    unfold largeMapSize roundUpTo kCpuPageSize at *
    rw [sub64_pow_one (by decide), and_compl64_pow (Nat.mod_lt _ (by decide)) (by decide)]
    unfold wordBound at *
    omega
  obtain ⟨h', hrun, hsize⟩ := largeAllocate_getPtrChunkSize (hmap ▸ hm) hh h
  refine ⟨h', ?_, by rw [hsize, hmap]; rfl⟩
  have hmax : kMaxSizeClass < size := by
    have : kMaxSizeClass = 262144 := rfl
    unfold wordBound kCpuPageSize at hs; omega
  have h8 : ¬ size < 8 := by have : kMaxSizeClass = 262144 := rfl; omega
  simp only [malloc, if_neg h8, if_pos hmax, HeapM.run_bind, hrun]
  rfl

/-- Three requests that get less than they ask for. `malloc(2^64 - 1)`, with the kernel
mapping the header page at `0x7f0000000000`, returns a block of 0 bytes.
`posix_memalign(&p, 64, 100)` asks `malloc` for `RoundDownTo(100, 64) = 64` bytes, whose class
has 64-byte chunks. `calloc(2^32, 2^32)` computes the product on 64 bits and behaves as
`calloc(1, 0)`, which asks `malloc` for one byte, whose class has 16-byte chunks. -/
theorem entry_points_shrink_requests (cfg : MallocConfig) (tags : AddressTags) (casFails : Nat → Bool)
    (mmap : Nat → Option Nat) (self fuel : Nat) (tls : TLS) (h : Heap) :
    (∃ h', malloc cfg tags casFails (fun _ => some 0x7f0000000000) self fuel (2 ^ 64 - 1) tls h =
        .ok ((some (0x7f0000000000 + kCpuPageSize), tls), h') ∧
      largeGetPtrChunkSize (0x7f0000000000 + kCpuPageSize) h' = .ok (0, h')) ∧
    (posixMemalign cfg tags casFails mmap self fuel 64 100 tls =
        malloc cfg tags casFails mmap self fuel 64 tls ∧
      sizeClassToSize scDescr (sizeToSizeClass scDescr 64).1 = 64) ∧
    (calloc cfg tags casFails mmap self fuel (2 ^ 32) (2 ^ 32) tls =
        calloc cfg tags casFails mmap self fuel 1 0 tls ∧
      malloc cfg tags casFails mmap self fuel 0 tls = malloc cfg tags casFails mmap self fuel 1 tls ∧
      sizeClassToSize scDescr (sizeToSizeClass scDescr 1).1 = 16) := by
  refine ⟨@malloc_near_wordBound cfg tags casFails (fun _ => some 0x7f0000000000) self fuel
    (2 ^ 64 - 1) 0x7f0000000000 (by decide) rfl (by decide) tls h, ⟨?_, ?_⟩, ?_, ?_, ?_⟩
  · simp only [posixMemalign, if_neg (show ¬ 64 ≤ 16 by decide), if_pos (show 64 ≤ 4096 by decide)]
    rfl
  · rw [sizeClassToSize, show (sizeToSizeClass scDescr 64).1 = 3 by decide]
    exact (scDescr_valid (by decide)).2
  · rfl
  · rfl
  · rw [sizeClassToSize, show (sizeToSizeClass scDescr 1).1 = 0 by decide]
    exact (scDescr_valid (by decide)).2

end Large

-- ---------------------------------------------------------------------------
-- Deallocate, step by step
-- ---------------------------------------------------------------------------

section FreeSteps

variable {cfg : MallocConfig} {tags : AddressTags}

theorem removeAddressTag_run {ptr : Nat} {h : Heap} {t : UInt8}
    (hm : getMemoryTag cfg.useShadow h.meta (tags.applyAddressTag ptr 0) = .ok t)
    (hchk : cfg.useAliases = false) :
    removeAddressTagAndCheckForDoubleFree cfg tags ptr h = .ok (tags.applyAddressTag ptr 0, h) := by
  simp only [removeAddressTagAndCheckForDoubleFree, HeapM.run_bind, HeapM.run_get, HeapM.run_lift, hm,
    Except.map, hchk]
  simp

theorem startSuperPage_run {ptr : Nat} (h : Heap)
    (hin : kAllocatorSpace ≤ roundDownTo ptr kSuperPageSize ∧
      roundDownTo ptr kSuperPageSize < kAllocatorSpace + kAllocatorSize) :
    startSuperPage ptr h = .ok (roundDownTo ptr kSuperPageSize, h) := by
  simp only [startSuperPage, HeapM.run_bind, if_neg (Nat.not_lt.mpr hin.1), if_neg (Nat.not_le.mpr hin.2)]
  rfl

theorem exchangeAndCheckForDoubleFree_run {sp idx : Nat} {v : UInt8} {h : Heap}
    (hu : h.state sp idx = usedMixed ∨ h.state sp idx = usedData) :
    exchangeAndCheckForDoubleFree sp idx v h = .ok ((), h.setState sp idx v) := by
  simp only [exchangeAndCheckForDoubleFree, HeapM.run_bind, HeapM.run_get, HeapM.run_modify]
  rw [if_neg (by rcases hu with hu | hu <;> simp [hu])]
  rfl

theorem exchangeAndCheckForDoubleFree_error {sp idx : Nat} {v : UInt8} {h : Heap}
    (hu : h.state sp idx ≠ usedMixed ∧ h.state sp idx ≠ usedData) :
    exchangeAndCheckForDoubleFree sp idx v h = .error .doubleFree := by
  simp only [exchangeAndCheckForDoubleFree, HeapM.run_bind, HeapM.run_get, HeapM.run_modify]
  rw [if_pos hu]
  rfl

theorem superPage_deallocate_doubleFree {sp i : Nat} {h h1 : Heap} {t : UInt8}
    (hsp : superPageMetadata.isMine sp = true) (hsp0 : sp % kSuperPageSize = 0)
    (hv : (h.scdOf sp).Valid) (hi : i < (h.scdOf sp).numChunks)
    (hupd : updateMemoryTagOnFree cfg (addressOfChunk sp i (h.scdOf sp)) (h.scdOf sp).chunkSize h =
      .ok (t, h1))
    (hu : h1.state sp i ≠ usedMixed ∧ h1.state sp i ≠ usedData) :
    SuperPage.deallocate cfg sp (addressOfChunk sp i (h.scdOf sp)) h = .error .doubleFree := by
  simp only [SuperPage.deallocate, HeapM.run_bind, getSCD_run hsp, HeapM.run_lift,
    computeStatePtr_chunk hv hsp0 hi, Except.map, hupd, exchangeAndCheckForDoubleFree_error hu]

theorem deallocate_eq_superPage {ptr sp : Nat} {h : Heap} {t : UInt8}
    (hm : getMemoryTag cfg.useShadow h.meta (tags.applyAddressTag ptr 0) = .ok t)
    (hchk : cfg.useAliases = false) (hsp : roundDownTo (tags.applyAddressTag ptr 0) kSuperPageSize = sp)
    (hin : kAllocatorSpace ≤ sp ∧ sp < kAllocatorSpace + kAllocatorSize) :
    deallocate cfg tags ptr h = SuperPage.deallocate cfg sp (tags.applyAddressTag ptr 0) h := by
  subst hsp
  simp only [deallocate, HeapM.run_bind, removeAddressTag_run hm hchk, startSuperPage_run h hin]

theorem free_error {p : Nat} {tls : TLS} {h : Heap} {e : Fault} (hp : p ≠ 0)
    (hmine : isMine cfg p = true) (hd : deallocate cfg tags p h = .error e) :
    free cfg tags p 0 tls h = .error e := by
  simp only [free, if_neg hp, if_pos hmine, if_true, HeapM.run_bind, hd]

end FreeSteps

-- ---------------------------------------------------------------------------
-- A free after range 0 overflows into range 1
-- ---------------------------------------------------------------------------

section OverflowFree

/-- Range 0 full with `2^20` super pages of class 1, and range 1 with one super page of class
28 (1024-byte chunks) whose chunk 0 is in use. -/
def classOneHeap : Heap :=
  { Heap.empty with
    meta := fun a => if kMeta 0 ≤ a ∧ a < kMeta 1 then 1 else if a = kMeta 1 then 28 else 0
    state := fun sp i => if sp = spAddr 1 0 ∧ i = 0 then usedMixed else available
    numSuperPages := fun r => if r = 0 then 2 ^ 20 else 1 }

/-- A thread whose class-28 slot holds range 1's first super page, past its chunk 0. -/
def chunkZeroTLS : TLS :=
  { TLS.init with perSC := fun sc => if sc = 28 then ⟨spAddr 1 0, 1⟩ else ⟨0, 0⟩ }

/-- `classOneHeap` after `AllocateSuperPage(16)`: range 0's super page number `2^20`, which is
range 1's first one, mapped as class 0. -/
def remappedHeap : Heap :=
  ((classOneHeap.mapSuperPage (spAddr 1 0) 0).withMeta (Function.update classOneHeap.meta
    (superPageMetadata.getShadowPtr (spAddr 1 0)) (UInt8.ofNat 0))).addSuperPage 0

theorem remappedHeap_state (i : Nat) : remappedHeap.state (spAddr 1 0) i = available := by
  simp [remappedHeap, Heap.addSuperPage, Heap.withMeta, Heap.mapSuperPage]

theorem remappedHeap_sizeClassOf : remappedHeap.sizeClassOf (spAddr 1 0) = 0 := by
  simp only [remappedHeap, Heap.sizeClassOf, FixedShadow.get, Heap.addSuperPage, Heap.withMeta,
    Function.update_same]
  rfl

/-- `Allocate(16)` from `chunkZeroTLS` finds no page of class 0 in range 0, maps range 0's
super page number `2^20` over range 1's first one and returns its chunk 0; the thread's
class-28 slot is left as it was. -/
theorem allocate_sixteen_remaps (self fuel : Nat) :
    ∃ tls, tls.perSC 28 = ⟨spAddr 1 0, 1⟩ ∧
      allocate ⟨0, false, false⟩ (MemtagTags.engine false false) (fun _ => false) self 16 (fuel + 2)
        chunkZeroTLS classOneHeap = .ok ((some (spAddr 1 0), tls), remappedHeap.setState (spAddr 1 0) 0 usedMixed) := by
  obtain ⟨hv0, hcs0⟩ := scDescr_valid (show 0 < kNumSizeClasses by decide)
  have hr0 : (scDescr 0).rangeNum = 0 := by rw [hv0.rangeNum_eq, hcs0]; decide
  have hsame : spAddr 0 (2 ^ 20) = spAddr 1 0 := by decide
  have hshadow : superPageMetadata.getShadowPtr (spAddr 1 0) = kMeta 0 + 2 ^ 20 := by decide
  have hk : kMeta 1 = kMeta 0 + 2 ^ 20 := by decide
  rw [allocate_of_no_sp sizeToSizeClass_sixteen rfl, if_pos (show chunkZeroTLS.rand = 0 from rfl)]
  -- the first pass finds no page of class 0 in range 0
  have hn0 : classOneHeap.numSuperPages (scDescr 0).rangeNum = 2 ^ 20 := by rw [hr0]; rfl
  have hmeta1 : ∀ idx < classOneHeap.numSuperPages (scDescr 0).rangeNum,
      (classOneHeap.meta (kMeta (scDescr 0).rangeNum + idx)).toNat ≠ 0 := by
    intro idx hidx
    rw [hn0] at hidx
    simp only [hr0, classOneHeap]
    rw [if_pos (by omega)]
    decide
  obtain ⟨rand, hrun⟩ := allocateSuperPage_run
    (show (⟨0, false, false⟩ : MallocConfig).useShadow = false from rfl) sizeToSizeClass_sixteen
    _ classOneHeap (by rw [hn0, hr0, ← hsame]; rfl) (by decide) (spAddr_mod 1 0)
  rw [allocateSlowerLoop_next (by rw [hn0]; decide)
    (trySuperPages_none _ (Nat.mod_lt _ (by rw [hn0]; decide)) hmeta1) hrun]
  generalize hd0 : scDescr 0 = d0 at hv0 hcs0 hr0 ⊢
  rw [hr0]
  -- the second pass: `TryAllocate` takes chunk 0 of the new page
  have hn1 : remappedHeap.numSuperPages d0.rangeNum = 2 ^ 20 + 1 := by
    rw [hr0]; simp [remappedHeap, Heap.addSuperPage, Heap.withMeta, Heap.mapSuperPage, classOneHeap]
  have hmeta2 : ∀ j < remappedHeap.numSuperPages d0.rangeNum, j ≠ 2 ^ 20 →
      (remappedHeap.meta (kMeta d0.rangeNum + j)).toNat ≠ 0 := by
    intro j hj hne
    rw [hn1] at hj
    rw [hr0]
    simp only [remappedHeap, Heap.addSuperPage, Heap.withMeta, hshadow, classOneHeap]
    rw [Function.update_noteq (by omega), if_pos (by omega)]
    decide
  have hmi : (remappedHeap.meta (kMeta d0.rangeNum + 2 ^ 20)).toNat = 0 := by
    rw [hr0]
    simp only [remappedHeap, Heap.addSuperPage, Heap.withMeta, ← hshadow, Function.update_same]
    rfl
  have htry := tryAllocate_untagged (spAddr 1 0) rfl hv0.numChunks_add_eight_le
    (Nat.zero_le d0.numChunks) (fun i _ => .inl (remappedHeap_state i)) (by decide) hv0.numChunks_pos
    (fun p _ hp => absurd hp (Nat.not_lt_zero p)) (remappedHeap_state 0)
  rw [addressOfChunk_zero] at htry
  have hpass : ∀ T : TLS, (T.perSC 0).lastIdxHint = 0 → ∀ offset < remappedHeap.numSuperPages d0.rangeNum,
      trySuperPages ⟨0, false, false⟩ (MemtagTags.engine false false) (fun _ => false) 0 d0
        (remappedHeap.numSuperPages d0.rangeNum) offset (remappedHeap.numSuperPages d0.rangeNum) 0 T
        remappedHeap =
      .ok ((some (spAddr 1 0), (T.setSP 0 (spAddr 1 0)).setHint 0 (0 + 1)),
        remappedHeap.setState (spAddr 1 0) 0 usedMixed) := by
    intro T hT offset ho
    refine trySuperPages_only ho (by rw [hn1]; decide) hmeta2 hmi (by rw [hr0]; rfl) ?_
    rw [show ((T.setSP 0 (spAddr 1 0)).perSC 0).lastIdxHint = 0 by simp [hT]]
    exact htry
  exact ⟨_, by simp [chunkZeroTLS], allocateSlowerLoop_found (h := remappedHeap) (by rw [hn1]; decide)
    (hpass _ (by simp) _ (Nat.mod_lt _ (by rw [hn1]; decide)))⟩

/-- `Allocate(1024)` of a thread whose class-28 slot holds range 1's first super page, past its
chunk 0, takes the fast path: after the remapping that page's chunk 0 is in use and chunk 1 is
`AVAILABLE`, so it returns chunk 1, at offset 1024. -/
theorem allocate_1024_takes_chunk_one {T : TLS} (hT : T.perSC 28 = ⟨spAddr 1 0, 1⟩) (self fuel : Nat) :
    allocate ⟨0, false, false⟩ (MemtagTags.engine false false) (fun _ => false) self 1024 fuel T
        (remappedHeap.setState (spAddr 1 0) 0 usedMixed) =
      .ok ((some (spAddr 1 0 + 1024), T.setHint 28 (1 + 1)),
        (remappedHeap.setState (spAddr 1 0) 0 usedMixed).setState (spAddr 1 0) 1 usedMixed) := by
  obtain ⟨hv28, hcs28⟩ := scDescr_valid (show 28 < kNumSizeClasses by decide)
  have hr28 : (scDescr 28).rangeNum = 1 := by rw [hv28.rangeNum_eq, hcs28]; decide
  have h2 : 2 ≤ (scDescr 28).numChunks :=
    le_scDescr_numChunks (i := 28) (by decide) (by decide) (by rw [hr28]; decide)
  have hs28 : sizeToSizeClass scDescr 1024 = (28, scDescr 28) :=
    sizeToSizeClass_of_table (by decide) (by decide) (by decide) (by decide)
  generalize hd28 : scDescr 28 = d28 at hv28 hcs28 h2 hs28
  generalize hh₁ : remappedHeap.setState (spAddr 1 0) 0 usedMixed = h₁
  have hst : ∀ i, h₁.state (spAddr 1 0) i = if i = 0 then usedMixed else available := fun i => by
    rw [← hh₁]
    by_cases hi : i = 0
    · simp [Heap.setState, hi]
    · simp [Heap.setState, hi, remappedHeap_state]
  have htry := tryAllocate_untagged (spAddr 1 0) (k := 1) (h := h₁) (by rw [← hh₁]; rfl)
    hv28.numChunks_add_eight_le (show 1 ≤ d28.numChunks by omega) (fun i _ => by rw [hst]; split <;> simp [usedMixed, available])
    (by decide) (by omega) (fun p hp hp1 => by rw [hst, if_pos (by omega)]; decide) (by rw [hst]; rfl)
  rw [show addressOfChunk (spAddr 1 0) 1 d28 = spAddr 1 0 + 1024 by
    rw [addressOfChunk, hcs28, Nat.one_mul]; rfl] at htry
  refine allocate_of_tryAllocate hs28 (by rw [hT]; decide) ?_
  rw [hT]
  exact htry

/-- `free` of the pointer `Allocate(1024)` returned: `Deallocate` reads the page's class, now 0,
and checks the state byte of class 0's chunk 64, which is `AVAILABLE`. -/
theorem free_chunk_one_doubleFree (T : TLS) :
    free ⟨0, false, false⟩ (MemtagTags.engine false false) (spAddr 1 0 + 1024) 0 T
      ((remappedHeap.setState (spAddr 1 0) 0 usedMixed).setState (spAddr 1 0) 1 usedMixed) =
      .error .doubleFree := by
  obtain ⟨hv0, hcs0⟩ := scDescr_valid (show 0 < kNumSizeClasses by decide)
  have hr0 : (scDescr 0).rangeNum = 0 := by rw [hv0.rangeNum_eq, hcs0]; decide
  have h65 : 65 ≤ (scDescr 0).numChunks :=
    le_scDescr_numChunks (i := 0) (by decide) (by decide) (by rw [hr0]; decide)
  generalize hd0 : scDescr 0 = d0 at hv0 hcs0 h65
  generalize hh₂ : (remappedHeap.setState (spAddr 1 0) 0 usedMixed).setState (spAddr 1 0) 1 usedMixed = h₂
  have hcls : h₂.sizeClassOf (spAddr 1 0) = 0 := by rw [← hh₂]; exact remappedHeap_sizeClassOf
  have hscd : h₂.scdOf (spAddr 1 0) = d0 := by rw [Heap.scdOf, hcls, hd0]
  have hst64 : h₂.state (spAddr 1 0) 64 = available := by
    simp only [← hh₂, Heap.setState]
    rw [if_neg (by omega), if_neg (by omega), remappedHeap_state]
  have haddr : addressOfChunk (spAddr 1 0) 64 (h₂.scdOf (spAddr 1 0)) = spAddr 1 0 + 1024 := by
    rw [hscd, addressOfChunk, hcs0]
    rfl
  have hround : roundDownTo (spAddr 1 0 + 1024) kSuperPageSize = spAddr 1 0 := by
    have hmod := spAddr_mod 1 0
    rw [kSuperPageSize, roundDownTo_pow (show spAddr 1 0 + 1024 < wordBound by decide) (by decide)]
    unfold kSuperPageSize at hmod
    omega
  refine free_error (by decide) (by decide) ?_
  refine (deallocate_eq_superPage (t := 0) ?_ rfl hround (by decide)).trans ?_
  · rfl
  rw [show (MemtagTags.engine false false).applyAddressTag (spAddr 1 0 + 1024) 0 = spAddr 1 0 + 1024
    from rfl, ← haddr]
  exact superPage_deallocate_doubleFree (by decide) (spAddr_mod 1 0) (by rw [hscd]; exact hv0)
    (by rw [hscd]; omega) rfl (by rw [hst64]; decide)

/-- After range 0 overflows into range 1, `free` of a chunk that `Allocate` has just returned
reports a double free. `Allocate(16)` maps range 0's super page number `2^20` over range 1's
first one and takes its chunk 0 as class 0; `Allocate(1024)` takes chunk 1 of the same page
through the thread's class-28 slot, at offset 1024, and marks its state byte `USED_MIXED`;
`Deallocate` of that pointer reads the page's class, now 0, and checks chunk 64's state
byte, which is `AVAILABLE`. -/
theorem free_reports_doubleFree_of_chunk_in_use (self fuel : Nat) :
    ∃ tls₁ h₁, allocate ⟨0, false, false⟩ (MemtagTags.engine false false) (fun _ => false)
        self 16 (fuel + 2) chunkZeroTLS classOneHeap = .ok ((some (spAddr 1 0), tls₁), h₁) ∧
      ∃ tls₂ h₂, allocate ⟨0, false, false⟩ (MemtagTags.engine false false) (fun _ => false)
          self 1024 fuel tls₁ h₁ = .ok ((some (spAddr 1 0 + 1024), tls₂), h₂) ∧
        h₂.state (spAddr 1 0) 1 = usedMixed ∧ h₂.sizeClassOf (spAddr 1 0) = 0 ∧
        free ⟨0, false, false⟩ (MemtagTags.engine false false) (spAddr 1 0 + 1024) 0 tls₂ h₂ =
          .error .doubleFree := by
  obtain ⟨tls₁, hT, h16⟩ := allocate_sixteen_remaps self fuel
  exact ⟨tls₁, _, h16, _, _, allocate_1024_takes_chunk_one hT self fuel, by simp [Heap.setState],
    remappedHeap_sizeClassOf, free_chunk_one_doubleFree _⟩

end OverflowFree

end MTMalloc

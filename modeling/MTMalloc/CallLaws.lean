import MTMalloc.Counters

/-!
# What a call that returns did

One lemma per call of `struct Allocator`, each reading the call's success as the change it
made to the heap, the way `SuperPage` and `Allocator` compute it: `TryAllocate` claims one
`AVAILABLE` chunk or changes nothing, `AllocateSuperPage` maps the next super page of its
range, `AllocateSlower` maps super pages until a pass finds a chunk, and `Deallocate` and
`Quarantine` of the start of a chunk in use set its state byte.

The lemmas are about the software back end with the shadow off (`UseShadow = 0`): the
memory tag is then always 0, and no call writes a byte outside the region except the super
page's `SuperPageMetadata` byte. A super page is in the region, and its chunks do not
overlap, while neither range has grown past its half (`NumSuperPages[r] ≤ 2^20`).
-/

namespace MTMalloc

open SuperPage

-- ---------------------------------------------------------------------------
-- Sizes
-- ---------------------------------------------------------------------------

section Sizes

theorem scDescr_chunkSize {i : Nat} (hi : i < kNumSizeClasses) :
    (scDescr i).chunkSize = scArray.getD i 0 := by
  rw [(scDescr_valid hi).2]
  simp [List.getElem?_eq_getElem (show i < scArray.length from hi)]

theorem sizeToSizeClass_fits {size : Nat} (h1 : 1 ≤ size) (hmax : size ≤ kMaxSizeClass) :
    (sizeToSizeClass scDescr size).1 < kNumSizeClasses ∧
      size ≤ (scDescr (sizeToSizeClass scDescr size).1).chunkSize := by
  have hk : kNumSizeClasses = 67 := rfl
  unfold sizeToSizeClass
  split
  · have hsc : ((size + 15) / 16 + wordBound - 1) % wordBound % 256 = (size + 15) / 16 - 1 := by
      unfold wordBound; omega
    have htab : ∀ i < 16, scArray.getD i 0 = 16 * (i + 1) := by decide
    dsimp only
    rw [hsc, scDescr_chunkSize (by omega), htab _ (by omega)]
    omega
  · split
    · next idx hfind =>
      have hmem := List.mem_range.1 (List.mem_of_find?_eq_some hfind)
      exact ⟨hmem, by simpa using List.find?_some hfind⟩
    · next hnone =>
      have hlast := List.find?_eq_none.1 hnone (kNumSizeClasses - 1) (List.mem_range.2 (by omega))
      rw [scDescr_chunkSize (by omega)] at hlast
      exact absurd hmax (by simpa [kMaxSizeClass] using hlast)

end Sizes

-- ---------------------------------------------------------------------------
-- The chunks of the super pages that exist
-- ---------------------------------------------------------------------------

section Chunks

theorem chunk_end_le {d : SizeClassDescr} (hv : d.Valid) {i : Nat} (hi : i < d.numChunks) :
    i * d.chunkSize + d.chunkSize ≤ kSuperPageSize := by
  have := hv.layout
  have : (i + 1) * d.chunkSize ≤ d.numChunks * d.chunkSize := Nat.mul_le_mul_right _ hi
  rw [Nat.succ_mul] at this
  omega

/-- While neither range is past its half, a super page that exists is aligned and lies in
the region. -/
theorem superPage_in_region {h : Heap} (hr : ScanReady h) {sp : Nat} (hsp : sp ∈ h.superPages) :
    sp % kSuperPageSize = 0 ∧ kAllocatorSpace ≤ sp ∧ sp + kSuperPageSize ≤ kAllocatorSpace + kAllocatorSize := by
  obtain ⟨r, hr2, j, hj, rfl⟩ := mem_superPages.mp hsp
  have := hr.range0_le
  have := hr.range1_le
  refine ⟨spAddr_mod r j, ?_⟩
  obtain rfl | rfl : r = 0 ∨ r = 1 := by omega
  all_goals unfold spAddr kFirstSuperPage kSuperPageSize kAllocatorSize at *; omega

theorem ScanReady.valid {h : Heap} (hr : ScanReady h) {sp : Nat} (hsp : sp ∈ h.superPages) :
    (h.scdOf sp).Valid :=
  (scDescr_valid (hr.sizeClass_lt sp hsp)).1

theorem chunk_inj {h : Heap} (hr : ScanReady h) {sp sp' i i' : Nat} (hsp : sp ∈ h.superPages)
    (hsp' : sp' ∈ h.superPages) (hi : i < (h.scdOf sp).numChunks) (hi' : i' < (h.scdOf sp').numChunks)
    (he : addressOfChunk sp i (h.scdOf sp) = addressOfChunk sp' i' (h.scdOf sp')) : sp = sp' ∧ i = i' := by
  have hv := hr.valid hsp
  have hcs := hv.chunkSize_ge
  have hcs' := (hr.valid hsp').chunkSize_ge
  have e₁ := chunk_end_le hv hi
  have e₂ := chunk_end_le (hr.valid hsp') hi'
  have a₁ := (superPage_in_region hr hsp).1
  have a₂ := (superPage_in_region hr hsp').1
  unfold addressOfChunk at he
  unfold kSuperPageSize at *
  obtain rfl : sp = sp' := by omega
  exact ⟨rfl, Nat.eq_of_mul_eq_mul_right (show 0 < (h.scdOf sp).chunkSize by omega) (by omega)⟩

/-- A chunk of a super page that exists lies in the region, and its super page is
`RoundDownTo(P, kSuperPageSize)`. -/
theorem chunk_in_region {h : Heap} (hr : ScanReady h) {sp i : Nat} (hsp : sp ∈ h.superPages)
    (hi : i < (h.scdOf sp).numChunks) :
    kAllocatorSpace ≤ addressOfChunk sp i (h.scdOf sp) ∧
      addressOfChunk sp i (h.scdOf sp) < kAllocatorSpace + kAllocatorSize ∧
      roundDownTo (addressOfChunk sp i (h.scdOf sp)) kSuperPageSize = sp := by
  have e := chunk_end_le (hr.valid hsp) hi
  have hcs := (hr.valid hsp).chunkSize_ge
  obtain ⟨ha, hlo, hhi⟩ := superPage_in_region hr hsp
  unfold addressOfChunk
  refine ⟨by omega, by omega, ?_⟩
  rw [kSuperPageSize, roundDownTo_pow (by unfold wordBound kAllocatorSpace kAllocatorSize at *; omega)
    (by decide)]
  unfold kSuperPageSize at *
  omega

end Chunks

-- ---------------------------------------------------------------------------
-- New super pages
-- ---------------------------------------------------------------------------

section NewPages

namespace Heap

/-- What `AllocateSuperPage` with the shadow off does to the heap: it maps the next super page
of range `rangeNum`, writes class `sc` into its `SuperPageMetadata` byte and counts it. -/
def addPage (h : Heap) (rangeNum sc : Nat) : Heap :=
  let sp := spAddr rangeNum (h.numSuperPages rangeNum)
  ((h.mapSuperPage sp rangeNum).withMeta
    (Function.update h.meta (superPageMetadata.getShadowPtr sp) (UInt8.ofNat sc))).addSuperPage rangeNum

/-- The state bytes of the addresses that are no super page are `AVAILABLE`: the zeroed
`SecondRangeMeta` slots and inline arrays that no call has written. -/
def Fresh (h : Heap) : Prop := ∀ sp ∉ h.superPages, ∀ i, h.state sp i = available

/-- `h'` keeps what `h` has: no range loses super pages, each super page of `h` keeps its
class, no state byte and not `BytesInQuarantine` changes, and a word changes only in a super
page that `h` does not have. -/
structure Keeps (h h' : Heap) : Prop where
  numSuperPages_le : ∀ r, h.numSuperPages r ≤ h'.numSuperPages r
  sizeClassOf_eq : ∀ sp ∈ h.superPages, h'.sizeClassOf sp = h.sizeClassOf sp
  state_eq : ∀ sp i, h'.state sp i = h.state sp i
  bytesInQuarantine_eq : h'.bytesInQuarantine = h.bytesInQuarantine
  word_eq : ∀ a, h'.word a = h.word a ∨
    ∃ sp ∈ h'.superPages, sp ∉ h.superPages ∧ sp ≤ a ∧ a < sp + kSuperPageSize

theorem Keeps.refl (h : Heap) : h.Keeps h :=
  ⟨fun _ => le_refl _, fun _ _ => rfl, fun _ _ => rfl, rfl, fun _ => .inl rfl⟩

theorem Keeps.mem {h h' : Heap} (hk : h.Keeps h') {sp : Nat} (hsp : sp ∈ h.superPages) :
    sp ∈ h'.superPages :=
  mem_superPages_of_le hk.numSuperPages_le hsp

theorem Keeps.trans {h₁ h₂ h₃ : Heap} (h₁₂ : h₁.Keeps h₂) (h₂₃ : h₂.Keeps h₃) : h₁.Keeps h₃ :=
  ⟨fun r => (h₁₂.numSuperPages_le r).trans (h₂₃.numSuperPages_le r),
    fun sp hsp => (h₂₃.sizeClassOf_eq sp (h₁₂.mem hsp)).trans (h₁₂.sizeClassOf_eq sp hsp),
    fun sp i => (h₂₃.state_eq sp i).trans (h₁₂.state_eq sp i),
    h₂₃.bytesInQuarantine_eq.trans h₁₂.bytesInQuarantine_eq,
    fun a => (h₂₃.word_eq a).elim
      (fun e₂ => (h₁₂.word_eq a).elim (fun e₁ => .inl (e₂.trans e₁))
        fun ⟨sp, hsp, hn, ha⟩ => .inr ⟨sp, h₂₃.mem hsp, hn, ha⟩)
      fun ⟨sp, hsp, hn, ha⟩ => .inr ⟨sp, hsp, fun h₁ => hn (h₁₂.mem h₁), ha⟩⟩

theorem Keeps.scdOf_eq {h h' : Heap} (hk : h.Keeps h') {sp : Nat} (hsp : sp ∈ h.superPages) :
    h'.scdOf sp = h.scdOf sp := by
  rw [scdOf, hk.sizeClassOf_eq sp hsp, scdOf]

theorem Keeps.quarantineSum_eq {h h' : Heap} (hk : h.Keeps h') (hf : h.Fresh) (h0 : h'.numSuperPages 0 ≤ 2 ^ 20) :
    h'.quarantineSum = h.quarantineSum :=
  quarantineSum_of_grow h0 hk.numSuperPages_le (fun _ hsp => hk.scdOf_eq hsp) (fun sp _ i => hk.state_eq sp i)
    fun sp hsp i => by rw [hk.state_eq, hf sp hsp i]; decide

end Heap

theorem Counted.keeps {h h' : Heap} {tls tls' : TLS} (hc : Counted h tls) (hk : h.Keeps h') (hf : h.Fresh)
    (h0 : h'.numSuperPages 0 ≤ 2 ^ 20) (hl : tls'.localQuarantineSize = tls.localQuarantineSize) :
    Counted h' tls' :=
  ⟨by rw [hk.bytesInQuarantine_eq, hl, hk.quarantineSum_eq hf h0]; exact hc.sum, hl ▸ hc.local_lt⟩

theorem getSuperPage_ok {rangeNum idx a : Nat} (h : getSuperPage rangeNum idx = .ok a) :
    a = spAddr rangeNum idx ∧ spAddr rangeNum idx < kAllocatorSpace + kAllocatorSize := by
  unfold getSuperPage at h
  dsimp only at h
  split at h
  · cases h
  · cases h; exact ⟨rfl, by unfold spAddr; omega⟩

theorem getShadowPtr_spAddr (rangeNum idx : Nat) :
    superPageMetadata.getShadowPtr (spAddr rangeNum idx) = kMeta rangeNum + idx := by
  simp only [superPageMetadata, FixedShadow.getShadowPtr, spAddr, kFirstSuperPage, kMeta,
    kPrimaryMetaSize, kAllocatorSize, kSuperPageSize]
  omega

theorem allocateSuperPage_ok {cfg : MallocConfig} (hsh : cfg.useShadow = false) {size sc : Nat}
    {scd : SizeClassDescr} (hs : sizeToSizeClass scDescr size = (sc, scd)) {tls : TLS} {h : Heap}
    {r : (Nat × TLS) × Heap} (hr : allocateSuperPage cfg size tls h = .ok r) :
    r.2 = h.addPage scd.rangeNum sc ∧ r.1.2.perSC = tls.perSC ∧
      r.1.2.localQuarantineSize = tls.localQuarantineSize := by
  rcases hg : getSuperPage scd.rangeNum (h.numSuperPages scd.rangeNum) with e | res
  · simp [allocateSuperPage, hs, hg, Except.map] at hr
  · obtain ⟨rfl, hlt⟩ := getSuperPage_ok hg
    obtain ⟨rand, hrun⟩ := allocateSuperPage_run hsh hs tls h hg (isMine_spAddr hlt) (spAddr_mod _ _)
    rw [hrun] at hr
    cases hr
    exact ⟨rfl, rfl, rfl⟩

section AddPage

variable {h : Heap} {rangeNum sc : Nat}

theorem numSuperPages_addPage (r : Nat) :
    (h.addPage rangeNum sc).numSuperPages r =
      if r = rangeNum then h.numSuperPages rangeNum + 1 else h.numSuperPages r := by
  simp only [Heap.addPage, Heap.addSuperPage, Heap.withMeta, Heap.mapSuperPage, Function.update_apply]

theorem mem_superPages_addPage (hr : rangeNum < 2) {sp : Nat} :
    sp ∈ (h.addPage rangeNum sc).superPages ↔
      sp ∈ h.superPages ∨ sp = spAddr rangeNum (h.numSuperPages rangeNum) := by
  simp only [mem_superPages, Heap.addPage, Heap.addSuperPage, Heap.withMeta, Heap.mapSuperPage]
  constructor
  · rintro ⟨r, hr2, j, hj, rfl⟩
    rw [Function.update_apply] at hj
    split at hj
    · subst_vars
      rcases Nat.lt_succ_iff_lt_or_eq.1 hj with hj | rfl
      exacts [.inl ⟨_, hr2, j, hj, rfl⟩, .inr rfl]
    · exact .inl ⟨r, hr2, j, hj, rfl⟩
  · rintro (⟨r, hr2, j, hj, rfl⟩ | rfl)
    · refine ⟨r, hr2, j, ?_, rfl⟩
      rw [Function.update_apply]; split <;> subst_vars <;> omega
    · exact ⟨rangeNum, hr, _, by rw [Function.update_same]; omega, rfl⟩

theorem spAddr_next_not_mem (hready : ScanReady h) (hr : rangeNum < 2)
    (hlt : h.numSuperPages rangeNum < 2 ^ 20) :
    spAddr rangeNum (h.numSuperPages rangeNum) ∉ h.superPages := by
  intro hm
  obtain ⟨r, hr2, j, hj, he⟩ := mem_superPages.mp hm
  have := hready.range0_le
  have := hready.range1_le
  unfold spAddr kFirstSuperPage kAllocatorSize kSuperPageSize at he
  obtain rfl | rfl : r = 0 ∨ r = 1 := by omega
  all_goals obtain rfl | rfl : rangeNum = 0 ∨ rangeNum = 1 := by omega
  all_goals omega

theorem sizeClassOf_addPage {sp : Nat} (hsp : sp ∈ h.superPages) (hne : sp ≠ spAddr rangeNum (h.numSuperPages rangeNum)) :
    (h.addPage rangeNum sc).sizeClassOf sp = h.sizeClassOf sp := by
  obtain ⟨r, -, j, -, rfl⟩ := mem_superPages.mp hsp
  simp only [Heap.sizeClassOf, FixedShadow.get, Heap.addPage, Heap.addSuperPage, Heap.withMeta]
  rw [Function.update_noteq]
  rw [getShadowPtr_spAddr, getShadowPtr_spAddr]
  intro he
  apply hne
  unfold spAddr kFirstSuperPage kMeta kPrimaryMetaSize kAllocatorSize kSuperPageSize at *
  omega

theorem sizeClassOf_addPage_new (hsc : sc < 256) :
    (h.addPage rangeNum sc).sizeClassOf (spAddr rangeNum (h.numSuperPages rangeNum)) = sc := by
  simp only [Heap.sizeClassOf, FixedShadow.get, Heap.addPage, Heap.addSuperPage, Heap.withMeta,
    Function.update_same, toNat_uint8OfNat]
  exact Nat.mod_eq_of_lt hsc

theorem state_addPage {sp : Nat} (hne : sp ≠ spAddr rangeNum (h.numSuperPages rangeNum)) (i : Nat) :
    (h.addPage rangeNum sc).state sp i = h.state sp i := by
  simp only [Heap.addPage, Heap.addSuperPage, Heap.withMeta, Heap.mapSuperPage]
  rw [if_neg (fun h' => hne h'.2)]

/-- The new super page's state bytes are `AVAILABLE`: zeroed by `mmap` for range 0, never
written for range 1. -/
theorem state_addPage_new (hf : h.Fresh) (hnew : spAddr rangeNum (h.numSuperPages rangeNum) ∉ h.superPages)
    (i : Nat) : (h.addPage rangeNum sc).state (spAddr rangeNum (h.numSuperPages rangeNum)) i = available := by
  simp only [Heap.addPage, Heap.addSuperPage, Heap.withMeta, Heap.mapSuperPage]
  split
  · rfl
  · exact hf _ hnew i

theorem addPage_facts (hready : ScanReady h) (hf : h.Fresh) (hr : rangeNum < 2) (hsc : sc < kNumSizeClasses)
    (hlt : h.numSuperPages rangeNum < 2 ^ 20) :
    h.Keeps (h.addPage rangeNum sc) ∧ ScanReady (h.addPage rangeNum sc) ∧ (h.addPage rangeNum sc).Fresh := by
  have hnew := spAddr_next_not_mem hready hr hlt
  have hne : ∀ sp ∈ h.superPages, sp ≠ spAddr rangeNum (h.numSuperPages rangeNum) :=
    fun sp hsp he => hnew (he ▸ hsp)
  have hkeeps : h.Keeps (h.addPage rangeNum sc) :=
    ⟨fun r => by rw [numSuperPages_addPage]; split <;> subst_vars <;> omega,
      fun sp hsp => sizeClassOf_addPage hsp (hne sp hsp),
      fun sp i => if hs : sp = spAddr rangeNum (h.numSuperPages rangeNum) then by
        rw [hs, state_addPage_new hf hnew, hf _ hnew] else state_addPage hs i, rfl,
      fun a => by
        by_cases ha : spAddr rangeNum (h.numSuperPages rangeNum) ≤ a ∧
            a < spAddr rangeNum (h.numSuperPages rangeNum) + kSuperPageSize
        · exact .inr ⟨_, (mem_superPages_addPage hr).2 (.inr rfl), hnew, ha⟩
        · exact .inl (by simp only [Heap.addPage, Heap.addSuperPage, Heap.withMeta, Heap.mapSuperPage, if_neg ha])⟩
  have hsc256 : sc < 256 := Nat.lt_trans hsc (by decide)
  refine ⟨hkeeps, ⟨?_, ?_, ?_, ?_, ?_⟩, ?_⟩
  · have := hready.range0_le; rw [numSuperPages_addPage]; split <;> omega
  · have := hready.range1_le; rw [numSuperPages_addPage]; split <;> omega
  · intro a
    simp only [Heap.addPage, Heap.addSuperPage, Heap.withMeta, Heap.mapSuperPage]
    split
    · unfold wordBound; omega
    · exact hready.words a
  · intro sp hsp
    rcases (mem_superPages_addPage hr).1 hsp with hsp | rfl
    · rw [hkeeps.sizeClassOf_eq sp hsp]; exact hready.sizeClass_lt sp hsp
    · rw [sizeClassOf_addPage_new hsc256]; exact hsc
  · intro sp hsp i _
    rcases (mem_superPages_addPage hr).1 hsp with hsp | rfl
    · rw [hkeeps.state_eq sp]
      exact hready.not_marked sp hsp i (by rwa [hkeeps.scdOf_eq hsp] at *)
    · rw [state_addPage_new hf hnew]; decide
  · intro sp hsp i
    have hold : sp ∉ h.superPages := fun h' => hsp (hkeeps.mem h')
    have hne' : sp ≠ spAddr rangeNum (h.numSuperPages rangeNum) :=
      fun he => hsp ((mem_superPages_addPage hr).2 (.inr he))
    rw [state_addPage hne']
    exact hf sp hold i

theorem SizeClassDescr.Valid.rangeNum_lt {d : SizeClassDescr} (hv : d.Valid) : d.rangeNum < 2 := by
  rw [hv.rangeNum_eq]; split <;> decide

theorem ranged_addPage (hready : ScanReady h) (hf : h.Fresh) (hsc : sc < kNumSizeClasses)
    (hlt : h.numSuperPages (scDescr sc).rangeNum < 2 ^ 20)
    (hranged : ∀ r < 2, ∀ j < h.numSuperPages r, (h.scdOf (spAddr r j)).rangeNum = r) :
    ∀ r < 2, ∀ j < (h.addPage (scDescr sc).rangeNum sc).numSuperPages r,
      ((h.addPage (scDescr sc).rangeNum sc).scdOf (spAddr r j)).rangeNum = r := by
  have hk := (addPage_facts hready hf (scDescr_valid hsc).1.rangeNum_lt hsc hlt).1
  intro r hr j hj
  rw [numSuperPages_addPage] at hj
  by_cases hold : j < h.numSuperPages r
  · rw [hk.scdOf_eq (mem_superPages.2 ⟨r, hr, j, hold, rfl⟩)]
    exact hranged r hr j hold
  · split at hj
    · subst_vars
      obtain rfl : j = h.numSuperPages (scDescr sc).rangeNum := by omega
      rw [Heap.scdOf, sizeClassOf_addPage_new (Nat.lt_trans hsc (by decide))]
    · omega

end AddPage

end NewPages

-- ---------------------------------------------------------------------------
-- The thread's slots, and what TryAllocate claims
-- ---------------------------------------------------------------------------

section Slots

/-- The thread-local slots `Allocate` reads: every `LastIdxHint` at most `NumChunks` of its
class, and every `PerSC.SP` that is set a super page that exists, of the slot's class. -/
structure Slots (h : Heap) (tls : TLS) : Prop where
  hints : HintsBounded tls
  pages : ∀ sc, (tls.perSC sc).sp ≠ 0 →
    (tls.perSC sc).sp ∈ h.superPages ∧ h.sizeClassOf (tls.perSC sc).sp = sc

variable {h h' : Heap} {tls : TLS}

theorem Slots.keeps (hs : Slots h tls) (hk : h.Keeps h') : Slots h' tls :=
  ⟨hs.hints, fun sc hsc => by
    obtain ⟨hm, hc⟩ := hs.pages sc hsc
    exact ⟨hk.mem hm, (hk.sizeClassOf_eq _ hm).trans hc⟩⟩

theorem Slots.of_perSC (hs : Slots h tls) {tls' : TLS} (he : tls'.perSC = tls.perSC) : Slots h tls' :=
  ⟨fun sc => he ▸ hs.hints sc, fun sc => he ▸ hs.pages sc⟩

theorem Slots.setHint (hs : Slots h tls) {sc hint : Nat} (hh : hint ≤ (scDescr sc).numChunks) :
    Slots h (tls.setHint sc hint) :=
  ⟨hs.hints.setHint hh, fun sc' => by
    rw [TLS.setHint_perSC]
    split
    · subst_vars; exact hs.pages _
    · exact hs.pages sc'⟩

theorem Slots.setSP (hs : Slots h tls) {sc sp : Nat} (hsp : sp ∈ h.superPages) (hc : h.sizeClassOf sp = sc) :
    Slots h (tls.setSP sc sp) :=
  ⟨hs.hints.setSP sc sp, fun sc' => by
    rw [TLS.setSP_perSC]
    split
    · subst_vars; exact fun _ => ⟨hsp, rfl⟩
    · exact hs.pages sc'⟩

theorem Slots.setState (hs : Slots h tls) (sp i : Nat) (v : UInt8) : Slots (h.setState sp i v) tls :=
  ⟨hs.hints, hs.pages⟩

end Slots

/-- `h'` is `h` with chunk `k` of the super page at `sp`, which was `AVAILABLE`, claimed: its
state byte is now `USED_MIXED` or `USED_DATA`, and `p` is the chunk's address. -/
def Claimed (h : Heap) (sp : Nat) (scd : SizeClassDescr) (p : Nat) (h' : Heap) : Prop :=
  ∃ k < scd.numChunks, h.state sp k = available ∧ p = addressOfChunk sp k scd ∧
    (h' = h.setState sp k usedMixed ∨ h' = h.setState sp k usedData)

/-- What every call keeps of the heap and of the calling thread's slots. -/
structure Ready (h : Heap) (tls : TLS) : Prop where
  scan : ScanReady h
  fresh : h.Fresh
  slots : Slots h tls
  /-- Every super page of range `r` holds a class of range `r`. -/
  ranged : ∀ r < 2, ∀ j < h.numSuperPages r, (h.scdOf (spAddr r j)).rangeNum = r

section Ready

variable {h : Heap} {tls : TLS}

theorem ScanReady.setState (hr : ScanReady h) {v : UInt8} (hv : v ≠ marked) (sp i : Nat) :
    ScanReady (h.setState sp i v) :=
  ⟨hr.range0_le, hr.range1_le, hr.words, hr.sizeClass_lt, fun sp' hsp' i' hi' => by
    rw [Heap.setState_state]
    split
    · exact hv
    · exact hr.not_marked sp' hsp' i' hi'⟩

theorem Heap.Fresh.setState (hf : h.Fresh) {sp : Nat} (hsp : sp ∈ h.superPages) (i : Nat) (v : UInt8) :
    (h.setState sp i v).Fresh := fun sp' hsp' i' => by
  rw [Heap.setState_state, if_neg fun (he : sp' = sp ∧ i' = i) => hsp' (he.1 ▸ hsp)]
  exact hf sp' hsp' i'

theorem Ready.setState (hr : Ready h tls) {sp : Nat} (hsp : sp ∈ h.superPages) (i : Nat) {v : UInt8}
    (hv : v ≠ marked) : Ready (h.setState sp i v) tls :=
  ⟨hr.scan.setState hv sp i, hr.fresh.setState hsp i v, hr.slots.setState sp i v, hr.ranged⟩

theorem Ready.withSlots (hr : Ready h tls) {tls' : TLS} (hs : Slots h tls') : Ready h tls' :=
  ⟨hr.scan, hr.fresh, hs, hr.ranged⟩

theorem Ready.claimed (hr : Ready h tls) {sp p : Nat} {scd : SizeClassDescr} {h' : Heap}
    (hsp : sp ∈ h.superPages) (hc : Claimed h sp scd p h') : Ready h' tls := by
  obtain ⟨k, -, -, -, rfl | rfl⟩ := hc
  exacts [hr.setState hsp k (by decide), hr.setState hsp k (by decide)]

end Ready

section Claims

variable {cfg : MallocConfig} {tags : AddressTags} {casFails : Nat → Bool}

theorem tryAllocate_ok (hsh : cfg.useShadow = false) {sp : Nat} {dataOnly : Bool}
    {scd : SizeClassDescr} {hint : Nat} {h : Heap} {r : (Option Nat × Nat) × Heap}
    (hH : hint ≤ scd.numChunks) (hr : tryAllocate cfg tags casFails sp dataOnly scd hint h = .ok r) :
    r.1.2 ≤ scd.numChunks ∧ (r.1.1 = none ∧ r.2 = h ∨
      ∃ p, r.1.1 = some (tags.applyAddressTag p 0) ∧ Claimed h sp scd p r.2) := by
  obtain ⟨c, h1, hc, hrest⟩ := HeapM.ok_bind hr
  obtain ⟨c', hrun, hmem⟩ := claimChunk_run casFails sp dataOnly scd hH h
  rw [hrun] at hc
  obtain ⟨rfl, rfl⟩ := Prod.mk.inj (Except.ok.inj hc)
  cases c' with
  | none => cases hrest; exact ⟨hH, .inl ⟨rfl, rfl⟩⟩
  | some k =>
    obtain ⟨hk, hav⟩ := hmem k rfl
    simp only [HeapM.run_bind, HeapM.run_get, HeapM.run_lift, getMemoryTag, hsh, Bool.not_false,
      if_true, Except.map, HeapM.run_pure] at hrest
    cases hrest
    refine ⟨hk, .inr ⟨_, rfl, k, hk, hav, rfl, ?_⟩⟩
    cases dataOnly
    exacts [.inl rfl, .inr rfl]

theorem sizeClassOf_spAddr (h : Heap) (rangeNum idx : Nat) :
    h.sizeClassOf (spAddr rangeNum idx) = (h.meta (kMeta rangeNum + idx)).toNat := by
  rw [Heap.sizeClassOf, FixedShadow.get, getShadowPtr_spAddr]

theorem trySuperPages_ok (hsh : cfg.useShadow = false) {sc n offset : Nat} (hsc : sc < kNumSizeClasses) :
    ∀ (k i : Nat) (tls : TLS) (h : Heap) (r : (Option Nat × TLS) × Heap), Slots h tls →
      (offset < n ∨ k = 0) → i + k ≤ n → n ≤ h.numSuperPages (scDescr sc).rangeNum →
      trySuperPages cfg tags casFails sc (scDescr sc) n offset k i tls h = .ok r →
      Slots r.2 r.1.2 ∧ r.1.2.localQuarantineSize = tls.localQuarantineSize ∧ (r.1.1 = none ∧ r.2 = h ∨
        ∃ sp ∈ h.superPages, h.sizeClassOf sp = sc ∧
          ∃ p, r.1.1 = some (tags.applyAddressTag p 0) ∧ Claimed h sp (scDescr sc) p r.2)
  | 0, _, tls, h, r, hs, _, _, _, hr => by cases hr; exact ⟨hs, rfl, .inl ⟨rfl, rfl⟩⟩
  | k + 1, i, tls, h, r, hs, ho, hik, hn, hr => by
    have ho : offset < n := ho.resolve_right (Nat.succ_ne_zero k)
    simp only [trySuperPages] at hr
    generalize hidx : (if i + offset ≥ n then i + offset - n else i + offset) = idx at hr
    have hlt : idx < n := by rw [← hidx]; exact wrapIdx_lt ho (by omega)
    obtain ⟨_, _, hget, hr⟩ := HeapM.ok_bind hr
    cases hget
    split at hr
    · next hm =>
      obtain ⟨sp, h1, hg, hr1⟩ := HeapM.ok_bind hr
      rcases hg' : getSuperPage (scDescr sc).rangeNum idx with e | a
      · simp [hg', Except.map] at hg
      · simp only [HeapM.run_lift, hg', Except.map, Except.ok.injEq, Prod.mk.injEq] at hg
        obtain ⟨rfl, rfl⟩ := hg
        obtain ⟨rfl, -⟩ := getSuperPage_ok hg'
        have hmem : spAddr (scDescr sc).rangeNum idx ∈ h.superPages :=
          mem_superPages.mpr ⟨_, (scDescr_valid hsc).1.rangeNum_lt, idx, by omega, rfl⟩
        have hcls : h.sizeClassOf (spAddr (scDescr sc).rangeNum idx) = sc := by
          rw [sizeClassOf_spAddr]; exact hm
        have hs1 := hs.setSP hmem hcls
        obtain ⟨_, _, hget, hr2⟩ := HeapM.ok_bind hr1
        cases hget
        obtain ⟨⟨res, hint⟩, h2, htry, hr3⟩ := HeapM.ok_bind hr2
        obtain ⟨hhint, hres⟩ := tryAllocate_ok hsh (hs1.hints sc) htry
        have hs2 := hs1.setHint hhint
        rcases hres with ⟨rfl, rfl⟩ | ⟨p, rfl, hcl⟩
        · exact trySuperPages_ok hsh hsc k (i + 1) ((tls.setSP sc _).setHint sc hint) _ r hs2 (.inl ho)
            (by omega) hn hr3
        · cases hr3
          refine ⟨?_, rfl, .inr ⟨_, hmem, hcls, p, rfl, hcl⟩⟩
          obtain ⟨j, -, -, -, hset | hset⟩ := hcl <;>
          · rw [hset]; exact hs2.setState _ _ _
    · exact trySuperPages_ok hsh hsc k (i + 1) tls h r hs (.inl ho) (by omega) hn hr

theorem trySuperPages_numSuperPages (hsh : cfg.useShadow = false) {sc n offset : Nat} :
    ∀ (k i : Nat) (tls : TLS) (h : Heap) (r : (Option Nat × TLS) × Heap), HintsBounded tls →
      trySuperPages cfg tags casFails sc (scDescr sc) n offset k i tls h = .ok r →
      r.2.numSuperPages = h.numSuperPages
  | 0, _, tls, h, r, _, hr => by cases hr; rfl
  | k + 1, i, tls, h, r, ht, hr => by
    simp only [trySuperPages] at hr
    generalize (if i + offset ≥ n then i + offset - n else i + offset) = idx at hr
    obtain ⟨_, _, hget, hr⟩ := HeapM.ok_bind hr
    cases hget
    split at hr
    · obtain ⟨sp, h1, hsp, hr1⟩ := HeapM.ok_bind hr
      have hh1 : h1 = h := by
        rcases hg : getSuperPage (scDescr sc).rangeNum idx with e | a <;>
          simp [hg, Except.map] at hsp
        exact hsp.2.symm
      subst hh1
      obtain ⟨_, _, hget, hr2⟩ := HeapM.ok_bind hr1
      cases hget
      obtain ⟨⟨res, hint⟩, h2, htry, hr3⟩ := HeapM.ok_bind hr2
      obtain ⟨hhint, hres⟩ := tryAllocate_ok hsh (ht.setSP sc sp sc) htry
      rcases hres with ⟨rfl, rfl⟩ | ⟨p, rfl, k', -, -, -, hset | hset⟩
      · exact trySuperPages_numSuperPages hsh k (i + 1) _ _ r ((ht.setSP sc sp).setHint hhint) hr3
      all_goals cases hr3; dsimp only at hset ⊢; rw [hset]; rfl
    · exact trySuperPages_numSuperPages hsh k (i + 1) tls _ r ht hr

end Claims

/-- What an `Allocate` of class `sc` that returned `res` did, from `h` to `h'`: it mapped super
pages, keeping what `h` had (`h₁`), then claimed one `AVAILABLE` chunk of a super page of the
class, whose address it returned with tag 0, or claimed nothing. -/
def Allocated (tags : AddressTags) (sc : Nat) (h : Heap) (res : Option Nat) (h' : Heap) : Prop :=
  ∃ h₁, h.Keeps h₁ ∧ (res = none ∧ h' = h₁ ∨
    ∃ sp ∈ h₁.superPages, h₁.sizeClassOf sp = sc ∧
      ∃ p, res = some (tags.applyAddressTag p 0) ∧ Claimed h₁ sp (scDescr sc) p h')

section Slower

variable {cfg : MallocConfig} {tags : AddressTags} {casFails : Nat → Bool}
  {size sc : Nat} (hsh : cfg.useShadow = false) (hs : sizeToSizeClass scDescr size = (sc, scDescr sc))
include hsh hs

theorem allocateSlowerLoop_numSuperPages :
    ∀ (fuel : Nat) (tls : TLS) (h : Heap) (r : (Option Nat × TLS) × Heap), HintsBounded tls →
      allocateSlowerLoop cfg tags casFails size sc (scDescr sc) fuel tls h = .ok r →
      h.numSuperPages (scDescr sc).rangeNum ≤ r.2.numSuperPages (scDescr sc).rangeNum
  | 0, tls, h, r, _, hr => by cases hr; exact le_rfl
  | fuel + 1, tls, h, r, ht, hr => by
    simp only [allocateSlowerLoop] at hr
    obtain ⟨_, _, hget, hr⟩ := HeapM.ok_bind hr
    cases hget
    generalize hot : (if _ ≠ 0 then _ else _) = ot at hr
    have hp : ot.2.perSC = tls.perSC := by rw [← hot]; split <;> rfl
    have ht0 : HintsBounded ot.2 := fun sc' => hp ▸ ht sc'
    obtain ⟨⟨res, tls1⟩, h1, htry, hr1⟩ := HeapM.ok_bind hr
    have hn1 := congrFun (trySuperPages_numSuperPages hsh _ _ _ _ _ ht0 htry) (scDescr sc).rangeNum
    cases res with
    | some q => cases hr1; exact hn1.ge
    | none =>
      obtain ⟨⟨_, tls2⟩, h2, hsp, hr2⟩ := HeapM.ok_bind hr1
      obtain ⟨rfl, hp2, -⟩ := allocateSuperPage_ok hsh hs hsp
      have ht2 : HintsBounded tls2 := fun sc' => hp2 ▸ trySuperPages_hints _ _ _ _ _ ht0 htry sc'
      have hmono := allocateSlowerLoop_numSuperPages fuel _ _ r (ht2.setHint (Nat.zero_le _)) hr2
      rw [numSuperPages_addPage, if_pos rfl] at hmono
      dsimp only at hn1
      omega

/-- `AllocateSlower`'s loop from a ready heap, when the class's range ends within its half:
every super page it maps is the range's next one, of the class and with only `AVAILABLE`
chunks, and it ends with one chunk of a super page of the class claimed, or with nothing
claimed once its passes run out; the thread's local quarantine is left as it was. -/
theorem allocateSlowerLoop_ok (hsc : sc < kNumSizeClasses) :
    ∀ (fuel : Nat) (tls : TLS) (h : Heap) (r : (Option Nat × TLS) × Heap), Ready h tls →
      allocateSlowerLoop cfg tags casFails size sc (scDescr sc) fuel tls h = .ok r →
      r.2.numSuperPages (scDescr sc).rangeNum ≤ 2 ^ 20 →
      Ready r.2 r.1.2 ∧ r.1.2.localQuarantineSize = tls.localQuarantineSize ∧ Allocated tags sc h r.1.1 r.2
  | 0, tls, h, r, hr, hrun, _ => by
    cases hrun; exact ⟨hr, rfl, h, Heap.Keeps.refl h, .inl ⟨rfl, rfl⟩⟩
  | fuel + 1, tls, h, r, hr, hrun, hfit => by
    simp only [allocateSlowerLoop] at hrun
    obtain ⟨_, _, hget, hrun⟩ := HeapM.ok_bind hrun
    cases hget
    generalize hot : (if _ ≠ 0 then _ else _) = ot at hrun
    have hp : ot.2.perSC = tls.perSC := by rw [← hot]; split <;> rfl
    have hl : ot.2.localQuarantineSize = tls.localQuarantineSize := by rw [← hot]; split <;> rfl
    have ho : ot.1 < h.numSuperPages (scDescr sc).rangeNum ∨ h.numSuperPages (scDescr sc).rangeNum = 0 := by
      rw [← hot]
      split
      · exact .inl (Nat.mod_lt _ (Nat.pos_of_ne_zero ‹_›))
      · exact .inr (not_not.1 ‹_›)
    obtain ⟨⟨res, tls1⟩, h1, htry, hrun1⟩ := HeapM.ok_bind hrun
    obtain ⟨hs1, hl1, hres⟩ := trySuperPages_ok hsh hsc _ _ _ _ _ (hr.slots.of_perSC hp) ho
      (Nat.zero_add _).le le_rfl htry
    cases res with
    | some q =>
      cases hrun1
      rcases hres with ⟨hne, -⟩ | ⟨sp, hsp, hcls, p, hq, hcl⟩
      · cases hne
      · have hR := hr.claimed hsp hcl
        exact ⟨hR.withSlots hs1, hl1.trans hl, h, Heap.Keeps.refl h, .inr ⟨sp, hsp, hcls, p, hq, hcl⟩⟩
    | none =>
      rcases hres with ⟨-, hh⟩ | ⟨_, _, _, _, hq, _⟩
      · dsimp only at hh
        subst hh
        obtain ⟨⟨_, tls2⟩, h2, hsp, hrun2⟩ := HeapM.ok_bind hrun1
        obtain ⟨rfl, hp2, hl2⟩ := allocateSuperPage_ok hsh hs hsp
        have hmono := allocateSlowerLoop_numSuperPages hsh hs fuel _ _ r
          ((hs1.of_perSC hp2).hints.setHint (Nat.zero_le _)) hrun2
        rw [numSuperPages_addPage, if_pos rfl] at hmono
        obtain ⟨hk, hready, hfresh⟩ :=
          addPage_facts hr.scan hr.fresh (scDescr_valid hsc).1.rangeNum_lt hsc (by omega)
        obtain ⟨hR, hl', h₁, hk₁, hout⟩ := allocateSlowerLoop_ok hsc fuel _ _ r
          ⟨hready, hfresh, ((hs1.of_perSC hp2).keeps hk).setHint (Nat.zero_le _),
            ranged_addPage hr.scan hr.fresh hsc (by omega) hr.ranged⟩ hrun2 hfit
        exact ⟨hR, hl'.trans (hl2.trans (hl1.trans hl)), h₁, hk.trans hk₁, hout⟩
      · cases hq

end Slower

section Allocate

variable {cfg : MallocConfig} {tags : AddressTags} {casFails : Nat → Bool}

/-- `Allocate(Size)` for the sizes `malloc` passes it, from a ready heap, when the class's range
ends within its half: the heap and the slots stay ready, the thread's local quarantine is left
as it was, and the call mapped super pages and claimed one `AVAILABLE` chunk of a super page of
the size's class, or nothing. -/
theorem allocate_ok (hsh : cfg.useShadow = false) {self size fuel : Nat} (h1 : 1 ≤ size)
    (hmax : size ≤ kMaxSizeClass) {tls : TLS} {h : Heap} {r : (Option Nat × TLS) × Heap}
    (hr : Ready h tls) (hrun : allocate cfg tags casFails self size fuel tls h = .ok r)
    (hfit : r.2.numSuperPages (scDescr (sizeToSizeClass scDescr size).1).rangeNum ≤ 2 ^ 20) :
    Ready r.2 r.1.2 ∧ r.1.2.localQuarantineSize = tls.localQuarantineSize ∧
      Allocated tags (sizeToSizeClass scDescr size).1 h r.1.1 r.2 := by
  obtain ⟨hsc, -⟩ := sizeToSizeClass_fits h1 hmax
  have hs := sizeToSizeClass_eq size
  generalize (sizeToSizeClass scDescr size).1 = sc at hs hsc hfit ⊢
  have hslower : ∀ tls h r, Ready h tls → allocateSlower cfg tags casFails self size fuel tls h = .ok r →
      r.2.numSuperPages (scDescr sc).rangeNum ≤ 2 ^ 20 →
      Ready r.2 r.1.2 ∧ r.1.2.localQuarantineSize = tls.localQuarantineSize ∧ Allocated tags sc h r.1.1 r.2 := by
    intro tls h r hr hrun hfit
    unfold allocateSlower at hrun
    rw [hs] at hrun
    have hR0 : Ready h (if tls.rand = 0 then { tls with rand := self } else tls) := by
      split
      exacts [hr.withSlots (hr.slots.of_perSC rfl), hr]
    obtain ⟨hR, hl, ha⟩ := allocateSlowerLoop_ok hsh hs hsc fuel _ h r hR0 hrun hfit
    exact ⟨hR, hl.trans (by split <;> rfl), ha⟩
  unfold allocate at hrun
  rw [hs] at hrun
  dsimp only at hrun
  split at hrun
  · next hsp =>
    obtain ⟨_, _, hget, hrun⟩ := HeapM.ok_bind hrun
    cases hget
    obtain ⟨⟨res, hint⟩, h1, htry, hrun1⟩ := HeapM.ok_bind hrun
    obtain ⟨hmem, hcls⟩ := hr.slots.pages sc hsp
    obtain ⟨hhint, hres⟩ := tryAllocate_ok hsh (hr.slots.hints sc) htry
    have hr' : Ready h (tls.setHint sc hint) := hr.withSlots (hr.slots.setHint hhint)
    rcases hres with ⟨rfl, rfl⟩ | ⟨p, rfl, hcl⟩
    · exact hslower (tls.setHint sc hint) _ r hr' hrun1 hfit
    · cases hrun1
      exact ⟨hr'.claimed hmem hcl, rfl, h, Heap.Keeps.refl h, .inr ⟨_, hmem, hcls, p, rfl, hcl⟩⟩
  · exact hslower tls h r hr hrun hfit

end Allocate

-- ---------------------------------------------------------------------------
-- Deallocate and QuarantineAndMaybeScan of the start of a chunk
-- ---------------------------------------------------------------------------

/-- Address tags that give back every address of the region when they strip it:
`ApplyAddressTag(a, 0) = a`. -/
def AddressTags.UntagsRegion (tags : AddressTags) : Prop :=
  ∀ a, kAllocatorSpace ≤ a → a < kAllocatorSpace + kAllocatorSize → tags.applyAddressTag a 0 = a

namespace Heap

/-- The test of `ExchangeAndCheckForDoubleFree`: the chunk's state byte is `USED_MIXED` or
`USED_DATA`. -/
def InUse (h : Heap) (sp i : Nat) : Prop := h.state sp i = usedMixed ∨ h.state sp i = usedData

instance (h : Heap) (sp i : Nat) : Decidable (h.InUse sp i) := inferInstanceAs (Decidable (_ ∨ _))

/-- `h'` is `h` after chunk `i` of the super page at `sp` was freed, and maybe a `Scan`: the
super pages, their classes and the words are kept, the chunk is `AVAILABLE` or `QUARANTINED`,
and every other state byte is as it was or went from `QUARANTINED` to `AVAILABLE` with no word
of a `USED_MIXED` chunk pointing into it. -/
structure Freed (h : Heap) (sp i : Nat) (h' : Heap) : Prop where
  mem : sp ∈ h.superPages
  numSuperPages_eq : h'.numSuperPages = h.numSuperPages
  meta_eq : h'.meta = h.meta
  word_eq : h'.word = h.word
  freed : h'.state sp i = available ∨ h'.state sp i = quarantined
  other : ∀ sp' i', ¬(sp' = sp ∧ i' = i) →
    h'.state sp' i' = h.state sp' i' ∨
      (h.state sp' i' = quarantined ∧ h'.state sp' i' = available ∧ h'.pointedInto sp' i' = false)

variable {h h' : Heap} {sp i : Nat}

theorem Freed.superPages_eq (hf : h.Freed sp i h') : h'.superPages = h.superPages := by
  simp only [superPages, rangePages, hf.numSuperPages_eq]

theorem Freed.sizeClassOf_eq (hf : h.Freed sp i h') (sp' : Nat) : h'.sizeClassOf sp' = h.sizeClassOf sp' := by
  simp only [sizeClassOf, FixedShadow.get, hf.meta_eq]

theorem Freed.scdOf_eq (hf : h.Freed sp i h') (sp' : Nat) : h'.scdOf sp' = h.scdOf sp' := by
  rw [scdOf, hf.sizeClassOf_eq, scdOf]

theorem Freed.inUse_eq (hf : h.Freed sp i h') {sp' i' : Nat} (hne : ¬(sp' = sp ∧ i' = i))
    (hu : h.InUse sp' i') : h'.state sp' i' = h.state sp' i' :=
  (hf.other sp' i' hne).resolve_right fun ⟨hq, _, _⟩ => by
    rcases hu with hu | hu <;> rw [hu] at hq <;> exact absurd hq (by decide)

theorem freed_setState (hsp : sp ∈ h.superPages) {v : UInt8} (hv : v = available ∨ v = quarantined) :
    h.Freed sp i (h.setState sp i v) where
  mem := hsp
  numSuperPages_eq := rfl
  meta_eq := rfl
  word_eq := rfl
  freed := by simpa using hv
  other sp' i' hne := .inl (by rw [setState_state, if_neg hne])

theorem Freed.withBytesInQuarantine (hf : h.Freed sp i h') (n : Nat) :
    h.Freed sp i { h' with bytesInQuarantine := n } :=
  ⟨hf.mem, hf.numSuperPages_eq, hf.meta_eq, hf.word_eq, hf.freed, hf.other⟩

theorem Freed.afterScan (hf : h.Freed sp i h') (hr : ScanReady h') (s : Nat → Nat) (B : Nat) :
    h.Freed sp i (h'.afterScan s B) := by
  refine ⟨hf.mem, by rw [afterScan_numSuperPages, hf.numSuperPages_eq], by rw [afterScan_meta, hf.meta_eq],
    by rw [afterScan_word, hf.word_eq], ?_, fun sp' i' hne => ?_⟩
  · rw [afterScan_state hr]
    split
    · exact .inl rfl
    · exact hf.freed
  · rw [afterScan_state hr, pointedInto_afterScan hr]
    split
    · next hc =>
      rcases hf.other sp' i' hne with he | ⟨-, ha, -⟩
      · exact .inr ⟨he ▸ hc.2.2.1, rfl, hc.2.2.2⟩
      · exact absurd (ha ▸ hc.2.2.1) (by decide)
    · exact hf.other sp' i' hne

end Heap

section Free

variable {cfg : MallocConfig} {tags : AddressTags} {h : Heap} {tls : TLS}

theorem removeAddressTag_noShadow (hsh : cfg.useShadow = false) (ptr : Nat) (h : Heap) :
    removeAddressTagAndCheckForDoubleFree cfg tags ptr h = .ok (tags.applyAddressTag ptr 0, h) := by
  simp [removeAddressTagAndCheckForDoubleFree, getMemoryTag, hsh]
  rfl

theorem updateMemoryTagOnFree_noShadow (hsh : cfg.useShadow = false) (p size : Nat) (h : Heap) :
    updateMemoryTagOnFree cfg p size h = .ok (0, h) := by
  simp [updateMemoryTagOnFree, hsh]

theorem exchangeAndCheckForDoubleFree_eq (sp idx : Nat) (v : UInt8) (h : Heap) :
    exchangeAndCheckForDoubleFree sp idx v h =
      if h.InUse sp idx then .ok ((), h.setState sp idx v) else .error .doubleFree := by
  split
  · exact exchangeAndCheckForDoubleFree_run ‹_›
  · exact exchangeAndCheckForDoubleFree_error (not_or.mp ‹_›)

theorem superPage_isMine (hr : ScanReady h) {sp : Nat} (hsp : sp ∈ h.superPages) :
    superPageMetadata.isMine sp = true := by
  obtain ⟨-, hlo, hhi⟩ := superPage_in_region hr hsp
  simp only [superPageMetadata, FixedShadow.isMine, Bool.and_eq_true, decide_eq_true_eq]
  unfold kSuperPageSize at hhi
  omega

theorem startSuperPage_mem (hr : ScanReady h) {sp a : Nat} (hsp : sp ∈ h.superPages)
    (ha : sp ≤ a ∧ a < sp + kSuperPageSize) : startSuperPage a h = .ok (sp, h) := by
  obtain ⟨hal, hlo, hhi⟩ := superPage_in_region hr hsp
  have hround : roundDownTo a kSuperPageSize = sp := by
    rw [kSuperPageSize, roundDownTo_pow (by unfold wordBound kAllocatorSpace kAllocatorSize at *; omega)
      (by decide)]
    unfold kSuperPageSize at *
    omega
  unfold kSuperPageSize at hhi
  rw [startSuperPage_run h (by rw [hround]; omega), hround]

theorem startSuperPage_chunk (hr : ScanReady h) {sp i : Nat} (hsp : sp ∈ h.superPages)
    (hi : i < (h.scdOf sp).numChunks) :
    startSuperPage (addressOfChunk sp i (h.scdOf sp)) h = .ok (sp, h) := by
  have e := chunk_end_le (hr.valid hsp) hi
  have hcs := (hr.valid hsp).chunkSize_ge
  exact startSuperPage_mem hr hsp (by unfold addressOfChunk; omega)

section Chunk

variable (hsh : cfg.useShadow = false) (ht : tags.UntagsRegion) (hr : ScanReady h) {sp i : Nat}
  (hsp : sp ∈ h.superPages) (hi : i < (h.scdOf sp).numChunks)
include hsh ht hr hsp hi

theorem deallocate_chunk :
    deallocate cfg tags (addressOfChunk sp i (h.scdOf sp)) h =
      if h.InUse sp i then .ok ((), h.setState sp i available) else .error .doubleFree := by
  obtain ⟨hlo, hhi, -⟩ := chunk_in_region hr hsp hi
  simp only [deallocate, HeapM.run_bind, removeAddressTag_noShadow hsh, ht _ hlo hhi,
    startSuperPage_chunk hr hsp hi, SuperPage.deallocate, getSCD_run (superPage_isMine hr hsp), HeapM.run_lift,
    computeStatePtr_chunk (hr.valid hsp) (superPage_in_region hr hsp).1 hi, Except.map,
    updateMemoryTagOnFree_noShadow hsh, exchangeAndCheckForDoubleFree_eq]

/-- With the shadow off the memory tag stays 0, so `Quarantine` of the start of a chunk sets
its state byte to `QUARANTINED`, whatever `UseTag` is, and adds its bytes to
`TLS.LocalQuarantineSize`; it returns exactly when the chunk was in use. -/
theorem quarantine_chunk (tls : TLS) :
    quarantine cfg tags (addressOfChunk sp i (h.scdOf sp)) tls h =
      if h.InUse sp i then
        .ok ({ tls with localQuarantineSize := tls.localQuarantineSize + (h.scdOf sp).chunkSize },
          h.setState sp i quarantined)
      else .error .doubleFree := by
  obtain ⟨hlo, hhi, -⟩ := chunk_in_region hr hsp hi
  simp only [quarantine, HeapM.run_bind, removeAddressTag_noShadow hsh, ht _ hlo hhi,
    startSuperPage_chunk hr hsp hi, SuperPage.quarantine, getSCD_run (superPage_isMine hr hsp), HeapM.run_lift,
    computeStatePtr_chunk (hr.valid hsp) (superPage_in_region hr hsp).1 hi, Except.map,
    updateMemoryTagOnFree_noShadow hsh, show (0 : UInt8) &&& 255 = 0 from rfl,
    show (0 : UInt8) &&& 15 = 0 from rfl, ne_eq, not_true_eq_false, and_false, if_false,
    exchangeAndCheckForDoubleFree_eq, if_neg (show quarantined ≠ available by decide)]
  by_cases hu : h.InUse sp i <;> simp only [hu, if_true, if_false]
  rfl

end Chunk

section Interior

variable (hsh : cfg.useShadow = false) (ht : tags.UntagsRegion) (hr : ScanReady h) {sp a : Nat}
  (hsp : sp ∈ h.superPages) (ha : sp ≤ a ∧ a < sp + kSuperPageSize)
  (hna : ∀ i < (h.scdOf sp).numChunks, a ≠ addressOfChunk sp i (h.scdOf sp))
include hsh ht hr hsp ha hna

omit hsh ht in
theorem computeStatePtr_interior : computeStatePtr a (h.scdOf sp) = .error .trap := by
  have hal := (superPage_in_region hr hsp).1
  refine computeStatePtr_trap (hr.valid hsp) fun i hi he => hna i hi ?_
  unfold addressOfChunk
  unfold kSuperPageSize at *
  omega

theorem deallocate_interior : deallocate cfg tags a h = .error .trap := by
  obtain ⟨-, hlo, hhi⟩ := superPage_in_region hr hsp
  simp only [deallocate, HeapM.run_bind, removeAddressTag_noShadow hsh, ht a (by omega) (by omega),
    startSuperPage_mem hr hsp ha, SuperPage.deallocate, getSCD_run (superPage_isMine hr hsp), HeapM.run_lift,
    computeStatePtr_interior hr hsp ha hna, Except.map]

theorem quarantineAndMaybeScan_interior (maxQuarantineSize : Nat) (tls : TLS) :
    quarantineAndMaybeScan cfg tags a maxQuarantineSize tls h = .error .trap := by
  obtain ⟨-, hlo, hhi⟩ := superPage_in_region hr hsp
  simp only [quarantineAndMaybeScan, quarantine, HeapM.run_bind, removeAddressTag_noShadow hsh,
    ht a (by omega) (by omega), startSuperPage_mem hr hsp ha, SuperPage.quarantine,
    getSCD_run (superPage_isMine hr hsp), HeapM.run_lift, computeStatePtr_interior hr hsp ha hna,
    Except.map]

end Interior

/-- `MaybeScan` on a heap `Scan` can run on returns, and leaves the heap as it was or as `Scan`
leaves it; stated of its result `res`, so that it applies to a result split out of a run. -/
theorem maybeScan_run (hr : ScanReady h) {total limit : Nat} {res : Except Fault (Unit × Heap)}
    (e : maybeScan total limit h = res) :
    ∃ h', res = .ok ((), h') ∧ (h' = h ∨ ∃ s B, h' = h.afterScan s B ∧ h'.bytesInQuarantine = h'.quarantineSum) := by
  subst e
  unfold maybeScan
  split
  · exact ⟨h, rfl, .inl rfl⟩
  · simp only [HeapM.run_bind, HeapM.run_get]
    split
    · exact ⟨h, rfl, .inl rfl⟩
    · obtain ⟨s', hrun⟩ := scan_run hr.fits hr.words
      exact ⟨_, hrun, .inr ⟨s', _, rfl, quarantinedBytes_split
        (h := (h.withScanPos s').markWhere (h.hits h.numSuperPages h.superPages)) hr.range0_le⟩⟩

theorem Ready.freed (hR : Ready h tls) {sp i : Nat} {h' : Heap} (hf : h.Freed sp i h') (hs : ScanReady h')
    {tls' : TLS} (hp : tls'.perSC = tls.perSC) : Ready h' tls' where
  scan := hs
  fresh sp' hsp' i' := by
    rw [hf.superPages_eq] at hsp'
    have hne : ¬(sp' = sp ∧ i' = i) := fun he => hsp' (he.1 ▸ hf.mem)
    rcases hf.other sp' i' hne with he | ⟨-, ha, -⟩
    · rw [he]; exact hR.fresh sp' hsp' i'
    · exact ha
  slots := Slots.of_perSC ⟨hR.slots.hints, fun sc hsc => by
    rw [hf.superPages_eq, hf.sizeClassOf_eq]; exact hR.slots.pages sc hsc⟩ hp
  ranged r hr j hj := by
    rw [hf.scdOf_eq]
    exact hR.ranged r hr j (by rwa [← hf.numSuperPages_eq])

/-- `QuarantineAndMaybeScan` of the start of a chunk in use returns, whether it scans or not:
the chunk is freed, `QUARANTINED` or, after a `Scan` that found no pointer into it,
`AVAILABLE`, the heap and the slots stay ready, and counters that were right stay right. -/
theorem quarantineAndMaybeScan_chunk (hsh : cfg.useShadow = false) (ht : tags.UntagsRegion)
    (hR : Ready h tls) {sp i : Nat} (hsp : sp ∈ h.superPages) (hi : i < (h.scdOf sp).numChunks)
    (hu : h.InUse sp i) (maxQuarantineSize : Nat) :
    ∃ r, quarantineAndMaybeScan cfg tags (addressOfChunk sp i (h.scdOf sp)) maxQuarantineSize tls h = .ok r ∧
      Ready r.2 r.1 ∧ h.Freed sp i r.2 ∧ (Counted h tls → Counted r.2 r.1) := by
  have hf1 := Heap.freed_setState (i := i) hsp (v := quarantined) (.inr rfl)
  have hs1 := hR.scan.setState (v := quarantined) (by decide) sp i
  -- the chunk's bytes join the sum
  have hq1 := Heap.quarantineSum_setState hR.scan.range0_le hsp hi quarantined
  rw [if_neg (by rcases hu with hu | hu <;> rw [hu] <;> decide), if_pos rfl, Nat.add_zero] at hq1
  simp only [quarantineAndMaybeScan, HeapM.run_bind, HeapM.run_pure,
    quarantine_chunk hsh ht hR.scan hsp hi, if_pos hu]
  split
  · next hloc =>
    refine ⟨_, rfl, hR.freed hf1 hs1 rfl, hf1, fun hc => ⟨?_, hloc⟩⟩
    show h.bytesInQuarantine + (tls.localQuarantineSize + _) = (h.setState sp i quarantined).quarantineSum
    have := hc.sum
    omega
  · simp only [HeapM.run_bind, HeapM.run_pure, HeapM.run_get, HeapM.run_modify]
    -- the heap `MaybeScan` starts from: `BytesInQuarantine` updated
    have hf2 := hf1.withBytesInQuarantine
    have hs2 : ∀ n, ScanReady { h.setState sp i quarantined with bytesInQuarantine := n } :=
      fun _ => ⟨hs1.1, hs1.2, hs1.3, hs1.4, hs1.5⟩
    split
    · next r heq =>
      obtain ⟨h', he, hh⟩ := maybeScan_run (hs2 _) heq
      cases he
      refine ⟨_, rfl, ?_⟩
      rcases hh with rfl | ⟨s, B, rfl, hB⟩
      · refine ⟨hR.freed (hf2 _) (hs2 _) rfl, hf2 _, fun hc => ⟨?_, (by decide : 0 < kSizeOfLocalQuarantine)⟩⟩
        show h.bytesInQuarantine + (tls.localQuarantineSize + _) + 0 = (h.setState sp i quarantined).quarantineSum
        have := hc.sum
        omega
      · exact ⟨hR.freed ((hf2 _).afterScan (hs2 _) s B) (afterScan_ready (hs2 _) s B) rfl,
          (hf2 _).afterScan (hs2 _) s B, fun _ => ⟨hB, (by decide : 0 < kSizeOfLocalQuarantine)⟩⟩
    · next f heq =>
      obtain ⟨_, he, -⟩ := maybeScan_run (hs2 _) heq
      cases he

theorem quarantineAndMaybeScan_local (hsh : cfg.useShadow = false) (ht : tags.UntagsRegion)
    (hr : ScanReady h) {sp i : Nat} (hsp : sp ∈ h.superPages) (hi : i < (h.scdOf sp).numChunks)
    (hu : h.InUse sp i) {tls : TLS}
    (hloc : tls.localQuarantineSize + (h.scdOf sp).chunkSize < kSizeOfLocalQuarantine) (maxQuarantineSize : Nat) :
    quarantineAndMaybeScan cfg tags (addressOfChunk sp i (h.scdOf sp)) maxQuarantineSize tls h =
      .ok ({ tls with localQuarantineSize := tls.localQuarantineSize + (h.scdOf sp).chunkSize },
        h.setState sp i quarantined) := by
  simp only [quarantineAndMaybeScan, HeapM.run_bind, quarantine_chunk hsh ht hr hsp hi, if_pos hu, if_pos hloc]
  rfl

theorem quarantineAndMaybeScan_chunk_doubleFree (hsh : cfg.useShadow = false) (ht : tags.UntagsRegion)
    (hr : ScanReady h) {sp i : Nat} (hsp : sp ∈ h.superPages) (hi : i < (h.scdOf sp).numChunks)
    (hu : ¬h.InUse sp i) (maxQuarantineSize : Nat) :
    quarantineAndMaybeScan cfg tags (addressOfChunk sp i (h.scdOf sp)) maxQuarantineSize tls h =
      .error .doubleFree := by
  simp only [quarantineAndMaybeScan, HeapM.run_bind, quarantine_chunk hsh ht hr hsp hi, if_neg hu]

end Free

-- ---------------------------------------------------------------------------
-- A large block inside the alias windows
-- ---------------------------------------------------------------------------

section AliasWindow

end AliasWindow

end MTMalloc

import MTMalloc.Scan

/-!
# What a scan keeps

`scan_run` gives the outcome of `Scan` in the terms the code computes: the chunks that
`Mark` is called on, found through the range test, `RoundDownTo` and `DivBySizeViaMul`.
This module reads that outcome back as a property of the heap. On a heap whose super pages
are laid out as `AllocateSuperPage` leaves them (`ScanReady`), `Mark` reaches chunk `i` of
a super page exactly when the word points into that chunk, so `Scan` keeps in quarantine
exactly the chunks some live word points into, frees the others, and stores the size of
what it kept (`scan_law`).
-/

namespace MTMalloc

open SuperPage

namespace Heap

/-- The word value `v` lies in chunk `i` of the super page at `sp`. -/
def chunkHolds (h : Heap) (sp i v : Nat) : Prop :=
  addressOfChunk sp i (h.scdOf sp) ≤ v ∧ v < addressOfChunk sp i (h.scdOf sp) + (h.scdOf sp).chunkSize

instance (h : Heap) (sp i v : Nat) : Decidable (h.chunkHolds sp i v) :=
  inferInstanceAs (Decidable (_ ∧ _))

/-- A word at an 8-byte-aligned offset of a `USED_MIXED` chunk of a super page that exists
points into chunk `i` of the super page at `sp`. -/
def pointedInto (h : Heap) (sp i : Nat) : Bool :=
  h.superPages.any fun sp' => (h.liveWordAddrs sp').any fun a => decide (h.chunkHolds sp i (h.word a))

end Heap

/-- The heaps `Scan` is run on: range 0 has not grown into range 1, every super page that
exists has a size class, every word is a 64-bit value, and no chunk is `MARKED`. -/
structure ScanReady (h : Heap) : Prop where
  range0_le : h.numSuperPages 0 ≤ 2 ^ 20
  range1_le : h.numSuperPages 1 ≤ 2 ^ 20
  words : WordsBounded h
  sizeClass_lt : ∀ sp ∈ h.superPages, h.sizeClassOf sp < kNumSizeClasses
  not_marked : ∀ sp ∈ h.superPages, ∀ i < (h.scdOf sp).numChunks, h.state sp i ≠ marked

-- ---------------------------------------------------------------------------
-- Where the super pages are
-- ---------------------------------------------------------------------------

section Layout

theorem mem_superPages {h : Heap} {sp : Nat} :
    sp ∈ h.superPages ↔ ∃ r < 2, ∃ j < h.numSuperPages r, sp = spAddr r j := by
  simp only [Heap.superPages, Heap.rangePages, List.mem_append, List.mem_map, List.mem_range]
  constructor
  · rintro (⟨j, hj, rfl⟩ | ⟨j, hj, rfl⟩)
    exacts [⟨0, by decide, j, hj, rfl⟩, ⟨1, by decide, j, hj, rfl⟩]
  · rintro ⟨r, hr, j, hj, rfl⟩
    obtain rfl | rfl : r = 0 ∨ r = 1 := by omega
    exacts [.inl ⟨j, hj, rfl⟩, .inr ⟨j, hj, rfl⟩]

theorem ScanReady.numSuperPages_le {h : Heap} (hr : ScanReady h) {r : Nat} (hr2 : r < 2) :
    h.numSuperPages r ≤ 2 ^ 20 := by
  obtain rfl | rfl : r = 0 ∨ r = 1 := by omega
  exacts [hr.range0_le, hr.range1_le]

theorem ScanReady.fits {h : Heap} (hr : ScanReady h) : RangesFit h.numSuperPages := by
  intro r hr2
  have := hr.range0_le
  have := hr.range1_le
  obtain rfl | rfl : r = 0 ∨ r = 1 := by omega
  all_goals unfold kFirstSuperPage kSuperPageSize kAllocatorSize kAllocatorSpace; omega

theorem superPages_nodup {h : Heap} (h0 : h.numSuperPages 0 ≤ 2 ^ 20) : h.superPages.Nodup := by
  have hinj : ∀ r, Function.Injective (spAddr r) := fun r a b hab => by
    unfold spAddr kSuperPageSize at hab; omega
  rw [Heap.superPages, List.nodup_append]
  exact ⟨(List.nodup_range _).map (hinj 0), (List.nodup_range _).map (hinj 1),
    fun a ha hb => rangePages_disjoint h0 a ha hb⟩

/-- `Value - kFirstSuperPage[RangeNum] < SuperPageRegionSize[RangeNum]` on 64-bit values:
the value lies in the first `m` bytes from `f`. -/
theorem sub64_lt_iff {v f m : Nat} (hv : v < wordBound) (hfm : f + m ≤ 2 ^ 48) :
    sub64 v f < m ↔ f ≤ v ∧ v - f < m := by
  unfold sub64 wordBound at *
  rw [Nat.mod_eq_of_lt hv, Nat.mod_eq_of_lt (by omega : f < 2 ^ 64)]
  constructor
  · intro h
    by_cases hfv : f ≤ v
    · rw [show v + 2 ^ 64 - f = (v - f) + 2 ^ 64 by omega, Nat.add_mod_right,
        Nat.mod_eq_of_lt (by omega)] at h
      exact ⟨hfv, h⟩
    · rw [Nat.mod_eq_of_lt (by omega)] at h; omega
  · rintro ⟨hfv, h⟩
    rw [show v + 2 ^ 64 - f = (v - f) + 2 ^ 64 by omega, Nat.add_mod_right, Nat.mod_eq_of_lt (by omega)]
    exact h

/-- The range test of `MarkAllLivePointers` passes exactly for the values inside the super
pages that exist. -/
theorem inSuperPageRegion_iff {n : Nat → Nat} (hfit : RangesFit n) {v : Nat} (hv : v < wordBound) :
    inSuperPageRegion n v = true ↔
      ∃ r < 2, kFirstSuperPage r ≤ v ∧ v - kFirstSuperPage r < n r * kSuperPageSize := by
  have hb : ∀ r < 2, kFirstSuperPage r + n r * kSuperPageSize ≤ 2 ^ 48 := fun r hr =>
    (hfit r hr).trans (by unfold kAllocatorSpace kAllocatorSize; omega)
  simp only [inSuperPageRegion, Bool.not_eq_true', Bool.and_eq_false_iff, decide_eq_false_iff_not,
    not_le, sub64_lt_iff hv (hb 0 (by decide)), sub64_lt_iff hv (hb 1 (by decide))]
  constructor
  · rintro (h | h)
    exacts [⟨0, by decide, h⟩, ⟨1, by decide, h⟩]
  · rintro ⟨r, hr, h⟩
    obtain rfl | rfl : r = 0 ∨ r = 1 := by omega
    exacts [.inl h, .inr h]

theorem spAddr_mod (r j : Nat) : spAddr r j % kSuperPageSize = 0 := by
  unfold spAddr kFirstSuperPage kSuperPageSize kAllocatorSpace kAllocatorSize; omega

theorem roundDownTo_mem_superPages {h : Heap} (hfit : RangesFit h.numSuperPages) {v : Nat}
    (hv : v < wordBound) (hin : inSuperPageRegion h.numSuperPages v = true) :
    roundDownTo v kSuperPageSize ∈ h.superPages := by
  obtain ⟨r, hr, hle, hlt⟩ := (inSuperPageRegion_iff hfit hv).mp hin
  rw [mem_superPages]
  refine ⟨r, hr, (v - kFirstSuperPage r) / kSuperPageSize, ?_, ?_⟩
  · exact Nat.div_lt_of_lt_mul (Nat.mul_comm _ _ ▸ hlt)
  · have := spAddr_mod r 0
    rw [kSuperPageSize, roundDownTo_pow hv (by decide)]
    unfold spAddr kSuperPageSize at *
    omega

end Layout

-- ---------------------------------------------------------------------------
-- `Mark` reaches the chunk a word points into
-- ---------------------------------------------------------------------------

section Target

variable {h : Heap}

/-- On a super page that exists, the chunk `Mark` reaches from a value is the chunk the
value lies in: `DivBySizeViaMul` divides exactly, and the chunks end before the state array
and the slack, where `Mark` does nothing. -/
theorem markTarget_eq_some_iff (hr : ScanReady h) {sp i v : Nat} (hsp : sp ∈ h.superPages)
    (hv : v < wordBound) :
    h.markTarget h.numSuperPages v = some (sp, i) ↔
      i < (h.scdOf sp).numChunks ∧ h.chunkHolds sp i v := by
  obtain ⟨r, hr2, j, hj, rfl⟩ := mem_superPages.mp hsp
  have hval : (h.scdOf (spAddr r j)).Valid := (scDescr_valid (hr.sizeClass_lt _ hsp)).1
  have hcs := hval.chunkSize_ge
  have hlay := hval.layout
  have hmod := spAddr_mod r j
  have hdiv := hval.div_eq
  have hround : roundDownTo v kSuperPageSize = v / kSuperPageSize * kSuperPageSize :=
    roundDownTo_pow hv (by decide)
  have hoff := hdiv (v % kSuperPageSize) (Nat.mod_lt _ (by decide)).le
  unfold Heap.chunkHolds addressOfChunk
  constructor
  · intro ht
    have hin : inSuperPageRegion h.numSuperPages v = true := by
      by_contra hn; rw [markTarget_of_not_in hn] at ht; cases ht
    obtain ⟨hsp', hi⟩ := (markTarget_eq_some hin).mp ht
    rw [← hsp'] at hi
    simp only [Heap.markIdxOf, hoff] at hi
    split at hi
    · cases hi
    · obtain rfl := Option.some_inj.mp hi
      have := Nat.div_mul_le_self (v % kSuperPageSize) (h.scdOf (spAddr r j)).chunkSize
      have := Nat.lt_div_mul_add (a := v % kSuperPageSize) (by omega : 0 < (h.scdOf (spAddr r j)).chunkSize)
      refine ⟨by omega, ?_⟩
      rw [hround] at hsp'
      unfold kSuperPageSize at *
      omega
  · rintro ⟨hi, hlo, hhi⟩
    have hicn : i * (h.scdOf (spAddr r j)).chunkSize + (h.scdOf (spAddr r j)).chunkSize ≤
        (h.scdOf (spAddr r j)).numChunks * (h.scdOf (spAddr r j)).chunkSize :=
      (Nat.succ_mul i _) ▸ Nat.mul_le_mul_right _ hi
    have hsp' : spAddr r j = roundDownTo v kSuperPageSize := by
      rw [hround]; unfold kSuperPageSize at *; omega
    have hin : inSuperPageRegion h.numSuperPages v = true := by
      rw [inSuperPageRegion_iff hr.fits hv]
      refine ⟨r, hr2, ?_⟩
      unfold spAddr kSuperPageSize at *
      omega
    rw [markTarget_eq_some hin, ← hsp']
    refine ⟨rfl, ?_⟩
    have hvm : v % kSuperPageSize = v - spAddr r j := by
      unfold kSuperPageSize at *; omega
    have hq : (v - spAddr r j) / (h.scdOf (spAddr r j)).chunkSize = i :=
      Nat.div_eq_of_lt_le (by omega) (by rw [Nat.succ_mul]; omega)
    simp only [Heap.markIdxOf, hvm]
    rw [hdiv _ (by omega), hq, if_neg (by omega)]

theorem markTarget_some_mem (hfit : RangesFit h.numSuperPages) {v sp i : Nat} (hv : v < wordBound)
    (ht : h.markTarget h.numSuperPages v = some (sp, i)) :
    sp ∈ h.superPages ∧ i < (h.scdOf sp).numChunks := by
  have hin : inSuperPageRegion h.numSuperPages v = true := by
    by_contra hn; rw [markTarget_of_not_in hn] at ht; cases ht
  obtain ⟨rfl, hi⟩ := (markTarget_eq_some hin).mp ht
  refine ⟨roundDownTo_mem_superPages hfit hv hin, ?_⟩
  simp only [Heap.markIdxOf] at hi
  split at hi
  · cases hi
  · obtain rfl := Option.some_inj.mp hi; omega

theorem hits_eq (hr : ScanReady h) (sp i : Nat) :
    h.hits h.numSuperPages h.superPages sp i =
      (decide (sp ∈ h.superPages ∧ i < (h.scdOf sp).numChunks) && h.pointedInto sp i) := by
  by_cases hm : sp ∈ h.superPages ∧ i < (h.scdOf sp).numChunks
  · simp only [Heap.hits, Heap.pointedInto, hm, and_self, decide_True, Bool.true_and]
    congr 1; funext sp'; congr 1; funext a
    simp only [markTarget_eq_some_iff hr hm.1 (hr.words a), hm.2, true_and]
  · simp only [hm, decide_False, Bool.false_and, Heap.hits, List.any_eq_false, List.any_eq_true,
      decide_eq_true_eq, not_exists, not_and]
    exact fun _ _ a _ ht => hm (markTarget_some_mem hr.fits (hr.words a) ht)

end Target

-- ---------------------------------------------------------------------------
-- The outcome of a scan
-- ---------------------------------------------------------------------------

section Outcome

variable {h : Heap}

theorem moveState_quarantined : moveState quarantined = available := by decide
theorem moveState_marked : moveState marked = quarantined := by decide
theorem moveState_of_ne {st : UInt8} (hq : st ≠ quarantined) (hm : st ≠ marked) : moveState st = st := by
  simp only [moveState, hq, hm, if_false]

/-- Chunk by chunk: a `QUARANTINED` chunk of an existing super page that no live word points
into becomes `AVAILABLE`; every other state byte is as it was. -/
theorem afterScan_state (hr : ScanReady h) (s : Nat → Nat) (B sp i : Nat) :
    (h.afterScan s B).state sp i =
      if sp ∈ h.superPages ∧ i < (h.scdOf sp).numChunks ∧ h.state sp i = quarantined ∧
          h.pointedInto sp i = false then available
      else h.state sp i := by
  have hP := hits_eq hr sp i
  simp only [Heap.afterScan, Heap.withQuarantineSize]
  by_cases hsp : sp ∈ h.superPages
  · rw [Heap.sweep_state_of_mem (superPages_nodup hr.range0_le) hsp]
    simp only [Heap.scdOf_markWhere, Heap.scdOf_withScanPos, Heap.markWhere_state,
      Heap.state_withScanPos, hP, hsp, true_and]
    by_cases hi : i < (h.scdOf sp).numChunks
    · have hnm := hr.not_marked sp hsp i hi
      by_cases hq : h.state sp i = quarantined
      · cases hpi : h.pointedInto sp i <;>
          simp [hi, hq, hpi, moveState_quarantined, moveState_marked]
      · simp [hi, hq, moveState_of_ne hq hnm]
    · simp [hi]
  · rw [Heap.sweep_state_of_not_mem hsp]
    simp [Heap.markWhere_state, hP, hsp]

/-- `Scan` keeps the heap ready for the next one: it maps and retypes no super page, writes no
word, and leaves no chunk `MARKED`. -/
theorem afterScan_ready (hr : ScanReady h) (s : Nat → Nat) (B : Nat) : ScanReady (h.afterScan s B) where
  range0_le := by simpa using hr.range0_le
  range1_le := by simpa using hr.range1_le
  words a := by simpa using hr.words a
  sizeClass_lt sp hm := by
    simpa only [Heap.sizeClassOf, Heap.afterScan_meta] using hr.sizeClass_lt sp (by simpa using hm)
  not_marked sp hm i hi := by
    simp only [Heap.afterScan_superPages, Heap.afterScan_scdOf] at hm hi
    rw [afterScan_state hr]
    split
    · decide
    · exact hr.not_marked sp hm i hi

theorem liveWordAddrs_afterScan (hr : ScanReady h) (s : Nat → Nat) (B sp : Nat) :
    (h.afterScan s B).liveWordAddrs sp = h.liveWordAddrs sp := by
  simp only [Heap.liveWordAddrs, Heap.afterScan_scdOf]
  congr 1
  funext j
  rw [afterScan_state hr]
  split
  · next hc => rw [if_neg (by decide), if_neg (by rw [hc.2.2.1]; decide)]
  · rfl

theorem pointedInto_afterScan (hr : ScanReady h) (s : Nat → Nat) (B : Nat) :
    (h.afterScan s B).pointedInto = h.pointedInto := by
  funext sp i
  simp only [Heap.pointedInto, Heap.afterScan_superPages, liveWordAddrs_afterScan hr, Heap.afterScan_word,
    Heap.chunkHolds, Heap.afterScan_scdOf]

/-- What `Scan` promises when it ends, from the heap `h` it started on to the heap `h'`. -/
structure ScanOutcome (h h' : Heap) : Prop where
  /-- A `QUARANTINED` chunk that no live word points into becomes `AVAILABLE`; every other
  state byte is as it was. -/
  state : ∀ sp i, h'.state sp i =
    if sp ∈ h.superPages ∧ i < (h.scdOf sp).numChunks ∧ h.state sp i = quarantined ∧
        h.pointedInto sp i = false then available
    else h.state sp i
  word : h'.word = h.word
  meta : h'.meta = h.meta
  numSuperPages : h'.numSuperPages = h.numSuperPages
  bytesInQuarantine : h'.bytesInQuarantine = h'.quarantineSum
  lastQurantineSize : h'.lastQurantineSize = h'.quarantineSum
  /-- In particular no chunk is left `MARKED`. -/
  ready : ScanReady h'

/-- `Scan` run by the only thread: a `QUARANTINED` chunk stays quarantined exactly when a
word of a `USED_MIXED` chunk points into it, every other quarantined chunk becomes
`AVAILABLE`, no other state byte and no word changes, no chunk is left `MARKED`, and both
counters hold the bytes now in quarantine. -/
theorem scan_law (hr : ScanReady h) : ∃ h', scan h = .ok ((), h') ∧ ScanOutcome h h' := by
  obtain ⟨s', hrun⟩ := scan_run hr.fits hr.words
  have hB := quarantinedBytes_split
    (h := (h.withScanPos s').markWhere (h.hits h.numSuperPages h.superPages)) hr.range0_le
  exact ⟨_, hrun, afterScan_state hr s' _, Heap.afterScan_word .., Heap.afterScan_meta ..,
    Heap.afterScan_numSuperPages .., hB, hB, afterScan_ready hr s' _⟩

theorem scanReady_empty : ScanReady Heap.empty where
  range0_le := by decide
  range1_le := by decide
  words _ := show 0 < wordBound by decide
  sizeClass_lt _ h := by simp [mem_superPages, Heap.empty] at h
  not_marked _ h := by simp [mem_superPages, Heap.empty] at h

theorem scan_law_empty :
    ScanReady Heap.empty ∧ ∃ h', scan Heap.empty = .ok ((), h') ∧ ScanOutcome Heap.empty h' :=
  ⟨scanReady_empty, scan_law scanReady_empty⟩

end Outcome

-- ---------------------------------------------------------------------------
-- Tagged words
-- ---------------------------------------------------------------------------

section Tagged

theorem inSuperPageRegion_of_ge {n : Nat → Nat} (hfit : RangesFit n) {v : Nat} (hv : v < wordBound)
    (hge : kAllocatorSpace + kAllocatorSize ≤ v) : inSuperPageRegion n v = false := by
  rw [← Bool.not_eq_true, inSuperPageRegion_iff hfit hv]
  rintro ⟨r, hr, hle, hlt⟩
  have := hfit r hr
  omega

theorem aliasTag_past_region {a : Nat} (ha : kAllocatorSpace ≤ a ∧ a < kAllocatorSpace + kAllocatorSize)
    {t : UInt8} (ht : t.toNat % 16 ≠ 0) :
    kAllocatorSpace + kAllocatorSize ≤ AliasTags.applyAddressTag true a t ∧
      AliasTags.applyAddressTag true a t < wordBound := by
  unfold kAllocatorSpace kAllocatorSize at *
  rw [AliasTags.applyAddressTag_eq (by unfold wordBound; omega)]
  unfold wordBound
  omega

theorem tbiTag_past_region {a : Nat} (ha : a < 2 ^ 56) (useAliases : Bool) {t : UInt8} (ht : t ≠ 0) :
    kAllocatorSpace + kAllocatorSize ≤ MemtagTags.applyAddressTag true useAliases a t ∧
      MemtagTags.applyAddressTag true useAliases a t < wordBound := by
  have h0 : t.toNat ≠ 0 := fun h => ht (UInt8.toNat.inj h)
  have := t.toNat_lt_size
  rw [MemtagTags.applyAddressTag_tbi (by unfold wordBound; omega)]
  unfold kAllocatorSpace kAllocatorSize wordBound UInt8.size at *
  omega

/-- Two range-0 super pages of class 0: chunk 0 of the first is `USED_MIXED` and holds the
word `w` at its start, chunk 0 of the second is `QUARANTINED`. -/
def linkHeap (w : Nat) : Heap :=
  { Heap.empty with
    state := fun sp i => if sp = spAddr 0 0 ∧ i = 0 then usedMixed
      else if sp = spAddr 0 1 ∧ i = 0 then quarantined else available
    word := fun a => if a = spAddr 0 0 then w else 0
    numSuperPages := fun r => if r = 0 then 2 else 0 }

theorem sizeClassOf_linkHeap (w sp : Nat) : (linkHeap w).sizeClassOf sp = 0 := rfl

theorem scdOf_linkHeap_valid (w sp : Nat) : ((linkHeap w).scdOf sp).Valid := by
  rw [Heap.scdOf, sizeClassOf_linkHeap]
  exact (scDescr_valid (by decide)).1

theorem scanReady_linkHeap {w : Nat} (hw : w < wordBound) : ScanReady (linkHeap w) where
  range0_le := show (if 0 = 0 then 2 else 0) ≤ 2 ^ 20 by decide
  range1_le := show (if 1 = 0 then 2 else 0) ≤ 2 ^ 20 by decide
  words a := show (if a = spAddr 0 0 then w else 0) < wordBound by
    split <;> [exact hw; decide]
  sizeClass_lt sp _ := by rw [sizeClassOf_linkHeap]; decide
  not_marked sp _ i _ := show (if sp = spAddr 0 0 ∧ i = 0 then usedMixed
      else if sp = spAddr 0 1 ∧ i = 0 then quarantined else available) ≠ marked by
    split <;> [decide; split <;> decide]

theorem markAllLivePointers_linkHeap {w : Nat} (hw : w < wordBound) :
    ∃ h', markAllLivePointers (spAddr 0 0) (linkHeap w).numSuperPages (linkHeap w) = .ok ((), h') ∧
      h'.state (spAddr 0 1) 0 =
        if (linkHeap w).markTarget (linkHeap w).numSuperPages w = some (spAddr 0 1, 0) then marked
        else quarantined := by
  have hr := scanReady_linkHeap hw
  have hrun := markAllLivePointers_run hr.fits hr.words (isMine_spAddr
    (show spAddr 0 0 < kAllocatorSpace + kAllocatorSize by decide)) (fun _ _ => false)
  rw [Heap.markWhere_false] at hrun
  refine ⟨_, hrun, ?_⟩
  have hval := scdOf_linkHeap_valid w (spAddr 0 0)
  have hq : (linkHeap w).state (spAddr 0 1) 0 = quarantined := rfl
  have h0 : (linkHeap w).markTarget (linkHeap w).numSuperPages 0 = none :=
    markTarget_of_not_in (show ¬ inSuperPageRegion (fun r => if r = 0 then 2 else 0) 0 = true by decide)
  have hany : ((linkHeap w).liveWordAddrs (spAddr 0 0)).any (fun a => decide
      ((linkHeap w).markTarget (linkHeap w).numSuperPages ((linkHeap w).word a) = some (spAddr 0 1, 0))) =
      decide ((linkHeap w).markTarget (linkHeap w).numSuperPages w = some (spAddr 0 1, 0)) := by
    apply Bool.eq_iff_iff.mpr
    simp only [List.any_eq_true, decide_eq_true_eq]
    have hword0 : (linkHeap w).word (spAddr 0 0) = w :=
      show (if spAddr 0 0 = spAddr 0 0 then w else 0) = w from if_pos rfl
    constructor
    · rintro ⟨a, -, ha⟩
      by_cases he : a = spAddr 0 0
      · rw [he] at ha
        rw [hword0] at ha
        exact ha
      · rw [show (linkHeap w).word a = 0 from if_neg he, h0] at ha; cases ha
    · intro hw'
      refine ⟨spAddr 0 0, ?_, by rwa [hword0]⟩
      simp only [Heap.liveWordAddrs, List.mem_flatMap, List.mem_range]
      have hcs : 0 < ((linkHeap w).scdOf (spAddr 0 0)).chunkSize / 8 := by have := hval.chunkSize_ge; omega
      refine ⟨0, hval.numChunks_pos, ?_⟩
      rw [if_pos (show (linkHeap w).state (spAddr 0 0) 0 = usedMixed from rfl)]
      exact List.mem_range'.mpr ⟨0, hcs, by simp [addressOfChunk]⟩
  rw [Heap.markWhere_state, hq, Bool.false_or, hany]
  by_cases ht : (linkHeap w).markTarget (linkHeap w).numSuperPages w = some (spAddr 0 1, 0) <;>
    simp [ht]

theorem chunkHolds_start {h : Heap} {sp : Nat} (hv : (h.scdOf sp).Valid) : h.chunkHolds sp 0 sp := by
  have := hv.chunkSize_ge
  unfold Heap.chunkHolds addressOfChunk
  generalize (h.scdOf sp).chunkSize = c at *
  omega

/-- A word stored as `Allocate` returns it, carrying a nonzero address tag, does not protect
the chunk it points to: `MarkAllLivePointers` marks the quarantined chunk when the first super
page holds its untagged address, and leaves it `QUARANTINED` when it holds the same address
with tag 1, in an alias window (bit-40 header) or in the top byte (TBI). -/
theorem markAllLivePointers_skips_tagged_word :
    (∃ h', markAllLivePointers (spAddr 0 0) (linkHeap (spAddr 0 1)).numSuperPages
        (linkHeap (spAddr 0 1)) = .ok ((), h') ∧ h'.state (spAddr 0 1) 0 = marked) ∧
    (∃ h', markAllLivePointers (spAddr 0 0)
        (linkHeap (AliasTags.applyAddressTag true (spAddr 0 1) 1)).numSuperPages
        (linkHeap (AliasTags.applyAddressTag true (spAddr 0 1) 1)) = .ok ((), h') ∧
      h'.state (spAddr 0 1) 0 = quarantined) ∧
    (∃ h', markAllLivePointers (spAddr 0 0)
        (linkHeap (MemtagTags.applyAddressTag true false (spAddr 0 1) 1)).numSuperPages
        (linkHeap (MemtagTags.applyAddressTag true false (spAddr 0 1) 1)) = .ok ((), h') ∧
      h'.state (spAddr 0 1) 0 = quarantined) := by
  have hin : kAllocatorSpace ≤ spAddr 0 1 ∧ spAddr 0 1 < kAllocatorSpace + kAllocatorSize := by decide
  have halias := aliasTag_past_region hin (t := 1) (by decide)
  have htbi := tbiTag_past_region (a := spAddr 0 1) (by decide) false (t := 1) (by decide)
  refine ⟨?_, ?_, ?_⟩
  · obtain ⟨h', hrun, hst⟩ := markAllLivePointers_linkHeap (w := spAddr 0 1) (by decide)
    refine ⟨h', hrun, ?_⟩
    have hval := scdOf_linkHeap_valid (spAddr 0 1) (spAddr 0 1)
    rw [hst, if_pos ((markTarget_eq_some_iff (scanReady_linkHeap (by decide)) (by decide)
      (by decide)).mpr ⟨hval.numChunks_pos, chunkHolds_start hval⟩)]
  · obtain ⟨h', hrun, hst⟩ := markAllLivePointers_linkHeap halias.2
    refine ⟨h', hrun, ?_⟩
    rw [hst, markTarget_of_not_in (by
      rw [inSuperPageRegion_of_ge (scanReady_linkHeap halias.2).fits halias.2 halias.1]; decide)]
    rfl
  · obtain ⟨h', hrun, hst⟩ := markAllLivePointers_linkHeap htbi.2
    refine ⟨h', hrun, ?_⟩
    rw [hst, markTarget_of_not_in (by
      rw [inSuperPageRegion_of_ge (scanReady_linkHeap htbi.2).fits htbi.2 htbi.1]; decide)]
    rfl

end Tagged

end MTMalloc

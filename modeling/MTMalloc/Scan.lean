import Mathlib.Algebra.BigOperators.Group.List
import MTMalloc.SuperPage

/-!
# The mark pass and the sweep

`Allocator::ScanLoop`, `PostScan` and `Scan` of `mtmalloc.h`, run by one thread.

`ScanLoop` claims batches of `kPosIncrement` super pages with `fetch_add` on
`ScanPos[RangeNum]` and runs `MarkAllLivePointers` on each; `PostScan` turns every
`QUARANTINED` chunk into `AVAILABLE` and every `MARKED` one back into `QUARANTINED`, and
sums the bytes left in quarantine. With no other thread the signals
`KillAllThreadsButMyself` sends reach nobody, so `Scan` is the two loops, a report on
`stderr`, and the store of the new quarantine size.

The report prints the RSS that `GetRss` reads with `fopen`, `fscanf` and `fclose`. `Scan` is
modelled as the unit tests of `mtmalloc_test.cpp` run it: they call `Scan` of an `Allocator`
while the process's `malloc` is the C library's, so the report changes nothing of the
allocator's state and is left out. In the library of `part_004` those calls re-enter `malloc`
and `free` while `Scan` holds `Mu`; that `Scan` is not modelled.

The main result, `scan_run`, states the outcome of `Scan` on every heap whose super pages
are laid out as `AllocateSuperPage` leaves them: a `QUARANTINED` chunk stays quarantined
exactly when a word of a `USED_MIXED` chunk points into it.
-/

namespace MTMalloc

open SuperPage

/-- `kPosIncrement` of `ScanLoop`. -/
def kPosIncrement : Nat := 1024

/-- The heap with new values of `ScanPos`. -/
def Heap.withScanPos (h : Heap) (s : Nat → Nat) : Heap := { h with scanPos := s }

/-- `GetSuperPage(RangeNum, Idx)->MarkAllLivePointers(NumSuperPages)` for `k` super pages
from `Idx`. -/
def markBatch (numSuperPages : Nat → Nat) (rangeNum : Nat) (idx : Nat) : Nat → HeapM Unit
  | 0 => pure ()
  | k + 1 => do
    let sp ← getSuperPage rangeNum idx
    markAllLivePointers sp numSuperPages
    markBatch numSuperPages rangeNum (idx + 1) k

/-- The `while (true)` loop of `ScanLoop` over one range; the result is `NumDone`. Each
pass claims a batch with `fetch_add`; the loop ends at the first claim that starts past the
end, so from `ScanPos[RangeNum] = p` it makes at most `(N - p) / kPosIncrement + 1`
passes, and `fuel` bounds them. -/
def scanRange (numSuperPages : Nat → Nat) (rangeNum : Nat) : Nat → HeapM Nat
  | 0 => pure 0
  | fuel + 1 => do
    let h ← get
    let pos := h.scanPos rangeNum
    set (h.withScanPos (Function.update h.scanPos rangeNum (pos + kPosIncrement)))
    let n := numSuperPages rangeNum
    if pos ≥ n then return 0
    let endIdx := min n (pos + kPosIncrement)
    markBatch numSuperPages rangeNum pos (endIdx - pos)
    let rest ← scanRange numSuperPages rangeNum fuel
    pure (endIdx - pos + rest)

/-- `ScanLoop()`: both ranges, with the numbers of super pages read once at the start. -/
def scanLoop : HeapM Nat := do
  let numSuperPages := (← get).numSuperPages
  let done0 ← scanRange numSuperPages 0 (numSuperPages 0 / kPosIncrement + 2)
  let done1 ← scanRange numSuperPages 1 (numSuperPages 1 / kPosIncrement + 2)
  pure (done0 + done1)

/-- The loop of `PostScan` over `k` super pages of a range from `SPIdx`: each is swept, and
the bytes of its chunks still quarantined are added. -/
def postScanRange (rangeNum : Nat) (spIdx : Nat) : Nat → HeapM Nat
  | 0 => pure 0
  | k + 1 => do
    let sp ← getSuperPage rangeNum spIdx
    let scd ← getSCD sp
    moveFromQuarantineToAvailable sp
    let nowInQuorantine ← countStates sp quarantined
    let rest ← postScanRange rangeNum (spIdx + 1) k
    pure (scd.chunkSize * nowInQuorantine + rest)

/-- `PostScan(Verbose)`: the new number of bytes in quarantine. -/
def postScan : HeapM Nat := do
  let n0 := (← get).numSuperPages 0
  let new0 ← postScanRange 0 0 n0
  let n1 := (← get).numSuperPages 1
  let new1 ← postScanRange 1 0 n1
  pure (new0 + new1)

/-- `LastQurantineSize = BytesInQuarantine = NewBytesInQuarantine`. -/
def Heap.withQuarantineSize (h : Heap) (v : Nat) : Heap :=
  { h with lastQurantineSize := v, bytesInQuarantine := v }

@[simp] theorem Heap.withQuarantineSize_state (h : Heap) (v : Nat) :
    (h.withQuarantineSize v).state = h.state := rfl
@[simp] theorem Heap.withQuarantineSize_meta (h : Heap) (v : Nat) :
    (h.withQuarantineSize v).meta = h.meta := rfl
@[simp] theorem Heap.withQuarantineSize_word (h : Heap) (v : Nat) :
    (h.withQuarantineSize v).word = h.word := rfl
@[simp] theorem Heap.withQuarantineSize_numSuperPages (h : Heap) (v : Nat) :
    (h.withQuarantineSize v).numSuperPages = h.numSuperPages := rfl

/-- `Scan()` of the unit-test build, with no other thread: reset `ScanPos`, mark, sweep, and
store the new size as both `BytesInQuarantine` and `LastQurantineSize`; the report on
`stderr` between the last two changes nothing of the allocator there. -/
def scan : HeapM Unit := do
  modify fun h => h.withScanPos fun r => if r < 2 then 0 else h.scanPos r
  let _ ← scanLoop
  let newBytesInQuarantine ← postScan
  modify (·.withQuarantineSize newBytesInQuarantine)

-- ---------------------------------------------------------------------------
-- The super pages that exist
-- ---------------------------------------------------------------------------

/-- The address `GetSuperPage(RangeNum, Idx)` computes. -/
def spAddr (rangeNum idx : Nat) : Nat := kFirstSuperPage rangeNum + idx * kSuperPageSize

namespace Heap

/-- The super pages below `NumSuperPages[RangeNum]`, in the order the loops visit them. -/
def rangePages (h : Heap) (rangeNum : Nat) : List Nat :=
  (List.range (h.numSuperPages rangeNum)).map (spAddr rangeNum)

/-- The super pages of both ranges. -/
def superPages (h : Heap) : List Nat := h.rangePages 0 ++ h.rangePages 1

/-- Some live word of one of the super pages `sps` makes `Mark` hit chunk `i` of `sp`. -/
def hits (h : Heap) (numSuperPages : Nat → Nat) (sps : List Nat) (sp i : Nat) : Bool :=
  sps.any fun sp' => (h.liveWordAddrs sp').any fun a =>
    decide (h.markTarget numSuperPages (h.word a) = some (sp, i))

@[simp] theorem withScanPos_scanPos (h : Heap) (s : Nat → Nat) : (h.withScanPos s).scanPos = s := rfl
@[simp] theorem withScanPos_withScanPos (h : Heap) (s s' : Nat → Nat) :
    (h.withScanPos s).withScanPos s' = h.withScanPos s' := rfl
@[simp] theorem markWhere_withScanPos (h : Heap) (P : Nat → Nat → Bool) (s : Nat → Nat) :
    (h.markWhere P).withScanPos s = (h.withScanPos s).markWhere P := rfl
@[simp] theorem markWhere_scanPos (h : Heap) (P : Nat → Nat → Bool) :
    (h.markWhere P).scanPos = h.scanPos := rfl
@[simp] theorem hits_withScanPos (h : Heap) (s : Nat → Nat) : (h.withScanPos s).hits = h.hits := rfl
@[simp] theorem word_withScanPos (h : Heap) (s : Nat → Nat) : (h.withScanPos s).word = h.word := rfl
@[simp] theorem numSuperPages_withScanPos (h : Heap) (s : Nat → Nat) :
    (h.withScanPos s).numSuperPages = h.numSuperPages := rfl
@[simp] theorem meta_withScanPos (h : Heap) (s : Nat → Nat) : (h.withScanPos s).meta = h.meta := rfl
@[simp] theorem state_withScanPos (h : Heap) (s : Nat → Nat) : (h.withScanPos s).state = h.state := rfl
@[simp] theorem scdOf_withScanPos (h : Heap) (s : Nat → Nat) (sp : Nat) :
    (h.withScanPos s).scdOf sp = h.scdOf sp := rfl
@[simp] theorem superPages_withScanPos (h : Heap) (s : Nat → Nat) :
    (h.withScanPos s).superPages = h.superPages := rfl
@[simp] theorem superPages_markWhere (h : Heap) (P : Nat → Nat → Bool) :
    (h.markWhere P).superPages = h.superPages := rfl
@[simp] theorem liveWordAddrs_withScanPos (h : Heap) (s : Nat → Nat) :
    (h.withScanPos s).liveWordAddrs = h.liveWordAddrs := rfl

@[simp] theorem liveWordAddrs_markWhere (h : Heap) (P : Nat → Nat → Bool) (sp : Nat) :
    (h.markWhere P).liveWordAddrs sp = h.liveWordAddrs sp := by
  simp only [liveWordAddrs, scdOf_markWhere, markWhere_state_usedMixed]

end Heap

theorem rangePages_eq (h : Heap) (rangeNum : Nat) :
    h.rangePages rangeNum = (List.range' 0 (h.numSuperPages rangeNum)).map (spAddr rangeNum) := by
  rw [Heap.rangePages, List.range_eq_range']

theorem getSuperPage_run {rangeNum idx : Nat}
    (hlt : spAddr rangeNum idx < kAllocatorSpace + kAllocatorSize) :
    getSuperPage rangeNum idx = .ok (spAddr rangeNum idx) := by
  simp only [getSuperPage, spAddr] at *
  rw [if_neg (by omega)]; rfl

theorem isMine_spAddr {rangeNum idx : Nat}
    (hlt : spAddr rangeNum idx < kAllocatorSpace + kAllocatorSize) :
    superPageMetadata.isMine (spAddr rangeNum idx) = true := by
  simp only [superPageMetadata, FixedShadow.isMine, Bool.and_eq_true, decide_eq_true_eq]
  unfold spAddr kFirstSuperPage at *
  omega

section Runs

variable {numSuperPages : Nat → Nat}

theorem markBatch_run (hfit : RangesFit numSuperPages) {h : Heap} (hw : WordsBounded h)
    {rangeNum : Nat} (k idx : Nat)
    (hend : spAddr rangeNum (idx + k) ≤ kAllocatorSpace + kAllocatorSize)
    (P : Nat → Nat → Bool) :
    markBatch numSuperPages rangeNum idx k (h.markWhere P) =
      .ok ((), h.markWhere fun sp i =>
        P sp i || h.hits numSuperPages ((List.range' idx k).map (spAddr rangeNum)) sp i) := by
  induction k generalizing idx P with
  | zero => simp [markBatch, Heap.hits]
  | succ k ih =>
    have hlt : spAddr rangeNum idx < kAllocatorSpace + kAllocatorSize := by
      unfold spAddr at *; unfold kSuperPageSize at *; omega
    simp only [markBatch, HeapM.run_bind, HeapM.run_lift, getSuperPage_run hlt]
    simp only [Except.map, markAllLivePointers_run hfit hw (isMine_spAddr hlt)]
    rw [ih (idx + 1) (by rw [Nat.add_right_comm]; exact hend)]
    congr 3
    funext sp i
    simp [Heap.hits, List.range'_succ, Bool.or_assoc]

theorem scanRange_run (hfit : RangesFit numSuperPages) {h : Heap} (hw : WordsBounded h)
    (rangeNum : Nat) (hend : spAddr rangeNum (numSuperPages rangeNum) ≤ kAllocatorSpace + kAllocatorSize)
    (fuel p : Nat) (hfuel : (numSuperPages rangeNum - p + kPosIncrement - 1) / kPosIncrement ≤ fuel)
    (s : Nat → Nat) (hp : s rangeNum = p) (P : Nat → Nat → Bool) :
    ∃ d s', scanRange numSuperPages rangeNum fuel ((h.withScanPos s).markWhere P) =
      .ok (d, (h.withScanPos s').markWhere fun sp i => P sp i ||
        h.hits numSuperPages ((List.range' p (numSuperPages rangeNum - p)).map (spAddr rangeNum)) sp i) ∧
      ∀ r, r ≠ rangeNum → s' r = s r := by
  unfold kPosIncrement at hfuel
  induction fuel generalizing p s P with
  | zero =>
    refine ⟨0, s, ?_, fun _ _ => rfl⟩
    rw [show numSuperPages rangeNum - p = 0 by omega]
    simp [scanRange, Heap.hits]
  | succ fuel ih =>
    simp only [scanRange, HeapM.run_bind, HeapM.run_get, HeapM.run_set, Heap.markWhere_scanPos,
      Heap.withScanPos_scanPos, hp, Heap.markWhere_withScanPos, Heap.withScanPos_withScanPos]
    by_cases hge : p ≥ numSuperPages rangeNum
    · refine ⟨0, Function.update s rangeNum (p + kPosIncrement), ?_,
        fun r hr => Function.update_noteq hr _ _⟩
      rw [if_pos hge, show numSuperPages rangeNum - p = 0 by omega]
      simp [Heap.hits]
    · have hbend : spAddr rangeNum (p + (min (numSuperPages rangeNum) (p + kPosIncrement) - p)) ≤
          kAllocatorSpace + kAllocatorSize := by
        refine Nat.le_trans ?_ hend
        unfold spAddr
        exact Nat.add_le_add_left (Nat.mul_le_mul_right _ (by omega)) _
      rw [if_neg hge, pure_bind, HeapM.run_bind,
        markBatch_run (h := h.withScanPos (Function.update s rangeNum (p + kPosIncrement))) hfit hw
          _ _ hbend]
      dsimp only
      obtain ⟨d, s', hrun, hs'⟩ := ih (p + kPosIncrement) (by unfold kPosIncrement; omega)
        (Function.update s rangeNum (p + kPosIncrement)) (Function.update_same _ _ _)
        (fun sp i => P sp i || h.hits numSuperPages ((List.range' p
          (min (numSuperPages rangeNum) (p + kPosIncrement) - p)).map (spAddr rangeNum)) sp i)
      refine ⟨min (numSuperPages rangeNum) (p + kPosIncrement) - p + d, s', ?_,
        fun r hr => by rw [hs' r hr, Function.update_noteq hr]⟩
      rw [Heap.hits_withScanPos, HeapM.run_bind, hrun]
      simp only [HeapM.run_pure, Heap.hits, Bool.or_assoc, ← List.any_append, ← List.map_append]
      congr 5
      unfold kPosIncrement
      by_cases hfull : p + 1024 ≤ numSuperPages rangeNum
      · rw [Nat.min_eq_right hfull, Nat.add_sub_cancel_left, List.range'_append_1,
          show numSuperPages rangeNum - (p + 1024) + 1024 = numSuperPages rangeNum - p by omega]
      · rw [Nat.min_eq_left (by omega), show numSuperPages rangeNum - (p + 1024) = 0 by omega]
        simp

theorem scanLoop_run {h : Heap} (hfit : RangesFit h.numSuperPages) (hw : WordsBounded h)
    (s : Nat → Nat) (hs0 : s 0 = 0) (hs1 : s 1 = 0) :
    ∃ d s', scanLoop (h.withScanPos s) =
      .ok (d, (h.withScanPos s').markWhere (h.hits h.numSuperPages h.superPages)) := by
  have hz : h.withScanPos s = (h.withScanPos s).markWhere fun _ _ => false :=
    (Heap.markWhere_false _).symm
  obtain ⟨d0, s0, hrun0, hs0'⟩ := scanRange_run hfit hw 0 (hfit 0 (by decide))
    (h.numSuperPages 0 / kPosIncrement + 2) 0 (by unfold kPosIncrement; omega) s hs0 fun _ _ => false
  obtain ⟨d1, s1, hrun1, -⟩ := scanRange_run hfit hw 1 (hfit 1 (by decide))
    (h.numSuperPages 1 / kPosIncrement + 2) 0 (by unfold kPosIncrement; omega) s0
    (by rw [hs0' 1 (by decide), hs1]) fun sp i =>
      false || h.hits h.numSuperPages (List.map (spAddr 0) (List.range' 0 (h.numSuperPages 0 - 0))) sp i
  refine ⟨d0 + d1, s1, ?_⟩
  simp only [scanLoop, HeapM.run_bind, HeapM.run_get]
  rw [hz]
  simp only [Heap.markWhere_numSuperPages, Heap.numSuperPages_withScanPos]
  rw [hrun0]
  dsimp only
  rw [hrun1]
  simp only [HeapM.run_pure]
  congr 3
  funext sp i
  simp only [Heap.superPages, Heap.hits, List.any_append, Bool.false_or, Nat.sub_zero,
    rangePages_eq]

end Runs

-- ---------------------------------------------------------------------------
-- The sweep
-- ---------------------------------------------------------------------------

namespace Heap

/-- `MoveFromQuarantineToAvailable` on the super page at `sp`. -/
def sweepAt (h : Heap) (sp : Nat) : Heap := h.mapStates sp (h.scdOf sp).numChunks moveState

/-- The sweep of the super pages `sps`, one after the other. -/
def sweep (h : Heap) (sps : List Nat) : Heap := sps.foldl sweepAt h

/-- The number of chunks of the super page at `sp` in state `st`. -/
def countState (h : Heap) (sp : Nat) (st : UInt8) : Nat :=
  (List.range (h.scdOf sp).numChunks).countP fun i => h.state sp i = st

/-- The bytes of the chunks of the super pages `sps` that are `QUARANTINED`. -/
def quarantinedBytes (h : Heap) (sps : List Nat) : Nat :=
  (sps.map fun sp => (h.scdOf sp).chunkSize * h.countState sp quarantined).sum

@[simp] theorem scdOf_mapStates (h : Heap) (sp n : Nat) (f : UInt8 → UInt8) (sp' : Nat) :
    (h.mapStates sp n f).scdOf sp' = h.scdOf sp' := rfl

theorem sweep_cons (h : Heap) (sp : Nat) (sps : List Nat) :
    h.sweep (sp :: sps) = (h.sweepAt sp).sweep sps := rfl

@[simp] theorem scdOf_sweep (h : Heap) (sps : List Nat) (sp : Nat) :
    (h.sweep sps).scdOf sp = h.scdOf sp := by
  induction sps generalizing h with
  | nil => rfl
  | cons sp' sps ih => rw [sweep_cons, ih]; rfl

theorem sweep_state_of_not_mem {sps : List Nat} {sp : Nat} (hsp : sp ∉ sps) (h : Heap) (i : Nat) :
    (h.sweep sps).state sp i = h.state sp i := by
  induction sps generalizing h with
  | nil => rfl
  | cons sp' sps ih =>
    rw [List.mem_cons, not_or] at hsp
    rw [sweep_cons, ih hsp.2, sweepAt, mapStates_state, if_neg (fun h' => hsp.1 h'.1)]

theorem sweep_state_of_mem {sps : List Nat} (hnd : sps.Nodup) {sp : Nat} (hsp : sp ∈ sps)
    (h : Heap) (i : Nat) :
    (h.sweep sps).state sp i =
      if i < (h.scdOf sp).numChunks then moveState (h.state sp i) else h.state sp i := by
  induction sps generalizing h with
  | nil => simp at hsp
  | cons sp' sps ih =>
    rw [List.nodup_cons] at hnd
    rw [sweep_cons]
    by_cases he : sp = sp'
    · subst he
      rw [sweep_state_of_not_mem hnd.1, sweepAt, mapStates_state]
      simp
    · rw [ih hnd.2 (List.mem_of_ne_of_mem he hsp), sweepAt, scdOf_mapStates]
      simp only [mapStates_state, he, false_and, if_false]

@[simp] theorem sweep_numSuperPages (h : Heap) (sps : List Nat) :
    (h.sweep sps).numSuperPages = h.numSuperPages := by
  induction sps generalizing h with
  | nil => rfl
  | cons sp sps ih => rw [sweep_cons, ih]; rfl

@[simp] theorem sweep_meta (h : Heap) (sps : List Nat) : (h.sweep sps).meta = h.meta := by
  induction sps generalizing h with
  | nil => rfl
  | cons sp sps ih => rw [sweep_cons, ih]; rfl

@[simp] theorem sweep_word (h : Heap) (sps : List Nat) : (h.sweep sps).word = h.word := by
  induction sps generalizing h with
  | nil => rfl
  | cons sp sps ih => rw [sweep_cons, ih]; rfl

theorem sweep_append (h : Heap) (l l' : List Nat) : h.sweep (l ++ l') = (h.sweep l).sweep l' :=
  List.foldl_append _ _ _ _

@[simp] theorem superPages_sweep (h : Heap) (sps : List Nat) :
    (h.sweep sps).superPages = h.superPages := by
  simp only [superPages, rangePages, sweep_numSuperPages]

@[simp] theorem superPages_withQuarantineSize (h : Heap) (v : Nat) :
    (h.withQuarantineSize v).superPages = h.superPages := rfl

theorem countState_sweep_of_not_mem {sps : List Nat} {sp : Nat} (hsp : sp ∉ sps) (h : Heap)
    (st : UInt8) : (h.sweep sps).countState sp st = h.countState sp st := by
  simp only [countState, scdOf_sweep, sweep_state_of_not_mem hsp]

theorem quarantinedBytes_sweep_of_disjoint {l l' : List Nat} (hd : ∀ sp ∈ l, sp ∉ l')
    (h : Heap) : (h.sweep l').quarantinedBytes l = h.quarantinedBytes l := by
  unfold quarantinedBytes
  congr 1
  refine List.map_congr_left fun sp hsp => ?_
  rw [scdOf_sweep, countState_sweep_of_not_mem (hd sp hsp)]

/-- The bytes `PostScan` counts: `ChunkSize` times the number of `QUARANTINED` chunks, over
every super page that exists. -/
def quarantineSum (h : Heap) : Nat := h.quarantinedBytes h.superPages

end Heap

theorem postScanRange_run {rangeNum : Nat} (idx k : Nat)
    (hend : spAddr rangeNum (idx + k) ≤ kAllocatorSpace + kAllocatorSize) (h : Heap) :
    postScanRange rangeNum idx k h =
      .ok ((h.sweep ((List.range' idx k).map (spAddr rangeNum))).quarantinedBytes
          ((List.range' idx k).map (spAddr rangeNum)),
        h.sweep ((List.range' idx k).map (spAddr rangeNum))) := by
  induction k generalizing idx h with
  | zero => rfl
  | succ k ih =>
    have hlt : spAddr rangeNum idx < kAllocatorSpace + kAllocatorSize := by
      unfold spAddr at *; unfold kSuperPageSize at *; omega
    have hnot : spAddr rangeNum idx ∉ (List.range' (idx + 1) k).map (spAddr rangeNum) := by
      simp only [List.mem_map, List.mem_range'_1, not_exists, not_and, spAddr]
      intro j hj
      unfold kSuperPageSize; omega
    simp only [postScanRange, HeapM.run_bind, HeapM.run_lift, getSuperPage_run hlt, Except.map,
      getSCD_run (isMine_spAddr hlt), moveFromQuarantineToAvailable, countStates, HeapM.run_modify,
      HeapM.run_get, HeapM.run_pure]
    rw [ih (idx + 1) (by rw [Nat.add_right_comm]; exact hend)]
    simp only [HeapM.run_pure, List.range'_succ, List.map_cons, Heap.sweep_cons,
      Heap.quarantinedBytes, List.map_cons, List.sum_cons]
    rw [Heap.countState_sweep_of_not_mem hnot, Heap.scdOf_sweep]
    rfl

/-- `PostScan` sweeps every super page, range 0 first; each range's bytes are counted right
after that range is swept. -/
theorem postScan_run {h : Heap} (hfit : RangesFit h.numSuperPages) :
    postScan h =
      .ok ((h.sweep (h.rangePages 0)).quarantinedBytes (h.rangePages 0) +
          (h.sweep h.superPages).quarantinedBytes (h.rangePages 1), h.sweep h.superPages) := by
  have hend : ∀ r < 2, spAddr r (0 + h.numSuperPages r) ≤ kAllocatorSpace + kAllocatorSize :=
    fun r hr => by rw [Nat.zero_add]; exact hfit r hr
  simp only [postScan, HeapM.run_bind, HeapM.run_get, postScanRange_run 0 _ (hend 0 (by decide)),
    ← rangePages_eq, Heap.sweep_numSuperPages, postScanRange_run 0 _ (hend 1 (by decide)),
    HeapM.run_pure, Heap.superPages, Heap.sweep_append]

theorem rangePages_disjoint {h : Heap} (h0 : h.numSuperPages 0 ≤ 2 ^ 20) :
    ∀ sp ∈ h.rangePages 0, sp ∉ h.rangePages 1 := by
  simp only [Heap.rangePages, List.mem_map, List.mem_range, not_exists, not_and]
  rintro _ ⟨j, hj, rfl⟩ k _
  unfold spAddr kFirstSuperPage kSuperPageSize kAllocatorSize
  omega

theorem quarantinedBytes_split {h : Heap} (h0 : h.numSuperPages 0 ≤ 2 ^ 20) :
    (h.sweep (h.rangePages 0)).quarantinedBytes (h.rangePages 0) +
      (h.sweep h.superPages).quarantinedBytes (h.rangePages 1) = (h.sweep h.superPages).quarantineSum := by
  rw [Heap.quarantineSum, Heap.superPages, Heap.sweep_append,
    ← Heap.quarantinedBytes_sweep_of_disjoint (rangePages_disjoint h0) (h.sweep (h.rangePages 0))]
  simp only [Heap.quarantinedBytes, Heap.superPages, Heap.rangePages, Heap.sweep_numSuperPages,
    List.map_append, List.sum_append]

/-- The heap `Scan` leaves, given the `ScanPos` values its last claims leave: the chunks the
live words hit are marked, every super page is swept, and `B` is stored in both counters. -/
def Heap.afterScan (h : Heap) (s : Nat → Nat) (B : Nat) : Heap :=
  (((h.withScanPos s).markWhere (h.hits h.numSuperPages h.superPages)).sweep h.superPages).withQuarantineSize B

namespace Heap

@[simp] theorem afterScan_meta (h : Heap) (s : Nat → Nat) (B : Nat) : (h.afterScan s B).meta = h.meta := by
  simp [afterScan]
@[simp] theorem afterScan_word (h : Heap) (s : Nat → Nat) (B : Nat) : (h.afterScan s B).word = h.word := by
  simp [afterScan]
@[simp] theorem afterScan_numSuperPages (h : Heap) (s : Nat → Nat) (B : Nat) :
    (h.afterScan s B).numSuperPages = h.numSuperPages := by
  simp [afterScan]
@[simp] theorem afterScan_superPages (h : Heap) (s : Nat → Nat) (B : Nat) :
    (h.afterScan s B).superPages = h.superPages := by
  simp [afterScan]
@[simp] theorem afterScan_scdOf (h : Heap) (s : Nat → Nat) (B sp : Nat) :
    (h.afterScan s B).scdOf sp = h.scdOf sp := by
  simp only [scdOf, sizeClassOf, afterScan_meta]

end Heap

/-- `Scan` marks, sweeps and stores the bytes `PostScan` counts. -/
theorem scan_run {h : Heap} (hfit : RangesFit h.numSuperPages) (hw : WordsBounded h) :
    ∃ s', scan h = .ok ((), h.afterScan s'
      ((((h.withScanPos s').markWhere (h.hits h.numSuperPages h.superPages)).sweep
        (h.rangePages 0)).quarantinedBytes (h.rangePages 0) +
       (((h.withScanPos s').markWhere (h.hits h.numSuperPages h.superPages)).sweep
        h.superPages).quarantinedBytes (h.rangePages 1))) := by
  obtain ⟨d, s', hrun⟩ := scanLoop_run (s := fun r => if r < 2 then 0 else h.scanPos r) hfit hw
    (by simp) (by simp)
  refine ⟨s', ?_⟩
  simp only [scan, HeapM.run_bind, HeapM.run_modify, hrun]
  rw [postScan_run (by simpa using hfit)]
  rfl

end MTMalloc

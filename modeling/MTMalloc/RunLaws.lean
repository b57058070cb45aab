import MTMalloc.ThreadRun

/-!
# What every run of a thread keeps

At every state a thread reaches by the calls it may make, while neither range grows past its
half (`Thread.Reachable`):

* the pointers it holds are exactly the starts of the chunks in use, each held once;
* no state byte is `MARKED` or `RELEASING`, so the state bytes of every super page are
  `AVAILABLE` or odd, as the `PEXT` search of `FindByte` needs;
* the blocks it holds lie in the region, do not overlap, and start 16-byte aligned;
* `BytesInQuarantine` plus the thread's `LocalQuarantineSize` are the bytes of the
  `QUARANTINED` chunks.

And for every call from such a state:

* `malloc` returns a pointer while the ranges have room, no swap of the call fails and
  `AllocateSlower`'s loop may make two passes; a pointer it returns is the start of a chunk that
  was `AVAILABLE`, that the thread did not hold and that holds the size asked for; while a super
  page of the class has an `AVAILABLE` chunk, one pass is enough and no super page is mapped;
* `free` of a held pointer that starts no `Scan` returns, frees exactly the pointer's chunk and
  takes the pointer from the thread; `free` of the start of any other chunk of a super page
  reports a double free, and `free` of an address inside a super page that starts no chunk traps;
* a chunk leaves the quarantine only as `AVAILABLE`, and only when no word at an 8-byte-aligned
  offset of a `USED_MIXED` chunk points into it.

And for every run of calls from such a state: no super page is lost or changes its class, and
a held block that no call frees keeps its addresses and, but for stores to it, its words.

Each result is followed by a run of the plain configuration from process start that meets
its hypotheses.
-/

namespace MTMalloc

open SuperPage

namespace Thread

-- ---------------------------------------------------------------------------
-- The plain configuration
-- ---------------------------------------------------------------------------

section Plain

/-- The states of the plain configuration: no tags, no shadow, no aliases, tags that strip
nothing, no large mapping, two passes of `AllocateSlower`'s loop, and a quarantine of one
megabyte. -/
def PlainReachable : Thread → Prop :=
  Reachable ⟨0, false, false⟩ (AliasTags.engine false) (fun _ => none) 1 2 1

/-- The runs of the plain configuration. -/
def PlainRuns : Thread → List Call → Thread → Prop :=
  Runs ⟨0, false, false⟩ (AliasTags.engine false) (fun _ => none) 1 2 1

theorem aliasTags_untagsRegion : (AliasTags.engine false).UntagsRegion := fun _ _ _ => rfl

theorem plainReachable_init : PlainReachable init := Reachable.init

variable {t : Thread}

theorem PlainReachable.inv (hreach : PlainReachable t) : t.Inv :=
  @Reachable.inv ⟨0, false, false⟩ (AliasTags.engine false) (fun _ => none) 1 2 t rfl
    aliasTags_untagsRegion 1 hreach

theorem PlainReachable.malloc16 (hreach : PlainReachable t) (hroom : ∀ rn < 2, t.heap.numSuperPages rn < 2 ^ 20) :
    ∃ r p, MTMalloc.malloc ⟨0, false, false⟩ (AliasTags.engine false) (fun _ => false) (fun _ => none) 1 2 16
        t.tls t.heap = .ok r ∧ r.1.1 = some p ∧ (∀ rn, r.2.numSuperPages rn ≤ t.heap.numSuperPages rn + 1) ∧
      r.1.2.localQuarantineSize = t.tls.localQuarantineSize ∧ PlainRuns t [.malloc 16] (t.allocated r) ∧
      (t.allocated r).live = p :: t.live := by
  have hi := hreach.inv
  obtain ⟨r, p, hrun, hp, hnum⟩ : ∃ r p, MTMalloc.malloc ⟨0, false, false⟩ (AliasTags.engine false)
      (fun _ => false) (fun _ => none) 1 (0 + 2) 16 t.tls t.heap = .ok r ∧ r.1.1 = some p ∧
      ∀ rn, r.2.numSuperPages rn ≤ t.heap.numSuperPages rn + 1 :=
    hi.malloc_returns rfl (fun _ => rfl) (by decide) hroom
  have hfit : ∀ rn < 2, r.2.numSuperPages rn ≤ 2 ^ 20 := fun rn hrn => by
    have := hnum rn
    have := hroom rn hrn
    omega
  obtain ⟨-, -, -, hl, -⟩ := malloc_ok rfl hi.ready (by decide) hrun hfit
  have hcall : t.call ⟨0, false, false⟩ (AliasTags.engine false) (fun _ => false) (fun _ => none) 1 2 1
      (.malloc 16) = .ok (t.allocated r) := by
    simp only [Thread.call, hrun]
    rfl
  refine ⟨r, p, hrun, hp, hnum, hl, .cons (show Call.Allowed t (.malloc 16) from (by decide : 16 ≤ kMaxSizeClass))
    hcall hfit (.nil _), by simp only [Thread.allocated, hp]; rfl⟩

theorem plain_malloc16_init : ∃ t p, PlainReachable t ∧ t.live = [p] ∧ t.tls.localQuarantineSize = 0 ∧
    ∀ rn, t.heap.numSuperPages rn ≤ 1 := by
  obtain ⟨r, p, -, -, hnum, hl, hrun, hlive⟩ := plainReachable_init.malloc16 fun _ _ => Nat.two_pow_pos 20
  exact ⟨_, p, Reachable.runs plainReachable_init hrun, hlive, hl, hnum⟩

/-- After `malloc(16)` from process start, the super page it mapped for the class has a chunk
that is still `AVAILABLE`: every class has room for two chunks. -/
theorem plain_malloc16_room :
    ∃ t sp k, PlainReachable t ∧ t.live ≠ [] ∧ sp ∈ t.heap.superPages ∧
      t.heap.sizeClassOf sp = (sizeToSizeClass scDescr (if 16 < 8 then 1 else 16)).1 ∧
      k < (t.heap.scdOf sp).numChunks ∧ t.heap.state sp k = available := by
  obtain ⟨r, p, hrun, hp, hnum, -, hruns, hlive⟩ := plainReachable_init.malloc16 fun _ _ => Nat.two_pow_pos 20
  rw [malloc_eq_allocate (by decide)] at hrun
  obtain ⟨hsc, -⟩ := sizeToSizeClass_fits (show 1 ≤ (if 16 < 8 then 1 else 16) by decide) (by decide)
  obtain ⟨hR, -, ha⟩ := allocate_ok rfl (by decide) (by decide) plainReachable_init.inv.ready hrun (by
    have := hnum (scDescr (sizeToSizeClass scDescr (if 16 < 8 then 1 else 16)).1).rangeNum
    have h0 : init.heap.numSuperPages (scDescr (sizeToSizeClass scDescr (if 16 < 8 then 1 else 16)).1).rangeNum = 0 :=
      rfl
    omega)
  obtain ⟨h₁, hk, sp, hsp, hcls, k, hk', -, -, v, -, hr2⟩ := ha.some aliasTags_untagsRegion hR.scan hp
  have hscd : h₁.scdOf sp = scDescr (sizeToSizeClass scDescr (if 16 < 8 then 1 else 16)).1 := by rw [Heap.scdOf, hcls]
  have h2 := two_le_scDescr_numChunks hsc
  -- the other one of the first two chunks
  have hne : (if k = 0 then 1 else 0) ≠ k := by split <;> omega
  refine ⟨init.allocated r, sp, if k = 0 then 1 else 0, Reachable.runs plainReachable_init hruns,
    by rw [hlive]; exact List.cons_ne_nil _ _, ?_, ?_, ?_, ?_⟩
  · show sp ∈ r.2.superPages
    rw [hr2]
    exact hsp
  · show r.2.sizeClassOf sp = _
    rw [hr2]
    exact hcls
  · show _ < (r.2.scdOf sp).numChunks
    rw [hr2, Heap.scdOf_setState, hscd]
    split <;> omega
  · show r.2.state sp _ = available
    rw [hr2, Heap.setState_state, if_neg fun h => hne h.2, hk.state_eq]
    rfl

theorem plain_free_quarantines :
    ∃ t sp i, PlainReachable t ∧ t.heap.state sp i = quarantined ∧ 0 < t.tls.localQuarantineSize ∧
      ∀ rn, t.heap.numSuperPages rn ≤ 1 := by
  obtain ⟨t, p, hreach, hlive, hl, hnum⟩ := plain_malloc16_init
  have hp : p ∈ t.live := by rw [hlive]; exact List.mem_singleton_self p
  have hi := hreach.inv
  obtain ⟨sp, hsp, i, hi', rfl, hu⟩ := hi.owns.held p hp
  have hcs := (hi.ready.scan.valid hsp).chunkSize_ge
  have hloc : t.tls.localQuarantineSize + (t.heap.scdOf sp).chunkSize < kSizeOfLocalQuarantine := by
    have := (hi.ready.scan.valid hsp).chunkSize_le
    have hk : kMaxSizeClass = 262144 := rfl
    rw [hl]
    unfold kSizeOfLocalQuarantine
    omega
  have hfree : MTMalloc.free ⟨0, false, false⟩ (AliasTags.engine false) (addressOfChunk sp i (t.heap.scdOf sp)) 1
      t.tls t.heap = .ok ({ t.tls with localQuarantineSize := t.tls.localQuarantineSize + (t.heap.scdOf sp).chunkSize },
        t.heap.setState sp i quarantined) := by
    rw [free_chunk hi.ready.scan hsp hi' 1 t.tls, if_neg Nat.one_ne_zero]
    exact quarantineAndMaybeScan_local rfl aliasTags_untagsRegion hi.ready.scan hsp hi' hu hloc _
  have hcall : t.call ⟨0, false, false⟩ (AliasTags.engine false) (fun _ => false) (fun _ => none) 1 2 1
      (.free (addressOfChunk sp i (t.heap.scdOf sp))) =
        .ok ⟨t.heap.setState sp i quarantined,
          { t.tls with localQuarantineSize := t.tls.localQuarantineSize + (t.heap.scdOf sp).chunkSize },
          t.live.erase (addressOfChunk sp i (t.heap.scdOf sp))⟩ := by
    simp only [Thread.call, hfree]
    rfl
  have hfit : ∀ rn < 2, (t.heap.setState sp i quarantined).numSuperPages rn ≤ 2 ^ 20 :=
    fun _ => hi.ready.scan.numSuperPages_le
  refine ⟨_, sp, i, Reachable.step hreach (show Call.Allowed t (.free _) from .inr hp) hcall hfit,
    by rw [Heap.setState_state, if_pos ⟨rfl, rfl⟩], ?_, hnum⟩
  show 0 < t.tls.localQuarantineSize + (t.heap.scdOf sp).chunkSize
  omega

end Plain

-- ---------------------------------------------------------------------------
-- Every reachable state and every call from it
-- ---------------------------------------------------------------------------

section Runs

variable {cfg : MallocConfig} {tags : AddressTags} {casFails : Nat → Bool} {mmap : Nat → Option Nat}
  {self fuel quarantineSize : Nat} {t : Thread}
  (hreach : Reachable cfg tags mmap self fuel quarantineSize t)
  (hsh : cfg.useShadow = false) (ht : tags.UntagsRegion)

include hreach hsh ht in
/-- The pointers a thread holds are the starts of the chunks in use, each held once. -/
theorem reachable_held_iff_in_use : t.live.Nodup ∧ ∀ p, p ∈ t.live ↔ t.heap.Live p := by
  have hi := hreach.inv hsh ht
  exact ⟨hi.nodup, fun p => ⟨hi.owns.held p, fun ⟨sp, hsp, i, hi', he, hu⟩ => he ▸ hi.owns.owned sp hsp i hi' hu⟩⟩

theorem held_iff_in_use_after_malloc :
    ∃ t, PlainReachable t ∧ t.live ≠ [] ∧ t.live.Nodup ∧ ∀ p, p ∈ t.live ↔ t.heap.Live p := by
  obtain ⟨t, p, hreach, hlive, -⟩ := plain_malloc16_init
  exact ⟨t, hreach, by rw [hlive]; exact List.cons_ne_nil _ _,
    reachable_held_iff_in_use hreach rfl aliasTags_untagsRegion⟩

include hreach hsh ht in
/-- No state byte is `MARKED` or `RELEASING` between calls, so the state bytes of every super
page are `AVAILABLE` or odd, as `FindByte`'s `PEXT` search needs. -/
theorem reachable_states_settled : t.heap.Settled ∧ ∀ sp n, StatesZeroOrOdd t.heap sp n :=
  ⟨(hreach.inv hsh ht).settled, (hreach.inv hsh ht).settled.zeroOrOdd⟩

theorem settled_after_malloc :
    ∃ t, PlainReachable t ∧ t.live ≠ [] ∧ t.heap.Settled ∧ ∀ sp n, StatesZeroOrOdd t.heap sp n := by
  obtain ⟨t, p, hreach, hlive, -⟩ := plain_malloc16_init
  exact ⟨t, hreach, by rw [hlive]; exact List.cons_ne_nil _ _,
    reachable_states_settled hreach rfl aliasTags_untagsRegion⟩

include hreach hsh ht in
/-- The quarantine counters are right at every state the thread reaches: `BytesInQuarantine`
plus the thread's `LocalQuarantineSize` is `ChunkSize` times the `QUARANTINED` state bytes over
every super page, and the local part is below `kSizeOfLocalQuarantine`. -/
theorem reachable_quarantine_counted :
    t.heap.bytesInQuarantine + t.tls.localQuarantineSize = t.heap.quarantineSum ∧
      t.tls.localQuarantineSize < kSizeOfLocalQuarantine :=
  ⟨(hreach.inv hsh ht).counted.sum, (hreach.inv hsh ht).counted.local_lt⟩

/-- After a `free` that quarantined its chunk, the counters are right with a nonzero local part. -/
theorem counted_after_quarantine :
    ∃ t, PlainReachable t ∧ 0 < t.tls.localQuarantineSize ∧
      t.heap.bytesInQuarantine + t.tls.localQuarantineSize = t.heap.quarantineSum ∧
      t.tls.localQuarantineSize < kSizeOfLocalQuarantine := by
  obtain ⟨t, -, -, hreach, -, hl, -⟩ := plain_free_quarantines
  exact ⟨t, hreach, hl, reachable_quarantine_counted hreach rfl aliasTags_untagsRegion⟩

include hreach hsh ht in
/-- The blocks a thread holds lie in the region, and two of them share no address. -/
theorem reachable_blocks_disjoint {p q : Nat} (hp : p ∈ t.live) (hq : q ∈ t.live) (hpq : p ≠ q) :
    (∀ a, t.heap.InBlock p a → kAllocatorSpace ≤ a ∧ a < kAllocatorSpace + kAllocatorSize) ∧
      ∀ a, ¬(t.heap.InBlock p a ∧ t.heap.InBlock q a) :=
  ⟨fun _ => (hreach.inv hsh ht).block_region hp, (hreach.inv hsh ht).blocks_disjoint hp hq hpq⟩

/-- Two `malloc(16)` from process start: the thread holds two blocks, which do not overlap. -/
theorem blocks_disjoint_after_two_mallocs :
    ∃ t p q, PlainReachable t ∧ p ∈ t.live ∧ q ∈ t.live ∧ p ≠ q ∧
      (∀ a, t.heap.InBlock p a → kAllocatorSpace ≤ a ∧ a < kAllocatorSpace + kAllocatorSize) ∧
      ∀ a, ¬(t.heap.InBlock p a ∧ t.heap.InBlock q a) := by
  obtain ⟨t₁, p, hreach₁, hlive₁, -, hnum₁⟩ := plain_malloc16_init
  obtain ⟨r, q, -, -, -, -, hrun, hlive₂⟩ := hreach₁.malloc16 fun rn _ => by
    have := hnum₁ rn
    omega
  have hreach₂ : PlainReachable (t₁.allocated r) := Reachable.runs hreach₁ hrun
  have hnd := hreach₂.inv.nodup
  rw [hlive₂, hlive₁] at hnd
  have hqp : q ≠ p := fun h => (List.nodup_cons.1 hnd).1 (by rw [h]; exact List.mem_singleton_self p)
  have hp : p ∈ (t₁.allocated r).live := by rw [hlive₂, hlive₁]; exact List.mem_cons_of_mem _ (List.mem_singleton_self p)
  have hq : q ∈ (t₁.allocated r).live := by rw [hlive₂]; exact List.mem_cons_self _ _
  exact ⟨_, p, q, hreach₂, hp, hq, hqp.symm,
    reachable_blocks_disjoint hreach₂ rfl aliasTags_untagsRegion hp hq hqp.symm⟩

include hreach hsh ht in
/-- The pointers a thread holds are 16-byte aligned, and lie a multiple of their class's
`ChunkSize` past the start of their super page, the check `ComputeStatePtr` makes. -/
theorem reachable_held_aligned : ∀ p ∈ t.live, p % 16 = 0 ∧
    (p - roundDownTo p kSuperPageSize) % (t.heap.scdOf (roundDownTo p kSuperPageSize)).chunkSize = 0 :=
  fun _ hp => (hreach.inv hsh ht).aligned hp

theorem aligned_after_malloc :
    ∃ t, PlainReachable t ∧ t.live ≠ [] ∧ ∀ p ∈ t.live, p % 16 = 0 ∧
      (p - roundDownTo p kSuperPageSize) % (t.heap.scdOf (roundDownTo p kSuperPageSize)).chunkSize = 0 := by
  obtain ⟨t, p, hreach, hlive, -⟩ := plain_malloc16_init
  exact ⟨t, hreach, by rw [hlive]; exact List.cons_ne_nil _ _, reachable_held_aligned hreach rfl aliasTags_untagsRegion⟩

include hreach hsh ht in
/-- While a super page of the class `malloc`'s size maps to has an `AVAILABLE` chunk, `malloc`
returns a pointer without mapping a super page, whatever the random offset of the pass: the
class's slot or the first pass of `AllocateSlower` finds a chunk before `AllocateSuperPage`
runs. The state it leaves is reachable again. -/
theorem reachable_malloc_no_new_page (hcas : ∀ k, casFails k = false) (hfuel : 1 ≤ fuel) {size : Nat}
    (hs : size ≤ kMaxSizeClass) {sp k : Nat} (hsp : sp ∈ t.heap.superPages)
    (hcls : t.heap.sizeClassOf sp = (sizeToSizeClass scDescr (if size < 8 then 1 else size)).1)
    (hk : k < (t.heap.scdOf sp).numChunks) (hav : t.heap.state sp k = available) :
    ∃ p t', t.call cfg tags casFails mmap self fuel quarantineSize (.malloc size) = .ok t' ∧
      t'.live = p :: t.live ∧ t'.heap.numSuperPages = t.heap.numSuperPages ∧
      Reachable cfg tags mmap self fuel quarantineSize t' := by
  have hi := hreach.inv hsh ht
  have hmax : kMaxSizeClass = 262144 := rfl
  obtain ⟨f, rfl⟩ : ∃ f, fuel = f + 1 := ⟨fuel - 1, by omega⟩
  obtain ⟨r, hrun, hsome, hnum⟩ : ∃ r, allocate cfg tags casFails self (if size < 8 then 1 else size) (f + 1)
      t.tls t.heap = .ok r ∧ r.1.1.isSome ∧ r.2.numSuperPages = t.heap.numSuperPages :=
    allocate_of_room hsh hcas (by split <;> omega) (by split <;> omega) hi.ready hi.settled.zeroOrOdd hsp hcls hk hav
  obtain ⟨p, hp⟩ := Option.isSome_iff_exists.1 hsome
  have hcall : t.call cfg tags casFails mmap self (f + 1) quarantineSize (.malloc size) = .ok (t.allocated r) := by
    simp only [Thread.call, malloc_eq_allocate hs, hrun]
    rfl
  refine ⟨p, _, hcall, by simp only [Thread.allocated, hp]; rfl, hnum,
    hreach.step (show Call.Allowed t (.malloc size) from hs) hcall fun rn hrn => ?_⟩
  show r.2.numSuperPages rn ≤ 2 ^ 20
  rw [hnum]
  exact hi.ready.scan.numSuperPages_le hrn

/-- A second `malloc(16)` after the first maps no super page. -/
theorem second_malloc16_maps_no_page :
    ∃ t, PlainReachable t ∧ t.live ≠ [] ∧ ∃ p t',
      t.call ⟨0, false, false⟩ (AliasTags.engine false) (fun _ => false) (fun _ => none) 1 2 1 (.malloc 16) =
        .ok t' ∧ t'.live = p :: t.live ∧ t'.heap.numSuperPages = t.heap.numSuperPages ∧ PlainReachable t' := by
  obtain ⟨t, sp, k, hreach, hne, hsp, hcls, hk, hav⟩ := plain_malloc16_room
  exact ⟨t, hreach, hne, reachable_malloc_no_new_page hreach rfl aliasTags_untagsRegion (fun _ => rfl) (by decide)
    (by decide) hsp hcls hk hav⟩

include hreach hsh ht in
/-- `free` of a pointer the thread holds, when it starts no `Scan` (the quarantine is off, or
the thread's local quarantine stays below `kSizeOfLocalQuarantine`), returns and changes only
the state byte of the pointer's chunk, to `AVAILABLE` or `QUARANTINED`; the thread no longer
holds the pointer, no chunk in use starts there, and the state is reachable again. -/
theorem reachable_free_held {p : Nat} (hp : p ∈ t.live)
    (hns : quarantineSize = 0 ∨ t.tls.localQuarantineSize +
      (t.heap.scdOf (roundDownTo p kSuperPageSize)).chunkSize < kSizeOfLocalQuarantine) :
    ∃ t', t.call cfg tags casFails mmap self fuel quarantineSize (.free p) = .ok t' ∧
      t'.live = t.live.erase p ∧ p ∉ t'.live ∧ ¬t'.heap.Live p ∧
      (∃ sp i, p = addressOfChunk sp i (t.heap.scdOf sp) ∧
        t'.heap = t.heap.setState sp i (if quarantineSize = 0 then available else quarantined)) ∧
      Reachable cfg tags mmap self fuel quarantineSize t' := by
  have hi := hreach.inv hsh ht
  obtain ⟨sp, hsp, i, hi', rfl, hu⟩ := hi.owns.held p hp
  rw [(chunk_in_region hi.ready.scan hsp hi').2.2] at hns
  -- with no `Scan`, the chunk's state byte is all that changes
  obtain ⟨tls', hfree⟩ : ∃ tls', MTMalloc.free cfg tags (addressOfChunk sp i (t.heap.scdOf sp)) quarantineSize
      t.tls t.heap = .ok (tls', t.heap.setState sp i (if quarantineSize = 0 then available else quarantined)) := by
    rw [free_chunk hi.ready.scan hsp hi']
    by_cases hq : quarantineSize = 0
    · simp only [if_pos hq, HeapM.run_bind, deallocate_chunk hsh ht hi.ready.scan hsp hi', if_pos hu]
      exact ⟨_, rfl⟩
    · simp only [if_neg hq, quarantineAndMaybeScan_local hsh ht hi.ready.scan hsp hi' hu (hns.resolve_left hq)]
      exact ⟨_, rfl⟩
  have hcall : t.call cfg tags casFails mmap self fuel quarantineSize (.free (addressOfChunk sp i (t.heap.scdOf sp))) =
      .ok ⟨t.heap.setState sp i (if quarantineSize = 0 then available else quarantined), tls',
        t.live.erase (addressOfChunk sp i (t.heap.scdOf sp))⟩ := by
    simp only [Thread.call, hfree]
    rfl
  have hreach' := hreach.step (show Call.Allowed t (.free _) from .inr hp) hcall
    fun _ hrn => hi.ready.scan.numSuperPages_le hrn
  have hnot := hi.nodup.not_mem_erase (a := addressOfChunk sp i (t.heap.scdOf sp))
  refine ⟨_, hcall, rfl, hnot, fun ⟨sp', hsp', i', hi', he, hu⟩ => hnot ?_, ⟨sp, i, rfl, rfl⟩, hreach'⟩
  have hmem := (hreach'.inv hsh ht).owns.owned sp' hsp' i' hi' hu
  rwa [← he] at hmem

/-- `malloc(16)` from process start, then `free` of the pointer, which quarantines its chunk. -/
theorem free_after_malloc :
    ∃ t p, PlainReachable t ∧ p ∈ t.live ∧ (1 = 0 ∨ t.tls.localQuarantineSize +
      (t.heap.scdOf (roundDownTo p kSuperPageSize)).chunkSize < kSizeOfLocalQuarantine) ∧
      ∃ t', t.call ⟨0, false, false⟩ (AliasTags.engine false) (fun _ => false) (fun _ => none) 1 2 1 (.free p) =
          .ok t' ∧ t'.live = t.live.erase p ∧ p ∉ t'.live ∧ ¬t'.heap.Live p ∧
        (∃ sp i, p = addressOfChunk sp i (t.heap.scdOf sp) ∧
          t'.heap = t.heap.setState sp i (if 1 = 0 then available else quarantined)) ∧ PlainReachable t' := by
  obtain ⟨t, p, hreach, hlive, hl, -⟩ := plain_malloc16_init
  have hp : p ∈ t.live := by rw [hlive]; exact List.mem_singleton_self p
  have hns : 1 = 0 ∨ t.tls.localQuarantineSize +
      (t.heap.scdOf (roundDownTo p kSuperPageSize)).chunkSize < kSizeOfLocalQuarantine := by
    obtain ⟨sp, hsp, i, hi', rfl, -⟩ := hreach.inv.owns.held p hp
    have := (hreach.inv.ready.scan.valid hsp).chunkSize_le
    have hk : kMaxSizeClass = 262144 := rfl
    rw [(chunk_in_region hreach.inv.ready.scan hsp hi').2.2, hl]
    unfold kSizeOfLocalQuarantine
    omega
  exact ⟨t, p, hreach, hp, hns, reachable_free_held hreach rfl aliasTags_untagsRegion hp hns⟩

include hreach hsh ht in
/-- `free` of the start of a chunk of a super page that exists, which the thread does not hold,
reports a double free, with or without the quarantine. -/
theorem reachable_free_unheld {sp i : Nat} (hsp : sp ∈ t.heap.superPages) (hi : i < (t.heap.scdOf sp).numChunks)
    (hp : addressOfChunk sp i (t.heap.scdOf sp) ∉ t.live) :
    t.call cfg tags casFails mmap self fuel quarantineSize (.free (addressOfChunk sp i (t.heap.scdOf sp))) =
      .error .doubleFree := by
  simp only [Thread.call, free_not_held hsh ht (hreach.inv hsh ht) hsp hi hp]
  rfl

/-- `malloc(16)` from process start, `free` of the pointer, and `free` of it again: the second
`free` reports a double free. -/
theorem free_twice_doubleFree :
    ∃ t sp i, PlainReachable t ∧ sp ∈ t.heap.superPages ∧ i < (t.heap.scdOf sp).numChunks ∧
      addressOfChunk sp i (t.heap.scdOf sp) ∉ t.live ∧
      t.call ⟨0, false, false⟩ (AliasTags.engine false) (fun _ => false) (fun _ => none) 1 2 1
        (.free (addressOfChunk sp i (t.heap.scdOf sp))) = .error .doubleFree := by
  obtain ⟨t, p, hreach, hlive, -⟩ := plain_malloc16_init
  have hp : p ∈ t.live := by rw [hlive]; exact List.mem_singleton_self p
  have hi := hreach.inv
  obtain ⟨sp, i, hi', rfl, -, r, hfree, -, hf, -⟩ :=
    @free_held ⟨0, false, false⟩ (AliasTags.engine false) t rfl aliasTags_untagsRegion hi _ hp 1
  have hcall : t.call ⟨0, false, false⟩ (AliasTags.engine false) (fun _ => false) (fun _ => none) 1 2 1
      (.free (addressOfChunk sp i (t.heap.scdOf sp))) =
        .ok ⟨r.2, r.1, t.live.erase (addressOfChunk sp i (t.heap.scdOf sp))⟩ := by
    simp only [Thread.call, hfree]
    rfl
  have hreach₂ : PlainReachable ⟨r.2, r.1, t.live.erase (addressOfChunk sp i (t.heap.scdOf sp))⟩ :=
    Reachable.step hreach (show Call.Allowed t (.free _) from .inr hp) hcall fun rn hrn => by
      show r.2.numSuperPages rn ≤ 2 ^ 20
      rw [hf.numSuperPages_eq]
      exact hi.ready.scan.numSuperPages_le hrn
  have he : r.2.scdOf sp = t.heap.scdOf sp := hf.scdOf_eq sp
  have hsp : sp ∈ r.2.superPages := by rw [hf.superPages_eq]; exact hf.mem
  have hi₂ : i < (r.2.scdOf sp).numChunks := by rw [he]; exact hi'
  have hnot : addressOfChunk sp i (r.2.scdOf sp) ∉ t.live.erase (addressOfChunk sp i (t.heap.scdOf sp)) := by
    rw [he]; exact hi.nodup.not_mem_erase
  exact ⟨_, sp, i, hreach₂, hsp, hi₂, hnot, reachable_free_unheld hreach₂ rfl aliasTags_untagsRegion hsp hi₂ hnot⟩

include hreach hsh ht in
/-- `free` of an address of a super page that exists but is no chunk start, such as a pointer
into the middle of a block, traps in `ComputeStatePtr`, with or without the quarantine. -/
theorem reachable_free_interior {sp a : Nat} (hsp : sp ∈ t.heap.superPages) (ha : sp ≤ a ∧ a < sp + kSuperPageSize)
    (hna : ∀ i < (t.heap.scdOf sp).numChunks, a ≠ addressOfChunk sp i (t.heap.scdOf sp)) :
    t.call cfg tags casFails mmap self fuel quarantineSize (.free a) = .error .trap := by
  simp only [Thread.call, free_interior hsh ht (hreach.inv hsh ht).ready.scan hsp ha hna]
  rfl

/-- `malloc(16)` from process start, then `free` of the pointer plus one: it traps. -/
theorem free_interior_traps :
    ∃ t sp a, PlainReachable t ∧ sp ∈ t.heap.superPages ∧ (sp ≤ a ∧ a < sp + kSuperPageSize) ∧
      (∀ i < (t.heap.scdOf sp).numChunks, a ≠ addressOfChunk sp i (t.heap.scdOf sp)) ∧
      t.call ⟨0, false, false⟩ (AliasTags.engine false) (fun _ => false) (fun _ => none) 1 2 1 (.free a) =
        .error .trap := by
  obtain ⟨t, p, hreach, hlive, -⟩ := plain_malloc16_init
  have hi := hreach.inv
  obtain ⟨sp, hsp, k, hk, rfl, -⟩ := hi.owns.held p (by rw [hlive]; exact List.mem_singleton_self _)
  have hcs := (hi.ready.scan.valid hsp).chunkSize_ge
  have he := chunk_end_le (hi.ready.scan.valid hsp) hk
  have ha : sp ≤ addressOfChunk sp k (t.heap.scdOf sp) + 1 ∧
      addressOfChunk sp k (t.heap.scdOf sp) + 1 < sp + kSuperPageSize := by
    unfold addressOfChunk; omega
  -- one byte past a chunk start is strictly between two chunk starts
  have hna : ∀ i < (t.heap.scdOf sp).numChunks,
      addressOfChunk sp k (t.heap.scdOf sp) + 1 ≠ addressOfChunk sp i (t.heap.scdOf sp) := fun i _ => by
    unfold addressOfChunk
    rcases Nat.lt_or_ge k i with hki | hki
    · have := Nat.mul_le_mul_right (t.heap.scdOf sp).chunkSize hki
      rw [Nat.succ_mul] at this
      omega
    · have := Nat.mul_le_mul_right (t.heap.scdOf sp).chunkSize hki
      omega
  exact ⟨t, sp, _, hreach, hsp, ha, hna, reachable_free_interior hreach rfl aliasTags_untagsRegion hsp ha hna⟩

include hreach hsh ht in
/-- A call takes a chunk out of the quarantine only to make it `AVAILABLE`, and only when no word
at an 8-byte-aligned offset of a `USED_MIXED` chunk points into it. -/
theorem reachable_quarantine_release {c : Call} (hc : c.Allowed t) {t' : Thread}
    (hrun : t.call cfg tags casFails mmap self fuel quarantineSize c = .ok t')
    (hfit : ∀ r < 2, t'.heap.numSuperPages r ≤ 2 ^ 20) {sp i : Nat} (hq : t.heap.state sp i = quarantined) :
    t'.heap.state sp i = quarantined ∨ t'.heap.state sp i = available ∧ t'.heap.pointedInto sp i = false :=
  (call_step hsh ht (hreach.inv hsh ht) hc hrun hfit).quarantined hq

/-- After a `free` that quarantined its chunk, a `malloc(16)` leaves the chunk `QUARANTINED` or
releases it unreferenced. -/
theorem malloc_after_quarantine :
    ∃ t sp i t', PlainReachable t ∧ Call.Allowed t (.malloc 16) ∧
      t.call ⟨0, false, false⟩ (AliasTags.engine false) (fun _ => false) (fun _ => none) 1 2 1 (.malloc 16) =
        .ok t' ∧ (∀ r < 2, t'.heap.numSuperPages r ≤ 2 ^ 20) ∧ t.heap.state sp i = quarantined ∧
      (t'.heap.state sp i = quarantined ∨ t'.heap.state sp i = available ∧ t'.heap.pointedInto sp i = false) := by
  obtain ⟨t, sp, i, hreach, hq, -, hnum⟩ := plain_free_quarantines
  obtain ⟨r, -, hrun, -, hnum', -, -, -⟩ := hreach.malloc16 fun rn _ => by have := hnum rn; omega
  have hc : Call.Allowed t (.malloc 16) := (by decide : 16 ≤ kMaxSizeClass)
  have hcall : t.call ⟨0, false, false⟩ (AliasTags.engine false) (fun _ => false) (fun _ => none) 1 2 1
      (.malloc 16) = .ok (t.allocated r) := by
    simp only [Thread.call, hrun]
    rfl
  have hfit : ∀ rn < 2, (t.allocated r).heap.numSuperPages rn ≤ 2 ^ 20 := fun rn _ => by
    have := hnum rn
    have := hnum' rn
    show r.2.numSuperPages rn ≤ 2 ^ 20
    omega
  exact ⟨t, sp, i, _, hreach, hc, hcall, hfit, hq,
    reachable_quarantine_release hreach rfl aliasTags_untagsRegion hc hcall hfit hq⟩

include hreach hsh ht in
/-- Over a run, no super page goes away or changes its class, so the chunk size of a pointer
into one, which `GetPtrChunkSize` reads, stays as it was. -/
theorem reachable_run_keeps_pages {cs : List Call} {t' : Thread}
    (hrun : Runs cfg tags mmap self fuel quarantineSize t cs t') :
    (∀ r, t.heap.numSuperPages r ≤ t'.heap.numSuperPages r) ∧
      ∀ sp ∈ t.heap.superPages, t'.heap.scdOf sp = t.heap.scdOf sp := by
  induction hrun with
  | nil => exact ⟨fun _ => le_rfl, fun _ _ => rfl⟩
  | cons hc hcall hfit _ ih =>
    obtain ⟨hn, hcls⟩ := (call_step hsh ht (hreach.inv hsh ht) hc hcall hfit).keepsPages
    obtain ⟨hn', hcls'⟩ := ih (hreach.step hc hcall hfit)
    exact ⟨fun r => (hn r).trans (hn' r),
      fun sp hsp => (hcls' sp (Heap.mem_superPages_of_le hn hsp)).trans (congrArg scDescr (hcls sp hsp))⟩

/-- `malloc(16)` from process start, then a second one: the first super page keeps its class. -/
theorem pages_kept_over_malloc :
    ∃ t t', PlainReachable t ∧ PlainRuns t [.malloc 16] t' ∧ t.heap.superPages ≠ [] ∧
      (∀ r, t.heap.numSuperPages r ≤ t'.heap.numSuperPages r) ∧
      ∀ sp ∈ t.heap.superPages, t'.heap.scdOf sp = t.heap.scdOf sp := by
  obtain ⟨t, p, hreach, hlive, -, hnum⟩ := plain_malloc16_init
  obtain ⟨r, -, -, -, -, -, hrun, -⟩ := hreach.malloc16 fun rn _ => by have := hnum rn; omega
  obtain ⟨sp, hsp, -⟩ := hreach.inv.owns.held p (by rw [hlive]; exact List.mem_singleton_self p)
  exact ⟨t, _, hreach, hrun, List.ne_nil_of_mem hsp, reachable_run_keeps_pages hreach rfl aliasTags_untagsRegion hrun⟩

include hreach hsh ht in
/-- Over a run in which the thread neither frees `p` nor stores to `a`, a held pointer `p` stays
held with the same block, and the 64-bit word at an 8-byte-aligned address `a` of the block
lies in the block and keeps its value: no call of the allocator writes into a block the thread
holds, and the thread's other stores are to other aligned words. -/
theorem reachable_run_keeps_block {cs : List Call} {t' : Thread}
    (hrun : Runs cfg tags mmap self fuel quarantineSize t cs t') {p a : Nat} (hp : p ∈ t.live)
    (ha : t.heap.InBlock p a) (ha8 : a % 8 = 0) (hcs : ∀ c ∈ cs, c ≠ .free p ∧ ∀ v, c ≠ .store a v) :
    p ∈ t'.live ∧ t'.heap.InBlock p a ∧ t'.heap.InBlock p (a + 7) ∧ t'.heap.word a = t.heap.word a := by
  suffices h : p ∈ t'.live ∧ t'.heap.InBlock p a ∧ t'.heap.word a = t.heap.word a from
    ⟨h.1, h.2.1, ((hreach.runs hrun).inv hsh ht).inBlock_word h.1 h.2.1 ha8, h.2.2⟩
  induction hrun with
  | nil => exact ⟨hp, ha, rfl⟩
  | cons hc hcall hfit _ ih =>
    have hi := hreach.inv hsh ht
    have hreach₁ := hreach.step hc hcall hfit
    have hs := call_step hsh ht hi hc hcall hfit
    obtain ⟨hnf, hns⟩ := hcs _ (List.mem_cons_self _ _)
    have hp₁ := hs.live_mem hp hnf
    obtain ⟨hp', ha', hw⟩ := ih hreach₁ hp₁ ((hs.inBlock hi hp a).2 ha) fun c hc' => hcs c (List.mem_cons_of_mem _ hc')
    exact ⟨hp', ha', hw.trans (hs.word_eq hi (hreach₁.inv hsh ht) hp hp₁ ha hns)⟩

/-- `malloc(16)` from process start, then a second one: the first block keeps its first word. -/
theorem block_kept_over_malloc :
    ∃ t t' p, PlainReachable t ∧ PlainRuns t [.malloc 16] t' ∧ p ∈ t.live ∧ t.heap.InBlock p p ∧
      p % 8 = 0 ∧ p ∈ t'.live ∧ t'.heap.InBlock p p ∧ t'.heap.InBlock p (p + 7) ∧
      t'.heap.word p = t.heap.word p := by
  obtain ⟨t, p, hreach, hlive, -, hnum⟩ := plain_malloc16_init
  have hp : p ∈ t.live := by rw [hlive]; exact List.mem_singleton_self p
  obtain ⟨r, -, -, -, -, -, hrun, -⟩ := hreach.malloc16 fun rn _ => by have := hnum rn; omega
  have ha : t.heap.InBlock p p := by
    obtain ⟨sp, hsp, i, hi, rfl, -⟩ := hreach.inv.owns.held p hp
    have := (hreach.inv.ready.scan.valid hsp).chunkSize_ge
    exact (Heap.inBlock_chunk hreach.inv.ready.scan hsp hi _).2 ⟨le_rfl, by omega⟩
  have hp8 : p % 8 = 0 := by have := (hreach.inv.aligned hp).1; omega
  exact ⟨t, _, p, hreach, hrun, hp, ha, hp8, reachable_run_keeps_block hreach rfl aliasTags_untagsRegion hrun hp ha
    hp8 fun c hc => by rw [List.mem_singleton.1 hc]; exact ⟨fun h => Call.noConfusion h, fun _ h => Call.noConfusion h⟩⟩

end Runs

end Thread

end MTMalloc

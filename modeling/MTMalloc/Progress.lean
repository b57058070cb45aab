import MTMalloc.CallLaws

/-!
# Allocate returns a chunk

`AllocateSlower` loops until it returns a chunk; the model bounds its passes by `fuel`. With
the shadow off and no compare-and-swap failing, two passes are enough whenever the class's
range has room for one more super page: if the first pass finds no chunk, the super page
mapped after it has every chunk `AVAILABLE`, and the second pass reaches that page whatever
its random offset. From a ready heap `Allocate` then returns a chunk, and maps at most that
one super page.
-/

namespace MTMalloc

open SuperPage

namespace Heap

/-- Super page `idx` of class `sc`'s range can serve the class: its `kMeta` byte names the
class, its state bytes are `AVAILABLE` or odd, and one of its chunks is `AVAILABLE`. -/
def HasRoom (h : Heap) (sc idx : Nat) : Prop :=
  (h.meta (kMeta (scDescr sc).rangeNum + idx)).toNat = sc ∧
    StatesZeroOrOdd h (spAddr (scDescr sc).rangeNum idx) (scDescr sc).numChunks ∧
    ∃ k < (scDescr sc).numChunks, h.state (spAddr (scDescr sc).rangeNum idx) k = available

end Heap

section Progress

variable {cfg : MallocConfig} {tags : AddressTags} {casFails : Nat → Bool}
  (hsh : cfg.useShadow = false) (hcas : ∀ k, casFails k = false)

-- ---------------------------------------------------------------------------
-- TryAllocate and a pass
-- ---------------------------------------------------------------------------

include hsh in
theorem tryAllocate_returns {sp : Nat} {dataOnly : Bool} {scd : SizeClassDescr} {hint : Nat}
    (hH : hint ≤ scd.numChunks) (h : Heap) :
    ∃ r, tryAllocate cfg tags casFails sp dataOnly scd hint h = .ok r := by
  obtain ⟨c, hc, -⟩ := claimChunk_run casFails sp dataOnly scd hH h
  cases c <;> simp only [tryAllocate, HeapM.run_bind, hc, HeapM.run_get, HeapM.run_lift, getMemoryTag,
    hsh, Bool.not_false, if_true, Except.map, HeapM.run_pure] <;> exact ⟨_, rfl⟩

include hsh hcas in
theorem tryAllocate_isSome {sp : Nat} {dataOnly : Bool} {scd : SizeClassDescr} {hint : Nat} {h : Heap}
    {r : (Option Nat × Nat) × Heap} (hN : scd.numChunks + 8 ≤ wordBound) (hH : hint ≤ scd.numChunks)
    (hb : StatesZeroOrOdd h sp scd.numChunks) {k : Nat} (hk : k < scd.numChunks)
    (hav : h.state sp k = available) (hr : tryAllocate cfg tags casFails sp dataOnly scd hint h = .ok r) :
    r.1.1.isSome := by
  obtain ⟨c, h₁, hc, hrest⟩ := HeapM.ok_bind hr
  rw [claimChunk_eq casFails sp dataOnly scd hint h hN hH hb] at hc
  cases c with
  | some p =>
    simp only [HeapM.run_bind, HeapM.run_get, HeapM.run_lift, getMemoryTag, hsh, Bool.not_false,
      if_true, Except.map, HeapM.run_pure] at hrest
    cases hrest
    rfl
  | none =>
    have hD : roundDownTo hint 8 ≤ scd.numChunks := (roundDownTo_eight_le (by omega)).trans hH
    have hmem : k ∈ claimCands h sp scd hint := by
      rw [claimCands, List.mem_filter, mem_map_wrapIdx_range' hD, decide_eq_true_eq]
      exact ⟨hk, hav⟩
    refine absurd (List.find?_eq_none.1 (Prod.mk.inj (Except.ok.inj hc)).1 k hmem) ?_
    simp [casOk, hav, hcas]

theorem trySuperPages_next {sc n offset k i sp hint : Nat} {scd : SizeClassDescr} {tls : TLS}
    {h h' : Heap} (hm : (h.meta (kMeta scd.rangeNum + wrapIdx n offset i)).toNat = sc)
    (hg : getSuperPage scd.rangeNum (wrapIdx n offset i) = .ok sp)
    (ht : tryAllocate cfg tags casFails sp (h.dataOnlyScopeLevel ≠ 0) scd
      ((tls.setSP sc sp).perSC sc).lastIdxHint h = .ok ((none, hint), h')) :
    trySuperPages cfg tags casFails sc scd n offset (k + 1) i tls h =
      trySuperPages cfg tags casFails sc scd n offset k (i + 1) ((tls.setSP sc sp).setHint sc hint) h' := by
  rw [wrapIdx] at hm hg
  simp only [trySuperPages, HeapM.run_bind, HeapM.run_get, if_pos hm, HeapM.run_lift, hg, Except.map, ht]

include hsh hcas in
theorem trySuperPages_returns {sc : Nat} (hsc : sc < kNumSizeClasses) {n offset : Nat}
    (hn : n ≤ 2 ^ 20) (ho : offset < n) (h : Heap) :
    ∀ (k i : Nat) (tls : TLS), HintsBounded tls → i + k ≤ n →
      ∃ r, trySuperPages cfg tags casFails sc (scDescr sc) n offset k i tls h = .ok r ∧
        ((∃ j < k, h.HasRoom sc (wrapIdx n offset (i + j))) → r.1.1.isSome)
  | 0, _, _, _, _ => ⟨_, rfl, fun ⟨_, hj, _⟩ => absurd hj (Nat.not_lt_zero _)⟩
  | k + 1, i, tls, ht, hik => by
    have hnext := trySuperPages_returns hsc hn ho h k (i + 1)
    have hlt : wrapIdx n offset i < n := wrapIdx_lt ho (by omega)
    -- an index after the first is one of the rest of the pass
    have hshift : ∀ P : Nat → Prop, (∃ j < k + 1, P (wrapIdx n offset (i + j))) →
        ¬P (wrapIdx n offset i) → ∃ j < k, P (wrapIdx n offset (i + 1 + j)) := by
      rintro P ⟨_ | j, hj, hp⟩ h0
      · exact absurd hp h0
      · exact ⟨j, by omega, by rwa [Nat.add_right_comm]⟩
    by_cases hm : (h.meta (kMeta (scDescr sc).rangeNum + wrapIdx n offset i)).toNat = sc
    · have hv := (scDescr_valid hsc).1
      have hg : getSuperPage (scDescr sc).rangeNum (wrapIdx n offset i) =
          .ok (spAddr (scDescr sc).rangeNum (wrapIdx n offset i)) := getSuperPage_run (by
        have := hv.rangeNum_lt
        unfold spAddr kFirstSuperPage kSuperPageSize kAllocatorSize
        omega)
      have hH := ht.setSP sc (spAddr (scDescr sc).rangeNum (wrapIdx n offset i)) sc
      obtain ⟨⟨⟨res, hint⟩, h'⟩, htry⟩ : ∃ r, tryAllocate cfg tags casFails
          (spAddr (scDescr sc).rangeNum (wrapIdx n offset i)) (h.dataOnlyScopeLevel ≠ 0) (scDescr sc)
          _ h = .ok r := tryAllocate_returns hsh hH h
      obtain ⟨hhint, hres⟩ := tryAllocate_ok hsh hH htry
      cases res with
      | some p => exact ⟨_, trySuperPages_found hm hg htry, fun _ => rfl⟩
      | none =>
        obtain ⟨-, rfl⟩ := hres.resolve_right fun ⟨_, hp, _⟩ => Option.noConfusion hp
        obtain ⟨r, hr, hsome⟩ := hnext _ ((ht.setSP _ _).setHint hhint) (by omega)
        refine ⟨r, (trySuperPages_next hm hg htry).trans hr, fun hj => hsome (hshift _ hj fun hroom => ?_)⟩
        obtain ⟨-, hb, k', hk', hav⟩ := hroom
        exact absurd (tryAllocate_isSome hsh hcas hv.numChunks_add_eight_le hH hb hk' hav htry) (by simp)
    · obtain ⟨r, hr, hsome⟩ := hnext tls ht (by omega)
      refine ⟨r, ?_, fun hj => hsome (hshift _ hj fun hroom => hm hroom.1)⟩
      rw [Nat.add_comm k 1, trySuperPages_skip k 1 i tls fun j hj => by
        obtain rfl : j = 0 := by omega
        exact hm]
      exact hr

-- ---------------------------------------------------------------------------
-- AllocateSlower and Allocate
-- ---------------------------------------------------------------------------

include hsh in
theorem allocateSuperPage_returns {size sc : Nat} (hs : sizeToSizeClass scDescr size = (sc, scDescr sc))
    (hsc : sc < kNumSizeClasses) (tls : TLS) {h : Heap}
    (hroom : h.numSuperPages (scDescr sc).rangeNum < 2 ^ 20) :
    ∃ tls', tls'.perSC = tls.perSC ∧ allocateSuperPage cfg size tls h =
      .ok ((spAddr (scDescr sc).rangeNum (h.numSuperPages (scDescr sc).rangeNum), tls'),
        h.addPage (scDescr sc).rangeNum sc) := by
  have hlt : spAddr (scDescr sc).rangeNum (h.numSuperPages (scDescr sc).rangeNum) <
      kAllocatorSpace + kAllocatorSize := by
    have := (scDescr_valid hsc).1.rangeNum_lt
    unfold spAddr kFirstSuperPage kSuperPageSize kAllocatorSize
    omega
  obtain ⟨rand, hrun⟩ := allocateSuperPage_run hsh hs tls h (getSuperPage_run hlt) (isMine_spAddr hlt)
    (spAddr_mod _ _)
  have he := (allocateSuperPage_ok hsh hs hrun).1
  dsimp only at he
  exact ⟨{ tls with rand := rand }, rfl, he ▸ hrun⟩

theorem allocateSlowerLoop_first {size sc fuel sp : Nat} {scd : SizeClassDescr} {tls tls' : TLS}
    {h h' : Heap} (hn : h.numSuperPages scd.rangeNum = 0)
    (ha : allocateSuperPage cfg size tls h = .ok ((sp, tls'), h')) :
    allocateSlowerLoop cfg tags casFails size sc scd (fuel + 1) tls h =
      allocateSlowerLoop cfg tags casFails size sc scd fuel (tls'.setHint sc 0) h' := by
  simp only [allocateSlowerLoop, HeapM.run_bind, HeapM.run_get, hn, ne_eq, not_true_eq_false, if_false]
  simp only [trySuperPages, HeapM.run_pure, HeapM.run_bind, ha]

section Slower

variable {size sc : Nat} (hsc : sc < kNumSizeClasses)
include hsh hcas hsc

/-- The pass after a super page of the class was mapped reaches it, whatever its offset, and
returns one of its chunks, all of which are `AVAILABLE`. -/
theorem allocateSlowerLoop_after_addPage {h : Heap} (hr : ScanReady h) (hf : h.Fresh)
    (hroom : h.numSuperPages (scDescr sc).rangeNum < 2 ^ 20) (fuel : Nat) {tls : TLS}
    (ht : HintsBounded tls) :
    ∃ r, allocateSlowerLoop cfg tags casFails size sc (scDescr sc) (fuel + 1) tls
        (h.addPage (scDescr sc).rangeNum sc) = .ok r ∧ r.1.1.isSome ∧
      r.2.numSuperPages = (h.addPage (scDescr sc).rangeNum sc).numSuperPages := by
  have hv := (scDescr_valid hsc).1
  have hn : (h.addPage (scDescr sc).rangeNum sc).numSuperPages (scDescr sc).rangeNum =
      h.numSuperPages (scDescr sc).rangeNum + 1 := by
    rw [numSuperPages_addPage, if_pos rfl]
  have hnew := spAddr_next_not_mem hr hv.rangeNum_lt hroom
  have ho : (randR tls.rand).1 % (h.addPage (scDescr sc).rangeNum sc).numSuperPages (scDescr sc).rangeNum <
      (h.addPage (scDescr sc).rangeNum sc).numSuperPages (scDescr sc).rangeNum := Nat.mod_lt _ (by omega)
  obtain ⟨⟨⟨res, tls'⟩, h'⟩, hpass, hsome⟩ := trySuperPages_returns hsh hcas hsc (by omega) ho
    (h.addPage (scDescr sc).rangeNum sc) _ 0 { tls with rand := (randR tls.rand).2 } (fun sc' => ht sc') (Nat.zero_add _).le
  -- the step of the second pass that reads the new page
  have hroomNew : ∀ o < (h.addPage (scDescr sc).rangeNum sc).numSuperPages (scDescr sc).rangeNum,
      ∃ j < (h.addPage (scDescr sc).rangeNum sc).numSuperPages (scDescr sc).rangeNum,
        (h.addPage (scDescr sc).rangeNum sc).HasRoom sc
          (wrapIdx ((h.addPage (scDescr sc).rangeNum sc).numSuperPages (scDescr sc).rangeNum) o (0 + j)) := by
    intro o ho
    have hstate : ∀ i, (h.addPage (scDescr sc).rangeNum sc).state
        (spAddr (scDescr sc).rangeNum (h.numSuperPages (scDescr sc).rangeNum)) i = available :=
      state_addPage_new hf hnew
    have hmeta : ((h.addPage (scDescr sc).rangeNum sc).meta
        (kMeta (scDescr sc).rangeNum + h.numSuperPages (scDescr sc).rangeNum)).toNat = sc := by
      rw [← sizeClassOf_spAddr]
      exact sizeClassOf_addPage_new (Nat.lt_trans hsc (by decide))
    rw [hn] at ho ⊢
    refine ⟨h.numSuperPages (scDescr sc).rangeNum - o, by omega, ?_⟩
    rw [show wrapIdx (h.numSuperPages (scDescr sc).rangeNum + 1) o (0 + (h.numSuperPages (scDescr sc).rangeNum - o))
      = h.numSuperPages (scDescr sc).rangeNum by unfold wrapIdx; split <;> omega]
    exact ⟨hmeta, fun i _ => .inl (hstate i), 0, hv.numChunks_pos, hstate 0⟩
  obtain ⟨p, rfl⟩ := Option.isSome_iff_exists.1 (hsome (hroomNew _ ho))
  exact ⟨_, @allocateSlowerLoop_found _ _ _ _ _ _ _ _ tls _ _ _ (by omega) hpass,
    rfl, trySuperPages_numSuperPages hsh _ _ { tls with rand := (randR tls.rand).2 } _ _ (fun sc' => ht sc') hpass⟩

variable (hs : sizeToSizeClass scDescr size = (sc, scDescr sc))
include hs

/-- From a ready heap whose class's range has room for one more super page, `AllocateSlower`'s
loop returns a chunk within two passes, and maps at most one super page. -/
theorem allocateSlowerLoop_returns {h : Heap} {tls : TLS} (hR : Ready h tls)
    (hroom : h.numSuperPages (scDescr sc).rangeNum < 2 ^ 20) (fuel : Nat) :
    ∃ r, allocateSlowerLoop cfg tags casFails size sc (scDescr sc) (fuel + 2) tls h = .ok r ∧
      r.1.1.isSome ∧ ∀ rn, r.2.numSuperPages rn ≤ h.numSuperPages rn + 1 := by
  -- after a first pass that finds nothing: a new super page, and the second pass
  have hmap : ∀ tls', HintsBounded tls' → ∃ tls'', HintsBounded (tls''.setHint sc 0) ∧
      allocateSuperPage cfg size tls' h = .ok ((spAddr (scDescr sc).rangeNum
        (h.numSuperPages (scDescr sc).rangeNum), tls''), h.addPage (scDescr sc).rangeNum sc) := by
    intro tls' ht'
    obtain ⟨tls'', hp, ha⟩ := allocateSuperPage_returns hsh hs hsc tls' hroom
    exact ⟨tls'', HintsBounded.setHint (fun sc' => hp ▸ ht' sc') (Nat.zero_le _), ha⟩
  have hsecond : ∀ tls'', HintsBounded tls'' → ∃ r, allocateSlowerLoop cfg tags casFails size sc
      (scDescr sc) (fuel + 1) tls'' (h.addPage (scDescr sc).rangeNum sc) = .ok r ∧ r.1.1.isSome ∧
      ∀ rn, r.2.numSuperPages rn ≤ h.numSuperPages rn + 1 := by
    intro tls'' ht''
    obtain ⟨r, hr, hsome, hnum⟩ := allocateSlowerLoop_after_addPage hsh hcas hsc hR.scan hR.fresh hroom fuel ht''
    refine ⟨r, hr, hsome, fun rn => ?_⟩
    rw [hnum, numSuperPages_addPage]
    split <;> subst_vars <;> omega
  rw [show fuel + 2 = fuel + 1 + 1 from rfl]
  by_cases hn : h.numSuperPages (scDescr sc).rangeNum = 0
  · obtain ⟨tls'', ht'', ha⟩ := hmap tls hR.slots.hints
    rw [allocateSlowerLoop_first hn ha]
    exact hsecond _ ht''
  have ho : (randR tls.rand).1 % h.numSuperPages (scDescr sc).rangeNum < h.numSuperPages (scDescr sc).rangeNum :=
    Nat.mod_lt _ (Nat.pos_of_ne_zero hn)
  obtain ⟨⟨⟨res, tls₁⟩, h₁⟩, hpass, -⟩ := trySuperPages_returns hsh hcas hsc (by omega) ho h _ 0
    { tls with rand := (randR tls.rand).2 } (fun sc' => hR.slots.hints sc') (Nat.zero_add _).le
  obtain ⟨hs₁, -, hres⟩ := trySuperPages_ok hsh hsc _ 0 { tls with rand := (randR tls.rand).2 } h _
    (hR.slots.of_perSC rfl) (.inl ho) (Nat.zero_add _).le le_rfl hpass
  cases res with
  | some p =>
    refine ⟨_, @allocateSlowerLoop_found _ _ _ _ _ _ _ _ tls _ _ _ hn hpass, rfl, fun rn => ?_⟩
    rw [trySuperPages_numSuperPages hsh _ _ { tls with rand := (randR tls.rand).2 } _ _
      (fun sc' => hR.slots.hints sc') hpass]
    omega
  | none =>
    obtain ⟨-, rfl⟩ := hres.resolve_right fun ⟨_, _, _, _, hq, _⟩ => Option.noConfusion hq
    obtain ⟨tls'', ht'', ha⟩ := hmap tls₁ hs₁.hints
    rw [@allocateSlowerLoop_next _ _ _ _ _ _ _ _ tls _ _ _ _ _ hn hpass ha]
    exact hsecond _ ht''

end Slower

theorem allocate_of_tryAllocate_none {self size fuel sc hint : Nat} {scd : SizeClassDescr} {tls : TLS}
    {h h' : Heap} (hs : sizeToSizeClass scDescr size = (sc, scd)) (hsp : (tls.perSC sc).sp ≠ 0)
    (ht : tryAllocate cfg tags casFails (tls.perSC sc).sp (h.dataOnlyScopeLevel ≠ 0) scd
      (tls.perSC sc).lastIdxHint h = .ok ((none, hint), h')) :
    allocate cfg tags casFails self size fuel tls h =
      allocateSlower cfg tags casFails self size fuel (tls.setHint sc hint) h' := by
  simp only [allocate, hs, if_pos hsp, HeapM.run_bind, HeapM.run_get, ht]

include hsh in
theorem allocate_cases {self size fuel sc : Nat} (hs : sizeToSizeClass scDescr size = (sc, scDescr sc))
    {tls : TLS} {h : Heap} (hR : Ready h tls) :
    (∃ r, allocate cfg tags casFails self size fuel tls h = .ok r ∧ r.1.1.isSome ∧
      r.2.numSuperPages = h.numSuperPages) ∨
    ∃ tls', Ready h tls' ∧ allocate cfg tags casFails self size fuel tls h =
      allocateSlowerLoop cfg tags casFails size sc (scDescr sc) fuel tls' h := by
  -- seeding `Rand` changes no slot
  have hseed : ∀ tls, Ready h tls → Ready h (if tls.rand = 0 then { tls with rand := self } else tls) :=
    fun tls hR => by split; exacts [hR.withSlots (hR.slots.of_perSC rfl), hR]
  by_cases hsp : (tls.perSC sc).sp = 0
  · exact .inr ⟨_, hseed tls hR, by rw [allocate_of_no_sp hs hsp]⟩
  have hH := hR.slots.hints sc
  obtain ⟨⟨⟨res, hint⟩, h'⟩, htry⟩ := tryAllocate_returns hsh hH h
  obtain ⟨hhint, hres⟩ := tryAllocate_ok hsh hH htry
  cases res with
  | some p =>
    refine .inl ⟨_, allocate_of_tryAllocate hs hsp htry, rfl, ?_⟩
    obtain ⟨_, _, k, -, -, -, rfl | rfl⟩ := hres.resolve_left fun ⟨hq, _⟩ => Option.noConfusion hq
    all_goals rfl
  | none =>
    obtain ⟨-, rfl⟩ := hres.resolve_right fun ⟨_, hq, _⟩ => Option.noConfusion hq
    rw [allocate_of_tryAllocate_none hs hsp htry]
    exact .inr ⟨_, hseed _ (hR.withSlots (hR.slots.setHint hhint)), by simp only [allocateSlower, hs]⟩

include hsh hcas in
/-- `Allocate(Size)` for the sizes `malloc` passes it, from a ready heap whose class's range has
room for one more super page, with no swap failing and at least two passes of `AllocateSlower`'s
loop: it returns a chunk, and maps at most one super page. -/
theorem allocate_returns {self size fuel : Nat} (h1 : 1 ≤ size) (hmax : size ≤ kMaxSizeClass)
    {tls : TLS} {h : Heap} (hR : Ready h tls)
    (hroom : h.numSuperPages (scDescr (sizeToSizeClass scDescr size).1).rangeNum < 2 ^ 20) :
    ∃ r, allocate cfg tags casFails self size (fuel + 2) tls h = .ok r ∧ r.1.1.isSome ∧
      ∀ rn, r.2.numSuperPages rn ≤ h.numSuperPages rn + 1 := by
  obtain ⟨hsc, -⟩ := sizeToSizeClass_fits h1 hmax
  have hs := sizeToSizeClass_eq size
  generalize (sizeToSizeClass scDescr size).1 = sc at hs hsc hroom
  rcases allocate_cases hsh hs hR with ⟨r, hr, hsome, hnum⟩ | ⟨tls', hR', he⟩
  · exact ⟨r, hr, hsome, fun rn => hnum ▸ Nat.le_succ _⟩
  · rw [he]
    exact allocateSlowerLoop_returns hsh hcas hsc hs hR' hroom fuel

-- ---------------------------------------------------------------------------
-- No new super page while the class has room
-- ---------------------------------------------------------------------------

theorem exists_wrapIdx_eq {n offset idx : Nat} (ho : offset ≤ n) (hidx : idx < n) :
    ∃ j < n, wrapIdx n offset (0 + j) = idx := by
  obtain ⟨j, hj, he⟩ := List.mem_map.1 ((mem_map_wrapIdx_range' ho).2 hidx)
  exact ⟨j, by simpa using (List.mem_range'_1.1 hj).2, by rwa [Nat.zero_add]⟩

include hsh hcas in
theorem allocateSlowerLoop_of_room {size sc : Nat} (hsc : sc < kNumSizeClasses) {h : Heap} {tls : TLS}
    (hR : Ready h tls) {idx : Nat} (hidx : idx < h.numSuperPages (scDescr sc).rangeNum)
    (hroom : h.HasRoom sc idx) (fuel : Nat) :
    ∃ r, allocateSlowerLoop cfg tags casFails size sc (scDescr sc) (fuel + 1) tls h = .ok r ∧
      r.1.1.isSome ∧ r.2.numSuperPages = h.numSuperPages := by
  have hn := hR.scan.numSuperPages_le (scDescr_valid hsc).1.rangeNum_lt
  have ho : (randR tls.rand).1 % h.numSuperPages (scDescr sc).rangeNum < h.numSuperPages (scDescr sc).rangeNum :=
    Nat.mod_lt _ (by omega)
  obtain ⟨⟨⟨res, tls'⟩, h'⟩, hpass, hsome⟩ := trySuperPages_returns hsh hcas hsc hn ho h _ 0
    { tls with rand := (randR tls.rand).2 } (fun sc' => hR.slots.hints sc') (Nat.zero_add _).le
  obtain ⟨j, hj, hwrap⟩ := exists_wrapIdx_eq ho.le hidx
  obtain ⟨p, rfl⟩ := Option.isSome_iff_exists.1 (hsome ⟨j, hj, hwrap ▸ hroom⟩)
  exact ⟨_, @allocateSlowerLoop_found _ _ _ _ _ _ _ _ tls _ _ _ (by omega) hpass, rfl,
    trySuperPages_numSuperPages hsh _ _ { tls with rand := (randR tls.rand).2 } _ _
      (fun sc' => hR.slots.hints sc') hpass⟩

include hsh hcas in
/-- `Allocate(Size)` for the sizes `malloc` passes it, from a ready heap one of whose super pages
of the class has an `AVAILABLE` chunk, with no swap failing and at least one pass of
`AllocateSlower`'s loop: it returns a chunk and maps no super page. -/
theorem allocate_of_room {self size fuel : Nat} (h1 : 1 ≤ size) (hmax : size ≤ kMaxSizeClass)
    {tls : TLS} {h : Heap} (hR : Ready h tls) (hst : ∀ sp n, StatesZeroOrOdd h sp n) {sp k : Nat}
    (hsp : sp ∈ h.superPages) (hcls : h.sizeClassOf sp = (sizeToSizeClass scDescr size).1)
    (hk : k < (h.scdOf sp).numChunks) (hav : h.state sp k = available) :
    ∃ r, allocate cfg tags casFails self size (fuel + 1) tls h = .ok r ∧ r.1.1.isSome ∧
      r.2.numSuperPages = h.numSuperPages := by
  obtain ⟨hsc, -⟩ := sizeToSizeClass_fits h1 hmax
  have hs := sizeToSizeClass_eq size
  generalize (sizeToSizeClass scDescr size).1 = sc at hs hsc hcls
  have hscd : h.scdOf sp = scDescr sc := by rw [Heap.scdOf, hcls]
  -- the super page lies in the range of its class, at an index the pass reads
  obtain ⟨r, hr, j, hj, rfl⟩ := mem_superPages.1 hsp
  obtain rfl : (scDescr sc).rangeNum = r := hscd ▸ hR.ranged r hr j hj
  have hroom : h.HasRoom sc j := ⟨by rw [← sizeClassOf_spAddr, hcls], hst _ _, k, hscd ▸ hk, hav⟩
  rcases allocate_cases hsh hs hR with hfast | ⟨tls', hR', he⟩
  · exact hfast
  · rw [he]
    exact allocateSlowerLoop_of_room hsh hcas hsc hR' hj hroom fuel

end Progress

end MTMalloc

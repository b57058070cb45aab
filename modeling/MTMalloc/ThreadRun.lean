import MTMalloc.Progress

/-!
# One thread's run

A thread of the program calls `malloc`, `calloc`, `posix_memalign` and `free` of `part_004`
and, between calls, stores aligned 64-bit words into the blocks it holds. `Thread` is the heap, the thread's `TLS`, and
the pointers the thread holds: those the allocating calls returned that it has not freed.

A program that keeps to the sizes the size classes serve (up to `kMaxSizeClass`; the large
allocator is not part of this run) and frees only null or a pointer it holds reaches, while
neither range has grown past its half, only states where (`Thread.Inv`) the pointers it holds
are exactly the starts of the chunks in use, each held once, and every state byte is
`AVAILABLE`, `USED_MIXED`, `USED_DATA` or `QUARANTINED`.

The results are for the software back end with the shadow off (`UseShadow = 0`), with any
`UseTag`, `UseAliases`, `QuarantineSize` and number of passes of `AllocateSlower`, with
compare-and-swaps that each call may fail anew, and with address tags that give back the
region's addresses.
-/

namespace MTMalloc

open SuperPage

/-- A call of the thread: the C functions, and a store of a 64-bit word. -/
inductive Call where
  | malloc (size : Nat)
  | calloc (nmemb size : Nat)
  | posixMemalign (alignment size : Nat)
  | free (p : Nat)
  | store (addr value : Nat)
  deriving Repr, DecidableEq

/-- The heap, the calling thread's `TLS`, and the pointers the thread holds. -/
structure Thread where
  heap : Heap
  tls : TLS
  live : List Nat

/-- Address `a` lies in the block of `p`: the chunk of `SizeClassToSize` bytes of the class of
`p`'s super page. -/
def Heap.InBlock (h : Heap) (p a : Nat) : Prop :=
  p ≤ a ∧ a < p + (h.scdOf (roundDownTo p kSuperPageSize)).chunkSize

instance (h : Heap) (p a : Nat) : Decidable (h.InBlock p a) := inferInstanceAs (Decidable (_ ∧ _))

/-- The calls of a program that keeps to the small-chunk allocator, frees only null or a
pointer it holds, and stores only whole aligned words inside the blocks it holds. -/
def Call.Allowed (t : Thread) : Call → Prop
  | .malloc size => size ≤ kMaxSizeClass
  | .calloc nmemb size => nmemb * size % wordBound ≤ kMaxSizeClass
  | .posixMemalign alignment size => alignment ≤ 4096 ∧ size ≤ kMaxSizeClass
  | .free p => p = 0 ∨ p ∈ t.live
  | .store addr _ => addr % 8 = 0 ∧ ∃ p ∈ t.live, t.heap.InBlock p addr

instance Call.decAllowed (t : Thread) : (c : Call) → Decidable (c.Allowed t)
  | .malloc size => inferInstanceAs (Decidable (size ≤ kMaxSizeClass))
  | .calloc nmemb size => inferInstanceAs (Decidable (nmemb * size % wordBound ≤ kMaxSizeClass))
  | .posixMemalign alignment size => inferInstanceAs (Decidable (alignment ≤ 4096 ∧ size ≤ kMaxSizeClass))
  | .free p => inferInstanceAs (Decidable (p = 0 ∨ p ∈ t.live))
  | .store addr _ => inferInstanceAs (Decidable (addr % 8 = 0 ∧ ∃ p ∈ t.live, t.heap.InBlock p addr))

/-- The calls that allocate. -/
def Call.Allocating : Call → Prop
  | .malloc _ | .calloc _ _ | .posixMemalign _ _ => True
  | .free _ | .store _ _ => False

namespace Thread

/-- A new thread on the heap at process start. -/
def init : Thread := ⟨Heap.empty, TLS.init, []⟩

/-- The thread after an allocating call returned `r`: the pointer, if any, is held. -/
def allocated (t : Thread) (r : (Option Nat × TLS) × Heap) : Thread :=
  ⟨r.2, r.1.2, r.1.1.toList ++ t.live⟩

section Call

variable (cfg : MallocConfig) (tags : AddressTags) (casFails : Nat → Bool) (mmap : Nat → Option Nat)
  (self fuel quarantineSize : Nat)

/-- One call; `quarantineSize` is `Config.QuarantineSize`, and `casFails` says which of the
call's weak compare-and-swaps fail. -/
def call (t : Thread) : Call → Except Fault Thread
  | .malloc size => (malloc cfg tags casFails mmap self fuel size t.tls t.heap).map t.allocated
  | .calloc nmemb size => (calloc cfg tags casFails mmap self fuel nmemb size t.tls t.heap).map t.allocated
  | .posixMemalign alignment size =>
    (posixMemalign cfg tags casFails mmap self fuel alignment size t.tls t.heap).map t.allocated
  | .free p => (free cfg tags p quarantineSize t.tls t.heap).map fun r => ⟨r.2, r.1, t.live.erase p⟩
  | .store addr value => .ok { t with heap := t.heap.setWord addr (value % wordBound) }

/-- The states a thread reaches from `init` by calls the program is allowed to make, while
neither range grows past its half. Each call chooses which of its compare-and-swaps fail. -/
inductive Reachable : Thread → Prop
  | init : Reachable init
  | step {t t' : Thread} {c : Call} {casFails : Nat → Bool} : Reachable t → c.Allowed t →
      t.call cfg tags casFails mmap self fuel quarantineSize c = .ok t' →
      (∀ r < 2, t'.heap.numSuperPages r ≤ 2 ^ 20) → Reachable t'

/-- `t` reaches `t'` by the calls `cs`, one after the other, each one the program is allowed to
make, while neither range grows past its half. Each call chooses which of its
compare-and-swaps fail. -/
inductive Runs : Thread → List Call → Thread → Prop
  | nil (t : Thread) : Runs t [] t
  | cons {t t₁ t' : Thread} {c : Call} {cs : List Call} {casFails : Nat → Bool} : c.Allowed t →
      t.call cfg tags casFails mmap self fuel quarantineSize c = .ok t₁ →
      (∀ r < 2, t₁.heap.numSuperPages r ≤ 2 ^ 20) → Runs t₁ cs t' → Runs t (c :: cs) t'

variable {cfg tags mmap self fuel quarantineSize} in
theorem Reachable.runs {t t' : Thread} {cs : List Call}
    (hreach : Reachable cfg tags mmap self fuel quarantineSize t)
    (hrun : Runs cfg tags mmap self fuel quarantineSize t cs t') :
    Reachable cfg tags mmap self fuel quarantineSize t' := by
  induction hrun with
  | nil => exact hreach
  | cons hc hcall hfit _ ih => exact ih (hreach.step hc hcall hfit)

end Call

end Thread

-- ---------------------------------------------------------------------------
-- The chunks a thread holds
-- ---------------------------------------------------------------------------

namespace Heap

/-- `p` is the start of a chunk in use of a super page that exists. -/
def Live (h : Heap) (p : Nat) : Prop :=
  ∃ sp ∈ h.superPages, ∃ i < (h.scdOf sp).numChunks, p = addressOfChunk sp i (h.scdOf sp) ∧ h.InUse sp i

/-- The pointers `live` are exactly the starts of the chunks in use. -/
structure Owns (h : Heap) (live : List Nat) : Prop where
  held : ∀ p ∈ live, h.Live p
  owned : ∀ sp ∈ h.superPages, ∀ i < (h.scdOf sp).numChunks, h.InUse sp i →
    addressOfChunk sp i (h.scdOf sp) ∈ live

/-- No state byte is `MARKED` or `RELEASING`, the values a `Scan` or a `MaybeReleaseToOs` leaves
only while it runs. -/
def Settled (h : Heap) : Prop :=
  ∀ sp i, h.state sp i = available ∨ h.InUse sp i ∨ h.state sp i = quarantined

variable {h h' : Heap} {live : List Nat}

theorem chunk_overlap (hr : ScanReady h) {sp sp' i i' a : Nat} (hsp : sp ∈ h.superPages)
    (hsp' : sp' ∈ h.superPages) (hi : i < (h.scdOf sp).numChunks) (hi' : i' < (h.scdOf sp').numChunks)
    (ha : h.chunkHolds sp i a) (ha' : h.chunkHolds sp' i' a) : sp = sp' ∧ i = i' := by
  have e₁ := chunk_end_le (hr.valid hsp) hi
  have e₂ := chunk_end_le (hr.valid hsp') hi'
  have a₁ := (superPage_in_region hr hsp).1
  have a₂ := (superPage_in_region hr hsp').1
  unfold chunkHolds addressOfChunk at ha ha'
  unfold kSuperPageSize at *
  obtain rfl : sp = sp' := by omega
  refine ⟨rfl, ?_⟩
  -- a chunk before the other ends where the other starts, or earlier
  rcases Nat.lt_trichotomy i i' with hlt | heq | hlt
  · have := Nat.mul_le_mul_right (h.scdOf sp).chunkSize hlt
    rw [Nat.succ_mul] at this
    omega
  · exact heq
  · have := Nat.mul_le_mul_right (h.scdOf sp).chunkSize hlt
    rw [Nat.succ_mul] at this
    omega

theorem inBlock_chunk (hr : ScanReady h) {sp i : Nat} (hsp : sp ∈ h.superPages)
    (hi : i < (h.scdOf sp).numChunks) (a : Nat) :
    h.InBlock (addressOfChunk sp i (h.scdOf sp)) a ↔ h.chunkHolds sp i a := by
  rw [InBlock, (chunk_in_region hr hsp hi).2.2]
  rfl

theorem chunkHolds_region (hr : ScanReady h) {sp i a : Nat} (hsp : sp ∈ h.superPages)
    (hi : i < (h.scdOf sp).numChunks) (ha : h.chunkHolds sp i a) :
    kAllocatorSpace ≤ a ∧ a < kAllocatorSpace + kAllocatorSize := by
  have e := chunk_end_le (hr.valid hsp) hi
  obtain ⟨-, hlo, hhi⟩ := superPage_in_region hr hsp
  unfold chunkHolds addressOfChunk at ha
  omega

theorem chunkHolds_superPage (hr : ScanReady h) {sp i a : Nat} (hsp : sp ∈ h.superPages)
    (hi : i < (h.scdOf sp).numChunks) (ha : h.chunkHolds sp i a) : sp ≤ a ∧ a < sp + kSuperPageSize := by
  have e := chunk_end_le (hr.valid hsp) hi
  unfold chunkHolds addressOfChunk at ha
  omega

theorem inBlock_congr {p : Nat}
    (he : h'.scdOf (roundDownTo p kSuperPageSize) = h.scdOf (roundDownTo p kSuperPageSize)) (a : Nat) :
    h'.InBlock p a ↔ h.InBlock p a := by
  rw [InBlock, InBlock, he]

theorem Live.ne_zero (hr : ScanReady h) {p : Nat} (hl : h.Live p) : p ≠ 0 := by
  obtain ⟨sp, hsp, i, hi, rfl, -⟩ := hl
  have := (chunk_in_region hr hsp hi).1
  unfold kAllocatorSpace at this
  omega

theorem not_inUse_of_available {sp i : Nat} (ha : h.state sp i = available) : ¬h.InUse sp i := by
  unfold InUse; rw [ha]; decide

theorem not_inUse_of_quarantined {sp i : Nat} (hq : h.state sp i = quarantined) : ¬h.InUse sp i := by
  unfold InUse; rw [hq]; decide

theorem Owns.keeps (ho : h.Owns live) (hf : h.Fresh) (hk : h.Keeps h') : h'.Owns live where
  held q hq := by
    obtain ⟨sp, hsp, i, hi, rfl, hu⟩ := ho.held q hq
    refine ⟨sp, hk.mem hsp, i, by rwa [hk.scdOf_eq hsp], by rw [hk.scdOf_eq hsp], ?_⟩
    unfold InUse; rwa [hk.state_eq]
  owned sp hsp i hi hu := by
    unfold InUse at hu
    rw [hk.state_eq] at hu
    by_cases hsp₀ : sp ∈ h.superPages
    · rw [hk.scdOf_eq hsp₀] at hi ⊢
      exact ho.owned sp hsp₀ i hi hu
    · exact absurd hu (not_inUse_of_available (hf sp hsp₀ i))

theorem Owns.claim (ho : h.Owns live) {sp k : Nat} {v : UInt8} (hr : ScanReady (h.setState sp k v))
    (hsp : sp ∈ h.superPages) (hk : k < (h.scdOf sp).numChunks) (hnu : ¬h.InUse sp k)
    (hv : v = usedMixed ∨ v = usedData) :
    (h.setState sp k v).Owns (addressOfChunk sp k (h.scdOf sp) :: live) ∧
      addressOfChunk sp k (h.scdOf sp) ∉ live := by
  refine ⟨⟨fun q hq => ?_, fun sp' hsp' i' hi' hu => ?_⟩, fun hmem => ?_⟩
  · rcases List.mem_cons.1 hq with rfl | hq
    · refine ⟨sp, hsp, k, hk, rfl, ?_⟩
      unfold InUse; rw [setState_state, if_pos ⟨rfl, rfl⟩]; exact hv
    · obtain ⟨sp', hsp', i', hi', rfl, hu⟩ := ho.held q hq
      have hne : ¬(sp' = sp ∧ i' = k) := fun ⟨h1, h2⟩ => hnu (h1 ▸ h2 ▸ hu)
      refine ⟨sp', hsp', i', hi', rfl, ?_⟩
      unfold InUse; rw [setState_state, if_neg hne]; exact hu
  · by_cases he : sp' = sp ∧ i' = k
    · obtain ⟨rfl, rfl⟩ := he
      exact List.mem_cons_self _ _
    · unfold InUse at hu
      rw [setState_state, if_neg he] at hu
      exact List.mem_cons_of_mem _ (ho.owned sp' hsp' i' hi' hu)
  · obtain ⟨sp', hsp', i', hi', he, hu⟩ := ho.held _ hmem
    obtain ⟨rfl, rfl⟩ := chunk_inj hr hsp hsp' hk hi' he
    exact hnu hu

theorem Owns.freed (ho : h.Owns live) (hnd : live.Nodup) (hr : ScanReady h) {sp i : Nat}
    (hf : h.Freed sp i h') (hi : i < (h.scdOf sp).numChunks) :
    h'.Owns (live.erase (addressOfChunk sp i (h.scdOf sp))) := by
  refine ⟨fun q hq => ?_, fun sp' hsp' i' hi' hu => ?_⟩
  · obtain ⟨hqp, hq⟩ := hnd.mem_erase_iff.1 hq
    obtain ⟨sp', hsp', i', hi', rfl, hu⟩ := ho.held q hq
    have hne : ¬(sp' = sp ∧ i' = i) := fun ⟨h1, h2⟩ => hqp (by rw [h1, h2])
    refine ⟨sp', hf.superPages_eq ▸ hsp', i', by rwa [hf.scdOf_eq], by rw [hf.scdOf_eq], ?_⟩
    unfold InUse; rw [hf.inUse_eq hne hu]; exact hu
  · rw [hf.superPages_eq] at hsp'
    rw [hf.scdOf_eq] at hi' ⊢
    have hne : ¬(sp' = sp ∧ i' = i) := by
      rintro ⟨rfl, rfl⟩
      rcases hf.freed with hfr | hfr
      exacts [not_inUse_of_available hfr hu, not_inUse_of_quarantined hfr hu]
    have hu₀ : h.InUse sp' i' := by
      rcases hf.other sp' i' hne with he | ⟨-, ha, -⟩
      · unfold InUse at hu ⊢; rwa [← he]
      · exact absurd hu (not_inUse_of_available ha)
    exact hnd.mem_erase_iff.2 ⟨fun he => hne (chunk_inj hr hsp' hf.mem hi' hi he), ho.owned sp' hsp' i' hi' hu₀⟩

theorem Settled.keeps (hs : h.Settled) (hk : h.Keeps h') : h'.Settled := fun sp i => by
  unfold InUse; rw [hk.state_eq]; exact hs sp i

theorem Settled.claim (hs : h.Settled) {sp k : Nat} {v : UInt8} (hv : v = usedMixed ∨ v = usedData) :
    (h.setState sp k v).Settled := fun sp' i' => by
  unfold InUse
  simp only [setState_state]
  split
  · exact .inr (.inl hv)
  · exact hs sp' i'

theorem Settled.freed (hs : h.Settled) {sp i : Nat} (hf : h.Freed sp i h') : h'.Settled := fun sp' i' => by
  by_cases he : sp' = sp ∧ i' = i
  · obtain ⟨rfl, rfl⟩ := he
    rcases hf.freed with hfr | hfr
    exacts [.inl hfr, .inr (.inr hfr)]
  · rcases hf.other sp' i' he with he' | ⟨-, ha, -⟩
    · unfold InUse; rw [he']; exact hs sp' i'
    · exact .inl ha

/-- With no byte `MARKED` or `RELEASING`, the state bytes of every super page are `AVAILABLE` or
odd, as `FindByte`'s `PEXT` search needs. -/
theorem Settled.zeroOrOdd (hs : h.Settled) (sp n : Nat) : StatesZeroOrOdd h sp n := fun i _ => by
  rcases hs sp i with h | (h | h) | h <;> rw [h] <;> decide

end Heap

/-- When `Allocate` returned a pointer, with tags that give back the region's addresses: it is
the start of a chunk, `AVAILABLE` once the super pages were mapped, of a super page of the class,
and the chunk is in use now. -/
theorem Allocated.some {tags : AddressTags} (ht : tags.UntagsRegion) {sc : Nat} {h h' : Heap}
    {res : Option Nat} (ha : Allocated tags sc h res h') (hr : ScanReady h') {p : Nat} (hp : res = some p) :
    ∃ h₁, h.Keeps h₁ ∧ ∃ sp ∈ h₁.superPages, h₁.sizeClassOf sp = sc ∧ ∃ k < (h₁.scdOf sp).numChunks,
      h₁.state sp k = available ∧ p = addressOfChunk sp k (h₁.scdOf sp) ∧
      ∃ v, (v = usedMixed ∨ v = usedData) ∧ h' = h₁.setState sp k v := by
  obtain ⟨h₁, hk, ⟨hnone, -⟩ | ⟨sp, hsp, hcls, q, hsome, k, hk', hav, rfl, hset⟩⟩ := ha
  · rw [hp] at hnone; cases hnone
  have hscd : h₁.scdOf sp = scDescr sc := by rw [Heap.scdOf, hcls]
  obtain ⟨v, hv, rfl⟩ : ∃ v, (v = usedMixed ∨ v = usedData) ∧ h' = h₁.setState sp k v :=
    hset.elim (fun e => ⟨_, .inl rfl, e⟩) (fun e => ⟨_, .inr rfl, e⟩)
  have hk₂ : k < (h₁.scdOf sp).numChunks := by rwa [hscd]
  obtain ⟨hlo, hhi, -⟩ := chunk_in_region hr hsp hk₂
  refine ⟨h₁, hk, sp, hsp, hcls, k, hk₂, hav, ?_, v, hv, rfl⟩
  rw [Option.some.inj (hp.symm.trans hsome), ← hscd]
  exact ht _ hlo hhi

theorem Allocated.keeps {tags : AddressTags} {sc : Nat} {h h' : Heap} {res : Option Nat}
    (ha : Allocated tags sc h res h') :
    (∀ r, h.numSuperPages r ≤ h'.numSuperPages r) ∧ (∀ sp ∈ h.superPages, h'.sizeClassOf sp = h.sizeClassOf sp) ∧
      ∀ a, h'.word a = h.word a ∨ ∃ sp ∈ h'.superPages, sp ∉ h.superPages ∧ sp ≤ a ∧ a < sp + kSuperPageSize := by
  obtain ⟨h₁, hk, ⟨-, rfl⟩ | ⟨_, _, _, _, _, _, _, _, _, hset⟩⟩ := ha
  · exact ⟨hk.numSuperPages_le, hk.sizeClassOf_eq, hk.word_eq⟩
  · rcases hset with rfl | rfl <;> exact ⟨hk.numSuperPages_le, hk.sizeClassOf_eq, hk.word_eq⟩

theorem Allocated.scdOf_block {tags : AddressTags} (ht : tags.UntagsRegion) {sc : Nat} {h h' : Heap}
    {res : Option Nat} (ha : Allocated tags sc h res h') (hr : ScanReady h') {p : Nat} (hp : res = Option.some p) :
    h'.scdOf (roundDownTo p kSuperPageSize) = scDescr sc := by
  obtain ⟨h₁, -, sp, hsp, hcls, k, hk, -, rfl, v, -, rfl⟩ := ha.some ht hr hp
  have e : roundDownTo (addressOfChunk sp k (h₁.scdOf sp)) kSuperPageSize = sp := (chunk_in_region hr hsp hk).2.2
  rw [e, Heap.scdOf_setState, Heap.scdOf, hcls]

theorem Allocated.inBlock {tags : AddressTags} (ht : tags.UntagsRegion) {sc : Nat} {h h' : Heap}
    {res : Option Nat} (ha : Allocated tags sc h res h') (hr : ScanReady h') {p : Nat} (hp : res = Option.some p)
    {a : Nat} (h1 : p ≤ a) (h2 : a < p + (scDescr sc).chunkSize) : h'.InBlock p a := by
  rw [Heap.InBlock, ha.scdOf_block ht hr hp]
  exact ⟨h1, h2⟩

/-- `Allocate` keeps the quarantine counters right: it maps super pages whose chunks are all
`AVAILABLE` and claims an `AVAILABLE` chunk, and leaves the thread's local quarantine as it was. -/
theorem Allocated.counted {tags : AddressTags} {sc : Nat} {h h' : Heap} {res : Option Nat}
    (ha : Allocated tags sc h res h') (hf : h.Fresh) (hr : ScanReady h') {tls tls' : TLS} (hc : Counted h tls)
    (hl : tls'.localQuarantineSize = tls.localQuarantineSize) : Counted h' tls' := by
  obtain ⟨h₁, hk, ⟨-, rfl⟩ | ⟨sp, hsp, hcls, p, -, k, hk', hav, -, hset⟩⟩ := ha
  · exact hc.keeps hk hf hr.range0_le hl
  · have hk₁ : k < (h₁.scdOf sp).numChunks := by rwa [Heap.scdOf, hcls]
    rcases hset with rfl | rfl <;>
      exact (hc.keeps hk hf hr.range0_le hl).setState hr.range0_le hsp hk₁ (by rw [hav]; decide) (by decide)

theorem Allocated.state_eq {tags : AddressTags} {sc : Nat} {h h' : Heap} {res : Option Nat}
    (ha : Allocated tags sc h res h') {sp i : Nat} (hne : h.state sp i ≠ available) :
    h'.state sp i = h.state sp i := by
  obtain ⟨h₁, hk, ⟨-, rfl⟩ | ⟨sp', -, -, p, -, k, -, hav, -, hset⟩⟩ := ha
  · exact hk.state_eq sp i
  · have hne' : ¬(sp = sp' ∧ i = k) := fun ⟨h1, h2⟩ => hne (by rw [← hk.state_eq, h1, h2]; exact hav)
    rcases hset with rfl | rfl <;> rw [Heap.setState_state, if_neg hne', hk.state_eq]

-- ---------------------------------------------------------------------------
-- What holds between calls
-- ---------------------------------------------------------------------------

namespace Thread

/-- What holds between the calls of a thread: the heap and the slots are ready for the next
call, no state byte is left `MARKED` or `RELEASING`, the pointers the thread holds are the
starts of the chunks in use, each once, and the quarantine counters are right. -/
structure Inv (t : Thread) : Prop where
  ready : Ready t.heap t.tls
  settled : t.heap.Settled
  nodup : t.live.Nodup
  owns : t.heap.Owns t.live
  counted : Counted t.heap t.tls

variable {t : Thread}

theorem inv_init : init.Inv where
  ready := ⟨scanReady_empty, fun _ _ _ => rfl, ⟨hintsBounded_init, fun _ h => absurd rfl h⟩,
    fun _ _ _ h => absurd h (Nat.not_lt_zero _)⟩
  settled _ _ := .inl rfl
  nodup := List.nodup_nil
  owns := ⟨fun _ h => absurd h (List.not_mem_nil _), fun _ h => by simp [mem_superPages, init, Heap.empty] at h⟩
  counted := counted_init

theorem Inv.allocated {tags : AddressTags} (ht : tags.UntagsRegion) (hi : t.Inv) {sc : Nat}
    {r : (Option Nat × TLS) × Heap} (hR : Ready r.2 r.1.2) (ha : Allocated tags sc t.heap r.1.1 r.2)
    (hl : r.1.2.localQuarantineSize = t.tls.localQuarantineSize) : (t.allocated r).Inv := by
  have hc : Counted r.2 r.1.2 := ha.counted hi.ready.fresh hR.scan hi.counted hl
  cases hres : r.1.1 with
  | none =>
    obtain ⟨h₁, hk, ⟨-, hr2⟩ | ⟨_, _, _, _, hsome, _⟩⟩ := ha
    · refine ⟨hR, ?_, ?_, ?_, hc⟩ <;> simp only [Thread.allocated, hres, Option.toList, List.nil_append, hr2]
      exacts [hi.settled.keeps hk, hi.nodup, hi.owns.keeps hi.ready.fresh hk]
    · rw [hres] at hsome; cases hsome
  | some p =>
    obtain ⟨h₁, hk, sp, hsp, -, k, hk', hav, rfl, v, hv, hr2⟩ := ha.some ht hR.scan hres
    obtain ⟨ho₂, hfresh⟩ := (hi.owns.keeps hi.ready.fresh hk).claim (hr2 ▸ hR.scan) hsp hk'
      (Heap.not_inUse_of_available hav) hv
    refine ⟨hR, ?_, ?_, ?_, hc⟩ <;> simp only [Thread.allocated, hres, Option.toList, hr2, List.singleton_append]
    exacts [(hi.settled.keeps hk).claim hv, List.nodup_cons.2 ⟨hfresh, hi.nodup⟩, ho₂]

theorem Inv.freed (hi : t.Inv) {sp i : Nat} (hi' : i < (t.heap.scdOf sp).numChunks) {h' : Heap} {tls' : TLS}
    (hR : Ready h' tls') (hf : t.heap.Freed sp i h') (hc : Counted h' tls') :
    (⟨h', tls', t.live.erase (addressOfChunk sp i (t.heap.scdOf sp))⟩ : Thread).Inv :=
  ⟨hR, hi.settled.freed hf, hi.nodup.erase _, hi.owns.freed hi.nodup hi.ready.scan hf hi', hc⟩

theorem Inv.withWords (hi : t.Inv) (w : Nat → Nat) (hw : ∀ a, w a < wordBound) :
    (⟨{ t.heap with word := w }, t.tls, t.live⟩ : Thread).Inv :=
  ⟨⟨⟨hi.ready.scan.1, hi.ready.scan.2, hw, hi.ready.scan.4, hi.ready.scan.5⟩, hi.ready.fresh,
    ⟨hi.ready.slots.1, hi.ready.slots.2⟩, hi.ready.ranged⟩, hi.settled, hi.nodup, ⟨hi.owns.1, hi.owns.2⟩,
    ⟨hi.counted.1, hi.counted.2⟩⟩

theorem Inv.block_region (hi : t.Inv) {p : Nat} (hp : p ∈ t.live) {a : Nat} (ha : t.heap.InBlock p a) :
    kAllocatorSpace ≤ a ∧ a < kAllocatorSpace + kAllocatorSize := by
  obtain ⟨sp, hsp, i, hi', rfl, -⟩ := hi.owns.held p hp
  exact Heap.chunkHolds_region hi.ready.scan hsp hi' ((Heap.inBlock_chunk hi.ready.scan hsp hi' a).1 ha)

theorem Inv.blocks_disjoint (hi : t.Inv) {p q : Nat} (hp : p ∈ t.live) (hq : q ∈ t.live) (hpq : p ≠ q)
    (a : Nat) : ¬(t.heap.InBlock p a ∧ t.heap.InBlock q a) := fun ⟨ha, ha'⟩ => by
  have hr := hi.ready.scan
  obtain ⟨sp, hsp, i, hi₁, rfl, -⟩ := hi.owns.held p hp
  obtain ⟨sp', hsp', i', hi₂, rfl, -⟩ := hi.owns.held q hq
  obtain ⟨rfl, rfl⟩ := Heap.chunk_overlap hr hsp hsp' hi₁ hi₂ ((Heap.inBlock_chunk hr hsp hi₁ a).1 ha)
    ((Heap.inBlock_chunk hr hsp' hi₂ a).1 ha')
  exact hpq rfl

theorem Inv.aligned (hi : t.Inv) {p : Nat} (hp : p ∈ t.live) : p % 16 = 0 ∧
    (p - roundDownTo p kSuperPageSize) % (t.heap.scdOf (roundDownTo p kSuperPageSize)).chunkSize = 0 := by
  obtain ⟨sp, hsp, i, hi', rfl, -⟩ := hi.owns.held p hp
  have hal := (superPage_in_region hi.ready.scan hsp).1
  have hd : 16 ∣ i * (t.heap.scdOf sp).chunkSize := Dvd.dvd.mul_left (Dvd.intro_left _ rfl) i
  rw [(chunk_in_region hi.ready.scan hsp hi').2.2]
  unfold addressOfChunk
  unfold kSuperPageSize at hal
  exact ⟨by omega, by rw [Nat.add_sub_cancel_left, Nat.mul_mod_left]⟩

theorem Inv.inBlock_word (hi : t.Inv) {p a : Nat} (hp : p ∈ t.live) (ha : t.heap.InBlock p a)
    (ha8 : a % 8 = 0) : t.heap.InBlock p (a + 7) := by
  have hp16 := (hi.aligned hp).1
  obtain ⟨sp, hsp, i, hi', rfl, -⟩ := hi.owns.held p hp
  have hmod := (hi.ready.scan.valid hsp).chunkSize_mod
  rw [Heap.inBlock_chunk hi.ready.scan hsp hi'] at ha ⊢
  unfold Heap.chunkHolds at *
  generalize addressOfChunk sp i (t.heap.scdOf sp) = q at *
  generalize (t.heap.scdOf sp).chunkSize = c at *
  omega

/-- What call `c` did, read from the model of each C function: the one reading of a call that
the invariant and the results about runs are proved from. -/
inductive Step (tags : AddressTags) (t : Thread) : Call → Thread → Prop
  /-- `malloc`, `calloc` or `posix_memalign`: `Allocate` of some class, which leaves the local
  quarantine alone; `calloc` then zeroes words of the block it returned, and no other word. -/
  | alloc {c : Call} {sc : Nat} {r : (Option Nat × TLS) × Heap} (w : Nat → Nat) : c.Allocating →
      Ready r.2 r.1.2 → Allocated tags sc t.heap r.1.1 r.2 → r.1.2.localQuarantineSize = t.tls.localQuarantineSize →
      (∀ a, w a = r.2.word a ∨ w a = 0 ∧ ∃ p, r.1.1 = some p ∧ r.2.InBlock p a) →
      Step tags t c ⟨{ r.2 with word := w }, r.1.2, r.1.1.toList ++ t.live⟩
  /-- `free` of a held pointer: its chunk freed, and maybe a `Scan`, keeping the counters right. -/
  | free {sp i : Nat} {h' : Heap} {tls' : TLS} : i < (t.heap.scdOf sp).numChunks → t.heap.InUse sp i →
      Ready h' tls' → t.heap.Freed sp i h' → (Counted t.heap t.tls → Counted h' tls') →
      Step tags t (.free (addressOfChunk sp i (t.heap.scdOf sp)))
        ⟨h', tls', t.live.erase (addressOfChunk sp i (t.heap.scdOf sp))⟩
  /-- `free(NULL)`. -/
  | freeNull : Step tags t (.free 0) t
  /-- A store of a 64-bit word. -/
  | store (a v : Nat) : Step tags t (.store a v) ⟨t.heap.setWord a (v % wordBound), t.tls, t.live⟩

section Step

variable {tags : AddressTags} {c : Call} {t' : Thread}

theorem Inv.step (ht : tags.UntagsRegion) (hi : t.Inv) (hs : Step tags t c t') : t'.Inv := by
  cases hs with
  | alloc w _ hR ha hl hw =>
    refine (hi.allocated ht hR ha hl).withWords w fun a => ?_
    rcases hw a with e | ⟨e, -⟩ <;> rw [e]
    exacts [hR.scan.words a, Nat.two_pow_pos 64]
  | free hi' _ hR hf hc => exact hi.freed hi' hR hf (hc hi.counted)
  | freeNull => exact hi
  | store a v =>
    refine hi.withWords _ fun a' => ?_
    rw [Function.update_apply]
    split
    exacts [Nat.mod_lt _ (Nat.two_pow_pos 64), hi.ready.scan.words a']

theorem Step.quarantined (hs : Step tags t c t') {sp i : Nat} (hq : t.heap.state sp i = quarantined) :
    t'.heap.state sp i = quarantined ∨ t'.heap.state sp i = available ∧ t'.heap.pointedInto sp i = false := by
  cases hs with
  | alloc w _ _ ha _ _ => exact .inl ((ha.state_eq (by rw [hq]; decide)).trans hq)
  | @free sp₀ i₀ _ _ _ hu _ hf _ =>
    by_cases he : sp = sp₀ ∧ i = i₀
    · obtain ⟨rfl, rfl⟩ := he
      exact absurd hu (Heap.not_inUse_of_quarantined hq)
    · rcases hf.other sp i he with he' | ⟨-, ha, hp⟩
      exacts [.inl (he'.trans hq), .inr ⟨ha, hp⟩]
  | freeNull | store _ _ => exact .inl hq

theorem Step.keepsPages (hs : Step tags t c t') :
    (∀ r, t.heap.numSuperPages r ≤ t'.heap.numSuperPages r) ∧
      ∀ sp ∈ t.heap.superPages, t'.heap.sizeClassOf sp = t.heap.sizeClassOf sp := by
  cases hs with
  | alloc w _ _ ha _ _ => exact ⟨ha.keeps.1, ha.keeps.2.1⟩
  | free _ _ _ hf _ => exact ⟨fun r => by rw [hf.numSuperPages_eq], fun sp _ => hf.sizeClassOf_eq sp⟩
  | freeNull | store _ _ => exact ⟨fun _ => le_rfl, fun _ _ => rfl⟩

theorem Step.live_mem (hs : Step tags t c t') {p : Nat} (hp : p ∈ t.live) (hne : c ≠ .free p) : p ∈ t'.live := by
  cases hs with
  | alloc => exact List.mem_append_right _ hp
  | free => exact (List.mem_erase_of_ne fun e => hne (by rw [e])).2 hp
  | freeNull | store _ _ => exact hp

theorem Step.inBlock (hi : t.Inv) (hs : Step tags t c t') {p : Nat} (hp : p ∈ t.live) (a : Nat) :
    t'.heap.InBlock p a ↔ t.heap.InBlock p a := by
  obtain ⟨sp, hsp, i, hi', rfl, -⟩ := hi.owns.held p hp
  refine Heap.inBlock_congr ?_ a
  rw [(chunk_in_region hi.ready.scan hsp hi').2.2]
  exact congrArg scDescr (hs.keepsPages.2 sp hsp)

/-- A step changes no word of a block the thread holds before and after it, unless it is a store
to that word: `AllocateSuperPage` maps only super pages no block lies in, and `calloc` zeroes only
the new block, which no held block overlaps. -/
theorem Step.word_eq (hi : t.Inv) (hs : Step tags t c t') (hi' : t'.Inv) {p a : Nat} (hp : p ∈ t.live)
    (hp' : p ∈ t'.live) (ha : t.heap.InBlock p a) (hst : ∀ v, c ≠ .store a v) : t'.heap.word a = t.heap.word a := by
  have hr := hi.ready.scan
  cases hs with
  | @alloc _ _ r w _ hR ha' _ hw =>
    obtain ⟨sp₀, hsp₀, i, hi₀, rfl, -⟩ := hi.owns.held p hp
    obtain ⟨-, hcls, hword⟩ := ha'.keeps
    rcases hw a with e | ⟨-, q, hq, hqa⟩
    · refine e.trans ((hword a).resolve_right fun ⟨sp, hsp, hnew, hlo, hhi⟩ => hnew ?_)
      -- the new super page and the held block's super page share the address, so they are one
      have ⟨hlo₀, hhi₀⟩ := Heap.chunkHolds_superPage hr hsp₀ hi₀ ((Heap.inBlock_chunk hr hsp₀ hi₀ a).1 ha)
      have a₀ := (superPage_in_region hr hsp₀).1
      have a₁ := (superPage_in_region hR.scan hsp).1
      unfold kSuperPageSize at *
      obtain rfl : sp = sp₀ := by omega
      exact hsp₀
    · -- the block `calloc` zeroed is the new one, which the held block does not overlap
      have hlive : (q :: t.live).Nodup := by simpa only [hq, Option.toList, List.singleton_append] using hi'.nodup
      have hpq : addressOfChunk sp₀ i (t.heap.scdOf sp₀) ≠ q := fun e => (List.nodup_cons.1 hlive).1 (e ▸ hp)
      have he : r.2.scdOf (roundDownTo (addressOfChunk sp₀ i (t.heap.scdOf sp₀)) kSuperPageSize) =
          t.heap.scdOf (roundDownTo (addressOfChunk sp₀ i (t.heap.scdOf sp₀)) kSuperPageSize) := by
        rw [(chunk_in_region hr hsp₀ hi₀).2.2]
        exact congrArg scDescr (hcls sp₀ hsp₀)
      have hpa := (Heap.inBlock_congr he a).2 ha
      exact absurd ⟨hpa, hqa⟩ (hi'.blocks_disjoint hp' (by simp only [hq, Option.toList,
        List.singleton_append, List.mem_cons_self]) hpq a)
  | free _ _ _ hf _ => exact congrFun hf.word_eq a
  | freeNull => rfl
  | store a₀ v =>
    have hne : a ≠ a₀ := fun e => hst v (by rw [e])
    exact Function.update_noteq hne _ _

end Step

end Thread

-- ---------------------------------------------------------------------------
-- What each call does
-- ---------------------------------------------------------------------------

theorem except_map_ok {α β : Type} {f : α → β} {x : Except Fault α} {b : β} (h : x.map f = .ok b) :
    ∃ a, x = .ok a ∧ f a = b := by
  cases x with
  | error e => cases h
  | ok a => exact ⟨a, rfl, Except.ok.inj h⟩

section Calls

variable {cfg : MallocConfig} {tags : AddressTags} {casFails : Nat → Bool} {mmap : Nat → Option Nat}
  {self fuel : Nat}

theorem malloc_eq_allocate {size : Nat} (hs : size ≤ kMaxSizeClass) (tls : TLS) :
    malloc cfg tags casFails mmap self fuel size tls =
      allocate cfg tags casFails self (if size < 8 then 1 else size) fuel tls := by
  have hk : kMaxSizeClass = 262144 := rfl
  have hle : ¬(if size < 8 then 1 else size) > kMaxSizeClass := by split <;> omega
  simp only [malloc, if_neg hle]

theorem malloc_ok (hsh : cfg.useShadow = false) {h : Heap} {tls : TLS} (hR : Ready h tls) {size : Nat}
    (hs : size ≤ kMaxSizeClass) {r : (Option Nat × TLS) × Heap}
    (hrun : malloc cfg tags casFails mmap self fuel size tls h = .ok r)
    (hfit : ∀ rn < 2, r.2.numSuperPages rn ≤ 2 ^ 20) :
    ∃ sc, size ≤ (scDescr sc).chunkSize ∧ Ready r.2 r.1.2 ∧
      r.1.2.localQuarantineSize = tls.localQuarantineSize ∧ Allocated tags sc h r.1.1 r.2 := by
  rw [malloc_eq_allocate hs] at hrun
  have hk : kMaxSizeClass = 262144 := rfl
  have h1 : 1 ≤ (if size < 8 then 1 else size) := by split <;> omega
  have hmax : (if size < 8 then 1 else size) ≤ kMaxSizeClass := by split <;> omega
  obtain ⟨hsc, hfits⟩ := sizeToSizeClass_fits h1 hmax
  refine ⟨_, ?_, allocate_ok hsh h1 hmax hR hrun (hfit _ (scDescr_valid hsc).1.rangeNum_lt)⟩
  have hge := (scDescr_valid hsc).1.chunkSize_ge
  generalize (scDescr (sizeToSizeClass scDescr (if size < 8 then 1 else size)).1).chunkSize = cs at hfits hge ⊢
  by_cases h8 : size < 8 <;> simp only [h8, if_true, if_false] at hfits <;> omega

/-- `calloc` is `malloc` of the 64-bit product, then zeroes the block it returned: it changes
only words, a word only to 0 and within the product's bytes from the pointer, and every word of
those bytes. -/
theorem calloc_ok {nmemb size : Nat} {tls : TLS} {h : Heap} {r : (Option Nat × TLS) × Heap}
    (hrun : calloc cfg tags casFails mmap self fuel nmemb size tls h = .ok r) :
    ∃ r₀, malloc cfg tags casFails mmap self fuel (nmemb * size % wordBound) tls h = .ok r₀ ∧ r.1 = r₀.1 ∧
      r.2 = { r₀.2 with word := r.2.word } ∧ (∀ a, r.2.word a = r₀.2.word a ∨
        r.2.word a = 0 ∧ ∃ p, r₀.1.1 = some p ∧ p ≤ a ∧ a < p + nmemb * size % wordBound) ∧
      ∀ p, r₀.1.1 = some p → ∀ a, p ≤ a → a < p + nmemb * size % wordBound → r.2.word a = 0 := by
  unfold calloc at hrun
  obtain ⟨⟨res, tls₀⟩, h₀, hm, hrest⟩ := HeapM.ok_bind hrun
  refine ⟨_, hm, ?_⟩
  cases res with
  | none => cases hrest; exact ⟨rfl, rfl, fun _ => .inl rfl, fun _ hp => Option.noConfusion hp⟩
  | some p =>
    obtain ⟨_, _, hmod, hrest⟩ := HeapM.ok_bind hrest
    cases hmod
    cases hrest
    refine ⟨rfl, rfl, fun a => ?_, fun q hq a h1 h2 => ?_⟩
    · simp only [Heap.zeroWords]
      split
      exacts [.inr ⟨rfl, p, rfl, ‹_›⟩, .inl rfl]
    · obtain rfl := Option.some.inj hq
      exact if_pos ⟨h1, h2⟩

theorem posixMemalign_eq_malloc {alignment size : Nat} (ha : alignment ≤ 4096) (tls : TLS) :
    ∃ size' ≤ size, posixMemalign cfg tags casFails mmap self fuel alignment size tls =
      malloc cfg tags casFails mmap self fuel size' tls := by
  unfold posixMemalign
  split
  · exact ⟨size, le_rfl, rfl⟩
  · exact ⟨roundDownTo size alignment, Nat.and_le_left, rfl⟩

theorem free_region {p : Nat} (hlo : kAllocatorSpace ≤ p) (hhi : p < kAllocatorSpace + kAllocatorSize)
    (quarantineSize : Nat) (tls : TLS) :
    free cfg tags p quarantineSize tls =
      if quarantineSize = 0 then (do deallocate cfg tags p; pure tls)
      else quarantineAndMaybeScan cfg tags p (quarantineSize <<< 20 % wordBound) tls := by
  have hp0 : p ≠ 0 := by unfold kAllocatorSpace at hlo; omega
  have hmine : isMine cfg p = true := by
    unfold isMine kAllocatorSize at *
    split <;> simp only [decide_eq_true_eq] <;> omega
  simp only [free, if_neg hp0, hmine, if_true]

theorem free_chunk {h : Heap} (hr : ScanReady h) {sp i : Nat} (hsp : sp ∈ h.superPages)
    (hi : i < (h.scdOf sp).numChunks) (quarantineSize : Nat) (tls : TLS) :
    free cfg tags (addressOfChunk sp i (h.scdOf sp)) quarantineSize tls =
      if quarantineSize = 0 then (do deallocate cfg tags (addressOfChunk sp i (h.scdOf sp)); pure tls)
      else quarantineAndMaybeScan cfg tags (addressOfChunk sp i (h.scdOf sp))
        (quarantineSize <<< 20 % wordBound) tls :=
  free_region (chunk_in_region hr hsp hi).1 (chunk_in_region hr hsp hi).2.1 quarantineSize tls

theorem free_interior (hsh : cfg.useShadow = false) (ht : tags.UntagsRegion) {h : Heap} (hr : ScanReady h)
    {sp a : Nat} (hsp : sp ∈ h.superPages) (ha : sp ≤ a ∧ a < sp + kSuperPageSize)
    (hna : ∀ i < (h.scdOf sp).numChunks, a ≠ addressOfChunk sp i (h.scdOf sp)) (quarantineSize : Nat)
    (tls : TLS) : free cfg tags a quarantineSize tls h = .error .trap := by
  obtain ⟨-, hlo, hhi⟩ := superPage_in_region hr hsp
  rw [free_region (by omega) (by omega)]
  split
  · simp only [HeapM.run_bind, deallocate_interior hsh ht hr hsp ha hna]
  · exact quarantineAndMaybeScan_interior hsh ht hr hsp ha hna _ tls

namespace Thread

variable {t : Thread} (hsh : cfg.useShadow = false) (ht : tags.UntagsRegion)
include hsh ht

theorem free_held (hi : t.Inv) {p : Nat} (hp : p ∈ t.live) (quarantineSize : Nat) :
    ∃ sp i, i < (t.heap.scdOf sp).numChunks ∧ p = addressOfChunk sp i (t.heap.scdOf sp) ∧
      t.heap.InUse sp i ∧ ∃ r, MTMalloc.free cfg tags p quarantineSize t.tls t.heap = .ok r ∧
        Ready r.2 r.1 ∧ t.heap.Freed sp i r.2 ∧ (Counted t.heap t.tls → Counted r.2 r.1) := by
  obtain ⟨sp, hsp, i, hi', rfl, hu⟩ := hi.owns.held p hp
  refine ⟨sp, i, hi', rfl, hu, ?_⟩
  rw [free_chunk hi.ready.scan hsp hi']
  split
  · rw [HeapM.run_bind, deallocate_chunk hsh ht hi.ready.scan hsp hi', if_pos hu]
    exact ⟨_, rfl, hi.ready.setState hsp i (by decide), Heap.freed_setState hsp (.inl rfl),
      fun hc => hc.setState hi.ready.scan.range0_le hsp hi' (fun hq => Heap.not_inUse_of_quarantined hq hu)
        (by decide)⟩
  · exact quarantineAndMaybeScan_chunk hsh ht hi.ready hsp hi' hu _

theorem free_not_held (hi : t.Inv) {sp i : Nat} (hsp : sp ∈ t.heap.superPages)
    (hi' : i < (t.heap.scdOf sp).numChunks) (hp : addressOfChunk sp i (t.heap.scdOf sp) ∉ t.live)
    (quarantineSize : Nat) :
    MTMalloc.free cfg tags (addressOfChunk sp i (t.heap.scdOf sp)) quarantineSize t.tls t.heap =
      .error .doubleFree := by
  have hnu : ¬t.heap.InUse sp i := fun hu => hp (hi.owns.owned sp hsp i hi' hu)
  rw [free_chunk hi.ready.scan hsp hi']
  split
  · rw [HeapM.run_bind, deallocate_chunk hsh ht hi.ready.scan hsp hi', if_neg hnu]
  · exact quarantineAndMaybeScan_chunk_doubleFree hsh ht hi.ready.scan hsp hi' hnu _

/-- Every call the program is allowed to make, while the ranges stay within their halves, is
read by `Step`. -/
theorem call_step (hi : t.Inv) {quarantineSize : Nat} {c : Call} (hc : c.Allowed t) {t' : Thread}
    (hrun : t.call cfg tags casFails mmap self fuel quarantineSize c = .ok t')
    (hfit : ∀ r < 2, t'.heap.numSuperPages r ≤ 2 ^ 20) : Step tags t c t' := by
  cases c with
  | malloc size =>
    obtain ⟨r, hm, rfl⟩ := except_map_ok hrun
    obtain ⟨_, -, hR, hl, ha⟩ := malloc_ok hsh hi.ready hc hm hfit
    exact .alloc r.2.word trivial hR ha hl fun _ => .inl rfl
  | calloc nmemb size =>
    obtain ⟨r, hm, rfl⟩ := except_map_ok hrun
    obtain ⟨r₀, hm₀, e₁, e₂, hw, -⟩ := calloc_ok hm
    obtain ⟨_, hsize, hR, hl, ha⟩ := malloc_ok hsh hi.ready hc hm₀ fun rn hrn => by
      have := hfit rn hrn
      rwa [show (t.allocated r).heap = r.2 from rfl, e₂] at this
    have e : t.allocated r = ⟨{ r₀.2 with word := r.2.word }, r₀.1.2, r₀.1.1.toList ++ t.live⟩ := by
      rw [← e₂, ← e₁]; rfl
    rw [e]
    exact .alloc _ trivial hR ha hl fun a => (hw a).imp_right fun ⟨h0, p, hp, hlo, hhi⟩ =>
      ⟨h0, p, hp, ha.inBlock ht hR.scan hp hlo (by omega)⟩
  | posixMemalign alignment size =>
    obtain ⟨r, hm, rfl⟩ := except_map_ok hrun
    obtain ⟨size', hle, he⟩ : ∃ size' ≤ size, posixMemalign cfg tags casFails mmap self fuel alignment size
        t.tls = malloc cfg tags casFails mmap self fuel size' t.tls := posixMemalign_eq_malloc hc.1 t.tls
    rw [he] at hm
    obtain ⟨_, -, hR, hl, ha⟩ := malloc_ok hsh hi.ready (hle.trans hc.2) hm hfit
    exact .alloc r.2.word trivial hR ha hl fun _ => .inl rfl
  | free p =>
    obtain ⟨r, hm, rfl⟩ := except_map_ok hrun
    rcases hc with rfl | hp
    · cases hm
      rw [List.erase_of_not_mem fun h0 => (hi.owns.held 0 h0).ne_zero hi.ready.scan rfl]
      exact .freeNull
    · obtain ⟨sp, i, hi', rfl, hu, r', hfree, hR, hf, hcnt⟩ := free_held hsh ht hi hp quarantineSize
      rw [hfree] at hm
      cases hm
      exact .free hi' hu hR hf hcnt
  | store addr value =>
    cases hrun
    exact .store addr value

/-- Every state a thread reaches keeps the invariant. -/
theorem Reachable.inv {quarantineSize : Nat}
    (hreach : Reachable cfg tags mmap self fuel quarantineSize t) : t.Inv := by
  induction hreach with
  | init => exact inv_init
  | step _ hc hrun hfit ih => exact ih.step ht (call_step hsh ht ih hc hrun hfit)

omit ht in
theorem Inv.malloc_returns (hi : t.Inv) (hcas : ∀ k, casFails k = false) {size : Nat}
    (hs : size ≤ kMaxSizeClass) (hroom : ∀ rn < 2, t.heap.numSuperPages rn < 2 ^ 20) :
    ∃ r p, MTMalloc.malloc cfg tags casFails mmap self (fuel + 2) size t.tls t.heap = .ok r ∧
      r.1.1 = some p ∧ ∀ rn, r.2.numSuperPages rn ≤ t.heap.numSuperPages rn + 1 := by
  have hk : kMaxSizeClass = 262144 := rfl
  have h1 : 1 ≤ (if size < 8 then 1 else size) := by split <;> omega
  have hmax : (if size < 8 then 1 else size) ≤ kMaxSizeClass := by split <;> omega
  obtain ⟨r, hrun, hsome, hnum⟩ := allocate_returns hsh hcas h1 hmax hi.ready
    (hroom _ (scDescr_valid (sizeToSizeClass_fits h1 hmax).1).1.rangeNum_lt)
  obtain ⟨p, hp⟩ := Option.isSome_iff_exists.1 hsome
  rw [malloc_eq_allocate hs]
  exact ⟨r, p, hrun, hp, hnum⟩

end Thread

end Calls

end MTMalloc

import MTMalloc.Entry

/-!
# The large allocator with an alignment

`part_001` is a version of `mtmalloc_large.h` whose `LargeAllocator::Allocate` takes an
alignment: it maps the rounded size, a header page and, above a page, the alignment as
slack, places the block at the first aligned address past the start of the mapping with
the header page right below it, and gives both slack ends back to the kernel.

When nothing wraps, the block and its header lie in the mapping, the slack calls cover
exactly the rest of it, the header records the length of what stays mapped, and
`Deallocate` hands exactly that range back.
-/

namespace MTMalloc.AlignedLarge

/-- A call to the kernel after the first `mmap`. -/
inductive OsCall where
  /-- `munmap(Addr, Len)`. -/
  | munmap (addr len : Nat)
  /-- `mmap(Addr, Len, PROT_NONE, MAP_FIXED ...)`, the fence of `Deallocate`. -/
  | protect (addr len : Nat)
  deriving DecidableEq, Repr

/-- Memory as the large allocator sees it: the words it stores, and its kernel calls in
order. -/
structure Mem where
  word : Nat → Nat
  calls : List OsCall

/-- `LargeAllocator::Allocate(Size, Alignment)`. `mmap` gives the address the kernel
returns for a length; `-1` is `MAP_FAILED`. -/
def allocate (mmap : Nat → Nat) (size alignment : Nat) (m : Mem) : Except Fault (Nat × Mem) := do
  let alignment := if alignment < kCpuPageSize then kCpuPageSize else alignment
  let roundedSize := roundUpTo size kCpuPageSize
  let sizeWithHeader := (roundedSize + kCpuPageSize) % wordBound
  let sizeWithSlackForAlignment :=
    if alignment > kCpuPageSize then (sizeWithHeader + alignment) % wordBound else sizeWithHeader
  let map := mmap sizeWithSlackForAlignment
  let endMap := (map + sizeWithSlackForAlignment) % wordBound
  if map = wordBound - 1 then throw .trap
  let ret := roundUpTo (map + 1) alignment
  let end_ := (ret + roundedSize) % wordBound
  if ¬ ret > map then throw .assertion
  if ¬ end_ ≤ endMap then throw .assertion
  let hdr := sub64 ret kCpuPageSize
  if ¬ hdr ≥ map then throw .assertion
  let leftSlack := if map < hdr then [OsCall.munmap map (hdr - map)] else []
  let rightSlack := if end_ < endMap then [OsCall.munmap end_ (endMap - end_)] else []
  let word := Function.update (Function.update (Function.update m.word hdr kLeftHeaderMagic)
    (hdr + 8) sizeWithHeader) (hdr + 16) kRightHeaderMagic
  pure ((hdr + kCpuPageSize) % wordBound, ⟨word, m.calls ++ leftSlack ++ rightSlack⟩)

/-- `LargeAllocator::GetHeader(Ptr)`: it traps only when both magics are wrong. -/
def getHeader (ptr : Nat) (m : Mem) : Except Fault Nat := do
  let header := sub64 ptr kCpuPageSize
  if m.word header ≠ kLeftHeaderMagic ∧ m.word (header + 16) ≠ kRightHeaderMagic then throw .trap
  pure header

/-- `LargeAllocator::GetPtrChunkSize(Ptr)`: `Header[1] - kCpuPageSize`. -/
def getPtrChunkSize (ptr : Nat) (m : Mem) : Except Fault Nat := do
  let header ← getHeader ptr m
  pure (sub64 (m.word (header + 8)) kCpuPageSize)

/-- `LargeAllocator::Deallocate(Ptr, Protect)`: `Header[1]` bytes from the header are
made inaccessible or given back. -/
def deallocate (ptr : Nat) (protect : Bool) (m : Mem) : Except Fault Mem := do
  let header ← getHeader ptr m
  let mmapSize := m.word (header + 8)
  pure { m with calls := m.calls ++ [if protect then .protect header mmapSize else .munmap header mmapSize] }

-- ---------------------------------------------------------------------------
-- The layout without wrap-around
-- ---------------------------------------------------------------------------

/-- `RoundUpTo(Size, kCpuPageSize)` computed without wrap-around. -/
def pageRoundUp (size : Nat) : Nat := (size + kCpuPageSize - 1) / kCpuPageSize * kCpuPageSize

/-- `SizeWithSlackForAlignment` computed without wrap-around. -/
def mapLength (size alignment : Nat) : Nat :=
  pageRoundUp size + kCpuPageSize + if kCpuPageSize < alignment then alignment else 0

theorem le_pageRoundUp (size : Nat) : size ≤ pageRoundUp size := by
  unfold pageRoundUp kCpuPageSize; omega

theorem roundUpTo_page {size : Nat} (h : size + kCpuPageSize - 1 < wordBound) :
    roundUpTo size kCpuPageSize = pageRoundUp size :=
  roundUpTo_pow h (by decide)

/-- The alignment below a page is raised to a page: a power of two becomes `2 ^ max k 12`. -/
theorem alignment_raised (k : Nat) :
    (if 2 ^ k < kCpuPageSize then kCpuPageSize else 2 ^ k) = 2 ^ max k 12 := by
  unfold kCpuPageSize
  by_cases hk : k < 12
  · rw [if_pos (Nat.pow_lt_pow_right (by decide) hk), Nat.max_eq_right hk.le]
  · rw [if_neg (fun h => hk ((Nat.pow_lt_pow_iff_right (by decide)).1 h)),
      Nat.max_eq_left (by omega)]

theorem alignUp_facts {map j : Nat} (hmap : map % kCpuPageSize = 0) (hj : 12 ≤ j) :
    (map + 2 ^ j) / 2 ^ j * 2 ^ j % 2 ^ j = 0 ∧
      map + kCpuPageSize ≤ (map + 2 ^ j) / 2 ^ j * 2 ^ j ∧
      (map + 2 ^ j) / 2 ^ j * 2 ^ j ≤ map + 2 ^ j := by
  have hpos : 0 < 2 ^ j := Nat.pos_pow_of_pos j (by decide)
  have hgt : map < (map + 2 ^ j) / 2 ^ j * 2 ^ j := by
    have := Nat.lt_div_mul_add (a := map + 2 ^ j) hpos; omega
  have hpage : (map + 2 ^ j) / 2 ^ j * 2 ^ j % kCpuPageSize = 0 :=
    Nat.mod_eq_zero_of_dvd (Dvd.dvd.mul_left (Nat.pow_dvd_pow 2 hj) _)
  refine ⟨Nat.mul_mod_left _ _, ?_, Nat.div_mul_le_self _ _⟩
  unfold kCpuPageSize at *; omega

theorem sizeWithSlack_eq {size k : Nat} (hfit : pageRoundUp size + kCpuPageSize + 2 ^ k < wordBound) :
    (if 2 ^ max k 12 > kCpuPageSize then (pageRoundUp size + kCpuPageSize + 2 ^ max k 12) % wordBound
      else pageRoundUp size + kCpuPageSize) = mapLength size (2 ^ k) := by
  unfold mapLength
  rcases Nat.lt_or_ge 12 k with hk | hk
  · have h2 : kCpuPageSize < 2 ^ k := Nat.pow_lt_pow_right (by decide) hk
    rw [Nat.max_eq_left hk.le, if_pos h2, if_pos h2, Nat.mod_eq_of_lt hfit]
  · have h2 : ¬ kCpuPageSize < 2 ^ k := fun h => by
      have := (Nat.pow_lt_pow_iff_right (by decide)).1 h; omega
    rw [Nat.max_eq_right hk, if_neg (show ¬ 2 ^ 12 > kCpuPageSize by decide), if_neg h2, Nat.add_zero]

theorem raised_le_mapLength (size k : Nat) :
    pageRoundUp size + 2 ^ max k 12 ≤ mapLength size (2 ^ k) := by
  unfold mapLength
  rcases Nat.lt_or_ge 12 k with hk | hk
  · rw [Nat.max_eq_left hk.le,
      if_pos (show kCpuPageSize < 2 ^ k from Nat.pow_lt_pow_right (by decide) hk)]; omega
  · rw [Nat.max_eq_right hk]; unfold kCpuPageSize; omega

/-- When nothing wraps, `Allocate(Size, 2^k)` returns `hdr + kCpuPageSize`, the first
multiple of the raised alignment above the start `map` of the mapping, stores the three header
words in the page `hdr` below it, and unmaps the slack on either side when there is any. -/
theorem allocate_run {mmap : Nat → Nat} {size k map hdr : Nat} (m : Mem)
    (hfit : pageRoundUp size + kCpuPageSize + 2 ^ k < wordBound)
    (hmap : mmap (mapLength size (2 ^ k)) = map) (hpage : map % kCpuPageSize = 0)
    (hroom : map + mapLength size (2 ^ k) < wordBound)
    (hret : (map + 2 ^ max k 12) / 2 ^ max k 12 * 2 ^ max k 12 = hdr + kCpuPageSize) :
    allocate mmap size (2 ^ k) m = .ok (hdr + kCpuPageSize,
      ⟨Function.update (Function.update (Function.update m.word hdr kLeftHeaderMagic)
          (hdr + 8) (pageRoundUp size + kCpuPageSize)) (hdr + 16) kRightHeaderMagic,
        m.calls ++ (if map < hdr then [.munmap map (hdr - map)] else []) ++
          (if hdr + kCpuPageSize + pageRoundUp size < map + mapLength size (2 ^ k) then
            [.munmap (hdr + kCpuPageSize + pageRoundUp size)
              (map + mapLength size (2 ^ k) - (hdr + kCpuPageSize + pageRoundUp size))]
          else [])⟩) := by
  have hP : kCpuPageSize = 4096 := rfl
  have hRS := le_pageRoundUp size
  have hAS := raised_le_mapLength size k
  have hApos : 0 < 2 ^ max k 12 := Nat.pos_pow_of_pos _ (by decide)
  obtain ⟨-, hlo, hhi⟩ := alignUp_facts hpage (le_max_right k 12)
  rw [hret] at hlo hhi
  have h64 : max k 12 ≤ 64 := ((Nat.pow_lt_pow_iff_right (by decide)).1
    (show 2 ^ max k 12 < 2 ^ 64 by unfold wordBound at hroom; omega)).le
  have hround : roundUpTo (map + 1) (2 ^ max k 12) = hdr + kCpuPageSize := by
    rw [roundUpTo_pow (show map + 1 + 2 ^ max k 12 - 1 < wordBound by omega) h64,
      show map + 1 + 2 ^ max k 12 - 1 = map + 2 ^ max k 12 by omega, hret]
  have hsub : sub64 (hdr + kCpuPageSize) kCpuPageSize = hdr := by
    have : hdr + kCpuPageSize < wordBound := by omega
    unfold sub64 wordBound kCpuPageSize at *; omega
  simp only [allocate, alignment_raised, roundUpTo_page (show size + kCpuPageSize - 1 < wordBound by omega),
    sizeWithSlack_eq hfit, hmap, hround, hsub, Nat.mod_eq_of_lt hroom,
    Nat.mod_eq_of_lt (show hdr + kCpuPageSize + pageRoundUp size < wordBound by omega),
    Nat.mod_eq_of_lt (show pageRoundUp size + kCpuPageSize < wordBound by omega),
    Nat.mod_eq_of_lt (show hdr + kCpuPageSize < wordBound by omega),
    if_neg (show ¬ map = wordBound - 1 by omega), show hdr + kCpuPageSize > map by omega,
    show hdr + kCpuPageSize + pageRoundUp size ≤ map + mapLength size (2 ^ k) by omega,
    show hdr ≥ map by omega, not_true_eq_false, if_false, pure_bind]
  rfl

theorem header_word_size (w : Nat → Nat) (hdr v : Nat) :
    Function.update (Function.update (Function.update w hdr kLeftHeaderMagic) (hdr + 8) v)
      (hdr + 16) kRightHeaderMagic (hdr + 8) = v := by
  rw [Function.update_noteq (by omega), Function.update_same]

theorem getHeader_stored {hdr v : Nat} {w : Nat → Nat} {calls : List OsCall}
    (hw : hdr + kCpuPageSize < wordBound) :
    getHeader (hdr + kCpuPageSize) ⟨Function.update (Function.update (Function.update w hdr
      kLeftHeaderMagic) (hdr + 8) v) (hdr + 16) kRightHeaderMagic, calls⟩ = .ok hdr := by
  have hsub : sub64 (hdr + kCpuPageSize) kCpuPageSize = hdr := by
    unfold sub64 wordBound kCpuPageSize at *; omega
  have hl : Function.update (Function.update (Function.update w hdr kLeftHeaderMagic) (hdr + 8) v)
      (hdr + 16) kRightHeaderMagic hdr = kLeftHeaderMagic := by
    rw [Function.update_noteq (by omega), Function.update_noteq (by omega), Function.update_same]
  rw [getHeader, hsub, if_neg (fun h => h.1 hl)]
  rfl

theorem getPtrChunkSize_stored {hdr v : Nat} {w : Nat → Nat} {calls : List OsCall}
    (hw : hdr + kCpuPageSize < wordBound) :
    getPtrChunkSize (hdr + kCpuPageSize) ⟨Function.update (Function.update (Function.update w hdr
      kLeftHeaderMagic) (hdr + 8) v) (hdr + 16) kRightHeaderMagic, calls⟩ =
      .ok (sub64 v kCpuPageSize) := by
  rw [getPtrChunkSize, getHeader_stored hw]
  exact congrArg (fun x => Except.ok (sub64 x kCpuPageSize)) (header_word_size w hdr v)

theorem deallocate_stored {hdr v : Nat} {w : Nat → Nat} {calls : List OsCall} (protect : Bool)
    (hw : hdr + kCpuPageSize < wordBound) :
    deallocate (hdr + kCpuPageSize) protect ⟨Function.update (Function.update (Function.update w hdr
      kLeftHeaderMagic) (hdr + 8) v) (hdr + 16) kRightHeaderMagic, calls⟩ =
      .ok ⟨Function.update (Function.update (Function.update w hdr kLeftHeaderMagic) (hdr + 8) v)
        (hdr + 16) kRightHeaderMagic, calls ++ [if protect then .protect hdr v else .munmap hdr v]⟩ := by
  rw [deallocate, getHeader_stored hw]
  exact congrArg (fun x => (Except.ok (Mem.mk _ (calls ++ [if protect then .protect hdr x
    else .munmap hdr x])) : Except Fault Mem)) (header_word_size w hdr v)

theorem max_pow_kCpuPageSize (k : Nat) : max (2 ^ k) kCpuPageSize = 2 ^ max k 12 := by
  rcases le_total k 12 with h | h
  · rw [Nat.max_eq_right h,
      max_eq_right (show 2 ^ k ≤ kCpuPageSize from Nat.pow_le_pow_right (by decide) h)]; rfl
  · rw [Nat.max_eq_left h,
      max_eq_left (show kCpuPageSize ≤ 2 ^ k from Nat.pow_le_pow_right (by decide) h)]

-- ---------------------------------------------------------------------------
-- The layout law
-- ---------------------------------------------------------------------------

/-- What `Allocate(Size, 2^k)` promises when the kernel maps `mapLength size (2^k)` bytes at
`map`, returns `hdr + kCpuPageSize` and leaves the memory `m'`: the block is aligned to the
alignment raised to a page; the header page `[hdr, hdr + kCpuPageSize)` and the block
`[hdr + kCpuPageSize, hdr + kCpuPageSize + RoundUpTo(Size, kCpuPageSize))` lie in the
mapping; the calls made unmap exactly the rest of it; `Header[1]` is the length of the range
kept; `GetPtrChunkSize` of the block is the rounded size, at least `Size`; and
`Deallocate(P, Protect)` hands exactly the kept range back. -/
structure Layout (size k map hdr : Nat) (m m' : Mem) : Prop where
  aligned : (hdr + kCpuPageSize) % max (2 ^ k) kCpuPageSize = 0
  header_in : map ≤ hdr
  block_in : hdr + kCpuPageSize + pageRoundUp size ≤ map + mapLength size (2 ^ k)
  slack : m'.calls = m.calls ++ (if map < hdr then [.munmap map (hdr - map)] else []) ++
    (if hdr + kCpuPageSize + pageRoundUp size < map + mapLength size (2 ^ k) then
      [.munmap (hdr + kCpuPageSize + pageRoundUp size)
        (map + mapLength size (2 ^ k) - (hdr + kCpuPageSize + pageRoundUp size))]
    else [])
  header_size : m'.word (hdr + 8) = hdr + kCpuPageSize + pageRoundUp size - hdr
  chunk_size : getPtrChunkSize (hdr + kCpuPageSize) m' = .ok (pageRoundUp size)
  size_le : size ≤ pageRoundUp size
  deallocate_kept : ∀ protect, deallocate (hdr + kCpuPageSize) protect m' =
    .ok { m' with calls := m'.calls ++ [if protect then .protect hdr (pageRoundUp size + kCpuPageSize)
      else .munmap hdr (pageRoundUp size + kCpuPageSize)] }

/-- For every size and power-of-two alignment for which `RoundUpTo(Size, kCpuPageSize) +
kCpuPageSize + Alignment` does not wrap, and every page-aligned mapping the kernel returns
that ends below the top of the address space, `Allocate` returns a block a page above some
`hdr` and keeps its layout promise. -/
theorem allocate_aligned_layout (mmap : Nat → Nat) (size k : Nat) (m : Mem)
    (hfit : pageRoundUp size + kCpuPageSize + 2 ^ k < wordBound)
    (hpage : mmap (mapLength size (2 ^ k)) % kCpuPageSize = 0)
    (hroom : mmap (mapLength size (2 ^ k)) + mapLength size (2 ^ k) < wordBound) :
    ∃ hdr m', allocate mmap size (2 ^ k) m = .ok (hdr + kCpuPageSize, m') ∧
      Layout size k (mmap (mapLength size (2 ^ k))) hdr m m' := by
  obtain ⟨map, hmap⟩ : ∃ x, mmap (mapLength size (2 ^ k)) = x := ⟨_, rfl⟩
  rw [hmap] at hpage hroom ⊢
  have hP : kCpuPageSize = 4096 := rfl
  have hAS := raised_le_mapLength size k
  obtain ⟨hmod, hlo, hhi⟩ := alignUp_facts hpage (le_max_right k 12)
  obtain ⟨hdr, hret⟩ : ∃ hdr, (map + 2 ^ max k 12) / 2 ^ max k 12 * 2 ^ max k 12 =
      hdr + kCpuPageSize := ⟨_, (Nat.sub_add_cancel (by omega)).symm⟩
  rw [hret] at hmod hlo hhi
  have hw : hdr + kCpuPageSize < wordBound := by omega
  refine ⟨hdr, _, allocate_run m hfit hmap hpage hroom hret, ⟨?_, by omega, by omega, rfl,
    (header_word_size m.word hdr _).trans (by omega), ?_, le_pageRoundUp size,
    fun protect => deallocate_stored protect hw⟩⟩
  · rw [max_pow_kCpuPageSize]; exact hmod
  · have hs : sub64 (pageRoundUp size + kCpuPageSize) kCpuPageSize = pageRoundUp size := by
      unfold sub64 wordBound kCpuPageSize at *; omega
    rw [getPtrChunkSize_stored hw, hs]

/-- `Allocate(100, 8192)` with the kernel mapping at `2^30`: a page of slack on each side. -/
theorem allocate_aligned_layout_100_8192 :
    (pageRoundUp 100 + kCpuPageSize + 2 ^ 13 < wordBound ∧
      (fun _ => 2 ^ 30 : Nat → Nat) (mapLength 100 (2 ^ 13)) % kCpuPageSize = 0 ∧
      (fun _ => 2 ^ 30 : Nat → Nat) (mapLength 100 (2 ^ 13)) + mapLength 100 (2 ^ 13) < wordBound) ∧
    ∃ hdr m', allocate (fun _ => 2 ^ 30) 100 (2 ^ 13) ⟨fun _ => 0, []⟩ = .ok (hdr + kCpuPageSize, m') ∧
      Layout 100 13 ((fun _ => 2 ^ 30 : Nat → Nat) (mapLength 100 (2 ^ 13))) hdr ⟨fun _ => 0, []⟩ m' :=
  ⟨⟨by decide, by decide, by decide⟩,
    allocate_aligned_layout _ 100 13 _ (by decide) (by decide) (by decide)⟩

end MTMalloc.AlignedLarge

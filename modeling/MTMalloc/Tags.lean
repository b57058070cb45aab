import MTMalloc.Basic

/-!
# Address tags and memory tags

The repository holds two versions of `mtmalloc_tags.h`, and they place the address tag
differently:

* `unnamed/part_006` (the one that builds with `mtmalloc_config.h` of `src/mtmalloc`):
  with `UseAliases` the tag is the 4-bit field at bit 40, so that the tagged pointer is
  the chunk's address in one of the 16 alias windows `kAllocatorSize` apart that
  `AllocateSuperPage` maps with `mremap`;
* `memtagmalloc/src/mtmalloc_tags.h`: with TBI (aarch64) the tag is the top byte; otherwise
  the 4 bits at bit 37 are cleared and `AddrTag & ((1 << UseAliases) - 1)` is written
  there. That header includes the x86-only `mtmalloc.h` of `src/mtmalloc`, so only its
  TBI branch is read here together with the laws of `part_006`.

Both keep memory tags in two `FixedShadow` maps, one byte per granule: 16-byte granules
for the range-0 half of the region and 1024-byte granules for the range-1 half. The
hardware MTE branch of the second header is not modelled.
-/

namespace MTMalloc

/-- The address-tag half of an `AddressAndMemoryTags` header. -/
structure AddressTags where
  applyAddressTag : Nat → UInt8 → Nat
  getAddressTag : Nat → UInt8

namespace AliasTags

/-- `ApplyAddressTag` of `part_006`: `(Ptr & ~(15 << 40)) | ((AddrTag & 15) << 40)`. -/
def applyAddressTag (useAliases : Bool) (addr : Nat) (addrTag : UInt8) : Nat :=
  if useAliases then (addr &&& compl64 (15 <<< 40)) ||| ((addrTag.toNat &&& 15) <<< 40)
  else addr

/-- `GetAddressTag` of `part_006`: `(Ptr >> 40) & 15`. -/
def getAddressTag (addr : Nat) : UInt8 := UInt8.ofNat ((addr >>> 40) &&& 15)

def engine (useAliases : Bool) : AddressTags := ⟨applyAddressTag useAliases, getAddressTag⟩

end AliasTags

namespace MemtagTags

/-- `ApplyAddressTag` of `memtagmalloc`: the top byte with TBI; otherwise, with
`UseAliases`, `(Ptr & ~(15 << 37)) | ((AddrTag & ((1 << UseAliases) - 1)) << 37)`. -/
def applyAddressTag (useArmTBI useAliases : Bool) (addr : Nat) (addrTag : UInt8) : Nat :=
  if useArmTBI then (addr &&& compl64 (255 <<< 56)) ||| (addrTag.toNat <<< 56)
  else if useAliases then
    (addr &&& compl64 (15 <<< 37)) ||| ((addrTag.toNat &&& ((1 <<< useAliases.toNat) - 1)) <<< 37)
  else addr

/-- `GetAddressTag` of `memtagmalloc`: `Ptr >> 56` with TBI, else
`(Ptr >> 37) & ((1 << UseAliases) - 1)`, returned as a `uint8_t`. -/
def getAddressTag (useArmTBI useAliases : Bool) (addr : Nat) : UInt8 :=
  if useArmTBI then UInt8.ofNat (addr >>> 56)
  else UInt8.ofNat ((addr >>> 37) &&& ((1 <<< useAliases.toNat) - 1))

def engine (useArmTBI useAliases : Bool) : AddressTags :=
  ⟨applyAddressTag useArmTBI useAliases, getAddressTag useArmTBI useAliases⟩

end MemtagTags

-- ---------------------------------------------------------------------------
-- The tag fields as arithmetic
-- ---------------------------------------------------------------------------

section Fields

theorem AliasTags.applyAddressTag_eq {a : Nat} (ha : a < wordBound) (t : UInt8) :
    AliasTags.applyAddressTag true a t = 2 ^ 44 * (a / 2 ^ 44) + (2 ^ 40 * (t.toNat % 16) + a % 2 ^ 40) := by
  rw [AliasTags.applyAddressTag, if_pos rfl, show (15 : Nat) = 2 ^ 4 - 1 from rfl,
    Nat.and_pow_two_sub_one_eq_mod, setField_eq ha (by decide) (Nat.mod_lt _ (by decide))]
  rfl

theorem AliasTags.getAddressTag_toNat (a : Nat) :
    (AliasTags.getAddressTag a).toNat = a / 2 ^ 40 % 16 := by
  rw [AliasTags.getAddressTag, show (15 : Nat) = 2 ^ 4 - 1 from rfl, getField_eq,
    toNat_uint8OfNat, Nat.mod_eq_of_lt (by omega)]
  rfl

theorem MemtagTags.applyAddressTag_tbi {a : Nat} (ha : a < wordBound) (t : UInt8) :
    MemtagTags.applyAddressTag true useAliases a t = 2 ^ 56 * t.toNat + a % 2 ^ 56 := by
  have h := setField_eq (k := 56) (w := 8) ha (by decide) t.toNat_lt_size
  rw [MemtagTags.applyAddressTag, if_pos rfl, show (255 : Nat) = 2 ^ 8 - 1 from rfl, h,
    Nat.div_eq_of_lt (by unfold wordBound at ha; omega)]
  omega

theorem MemtagTags.getAddressTag_tbi (a : Nat) :
    (MemtagTags.getAddressTag true useAliases a).toNat = a / 2 ^ 56 % 256 := by
  rw [MemtagTags.getAddressTag, if_pos rfl, toNat_uint8OfNat, Nat.shiftRight_eq_div_pow]

theorem AliasTags.applyAddressTag_window {a : Nat}
    (ha : kAllocatorSpace ≤ a ∧ a < kAllocatorSpace + kAllocatorSize) {t u : UInt8}
    (ht : t.toNat < 16) (hu : u.toNat < 16) :
    AliasTags.applyAddressTag true (a + t.toNat * kAllocatorSize) u = a + u.toNat * kAllocatorSize := by
  unfold kAllocatorSpace kAllocatorSize at *
  rw [AliasTags.applyAddressTag_eq (by unfold wordBound; omega)]
  omega

theorem AliasTags.applyAddressTag_region {a : Nat}
    (ha : kAllocatorSpace ≤ a ∧ a < kAllocatorSpace + kAllocatorSize) {u : UInt8} (hu : u.toNat < 16) :
    AliasTags.applyAddressTag true a u = a + u.toNat * kAllocatorSize := by
  simpa using AliasTags.applyAddressTag_window ha (t := 0) (by decide) hu

theorem AliasTags.getAddressTag_window {a : Nat}
    (ha : kAllocatorSpace ≤ a ∧ a < kAllocatorSpace + kAllocatorSize) {t : UInt8} (ht : t.toNat < 16) :
    AliasTags.getAddressTag (a + t.toNat * kAllocatorSize) = t := by
  refine UInt8.toNat.inj ?_
  rw [AliasTags.getAddressTag_toNat]
  unfold kAllocatorSpace kAllocatorSize at *
  omega

theorem MemtagTags.applyAddressTag_untagged {a : Nat} (ha : a < 2 ^ 56) (t : UInt8) :
    MemtagTags.applyAddressTag true useAliases a t = a + 2 ^ 56 * t.toNat := by
  rw [MemtagTags.applyAddressTag_tbi (by unfold wordBound; omega)]
  omega

theorem MemtagTags.applyAddressTag_tagged {a : Nat} (ha : a < 2 ^ 56) (t t' : UInt8) :
    MemtagTags.applyAddressTag true useAliases (a + 2 ^ 56 * t.toNat) t' = a + 2 ^ 56 * t'.toNat := by
  have := t.toNat_lt_size
  rw [MemtagTags.applyAddressTag_tbi (by unfold wordBound UInt8.size at *; omega)]
  omega

theorem MemtagTags.getAddressTag_tagged {a : Nat} (ha : a < 2 ^ 56) (t : UInt8) :
    MemtagTags.getAddressTag true useAliases (a + 2 ^ 56 * t.toNat) = t := by
  have := t.toNat_lt_size
  refine UInt8.toNat.inj ?_
  rw [MemtagTags.getAddressTag_tbi]
  unfold UInt8.size at *
  omega

end Fields

-- ---------------------------------------------------------------------------
-- Laws of the address tags
-- ---------------------------------------------------------------------------

/-- With the bit-40 header a tag below 16 moves an address of the region to its copy in
that tag's alias window, reads back, and is replaced by a later tag (0 strips it). -/
theorem aliasTags_window {a : Nat} (ha : kAllocatorSpace ≤ a ∧ a < kAllocatorSpace + kAllocatorSize)
    {t t' : UInt8} (ht : t.toNat < 16) (ht' : t'.toNat < 16) :
    AliasTags.getAddressTag (AliasTags.applyAddressTag true a t) = t ∧
    AliasTags.applyAddressTag true (AliasTags.applyAddressTag true a t) t' =
      AliasTags.applyAddressTag true a t' ∧
    AliasTags.applyAddressTag true a t = a + t.toNat * kAllocatorSize := by
  have h0 := fun {u : UInt8} (hu : u.toNat < 16) => AliasTags.applyAddressTag_region ha hu
  refine ⟨by rw [h0 ht]; exact AliasTags.getAddressTag_window ha ht, ?_, h0 ht⟩
  rw [h0 ht, AliasTags.applyAddressTag_window ha ht ht', h0 ht']

theorem aliasTags_window_first :
    (kAllocatorSpace ≤ kAllocatorSpace + 16 ∧ kAllocatorSpace + 16 < kAllocatorSpace + kAllocatorSize) ∧
    AliasTags.getAddressTag (AliasTags.applyAddressTag true (kAllocatorSpace + 16) 5) = 5 ∧
    AliasTags.applyAddressTag true (AliasTags.applyAddressTag true (kAllocatorSpace + 16) 5) 0 =
      AliasTags.applyAddressTag true (kAllocatorSpace + 16) 0 ∧
    AliasTags.applyAddressTag true (kAllocatorSpace + 16) 5 = kAllocatorSpace + 16 + (5 : UInt8).toNat * kAllocatorSize :=
  ⟨by decide, aliasTags_window (by decide) (by decide) (by decide)⟩

/-- With TBI a tag of any value sits in the top byte of an untagged address, reads back,
and is replaced by a later tag (0 strips it). -/
theorem memtagTags_tbi_window {a : Nat} (ha : a < 2 ^ 56) (useAliases : Bool) (t t' : UInt8) :
    MemtagTags.getAddressTag true useAliases (MemtagTags.applyAddressTag true useAliases a t) = t ∧
    MemtagTags.applyAddressTag true useAliases (MemtagTags.applyAddressTag true useAliases a t) t' =
      MemtagTags.applyAddressTag true useAliases a t' ∧
    MemtagTags.applyAddressTag true useAliases a 0 = a := by
  simp only [MemtagTags.applyAddressTag_untagged ha, MemtagTags.applyAddressTag_tagged ha,
    MemtagTags.getAddressTag_tagged ha]
  simp

theorem memtagTags_tbi_window_first :
    kAllocatorSpace < 2 ^ 56 ∧
    MemtagTags.getAddressTag true false (MemtagTags.applyAddressTag true false kAllocatorSpace 200) = 200 ∧
    MemtagTags.applyAddressTag true false (MemtagTags.applyAddressTag true false kAllocatorSpace 200) 7 =
      MemtagTags.applyAddressTag true false kAllocatorSpace 7 ∧
    MemtagTags.applyAddressTag true false kAllocatorSpace 0 = kAllocatorSpace :=
  ⟨by decide, memtagTags_tbi_window (by decide) false 200 7⟩

/-- The address-tag laws of the two headers in the builds that use them: the bit-40 alias
tag of `part_006` on the region, and the top-byte tag of `memtagmalloc` with TBI. -/
theorem addressTags_roundTrip :
    (∀ a, kAllocatorSpace ≤ a ∧ a < kAllocatorSpace + kAllocatorSize →
      ∀ t t' : UInt8, t.toNat < 16 → t'.toNat < 16 →
        AliasTags.getAddressTag (AliasTags.applyAddressTag true a t) = t ∧
        AliasTags.applyAddressTag true (AliasTags.applyAddressTag true a t) t' =
          AliasTags.applyAddressTag true a t' ∧
        AliasTags.applyAddressTag true a 0 = a ∧
        AliasTags.applyAddressTag true a t = a + t.toNat * kAllocatorSize) ∧
    (∀ a, a < 2 ^ 56 → ∀ (useAliases : Bool) (t t' : UInt8),
      MemtagTags.getAddressTag true useAliases (MemtagTags.applyAddressTag true useAliases a t) = t ∧
      MemtagTags.applyAddressTag true useAliases (MemtagTags.applyAddressTag true useAliases a t) t' =
        MemtagTags.applyAddressTag true useAliases a t' ∧
      MemtagTags.applyAddressTag true useAliases a 0 = a) := by
  refine ⟨fun a ha t t' ht ht' => ?_, fun a ha useAliases t t' => ?_⟩
  · have h0 := fun {u : UInt8} (hu : u.toNat < 16) => AliasTags.applyAddressTag_region ha hu
    refine ⟨by rw [h0 ht]; exact AliasTags.getAddressTag_window ha ht, ?_,
      by simpa using h0 (u := 0) (by decide), h0 ht⟩
    rw [h0 ht, AliasTags.applyAddressTag_window ha ht ht', h0 ht']
  · simp only [MemtagTags.applyAddressTag_untagged ha, MemtagTags.applyAddressTag_tagged ha,
      MemtagTags.getAddressTag_tagged ha]
    simp

theorem addressTags_roundTrip_first :
    (AliasTags.getAddressTag (AliasTags.applyAddressTag true (kAllocatorSpace + 16) 5) = 5 ∧
      AliasTags.applyAddressTag true (AliasTags.applyAddressTag true (kAllocatorSpace + 16) 5) 0 =
        AliasTags.applyAddressTag true (kAllocatorSpace + 16) 0 ∧
      AliasTags.applyAddressTag true (kAllocatorSpace + 16) 0 = kAllocatorSpace + 16 ∧
      AliasTags.applyAddressTag true (kAllocatorSpace + 16) 5 =
        kAllocatorSpace + 16 + (5 : UInt8).toNat * kAllocatorSize) ∧
    (MemtagTags.getAddressTag true false (MemtagTags.applyAddressTag true false kAllocatorSpace 200) = 200 ∧
      MemtagTags.applyAddressTag true false (MemtagTags.applyAddressTag true false kAllocatorSpace 200) 7 =
        MemtagTags.applyAddressTag true false kAllocatorSpace 7 ∧
      MemtagTags.applyAddressTag true false kAllocatorSpace 0 = kAllocatorSpace) :=
  ⟨addressTags_roundTrip.1 _ (by decide) 5 0 (by decide) (by decide),
    addressTags_roundTrip.2 _ (by decide) false 200 7⟩

-- ---------------------------------------------------------------------------
-- Shadow memory
-- ---------------------------------------------------------------------------

/-- `FixedShadow<kShadowBeg, kBeg, kSize, kGranularity>`: one shadow byte per granule of
`[kBeg, kBeg + kSize)`, stored from `kShadowBeg`. -/
structure FixedShadow where
  kShadowBeg : Nat
  kBeg : Nat
  kSize : Nat
  kGranularity : Nat

namespace FixedShadow

def isMine (s : FixedShadow) (val : Nat) : Bool := s.kBeg ≤ val && val < s.kBeg + s.kSize

def getShadowPtr (s : FixedShadow) (val : Nat) : Nat := s.kShadowBeg + (val - s.kBeg) / s.kGranularity

def get (s : FixedShadow) (mem : Nat → UInt8) (val : Nat) : UInt8 := mem (s.getShadowPtr val)

/-- `Check(Val)`: a value that is not a multiple of the granule traps. -/
def check (s : FixedShadow) (val : Nat) : Except Fault Unit :=
  if val % s.kGranularity ≠ 0 then throw .trap else pure ()

/-- `Set(Val, Shadow)`; the source writes the same byte twice. -/
def set (s : FixedShadow) (mem : Nat → UInt8) (val : Nat) (shadow : UInt8) :
    Except Fault (Nat → UInt8) := do
  s.check val
  pure (Function.update mem (s.getShadowPtr val) shadow)

/-- `SetRange(Beg, Size, ShadowVal)`: `Size / kGranularity` bytes from the shadow of `Beg`. -/
def setRange (s : FixedShadow) (mem : Nat → UInt8) (beg size : Nat) (shadowVal : UInt8) :
    Except Fault (Nat → UInt8) := do
  s.check beg
  s.check size
  let pos := s.getShadowPtr beg
  pure fun a => if pos ≤ a ∧ a < pos + size / s.kGranularity then shadowVal else mem a

end FixedShadow

def kSmallMemoryTagSpace : Nat := 0x300000000000
def kLargeMemoryTagSpace : Nat := 0x400000000000

def smallShadow : FixedShadow := ⟨kSmallMemoryTagSpace, kAllocatorSpace, kAllocatorSize / 2, 16⟩

def largeShadow : FixedShadow :=
  ⟨kLargeMemoryTagSpace, kAllocatorSpace + kAllocatorSize / 2, kAllocatorSize / 2,
    kSizeAlignmentForSecondRange⟩

/-- `SetMemoryTag(Addr, Size, Tag)` without MTE. -/
def setMemoryTag (useShadow : Bool) (mem : Nat → UInt8) (addr size : Nat) (tag : UInt8) :
    Except Fault (Nat → UInt8) :=
  if !useShadow then pure mem
  else if smallShadow.isMine addr then smallShadow.setRange mem addr size tag
  else if largeShadow.isMine addr then largeShadow.setRange mem addr size tag
  else throw .trap

/-- `GetMemoryTag(Addr)` without MTE. -/
def getMemoryTag (useShadow : Bool) (mem : Nat → UInt8) (addr : Nat) : Except Fault UInt8 :=
  if !useShadow then pure 0
  else if smallShadow.isMine addr then pure (smallShadow.get mem addr)
  else if largeShadow.isMine addr then pure (largeShadow.get mem addr)
  else throw .trap

end MTMalloc

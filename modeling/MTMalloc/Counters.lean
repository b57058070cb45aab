import MTMalloc.Entry
import Mathlib.Algebra.BigOperators.Group.Finset

/-!
# The quarantine counters

`Quarantine` adds a chunk's bytes to the thread's `TLS.LocalQuarantineSize`; once that reaches
`kSizeOfLocalQuarantine`, `QuarantineAndMaybeScan` adds it to `BytesInQuarantine` and clears it,
and `Scan` stores in `BytesInQuarantine` the bytes `PostScan` counts. What the counters stand for
is `Heap.quarantineSum`: `ChunkSize` times the number of `QUARANTINED` state bytes, over every
super page. This module says how the sum changes when one state byte is written and when new
super pages are mapped, and names the agreement of the counters with it (`Counted`).
-/

namespace MTMalloc

open SuperPage

section Sums

variable {α : Type} [DecidableEq α]

theorem sum_map_replace {l : List α} (hl : l.Nodup) {a : α} (ha : a ∈ l) {f g : α → Nat}
    (hfg : ∀ x ∈ l, x ≠ a → g x = f x) : (l.map g).sum + f a = (l.map f).sum + g a := by
  have hmem := List.mem_toFinset.2 ha
  have hrest : ∑ x ∈ l.toFinset.erase a, g x = ∑ x ∈ l.toFinset.erase a, f x :=
    Finset.sum_congr rfl fun x hx => hfg x (List.mem_toFinset.1 (Finset.mem_of_mem_erase hx)) (Finset.ne_of_mem_erase hx)
  rw [← List.sum_toFinset g hl, ← List.sum_toFinset f hl, ← Finset.add_sum_erase _ g hmem,
    ← Finset.add_sum_erase _ f hmem, hrest]
  omega

omit [DecidableEq α] in
theorem countP_eq_sum_map (p : α → Bool) (l : List α) :
    l.countP p = (l.map fun x => if p x then 1 else 0).sum := by
  induction l with
  | nil => rfl
  | cons x xs ih => rw [List.countP_cons, ih, List.map_cons, List.sum_cons, Nat.add_comm]

end Sums

namespace Heap

variable {h h' : Heap}

@[simp] theorem scdOf_setState (h : Heap) (sp i : Nat) (v : UInt8) (sp' : Nat) :
    (h.setState sp i v).scdOf sp' = h.scdOf sp' := rfl

@[simp] theorem superPages_setState (h : Heap) (sp i : Nat) (v : UInt8) :
    (h.setState sp i v).superPages = h.superPages := rfl

theorem countState_setState {sp i : Nat} (hi : i < (h.scdOf sp).numChunks) (v st : UInt8) :
    (h.setState sp i v).countState sp st + (if h.state sp i = st then 1 else 0) =
      h.countState sp st + (if v = st then 1 else 0) := by
  have e := sum_map_replace (List.nodup_range _) (List.mem_range.2 hi)
    (f := fun j => if h.state sp j = st then 1 else 0)
    (g := fun j => if (h.setState sp i v).state sp j = st then 1 else 0)
    fun j _ hj => by simp only [setState_state, true_and, if_neg hj]
  simpa only [countState, scdOf_setState, countP_eq_sum_map, decide_eq_true_eq, setState_state, true_and,
    and_self, if_true] using e

theorem quarantineSum_setState (h0 : h.numSuperPages 0 ≤ 2 ^ 20) {sp i : Nat} (hsp : sp ∈ h.superPages)
    (hi : i < (h.scdOf sp).numChunks) (v : UInt8) :
    (h.setState sp i v).quarantineSum + (if h.state sp i = quarantined then (h.scdOf sp).chunkSize else 0) =
      h.quarantineSum + (if v = quarantined then (h.scdOf sp).chunkSize else 0) := by
  have e := sum_map_replace (superPages_nodup h0) hsp
    (f := fun sp' => (h.scdOf sp').chunkSize * h.countState sp' quarantined)
    (g := fun sp' => (h.scdOf sp').chunkSize * (h.setState sp i v).countState sp' quarantined)
    fun sp' _ hne => by simp only [countState, setState_state, scdOf_setState, hne, false_and, if_false]
  have hc := congrArg ((h.scdOf sp).chunkSize * ·) (countState_setState hi v quarantined)
  simp only [Nat.mul_add, mul_ite, mul_one, mul_zero] at hc
  simp only [quarantineSum, quarantinedBytes, superPages_setState, scdOf_setState] at e ⊢
  omega

theorem mem_superPages_of_le (hn : ∀ r, h.numSuperPages r ≤ h'.numSuperPages r) {sp : Nat}
    (hsp : sp ∈ h.superPages) : sp ∈ h'.superPages := by
  obtain ⟨r, hr, j, hj, rfl⟩ := mem_superPages.1 hsp
  exact mem_superPages.2 ⟨r, hr, j, Nat.lt_of_lt_of_le hj (hn r), rfl⟩

/-- Mapping super pages none of whose state bytes is `QUARANTINED`, while the old ones keep
their classes and their state bytes, leaves the sum as it was. -/
theorem quarantineSum_of_grow (h0 : h'.numSuperPages 0 ≤ 2 ^ 20)
    (hn : ∀ r, h.numSuperPages r ≤ h'.numSuperPages r) (hscd : ∀ sp ∈ h.superPages, h'.scdOf sp = h.scdOf sp)
    (hst : ∀ sp ∈ h.superPages, ∀ i, h'.state sp i = h.state sp i)
    (hnew : ∀ sp ∉ h.superPages, ∀ i, h'.state sp i ≠ quarantined) :
    h'.quarantineSum = h.quarantineSum := by
  let g := fun sp => (h'.scdOf sp).chunkSize * h'.countState sp quarantined
  let f := fun sp => (h.scdOf sp).chunkSize * h.countState sp quarantined
  have hgf : ∀ sp ∈ h.superPages, g sp = f sp := fun sp hsp => by
    simp only [g, f, countState, hscd sp hsp, hst sp hsp]
  calc h'.quarantineSum
      = ∑ sp ∈ h'.superPages.toFinset, g sp := (List.sum_toFinset g (superPages_nodup h0)).symm
    _ = ∑ sp ∈ h.superPages.toFinset, g sp := by
        refine (Finset.sum_subset (fun sp hsp => List.mem_toFinset.2 (mem_superPages_of_le hn (List.mem_toFinset.1 hsp)))
          fun sp _ hsp => ?_).symm
        have hz : h'.countState sp quarantined = 0 := List.countP_eq_zero.2 fun i _ => by
          simpa using hnew sp (fun h => hsp (List.mem_toFinset.2 h)) i
        simp only [g, hz, mul_zero]
    _ = ∑ sp ∈ h.superPages.toFinset, f sp :=
        Finset.sum_congr rfl fun sp hsp => hgf sp (List.mem_toFinset.1 hsp)
    _ = h.quarantineSum := List.sum_toFinset f (superPages_nodup ((hn 0).trans h0))

end Heap

/-- The quarantine counters of a heap and of the thread that runs on it stand for the bytes in
quarantine: `BytesInQuarantine` plus the thread's `LocalQuarantineSize` is `quarantineSum`, and
the local part is below `kSizeOfLocalQuarantine`, where `QuarantineAndMaybeScan` hands it over. -/
structure Counted (h : Heap) (tls : TLS) : Prop where
  sum : h.bytesInQuarantine + tls.localQuarantineSize = h.quarantineSum
  local_lt : tls.localQuarantineSize < kSizeOfLocalQuarantine

theorem counted_init : Counted Heap.empty TLS.init := ⟨rfl, by decide⟩

theorem Counted.setState {h : Heap} {tls : TLS} (hc : Counted h tls) (h0 : h.numSuperPages 0 ≤ 2 ^ 20)
    {sp i : Nat} (hsp : sp ∈ h.superPages) (hi : i < (h.scdOf sp).numChunks) (hold : h.state sp i ≠ quarantined)
    {v : UInt8} (hv : v ≠ quarantined) : Counted (h.setState sp i v) tls := by
  have e := Heap.quarantineSum_setState h0 hsp hi v
  rw [if_neg hold, if_neg hv, Nat.add_zero, Nat.add_zero] at e
  exact ⟨by rw [e]; exact hc.sum, hc.local_lt⟩

end MTMalloc

import MTMalloc.Scan

/-!
# The threads of a scan

`KillAllThreadsButMyself` and `ScanLoop` of `mtmalloc.h` as several threads run them.

`Scan` resets `ScanPos`, signals every other thread of the process with
`KillAllThreadsButMyself` (the `SIGUSR2` handler runs `ScanLoop`), and runs `ScanLoop`
itself. `KillAllThreadsButMyself` keeps the TIDs it has signalled in a stack array of
`kMaxThreads` entries. `IterateTIDs` reads the directory `/proc/self/task`; `listings p` is
the list of TIDs it reads in pass `p` of the loop, any list at all.

In `ScanLoop` the atomic steps of a thread are one `fetch_add` on `ScanPos[RangeNum]` and
one call of `MarkAllLivePointers`, which the model records with the range and index it is
given. A run is any interleaving of the threads' steps, named by a schedule.
-/

namespace MTMalloc

-- ---------------------------------------------------------------------------
-- KillAllThreadsButMyself
-- ---------------------------------------------------------------------------

/-- The locals of `KillAllThreadsButMyself`: `SeenThreads[0 .. NumSeenThreads)`, the indices
of `SeenThreads` stored to so far, `Changed`, the passes of the `while` loop begun, and
whether `TRAP()` has stopped the process. `TGKill` changes none of them. -/
structure KillState where
  seenThreads : List Int
  stores : List Nat
  changed : Bool
  passes : Nat
  trapped : Bool
  deriving DecidableEq, Repr

namespace KillState

/-- `SeenThreads[0] = MyTID; NumSeenThreads = 1; Changed = true`. -/
def init (myTID : Int) : KillState := ⟨[myTID], [0], true, 0, false⟩

/-- The lambda given to `IterateTIDs`, on one `TID`: a TID not seen yet is stored at
`SeenThreads[NumSeenThreads++]`, and then the process traps if `NumSeenThreads >
kMaxThreads`. -/
def visit (s : KillState) (tid : Int) : KillState :=
  if s.trapped ∨ tid ∈ s.seenThreads then s
  else
    { s with
      seenThreads := s.seenThreads ++ [tid]
      stores := s.stores ++ [s.seenThreads.length]
      changed := true
      trapped := decide (kMaxThreads < s.seenThreads.length + 1) }

/-- One pass of the `while (Changed)` loop: `Changed = false; IterateTIDs(...)`. -/
def pass (s : KillState) (listing : List Int) : KillState :=
  listing.foldl visit { s with changed := false, passes := s.passes + 1 }

end KillState

/-- The `while (Changed)` loop, for at most `fuel` passes; pass `p` reads `listings p`. -/
def killLoop (listings : Nat → List Int) : Nat → KillState → KillState
  | 0, s => s
  | fuel + 1, s =>
    if s.changed ∧ ¬ s.trapped then killLoop listings fuel (s.pass (listings s.passes)) else s

/-- `KillAllThreadsButMyself()`; `NumSeenThreads`, its result, is the length of
`seenThreads`. -/
def killAllThreadsButMyself (myTID : Int) (listings : Nat → List Int) (fuel : Nat) : KillState :=
  killLoop listings fuel (KillState.init myTID)

namespace KillState

/-- What every step keeps: the stores so far went to `SeenThreads[0]`, `SeenThreads[1]`, ...
in order, one per TID seen, and the process has trapped exactly when more than
`kMaxThreads` TIDs were seen, which stops it at one past. -/
structure Wf (s : KillState) : Prop where
  stores_eq : s.stores = List.range s.seenThreads.length
  trapped_eq : s.trapped = decide (kMaxThreads < s.seenThreads.length)
  length_le : s.seenThreads.length ≤ kMaxThreads + 1

theorem wf_init (myTID : Int) : (init myTID).Wf := ⟨rfl, rfl, Nat.le_add_left 1 kMaxThreads⟩

theorem Wf.visit {s : KillState} (hs : s.Wf) (tid : Int) : (s.visit tid).Wf := by
  unfold KillState.visit
  split
  · exact hs
  · rename_i hnew
    have hlt : s.seenThreads.length ≤ kMaxThreads := by
      have ht := hs.trapped_eq
      simp only [not_or, Bool.not_eq_true] at hnew
      rw [hnew.1] at ht
      simpa using ht
    exact ⟨by rw [hs.stores_eq, List.length_append, List.length_singleton, List.range_succ],
      by simp, by simp; omega⟩

theorem visit_facts (s : KillState) (tid : Int) :
    (s.visit tid).passes = s.passes ∧ s.seenThreads.length ≤ (s.visit tid).seenThreads.length ∧
      ((s.visit tid).changed = true → s.changed = true ∨
        s.seenThreads.length < (s.visit tid).seenThreads.length) := by
  unfold KillState.visit
  split
  · exact ⟨rfl, le_refl _, Or.inl⟩
  · simp

theorem foldl_visit_facts (l : List Int) (s : KillState) :
    (l.foldl visit s).passes = s.passes ∧ s.seenThreads.length ≤ (l.foldl visit s).seenThreads.length ∧
      ((l.foldl visit s).changed = true → s.changed = true ∨
        s.seenThreads.length < (l.foldl visit s).seenThreads.length) := by
  induction l generalizing s with
  | nil => exact ⟨rfl, le_refl _, Or.inl⟩
  | cons tid l ih =>
    obtain ⟨hp, hl, hc⟩ := visit_facts s tid
    obtain ⟨hp', hl', hc'⟩ := ih (s.visit tid)
    refine ⟨hp'.trans hp, hl.trans hl', fun h => ?_⟩
    rcases hc' h with h1 | h1
    · rcases hc h1 with h2 | h2
      · exact .inl h2
      · exact .inr (Nat.lt_of_lt_of_le h2 hl')
    · exact .inr (Nat.lt_of_le_of_lt hl h1)

theorem Wf.foldl_visit {s : KillState} (hs : s.Wf) (l : List Int) :
    (l.foldl KillState.visit s).Wf := by
  induction l generalizing s with
  | nil => exact hs
  | cons tid l ih => exact ih (hs.visit tid)

theorem pass_facts (s : KillState) (listing : List Int) :
    (s.pass listing).passes = s.passes + 1 ∧
      ((s.pass listing).changed = true →
        s.seenThreads.length < (s.pass listing).seenThreads.length) := by
  obtain ⟨hp, -, hc⟩ := foldl_visit_facts listing { s with changed := false, passes := s.passes + 1 }
  exact ⟨hp, fun h => (hc h).resolve_left (by simp)⟩

theorem Wf.pass {s : KillState} (hs : s.Wf) (listing : List Int) : (s.pass listing).Wf :=
  Wf.foldl_visit (s := { s with changed := false, passes := s.passes + 1 })
    ⟨hs.stores_eq, hs.trapped_eq, hs.length_le⟩ listing

/-- At the head of the loop: the passes begun are at most `kMaxThreads`, and while `Changed`
holds, each of them stored a new TID after `MyTID`. -/
structure LoopInv (s : KillState) : Prop where
  passes_le : s.passes ≤ kMaxThreads
  changed_le : s.changed = true → s.passes + 1 ≤ s.seenThreads.length

theorem loopInv_init (myTID : Int) : (init myTID).LoopInv := ⟨Nat.zero_le _, fun _ => le_refl _⟩

end KillState

open KillState in
/-- The loop keeps its invariants, and it has stopped once `kMaxThreads` passes are begun:
a pass that leaves `Changed` set has stored a TID, and without a trap at most
`kMaxThreads` are stored. -/
theorem killLoop_spec (listings : Nat → List Int) :
    ∀ fuel s, s.Wf → s.LoopInv →
      (killLoop listings fuel s).Wf ∧ (killLoop listings fuel s).LoopInv ∧
        (kMaxThreads ≤ s.passes + fuel →
          (killLoop listings fuel s).changed = false ∨ (killLoop listings fuel s).trapped = true) := by
  intro fuel
  induction fuel with
  | zero =>
    intro s hs hi
    simp only [killLoop]
    refine ⟨hs, hi, fun hp => ?_⟩
    by_contra hrun
    simp only [Bool.not_eq_false, not_or, Bool.not_eq_true] at hrun
    have hc := hi.changed_le hrun.1
    have ht := hs.trapped_eq
    rw [hrun.2] at ht
    simp only [false_eq_decide_iff, Nat.not_lt] at ht
    omega
  | succ fuel ih =>
    intro s hs hi
    rw [killLoop]
    split
    · rename_i hrun
      obtain ⟨hp, hc⟩ := pass_facts s (listings s.passes)
      have hlen : s.passes + 1 ≤ kMaxThreads := by
        have := hi.changed_le hrun.1
        have := hs.trapped_eq
        rw [Bool.eq_false_iff.mpr hrun.2] at this
        simp only [false_eq_decide_iff, Nat.not_lt] at this
        omega
      obtain ⟨hw, hl, he⟩ := ih (s.pass (listings s.passes)) (hs.pass _) ⟨by omega, fun h => by have := hc h; have := hi.changed_le hrun.1; omega⟩
      exact ⟨hw, hl, fun h => he (by omega)⟩
    · rename_i hstop
      refine ⟨hs, hi, fun _ => ?_⟩
      simp only [not_and, Bool.not_eq_true] at hstop
      cases hc : s.changed
      · exact .inl rfl
      · exact .inr (by simpa using hstop hc)

theorem KillState.foldl_visit_fresh {l : List Int} (hl : l.Nodup) :
    ∀ s : KillState, s.trapped = false → (∀ tid ∈ l, tid ∉ s.seenThreads) →
      s.seenThreads.length + l.length ≤ kMaxThreads + 1 →
      (l.foldl visit s).seenThreads = s.seenThreads ++ l := by
  induction l with
  | nil => intro s _ _ _; simp
  | cons tid l ih =>
    intro s ht hnew hlen
    rw [List.nodup_cons] at hl
    have hv : s.visit tid = { s with
        seenThreads := s.seenThreads ++ [tid], stores := s.stores ++ [s.seenThreads.length],
        changed := true, trapped := decide (kMaxThreads < s.seenThreads.length + 1) } := by
      rw [visit, if_neg (by simp [ht, hnew tid (List.mem_cons_self _ _)])]
    rw [List.foldl_cons, hv]
    rcases l with _ | ⟨tid', l'⟩
    · simp
    · simp only [List.length_cons] at hlen
      rw [ih hl.2]
      · simp
      · simp only [decide_eq_false_iff_not, Nat.not_lt]; omega
      · intro t ht'
        simp only [List.mem_append, List.mem_singleton, not_or]
        exact ⟨hnew t (List.mem_cons_of_mem _ ht'), fun h => hl.1 (h ▸ ht')⟩
      · simp only [List.length_append, List.length_cons, List.length_nil]; omega

open KillState in
/-- Over every sequence of listings: the loop begins at most `kMaxThreads` passes, and has
stopped once it has been allowed that many; every store goes to `SeenThreads[i]` with `i`
the number of TIDs seen before, so the stores stay inside the array exactly when the
process does not trap, and a trap follows one store to `SeenThreads[kMaxThreads]`. -/
theorem killAllThreadsButMyself_spec (myTID : Int) (listings : Nat → List Int) (fuel : Nat) :
    (killAllThreadsButMyself myTID listings fuel).passes ≤ kMaxThreads ∧
      (kMaxThreads ≤ fuel → (killAllThreadsButMyself myTID listings fuel).changed = false ∨
        (killAllThreadsButMyself myTID listings fuel).trapped = true) ∧
      (killAllThreadsButMyself myTID listings fuel).stores =
        List.range (killAllThreadsButMyself myTID listings fuel).seenThreads.length ∧
      ((killAllThreadsButMyself myTID listings fuel).trapped = false ↔
        ∀ i ∈ (killAllThreadsButMyself myTID listings fuel).stores, i < kMaxThreads) ∧
      ((killAllThreadsButMyself myTID listings fuel).trapped = true →
        (killAllThreadsButMyself myTID listings fuel).stores = List.range (kMaxThreads + 1)) := by
  unfold killAllThreadsButMyself
  obtain ⟨hw, hl, he⟩ := killLoop_spec listings fuel _ (wf_init myTID) (loopInv_init myTID)
  have ht := hw.trapped_eq
  have hlen := hw.length_le
  refine ⟨hl.passes_le, fun hf => he (by simpa [init] using hf), hw.stores_eq, ?_, fun h => ?_⟩
  · rw [hw.stores_eq]
    constructor
    · intro h i hi
      rw [h] at ht
      simp only [false_eq_decide_iff, Nat.not_lt] at ht
      rw [List.mem_range] at hi
      omega
    · intro h
      rw [ht, decide_eq_false_iff_not]
      intro hlt
      exact absurd (h _ (List.mem_range.mpr hlt)) (Nat.lt_irrefl _)
  · rw [h] at ht
    simp only [true_eq_decide_iff] at ht
    rw [hw.stores_eq, show (killLoop listings fuel (init myTID)).seenThreads.length =
      kMaxThreads + 1 by omega]

theorem killLoop_of_trapped (listings : Nat → List Int) {s : KillState} (h : s.trapped = true) :
    ∀ fuel, killLoop listings fuel s = s
  | 0 => rfl
  | _ + 1 => by rw [killLoop, if_neg (by simp [h])]

/-- When the first listing names `kMaxThreads` distinct TIDs besides the caller's, the first
pass stores the last of them to `SeenThreads[kMaxThreads]`, one past the array, and only
then traps. -/
theorem killAllThreadsButMyself_overflows (myTID : Int) (listings : Nat → List Int) (fuel : Nat)
    (hnodup : (listings 0).Nodup) (hmy : myTID ∉ listings 0)
    (hlen : (listings 0).length = kMaxThreads) :
    (killAllThreadsButMyself myTID listings (fuel + 1)).trapped = true ∧
      kMaxThreads ∈ (killAllThreadsButMyself myTID listings (fuel + 1)).stores := by
  have hseen := KillState.foldl_visit_fresh hnodup
    { KillState.init myTID with changed := false, passes := (KillState.init myTID).passes + 1 } rfl
    (fun tid ht h => hmy (by simp only [KillState.init, List.mem_singleton] at h; exact h ▸ ht))
    (by simp [KillState.init, hlen, Nat.add_comm])
  have hw := (KillState.wf_init myTID).pass (listings 0)
  have hl : ((KillState.init myTID).pass (listings 0)).seenThreads.length = kMaxThreads + 1 := by
    rw [KillState.pass, hseen]; simp [KillState.init, hlen, Nat.add_comm]
  have ht : ((KillState.init myTID).pass (listings 0)).trapped = true := by
    rw [hw.trapped_eq, hl]; simp
  have hrun : killAllThreadsButMyself myTID listings (fuel + 1) =
      (KillState.init myTID).pass (listings 0) := by
    rw [killAllThreadsButMyself, killLoop, if_pos (by simp [KillState.init])]
    exact killLoop_of_trapped listings ht fuel
  rw [hrun, hw.stores_eq, hl, List.mem_range]
  exact ⟨ht, Nat.lt_succ_self _⟩

/-- A process whose caller has TID 0 and whose other threads have TIDs `1, ..., kMaxThreads`:
`KillAllThreadsButMyself` writes `SeenThreads[kMaxThreads]` before it traps. -/
theorem killAllThreadsButMyself_stores_past_array :
    (killAllThreadsButMyself 0 (fun _ => (List.range kMaxThreads).map fun i : Nat => (i + 1 : Int))
        1).trapped = true ∧
      kMaxThreads ∈ (killAllThreadsButMyself 0
        (fun _ => (List.range kMaxThreads).map fun i : Nat => (i + 1 : Int)) 1).stores :=
  killAllThreadsButMyself_overflows 0 _ 0
    (List.Nodup.map (fun a b h => by omega) (List.nodup_range kMaxThreads))
    (by simp only [List.mem_map, List.mem_range, not_exists, not_and]; intro i _; omega)
    (by rw [List.length_map, List.length_range])

-- ---------------------------------------------------------------------------
-- ScanLoop, run by several threads
-- ---------------------------------------------------------------------------

/-- Where a thread is in `ScanLoop`: at the `fetch_add` of a range, in the `for` loop over a
claimed batch (the next `SPIdx` and `EndIdx`), or returned. -/
inductive ScanPc
  | fetch (rangeNum : Nat)
  | mark (rangeNum spIdx endIdx : Nat)
  | done
  deriving DecidableEq, Repr

/-- The locals of one thread in `ScanLoop`. -/
structure ScanThread where
  pc : ScanPc
  numDone : Nat
  deriving DecidableEq, Repr

/-- The threads of a scan and what they share: `ScanPos`, and the calls of
`MarkAllLivePointers` made so far, as (thread, range, super-page index). -/
structure ScanSys where
  scanPos : Nat → Nat
  threads : Nat → ScanThread
  marked : List (Nat × Nat × Nat)

namespace ScanSys

/-- `k` threads at the start of `ScanLoop`, after `Scan` has reset `ScanPos`. -/
def init (k : Nat) : ScanSys :=
  ⟨fun _ => 0, fun t => if t < k then ⟨.fetch 0, 0⟩ else ⟨.done, 0⟩, []⟩

def setThread (s : ScanSys) (t : Nat) (th : ScanThread) : ScanSys :=
  { s with threads := Function.update s.threads t th }

/-- A call of `MarkAllLivePointers`, recorded. -/
def record (s : ScanSys) (e : Nat × Nat × Nat) : ScanSys := { s with marked := s.marked ++ [e] }

/-- The store of `__atomic_fetch_add(&ScanPos[RangeNum], kPosIncrement, ...)`. -/
def fetchAdd (s : ScanSys) (r : Nat) : ScanSys :=
  { s with scanPos := Function.update s.scanPos r (s.scanPos r + kPosIncrement) }

/-- One atomic step of thread `t`, which read the snapshot `n` of `NumSuperPages`: the
`fetch_add` that claims a batch or ends the range (`break`), or one call of
`MarkAllLivePointers`, or the end of a batch. -/
def step (n : Nat → Nat) (s : ScanSys) (t : Nat) : ScanSys :=
  let th := s.threads t
  match th.pc with
  | .fetch r =>
    let pos := s.scanPos r
    if pos ≥ n r then (s.fetchAdd r).setThread t { th with pc := if r = 0 then .fetch 1 else .done }
    else
      let endIdx := min (n r) (pos + kPosIncrement)
      (s.fetchAdd r).setThread t ⟨.mark r pos endIdx, th.numDone + (endIdx - pos)⟩
  | .mark r spIdx endIdx =>
    if spIdx < endIdx then
      (s.record (t, r, spIdx)).setThread t { th with pc := .mark r (spIdx + 1) endIdx }
    else s.setThread t { th with pc := .fetch r }
  | .done => s

/-- The threads step in the order the schedule names them. -/
def run (n : Nat → Nat) (s : ScanSys) (sched : List Nat) : ScanSys := sched.foldl (step n) s

/-- How often index `i` of range `r` has been passed to `MarkAllLivePointers`. -/
def markCount (s : ScanSys) (r i : Nat) : Nat := (s.marked.filter fun e => e.2 = (r, i)).length

/-- The sum of `f` over the threads `0, ..., k - 1`. -/
def sumThreads (s : ScanSys) (k : Nat) (f : ScanThread → Nat) : Nat :=
  ((List.range k).map fun t => f (s.threads t)).sum

@[simp] theorem setThread_threads (s : ScanSys) (t : Nat) (th : ScanThread) (t' : Nat) :
    (s.setThread t th).threads t' = if t' = t then th else s.threads t' :=
  Function.update_apply _ _ _ _
@[simp] theorem setThread_scanPos (s : ScanSys) (t : Nat) (th : ScanThread) :
    (s.setThread t th).scanPos = s.scanPos := rfl
@[simp] theorem setThread_marked (s : ScanSys) (t : Nat) (th : ScanThread) :
    (s.setThread t th).marked = s.marked := rfl
@[simp] theorem fetchAdd_threads (s : ScanSys) (r : Nat) : (s.fetchAdd r).threads = s.threads := rfl
@[simp] theorem fetchAdd_marked (s : ScanSys) (r : Nat) : (s.fetchAdd r).marked = s.marked := rfl
@[simp] theorem markCount_setThread (s : ScanSys) (t : Nat) (th : ScanThread) :
    (s.setThread t th).markCount = s.markCount := rfl
@[simp] theorem markCount_fetchAdd (s : ScanSys) (r : Nat) : (s.fetchAdd r).markCount = s.markCount := rfl
@[simp] theorem sumThreads_fetchAdd (s : ScanSys) (r k : Nat) (f : ScanThread → Nat) :
    (s.fetchAdd r).sumThreads k f = s.sumThreads k f := rfl
theorem fetchAdd_scanPos (s : ScanSys) (r r' : Nat) :
    (s.fetchAdd r).scanPos r' = if r' = r then s.scanPos r + kPosIncrement else s.scanPos r' :=
  Function.update_apply _ _ _ _
theorem le_fetchAdd_scanPos (s : ScanSys) (r r' : Nat) : s.scanPos r' ≤ (s.fetchAdd r).scanPos r' := by
  rw [fetchAdd_scanPos]; split <;> subst_vars <;> omega
theorem min_fetchAdd_scanPos {s : ScanSys} {n : Nat → Nat} {r : Nat} (h : n r ≤ s.scanPos r)
    (r' : Nat) : min (n r') ((s.fetchAdd r).scanPos r') = min (n r') (s.scanPos r') := by
  rw [fetchAdd_scanPos]; split <;> subst_vars <;> omega

end ScanSys

namespace ScanPc

/-- The range a thread works on is `0` or `1`. -/
def InRange : ScanPc → Prop
  | .fetch r => r < 2
  | .mark r _ _ => r < 2
  | .done => True

/-- The thread has found range `r` exhausted and moved on. -/
def Past (r : Nat) : ScanPc → Prop
  | .fetch r' => r < r'
  | .mark r' _ _ => r < r'
  | .done => True

/-- Index `i` of range `r` is claimed by the thread and not yet passed to
`MarkAllLivePointers`. -/
def pending (r i : Nat) : ScanPc → Nat
  | .mark r' spIdx endIdx => if r' = r ∧ spIdx ≤ i ∧ i < endIdx then 1 else 0
  | _ => 0

@[simp] theorem pending_fetch (r r' i : Nat) : (fetch r').pending r i = 0 := rfl
@[simp] theorem pending_done (r i : Nat) : done.pending r i = 0 := rfl
@[simp] theorem pending_mark (r i r' spIdx endIdx : Nat) :
    (mark r' spIdx endIdx).pending r i = if r' = r ∧ spIdx ≤ i ∧ i < endIdx then 1 else 0 := rfl

end ScanPc

theorem sum_range_update (g : Nat → Nat) {t k : Nat} (ht : t < k) (v : Nat) :
    ((List.range k).map (Function.update g t v)).sum + g t = ((List.range k).map g).sum + v := by
  induction k with
  | zero => omega
  | succ k ih =>
    simp only [List.range_succ, List.map_append, List.sum_append, List.map_singleton,
      List.sum_singleton]
    rcases Nat.lt_or_ge t k with htk | htk
    · rw [Function.update_noteq (by omega)]
      have := ih htk
      omega
    · have heq : t = k := by omega
      subst heq
      rw [List.map_congr_left fun j hj => Function.update_noteq
        (Nat.ne_of_lt (List.mem_range.mp hj)) v g, Function.update_same]
      omega

theorem ScanSys.sumThreads_setThread (s : ScanSys) {t k : Nat} (ht : t < k) (th : ScanThread)
    (f : ScanThread → Nat) :
    (s.setThread t th).sumThreads k f + f (s.threads t) = s.sumThreads k f + f th := by
  have h := sum_range_update (fun j => f (s.threads j)) ht (f th)
  rw [show Function.update (fun j => f (s.threads j)) t (f th) = fun j => f ((s.setThread t th).threads j)
    from funext fun j => by simp only [ScanSys.setThread_threads, Function.update_apply]; split <;> rfl] at h
  exact h

namespace ScanSys

/-- What every run of `ScanLoop` keeps. Each index of a range below `min(N, ScanPos)` has
been passed to `MarkAllLivePointers` once or is pending in exactly one thread's batch, and
no other index is in either; the `NumDone`s add up to the indices claimed; and a thread
past a range has seen `ScanPos` reach the range's end. -/
structure Inv (n : Nat → Nat) (k : Nat) (s : ScanSys) : Prop where
  idle : ∀ t, k ≤ t → s.threads t = ⟨.done, 0⟩
  inRange : ∀ t, (s.threads t).pc.InRange
  batch : ∀ t r spIdx endIdx, (s.threads t).pc = .mark r spIdx endIdx →
    spIdx ≤ endIdx ∧ endIdx ≤ min (n r) (s.scanPos r)
  once : ∀ r < 2, ∀ i, s.markCount r i + s.sumThreads k (·.pc.pending r i) =
    if i < min (n r) (s.scanPos r) then 1 else 0
  numDone : s.sumThreads k (·.numDone) = min (n 0) (s.scanPos 0) + min (n 1) (s.scanPos 1)
  past : ∀ t, t < k → ∀ r < 2, (s.threads t).pc.Past r → n r ≤ s.scanPos r

theorem sumThreads_zero (s : ScanSys) (k : Nat) {f : ScanThread → Nat}
    (h : ∀ t < k, f (s.threads t) = 0) : s.sumThreads k f = 0 := by
  rw [sumThreads, List.sum_eq_zero]
  intro x hx
  obtain ⟨t, ht, rfl⟩ := List.mem_map.mp hx
  exact h t (List.mem_range.mp ht)

theorem inv_init (n : Nat → Nat) (k : Nat) : (init k).Inv n k where
  idle t ht := by simp [init, Nat.not_lt.mpr ht]
  inRange t := by by_cases h : t < k <;> simp [init, h, ScanPc.InRange]
  batch t r spIdx endIdx h := by by_cases h' : t < k <;> simp [init, h'] at h
  once r _ i := by
    rw [sumThreads_zero _ _ fun t ht => by simp [init, ht, ScanPc.pending]]
    simp [markCount, init]
  numDone := by
    rw [sumThreads_zero _ _ fun t ht => by simp [init, ht]]
    simp [init]
  past t ht r _ h := by simp [init, ht, ScanPc.Past] at h

theorem markCount_record (s : ScanSys) (e : Nat × Nat × Nat) (r i : Nat) :
    (s.record e).markCount r i = s.markCount r i + if e.2 = (r, i) then 1 else 0 := by
  simp only [record, markCount, List.filter_append, List.length_append, List.filter_singleton]
  split <;> simp_all

@[simp] theorem record_threads (s : ScanSys) (e : Nat × Nat × Nat) : (s.record e).threads = s.threads := rfl
@[simp] theorem record_scanPos (s : ScanSys) (e : Nat × Nat × Nat) : (s.record e).scanPos = s.scanPos := rfl
@[simp] theorem sumThreads_record (s : ScanSys) (e : Nat × Nat × Nat) (k : Nat) (f : ScanThread → Nat) :
    (s.record e).sumThreads k f = s.sumThreads k f := rfl

variable {n : Nat → Nat} {k : Nat} {s : ScanSys} {t : Nat}

/-- What one step of thread `t` has to show. The shared state `s₀` it leaves has the same
threads and `ScanPos` no lower; the thread's new locals `th` stay in range, keep their batch
inside the claimed indices, balance the indices and batches that changed hands, and stay
past every range they have left. -/
theorem Inv.setThread (hs : s.Inv n k) (ht : t < k) {s₀ : ScanSys} (hth : s₀.threads = s.threads)
    (hpos : ∀ r, s.scanPos r ≤ s₀.scanPos r) {th : ScanThread} (hin : th.pc.InRange)
    (hbatch : ∀ r a b, th.pc = .mark r a b → a ≤ b ∧ b ≤ min (n r) (s₀.scanPos r))
    (honce : ∀ r < 2, ∀ i, s₀.markCount r i + th.pc.pending r i +
        (if i < min (n r) (s.scanPos r) then 1 else 0) =
      s.markCount r i + (s.threads t).pc.pending r i + (if i < min (n r) (s₀.scanPos r) then 1 else 0))
    (hdone : th.numDone + min (n 0) (s.scanPos 0) + min (n 1) (s.scanPos 1) =
      (s.threads t).numDone + min (n 0) (s₀.scanPos 0) + min (n 1) (s₀.scanPos 1))
    (hpast : ∀ r < 2, th.pc.Past r → n r ≤ s₀.scanPos r) :
    (s₀.setThread t th).Inv n k := by
  have hsum : ∀ f : ScanThread → Nat,
      (s₀.setThread t th).sumThreads k f + f (s.threads t) = s.sumThreads k f + f th := fun f => by
    have h := sumThreads_setThread s₀ ht th f
    simp only [sumThreads, hth] at h ⊢
    exact h
  refine ⟨fun t' ht' => ?_, fun t' => ?_, fun t' r a b h => ?_, fun r hr i => ?_, ?_, ?_⟩
  · rw [setThread_threads, if_neg (Nat.ne_of_gt (Nat.lt_of_lt_of_le ht ht')), hth, hs.idle t' ht']
  · rw [setThread_threads]
    split
    · exact hin
    · rw [hth]; exact hs.inRange t'
  · rw [setThread_threads] at h
    split at h
    · exact hbatch r a b h
    · rw [hth] at h
      have := hs.batch t' r a b h
      have := hpos r
      rw [setThread_scanPos]; omega
  · have h := hsum (·.pc.pending r i)
    have := hs.once r hr i
    have := honce r hr i
    rw [setThread_scanPos, markCount_setThread]
    omega
  · have h := hsum (·.numDone)
    have := hs.numDone
    rw [setThread_scanPos]
    omega
  · intro t' ht' r hr h
    rw [setThread_threads] at h
    split at h
    · exact hpast r hr h
    · rw [hth] at h; exact Nat.le_trans (hs.past t' ht' r hr h) (hpos r)

theorem Inv.fetch_end (hs : s.Inv n k) (ht : t < k) {r : Nat} (hpc : (s.threads t).pc = .fetch r)
    (hpos : n r ≤ s.scanPos r) :
    ((s.fetchAdd r).setThread t { s.threads t with pc := if r = 0 then .fetch 1 else .done }).Inv n k := by
  have hmin := min_fetchAdd_scanPos hpos
  refine hs.setThread ht (fetchAdd_threads s r) (le_fetchAdd_scanPos s r) ?_ ?_ ?_ ?_ ?_
  · dsimp only; split <;> simp [ScanPc.InRange]
  · intro r' a b h; dsimp only at h; split at h <;> simp at h
  · intro r' _ i
    have h0 : (if r = 0 then ScanPc.fetch 1 else ScanPc.done).pending r' i = 0 := by split <;> rfl
    dsimp only
    rw [h0, hpc, ScanPc.pending_fetch, hmin, markCount_fetchAdd]
  · rw [hmin 0, hmin 1]
  · intro r' hr' h
    dsimp only at h
    by_cases hrr : r' = r
    · subst hrr; rw [fetchAdd_scanPos, if_pos rfl]; omega
    · refine Nat.le_trans (hs.past t ht r' hr' ?_) (le_fetchAdd_scanPos s r r')
      have hr : r < 2 := by simpa [hpc, ScanPc.InRange] using hs.inRange t
      rw [hpc]
      split at h <;> simp only [ScanPc.Past] at h ⊢ <;> omega

theorem Inv.fetch_claim (hs : s.Inv n k) (ht : t < k) {r : Nat} (hpc : (s.threads t).pc = .fetch r)
    (hpos : s.scanPos r < n r) :
    ((s.fetchAdd r).setThread t ⟨.mark r (s.scanPos r) (min (n r) (s.scanPos r + kPosIncrement)),
      (s.threads t).numDone + (min (n r) (s.scanPos r + kPosIncrement) - s.scanPos r)⟩).Inv n k := by
  have hr : r < 2 := by simpa [hpc, ScanPc.InRange] using hs.inRange t
  have hnew : ∀ r', min (n r') ((s.fetchAdd r).scanPos r') = min (n r') (s.scanPos r') +
      if r' = r then min (n r) (s.scanPos r + kPosIncrement) - s.scanPos r else 0 := by
    intro r'; rw [fetchAdd_scanPos]; split <;> subst_vars <;> omega
  refine hs.setThread ht (fetchAdd_threads s r) (le_fetchAdd_scanPos s r) hr ?_ ?_ ?_ ?_
  · intro r' a b h
    simp only [ScanPc.mark.injEq] at h
    obtain ⟨rfl, rfl, rfl⟩ := h
    rw [fetchAdd_scanPos, if_pos rfl]; omega
  · intro r' _ i
    rw [hpc, ScanPc.pending_fetch, markCount_fetchAdd, hnew r', ScanPc.pending_mark]
    by_cases hrr : r' = r
    · subst hrr
      simp only [if_true, true_and]
      split_ifs <;> omega
    · simp only [hrr, if_false, Ne.symm hrr, false_and, Nat.add_zero]
  · dsimp only
    rw [hnew 0, hnew 1]
    split_ifs <;> omega
  · intro r' hr' h
    exact Nat.le_trans (hs.past t ht r' hr' (by rw [hpc]; exact h)) (le_fetchAdd_scanPos s r r')

theorem Inv.mark_one (hs : s.Inv n k) (ht : t < k) {r a b : Nat}
    (hpc : (s.threads t).pc = .mark r a b) (hab : a < b) :
    ((s.record (t, r, a)).setThread t { s.threads t with pc := .mark r (a + 1) b }).Inv n k := by
  have hin := hs.inRange t
  rw [hpc] at hin
  refine hs.setThread ht (record_threads s _) (fun _ => le_refl _) hin ?_ ?_ rfl ?_
  · intro r' a' b' h
    simp only [ScanPc.mark.injEq] at h
    obtain ⟨rfl, rfl, rfl⟩ := h
    have := hs.batch t r a b hpc
    rw [record_scanPos]; omega
  · intro r' _ i
    rw [record_scanPos, Nat.add_right_cancel_iff, markCount_record, hpc]
    simp only [ScanPc.pending_mark, Prod.mk.injEq]
    by_cases hrr : r = r'
    · subst hrr
      simp only [true_and]
      split_ifs <;> omega
    · simp only [hrr, false_and, if_false]
  · intro r' hr' h
    exact hs.past t ht r' hr' (by rw [hpc]; exact h)

theorem Inv.batch_end (hs : s.Inv n k) (ht : t < k) {r a b : Nat}
    (hpc : (s.threads t).pc = .mark r a b) (hab : ¬ a < b) :
    (s.setThread t { s.threads t with pc := .fetch r }).Inv n k := by
  have hin := hs.inRange t
  rw [hpc] at hin
  refine hs.setThread ht rfl (fun _ => le_refl _) hin (fun _ _ _ h => by simp at h) ?_ rfl ?_
  · intro r' _ i
    rw [hpc, ScanPc.pending_mark, if_neg (show ¬(r = r' ∧ a ≤ i ∧ i < b) by omega)]
    rfl
  · intro r' hr' h
    exact hs.past t ht r' hr' (by rw [hpc]; exact h)

theorem Inv.step (hs : s.Inv n k) (t : Nat) : (s.step n t).Inv n k := by
  by_cases ht : t < k
  · rcases hpc : (s.threads t).pc with r | ⟨r, a, b⟩ | _
    · simp only [ScanSys.step, hpc]
      split
      · exact hs.fetch_end ht hpc ‹_›
      · exact hs.fetch_claim ht hpc (by omega)
    · simp only [ScanSys.step, hpc]
      split
      · exact hs.mark_one ht hpc ‹_›
      · exact hs.batch_end ht hpc ‹_›
    · simpa [ScanSys.step, hpc] using hs
  · simpa [ScanSys.step, hs.idle t (by omega)] using hs

theorem Inv.run (hs : s.Inv n k) (sched : List Nat) : (s.run n sched).Inv n k := by
  induction sched generalizing s with
  | nil => exact hs
  | cons t sched ih => exact ih (hs.step t)

-- ---------------------------------------------------------------------------
-- Each thread's loop ends
-- ---------------------------------------------------------------------------

/-- The batches of range `r` not yet claimed. -/
def remaining (n : Nat → Nat) (s : ScanSys) (r : Nat) : Nat :=
  (n r - s.scanPos r + kPosIncrement - 1) / kPosIncrement

/-- The steps a thread at the `fetch_add` of range `r` still takes at most: per batch left
one claim, at most `kPosIncrement` calls and the end of the batch, and one claim per range
that ends it. -/
def fetchSteps (n : Nat → Nat) (s : ScanSys) (r : Nat) : Nat :=
  if r = 0 then (remaining n s 0 + remaining n s 1) * (kPosIncrement + 2) + 2
  else remaining n s 1 * (kPosIncrement + 2) + 1

/-- The steps a thread at `pc` still takes at most, whatever the other threads do. -/
def stepsLeft (n : Nat → Nat) (s : ScanSys) : ScanPc → Nat
  | .fetch r => fetchSteps n s r
  | .mark r spIdx endIdx => endIdx - spIdx + 1 + fetchSteps n s r
  | .done => 0

theorem remaining_anti {n : Nat → Nat} {s s' : ScanSys} (h : ∀ r, s.scanPos r ≤ s'.scanPos r) (r : Nat) :
    remaining n s' r ≤ remaining n s r :=
  Nat.div_le_div_right (by have := h r; omega)

theorem stepsLeft_anti {n : Nat → Nat} {s s' : ScanSys} (h : ∀ r, s.scanPos r ≤ s'.scanPos r)
    (pc : ScanPc) : stepsLeft n s' pc ≤ stepsLeft n s pc := by
  have h0 := remaining_anti (n := n) h 0
  have h1 := remaining_anti (n := n) h 1
  have hf : ∀ r, fetchSteps n s' r ≤ fetchSteps n s r := by
    intro r; unfold fetchSteps; split
    · exact Nat.add_le_add_right (Nat.mul_le_mul_right _ (Nat.add_le_add h0 h1)) _
    · exact Nat.add_le_add_right (Nat.mul_le_mul_right _ h1) _
  cases pc with
  | fetch r => exact hf r
  | mark r a b => exact Nat.add_le_add_left (hf r) _
  | done => exact le_refl _

@[simp] theorem remaining_setThread (n : Nat → Nat) (s : ScanSys) (t : Nat) (th : ScanThread) (r : Nat) :
    remaining n (s.setThread t th) r = remaining n s r := rfl
@[simp] theorem remaining_record (n : Nat → Nat) (s : ScanSys) (e : Nat × Nat × Nat) (r : Nat) :
    remaining n (s.record e) r = remaining n s r := rfl
@[simp] theorem fetchSteps_setThread (n : Nat → Nat) (s : ScanSys) (t : Nat) (th : ScanThread) (r : Nat) :
    fetchSteps n (s.setThread t th) r = fetchSteps n s r := rfl
@[simp] theorem fetchSteps_record (n : Nat → Nat) (s : ScanSys) (e : Nat × Nat × Nat) (r : Nat) :
    fetchSteps n (s.record e) r = fetchSteps n s r := rfl
theorem remaining_fetchAdd_of_ne (n : Nat → Nat) (s : ScanSys) {r r' : Nat} (h : r' ≠ r) :
    remaining n (s.fetchAdd r) r' = remaining n s r' := by
  simp only [remaining, fetchAdd_scanPos, if_neg h]
theorem remaining_fetchAdd (n : Nat → Nat) (s : ScanSys) {r : Nat} (h : s.scanPos r < n r) :
    remaining n (s.fetchAdd r) r + 1 = remaining n s r := by
  rw [remaining, remaining, fetchAdd_scanPos, if_pos rfl]
  unfold kPosIncrement
  omega
theorem remaining_eq_zero (n : Nat → Nat) (s : ScanSys) {r : Nat} (h : n r ≤ s.scanPos r) :
    remaining n s r = 0 := by
  simp only [remaining, kPosIncrement]
  omega

theorem scanPos_le_step (n : Nat → Nat) (s : ScanSys) (t r : Nat) :
    s.scanPos r ≤ (s.step n t).scanPos r := by
  rcases hpc : (s.threads t).pc with r' | ⟨r', a, b⟩ | _ <;> simp only [step, hpc]
  · split <;> exact le_fetchAdd_scanPos s _ r
  · split <;> exact le_refl _
  · exact le_refl _

theorem step_threads_of_ne (n : Nat → Nat) (s : ScanSys) {t t' : Nat} (h : t' ≠ t) :
    (s.step n t).threads t' = s.threads t' := by
  rcases hpc : (s.threads t).pc with r' | ⟨r', a, b⟩ | _ <;> simp only [step, hpc]
  · split <;> simp [h]
  · split <;> simp [h]

theorem stepsLeft_step_self {n : Nat → Nat} {k : Nat} {s : ScanSys} (hs : s.Inv n k) {t : Nat}
    (hnd : (s.threads t).pc ≠ .done) :
    stepsLeft n (s.step n t) ((s.step n t).threads t).pc < stepsLeft n s (s.threads t).pc := by
  have hin := hs.inRange t
  rcases hpc : (s.threads t).pc with r | ⟨r, a, b⟩ | _
  · rw [hpc] at hin
    simp only [ScanPc.InRange] at hin
    simp only [step, hpc]
    split
    · have h0 := remaining_eq_zero n s (r := r) (by omega)
      simp only [setThread_threads, if_true]
      split
      · subst_vars
        simp only [stepsLeft, fetchSteps, if_true, Nat.one_ne_zero, if_false, remaining_setThread,
          remaining_fetchAdd_of_ne n s (show 1 ≠ 0 by decide), h0, kPosIncrement]
        omega
      · have hr1 : r = 1 := by omega
        subst hr1
        simp only [stepsLeft, fetchSteps, Nat.one_ne_zero, if_false, h0, kPosIncrement]
        omega
    · have hdec := remaining_fetchAdd n s (r := r) (by omega)
      have hle : min (n r) (s.scanPos r + kPosIncrement) - s.scanPos r ≤ 1024 := by
        unfold kPosIncrement; omega
      simp only [setThread_threads, if_true, stepsLeft, fetchSteps, remaining_setThread]
      split
      · subst_vars
        rw [remaining_fetchAdd_of_ne n s (show 1 ≠ 0 by decide)]
        unfold kPosIncrement at *
        omega
      · have hr1 : r = 1 := by omega
        subst hr1
        unfold kPosIncrement at *
        omega
  · simp only [step, hpc]
    split
    · simp only [setThread_threads, if_true, stepsLeft, fetchSteps_setThread, fetchSteps_record]
      omega
    · simp only [setThread_threads, if_true, stepsLeft, fetchSteps_setThread]
      omega
  · exact absurd hpc hnd

theorem run_threads_done {n : Nat → Nat} {t : Nat} :
    ∀ (sched : List Nat) (s : ScanSys), (s.threads t).pc = .done → ((s.run n sched).threads t).pc = .done := by
  intro sched
  induction sched with
  | nil => intro s h; exact h
  | cons b sched ih =>
    intro s h
    apply ih
    by_cases hb : t = b
    · subst hb; simp only [step, h]
    · rw [step_threads_of_ne n s hb]; exact h

theorem stepsLeft_pos (n : Nat → Nat) (s : ScanSys) {pc : ScanPc} (h : pc ≠ .done) :
    0 < stepsLeft n s pc := by
  cases pc with
  | fetch r => simp only [stepsLeft, fetchSteps]; split <;> omega
  | mark r a b => simp only [stepsLeft]; omega
  | done => exact absurd rfl h

/-- Over any schedule, a thread that has not returned took at most `stepsLeft` of the steps
it was given. -/
theorem count_le_stepsLeft {n : Nat → Nat} {k : Nat} {t : Nat} :
    ∀ (sched : List Nat) (s : ScanSys), s.Inv n k → ((s.run n sched).threads t).pc ≠ .done →
      sched.count t + stepsLeft n (s.run n sched) ((s.run n sched).threads t).pc ≤
        stepsLeft n s (s.threads t).pc := by
  intro sched
  induction sched with
  | nil => intro s _ _; simp [run]
  | cons a sched ih =>
    intro s hs hnd
    have hrec := ih (s.step n a) (hs.step a) hnd
    rw [run, List.foldl_cons] at hnd ⊢
    by_cases hat : a = t
    · subst hat
      have hnd' : (s.threads a).pc ≠ .done := fun hdone =>
        hnd (run_threads_done sched (s.step n a) (by simp only [step, hdone]))
      have := stepsLeft_step_self hs hnd'
      simp only [List.count_cons_self]
      unfold run at hrec
      omega
    · have := stepsLeft_anti (n := n) (scanPos_le_step n s a) (s.threads t).pc
      rw [step_threads_of_ne n s (Ne.symm hat)] at hrec
      simp only [List.count_cons, beq_iff_eq, hat, Ne.symm hat, if_false, Nat.add_zero]
      unfold run at hrec
      omega

end ScanSys

/-- Any number `k + 1` of threads running `ScanLoop` after `Scan` reset `ScanPos`, with one
snapshot `N` of `NumSuperPages`, under any interleaving. Each thread's loop ends within
`stepsLeft` of its own steps at the start, whatever the others do. Once every thread has
returned, each index of `[0, N_r)` of each range has been passed to
`MarkAllLivePointers` exactly once, so by exactly one thread, no other index of the range
has, and the threads' `NumDone` add up to `N_0 + N_1`. -/
theorem scanLoop_marks_each_index_once (n : Nat → Nat) (k : Nat) (sched : List Nat) :
    (∀ t < k + 1, ScanSys.stepsLeft n (ScanSys.init (k + 1)) (.fetch 0) ≤ sched.count t →
      (((ScanSys.init (k + 1)).run n sched).threads t).pc = .done) ∧
    ((∀ t < k + 1, (((ScanSys.init (k + 1)).run n sched).threads t).pc = .done) →
      (∀ r < 2, ∀ i, ((ScanSys.init (k + 1)).run n sched).markCount r i = if i < n r then 1 else 0) ∧
      ((ScanSys.init (k + 1)).run n sched).sumThreads (k + 1) (·.numDone) = n 0 + n 1) := by
  have hinv := (ScanSys.inv_init n (k + 1)).run sched
  refine ⟨fun t ht hc => ?_, fun hdone => ?_⟩
  · by_contra hnd
    have h := ScanSys.count_le_stepsLeft sched (ScanSys.init (k + 1)) (ScanSys.inv_init n (k + 1)) hnd
    have h0 : ((ScanSys.init (k + 1)).threads t).pc = .fetch 0 := by simp [ScanSys.init, ht]
    rw [h0] at h
    have := ScanSys.stepsLeft_pos n ((ScanSys.init (k + 1)).run n sched) hnd
    omega
  · have hpast : ∀ r < 2, n r ≤ ((ScanSys.init (k + 1)).run n sched).scanPos r :=
      fun r hr => hinv.past 0 (Nat.succ_pos k) r hr (by rw [hdone 0 (Nat.succ_pos k)]; trivial)
    have hpend : ∀ r i, ((ScanSys.init (k + 1)).run n sched).sumThreads (k + 1) (·.pc.pending r i) = 0 :=
      fun r i => ScanSys.sumThreads_zero _ _ fun t ht => by rw [hdone t ht]; rfl
    refine ⟨fun r hr i => ?_, ?_⟩
    · have h := hinv.once r hr i
      rw [hpend, Nat.add_zero, Nat.min_eq_left (hpast r hr)] at h
      exact h
    · rw [hinv.numDone, Nat.min_eq_left (hpast 0 (by decide)), Nat.min_eq_left (hpast 1 (by decide))]

end MTMalloc

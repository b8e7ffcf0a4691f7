import Mathlib.Algebra.BigOperators.Group.List.Basic
import Mathlib.Algebra.Ring.Nat
import Mathlib.Data.Finset.Card
import Mathlib.Order.Interval.Finset.Nat
import Apackage.Lib.Run
import Apackage.Rtp2httpd.Output.BufferPool

/-
  Conservation of the buffers of a pool, in every run of callers that put only references
  they hold.

  `PoolOk` is the invariant, in three parts: where the segments lie (`Layout`), what the
  counts of the references count (`Counted`), and what is on the free list (`FreeOk`). A
  reference that a call is about to return, or has just been given, is in flight: it counts,
  and no caller holds it. `pool_conservation` reads the counters, the bound and the fate of
  held buffers off the invariant.
-/

namespace Apackage.Rtp2httpd

open Function List Lib.Run

namespace BufferPool

/-- The reference belongs to a segment of the pool. -/
def InPool (p : BufferPool) (r : RefId) : Prop := ∃ i ∈ p.segments, (p.seg i).has r
  deriving Decidable

def viewsOn (p : BufferPool) (r : RefId) : ℕ := p.lone.countP (fun v => (p.ref v).owner = some r)

end BufferPool

def inFlight (fl : Option RefId) (r : RefId) : ℕ := if fl = some r then 1 else 0

@[simp] theorem inFlight_none (r : RefId) : inFlight none r = 0 := rfl

@[simp] theorem inFlight_self (r : RefId) : inFlight (some r) r = 1 := if_pos rfl

theorem inFlight_of_ne {r x : RefId} (h : x ≠ r) : inFlight (some r) x = 0 :=
  if_neg (by simpa using h.symm)

/-- Where the segments lie. `cap` bounds the buffers. -/
structure Layout (cap : ℕ) (p : BufferPool) : Prop where
  nodup : p.segments.Nodup
  refsApart : ∀ i ∈ p.segments, ∀ j ∈ p.segments, ∀ r, (p.seg i).has r → (p.seg j).has r → i = j
  memApart : ∀ i ∈ p.segments, ∀ j ∈ p.segments, ∀ a,
    (p.seg i).covers p.bufferSize a → (p.seg j).covers p.bufferSize a → i = j
  entry : ∀ i ∈ p.segments, ∀ r, (p.seg i).has r → (p.ref r).segment = some i ∧
    (p.ref r).owner = none ∧ (p.ref r).type = .memory ∧
    (p.ref r).data = (p.seg i).buffers + (r - (p.seg i).refs) * p.bufferSize
  total : p.numBuffers = (p.segments.map (fun i => (p.seg i).numBuffers)).sum
  bound : p.numBuffers ≤ cap
  maxLe : p.maxBuffers ≤ cap
  sizePos : 0 < p.bufferSize

/-- A count is the references that callers hold, the views, and the one in flight. -/
structure Counted (fl : Option RefId) (p : BufferPool) : Prop where
  pooled : ∀ r, p.InPool r → (p.ref r).refcount = p.held r + p.viewsOn r + inFlight fl r
  nodup : p.lone.Nodup
  alone : ∀ v ∈ p.lone, ¬ p.InPool v
  lone : ∀ v ∈ p.lone, (p.ref v).refcount = p.held v + inFlight fl v ∧ 0 < (p.ref v).refcount
  owner : ∀ v ∈ p.lone, ∀ o, (p.ref v).owner = some o → p.InPool o
  kind : ∀ v ∈ p.lone, (p.ref v).owner = none → (p.ref v).type = .file
  live : ∀ r, 0 < p.held r + inFlight fl r → p.InPool r ∨ r ∈ p.lone

/-- The free list holds the references of the pool with count 0. -/
structure FreeOk (p : BufferPool) : Prop where
  nodup : p.freeList.Nodup
  mem : ∀ r, r ∈ p.freeList ↔ p.InPool r ∧ (p.ref r).refcount = 0
  seg : ∀ i ∈ p.segments, (p.seg i).numFree = p.freeList.countP (fun r => (p.seg i).has r)
  count : p.numFree = p.freeList.length

structure PoolOk (cap : ℕ) (fl : Option RefId) (p : BufferPool) : Prop where
  layout : Layout cap p
  counted : Counted fl p
  free : FreeOk p

/-! ## Small facts -/

namespace BufferPool

variable (seg : SegId → Segment) (i : Option SegId) (f : ℕ → ℕ) (j : SegId)

@[simp] theorem withFree_refs : (withFree seg i f j).refs = (seg j).refs := by
  unfold withFree
  split
  · rfl
  · rename_i i
    by_cases h : j = i <;> simp [h]

@[simp] theorem withFree_buffers : (withFree seg i f j).buffers = (seg j).buffers := by
  unfold withFree
  split
  · rfl
  · rename_i i
    by_cases h : j = i <;> simp [h]

@[simp] theorem withFree_numBuffers : (withFree seg i f j).numBuffers = (seg j).numBuffers := by
  unfold withFree
  split
  · rfl
  · rename_i i
    by_cases h : j = i <;> simp [h]

theorem withFree_numFree (i : SegId) :
    (withFree seg (some i) f j).numFree = if j = i then f (seg i).numFree else (seg j).numFree := by
  unfold withFree
  by_cases h : j = i <;> simp [h]

end BufferPool

/-- `q` differs from `p` only in counts, in what is free, and in what callers do with a
    buffer they hold. -/
structure SameRefs (p q : BufferPool) : Prop where
  segments : q.segments = p.segments
  seg : ∀ i, (q.seg i).buffers = (p.seg i).buffers ∧ (q.seg i).refs = (p.seg i).refs ∧
    (q.seg i).numBuffers = (p.seg i).numBuffers
  ref : ∀ r, (q.ref r).segment = (p.ref r).segment ∧ (q.ref r).owner = (p.ref r).owner ∧
    (q.ref r).type = (p.ref r).type ∧ (q.ref r).data = (p.ref r).data
  lone : q.lone = p.lone
  bufferSize : q.bufferSize = p.bufferSize
  numBuffers : q.numBuffers = p.numBuffers
  maxBuffers : q.maxBuffers = p.maxBuffers

namespace SameRefs

variable {p q : BufferPool}

theorem has_iff (h : SameRefs p q) (i : SegId) (r : RefId) : (q.seg i).has r ↔ (p.seg i).has r := by
  obtain ⟨-, h2, h3⟩ := h.seg i
  rw [Segment.has, Segment.has, h2, h3]

theorem inPool_iff (h : SameRefs p q) (r : RefId) : q.InPool r ↔ p.InPool r := by
  simp [BufferPool.InPool, h.segments, h.has_iff]

theorem viewsOn_eq (h : SameRefs p q) (r : RefId) : q.viewsOn r = p.viewsOn r := by
  simp [BufferPool.viewsOn, h.lone, (h.ref _).2.1]

theorem layout {cap : ℕ} (h : SameRefs p q) (hp : Layout cap p) : Layout cap q := by
  have hcovers : ∀ i a, (q.seg i).covers q.bufferSize a ↔ (p.seg i).covers p.bufferSize a := by
    intro i a
    obtain ⟨h1, -, h3⟩ := h.seg i
    rw [Segment.covers, Segment.covers, h1, h3, h.bufferSize]
  refine ⟨h.segments ▸ hp.nodup, ?_, ?_, ?_, ?_, h.numBuffers ▸ hp.bound, h.maxBuffers ▸ hp.maxLe,
    h.bufferSize ▸ hp.sizePos⟩
  · simp only [h.segments, h.has_iff]
    exact hp.refsApart
  · simp only [h.segments, hcovers]
    exact hp.memApart
  · intro i hi r hr
    rw [h.segments] at hi
    rw [h.has_iff] at hr
    obtain ⟨h1, h2, h3, h4⟩ := h.ref r
    obtain ⟨hb, hr', -⟩ := h.seg i
    rw [h1, h2, h3, h4, hb, hr', h.bufferSize]
    exact hp.entry i hi r hr
  · rw [h.numBuffers, h.segments, hp.total]
    congr 1
    exact map_congr_left (fun i _ => (h.seg i).2.2.symm)

end SameRefs

namespace PoolOk

variable {cap : ℕ} {fl : Option RefId} {r : RefId} {p : BufferPool}

theorem count_pos (h : PoolOk cap fl p) {r : RefId} (hr : 0 < p.held r + inFlight fl r) :
    0 < (p.ref r).refcount := by
  rcases h.counted.live r hr with hin | hin
  · rw [h.counted.pooled r hin]
    omega
  · exact (h.counted.lone r hin).2

theorem has_iff (h : PoolOk cap fl p) {r : RefId} {i j : SegId} (hi : i ∈ p.segments)
    (hr : (p.seg i).has r) (hj : j ∈ p.segments) : (p.seg j).has r ↔ j = i :=
  ⟨fun hr' => h.layout.refsApart j hj i hi r hr' hr, fun he => he ▸ hr⟩

variable {fl' : Option RefId}

theorem recount (h : PoolOk cap fl p) {q : BufferPool} (hs : SameRefs p q)
    (hsum : ∀ r, (q.ref r).refcount + p.held r + inFlight fl r =
      (p.ref r).refcount + q.held r + inFlight fl' r) (hlone : ∀ v ∈ p.lone, 0 < (q.ref v).refcount)
    (hlive : ∀ r, 0 < q.held r + inFlight fl' r → p.InPool r ∨ r ∈ p.lone) (hfree : FreeOk q) :
    PoolOk cap fl' q := by
  refine ⟨hs.layout h.layout, ⟨?_, hs.lone ▸ h.counted.nodup, ?_, ?_, ?_, ?_, ?_⟩, hfree⟩
  · intro r hr
    rw [hs.inPool_iff] at hr
    rw [hs.viewsOn_eq]
    have := h.counted.pooled r hr
    have := hsum r
    omega
  · intro v hv
    rw [hs.inPool_iff]
    exact h.counted.alone v (hs.lone ▸ hv)
  · intro v hv
    rw [hs.lone] at hv
    have := (h.counted.lone v hv).1
    have := hsum v
    exact ⟨by omega, hlone v hv⟩
  · intro v hv o ho
    rw [hs.lone] at hv
    rw [(hs.ref v).2.1] at ho
    rw [hs.inPool_iff]
    exact h.counted.owner v hv o ho
  · intro v hv ho
    rw [hs.lone] at hv
    rw [(hs.ref v).2.1] at ho
    rw [(hs.ref v).2.2.1]
    exact h.counted.kind v hv ho
  · intro r hr
    rw [hs.inPool_iff, hs.lone]
    exact hlive r hr

theorem withHeld (h : PoolOk cap fl p) {held' : RefId → ℕ}
    (hsum : ∀ r, p.held r + inFlight fl r = held' r + inFlight fl' r) :
    PoolOk cap fl' { p with held := held' } := by
  refine h.recount (q := { p with held := held' })
    ⟨rfl, fun _ => ⟨rfl, rfl, rfl⟩, fun _ => ⟨rfl, rfl, rfl, rfl⟩, rfl, rfl, rfl, rfl⟩
    (fun r => ?_) (fun v hv => (h.counted.lone v hv).2) (fun r hr => ?_)
    ⟨h.free.nodup, h.free.mem, h.free.seg, h.free.count⟩
  · have := hsum r
    dsimp only
    omega
  · exact h.counted.live r (by rw [hsum]; exact hr)

theorem hold (h : PoolOk cap (some r) p) : PoolOk cap none (p.hold r) := by
  refine h.withHeld (fun x => ?_)
  by_cases hx : x = r
  · simp [hx]
  · simp [hx, inFlight_of_ne hx]

theorem unhold (h : PoolOk cap none p) {r : RefId} (hr : 0 < p.held r) :
    PoolOk cap (some r) (p.unhold r) := by
  refine h.withHeld (fun x => ?_)
  by_cases hx : x = r
  · subst hx
    simp
    omega
  · simp [hx, inFlight_of_ne hx]

theorem setCount (h : PoolOk cap fl p) {r : RefId} {n : ℤ} (hpos : 0 < (p.ref r).refcount)
    (hn : 0 < n) (hsum : n + inFlight fl r = (p.ref r).refcount + inFlight fl' r)
    (hrest : ∀ x ≠ r, inFlight fl' x = inFlight fl x) (hlive : p.InPool r ∨ r ∈ p.lone) :
    PoolOk cap fl' (p.setCount r n) := by
  have hcount : ∀ x, ((p.setCount r n).ref x).refcount =
      if x = r then n else (p.ref x).refcount := by
    intro x
    by_cases hx : x = r <;> simp [hx]
  have hs : SameRefs p (p.setCount r n) := by
    refine ⟨rfl, fun _ => ⟨rfl, rfl, rfl⟩, fun x => ?_, rfl, rfl, rfl, rfl⟩
    by_cases hx : x = r <;> simp [hx]
  refine h.recount hs (fun x => ?_) (fun v hv => ?_) (fun x hx => ?_)
    ⟨h.free.nodup, fun x => ?_, h.free.seg, h.free.count⟩
  · rw [hcount, BufferPool.setCount_held]
    split
    · rename_i he
      subst he
      omega
    · rename_i hne
      rw [hrest x hne]
  · rw [hcount]
    split
    · exact hn
    · exact (h.counted.lone v hv).2
  · by_cases he : x = r
    · subst he
      exact hlive
    · rw [hrest x he] at hx
      exact h.counted.live x hx
  · rw [hcount, hs.inPool_iff]
    refine (h.free.mem x).trans (and_congr_right fun _ => ?_)
    split
    · rename_i he
      subst he
      omega
    · rfl

theorem refGet (h : PoolOk cap none p) {r : RefId} (hr : p.InPool r ∨ r ∈ p.lone)
    (hpos : 0 < (p.ref r).refcount) : PoolOk cap (some r) (bufferRefGet p r) := by
  refine h.setCount hpos (by omega) ?_ (fun x hx => ?_) hr
  · simp
  · rw [inFlight_of_ne hx, inFlight_none]

/-! ## The free list -/

theorem take (h : PoolOk cap none p) {r : RefId} {rest : List RefId}
    (hfree : p.freeList = r :: rest) : PoolOk cap (some r) (takeFree p).1 := by
  have hr := (h.free.mem r).mp (by rw [hfree]; exact mem_cons_self)
  obtain ⟨i, hi, hhas⟩ := hr.1
  have hnodup := h.free.nodup
  rw [hfree, nodup_cons] at hnodup
  have hcount : ∀ x, ((takeFree p).1.ref x).refcount = if x = r then 1 else (p.ref x).refcount := by
    intro x
    by_cases hx : x = r <;> simp [takeFree, hfree, hx]
  have hs : SameRefs p (takeFree p).1 := by
    simp only [takeFree, hfree]
    refine ⟨rfl, fun _ => ⟨by simp, by simp, by simp⟩, fun x => ?_, rfl, rfl, rfl, rfl⟩
    by_cases hx : x = r <;> simp [hx]
  have hheld : (takeFree p).1.held = p.held := by simp [takeFree, hfree]
  have hlist : (takeFree p).1.freeList = rest := by simp [takeFree, hfree]
  refine h.recount hs (fun x => ?_) (fun v hv => ?_) (fun x hx => ?_) ⟨?_, ?_, ?_, ?_⟩
  · rw [hcount, hheld]
    split
    · rename_i he
      subst he
      simp [hr.2]
      omega
    · rename_i hne
      rw [inFlight_of_ne hne, inFlight_none]
  · rw [hcount]
    split
    · decide
    · exact (h.counted.lone v hv).2
  · by_cases he : x = r
    · exact .inl (he ▸ hr.1)
    · rw [hheld, inFlight_of_ne he] at hx
      exact h.counted.live x (by simpa using hx)
  · rw [hlist]
    exact hnodup.2
  · intro x
    have hmem := h.free.mem x
    rw [hfree, List.mem_cons] at hmem
    rw [hlist, hcount, hs.inPool_iff]
    by_cases hx : x = r
    · subst hx
      simp [hnodup.1]
    · rw [if_neg hx, ← hmem]
      simp [hx]
  · intro j hj
    rw [hs.segments] at hj
    have hj' := h.free.seg j hj
    have hiff := h.has_iff hi hhas hj
    simp only [hlist, hs.has_iff]
    rw [hfree, countP_cons] at hj'
    simp only [takeFree, hfree, (h.layout.entry i hi r hhas).1, BufferPool.withFree_numFree]
    split
    · rename_i he
      subst he
      simp [hhas] at hj'
      omega
    · simp [*]
  · have hc := h.free.count
    rw [hfree, length_cons] at hc
    rw [hlist]
    simp [takeFree, hfree, hc]

theorem release (h : PoolOk cap (some r) p) (hr : p.InPool r) (hone : (p.ref r).refcount = 1) :
    PoolOk cap none (releaseRef (p.setCount r 0) r) := by
  obtain ⟨i, hi, hhas⟩ := hr
  have hnot : r ∉ p.freeList := by
    rw [h.free.mem]
    omega
  have hcount : ∀ x, ((releaseRef (p.setCount r 0) r).ref x).refcount =
      if x = r then 0 else (p.ref x).refcount := by
    intro x
    by_cases hx : x = r <;> simp [releaseRef, hx]
  have hs : SameRefs p (releaseRef (p.setCount r 0) r) := by
    refine ⟨rfl, fun _ => ⟨by simp [releaseRef], by simp [releaseRef], by simp [releaseRef]⟩,
      fun x => ?_, rfl, rfl, rfl, rfl⟩
    by_cases hx : x = r <;> simp [releaseRef, hx]
  have hnotLone : r ∉ p.lone := fun hv => h.counted.alone r hv ⟨i, hi, hhas⟩
  refine h.recount hs (fun x => ?_) (fun v hv => ?_) (fun x hx => ?_) ⟨?_, ?_, ?_, ?_⟩
  · rw [hcount]
    split
    · rename_i he
      subst he
      simp [hone, releaseRef]
      omega
    · rename_i hne
      rw [inFlight_of_ne hne]
      rfl
  · rw [hcount, if_neg (fun he : v = r => hnotLone (he ▸ hv))]
    exact (h.counted.lone v hv).2
  · exact h.counted.live x (Nat.lt_of_lt_of_le hx (by simp [releaseRef]))
  · exact nodup_cons.mpr ⟨hnot, h.free.nodup⟩
  · intro x
    rw [hcount, hs.inPool_iff]
    change x ∈ r :: p.freeList ↔ _
    rw [List.mem_cons, h.free.mem]
    by_cases hx : x = r
    · subst hx
      simp [show p.InPool x from ⟨i, hi, hhas⟩]
    · simp [hx]
  · intro j hj
    rw [hs.segments] at hj
    have hj' := h.free.seg j hj
    have hiff := h.has_iff hi hhas hj
    simp only [hs.has_iff]
    change _ = List.countP _ (r :: p.freeList)
    rw [countP_cons, ← hj']
    simp only [releaseRef, BufferPool.setCount_ref, update_self,
      (h.layout.entry i hi r hhas).1, BufferPool.withFree_numFree, BufferPool.setCount_seg]
    split
    · simp [*]
    · rename_i hne
      simp [hiff, hne]
  · simp [releaseRef, h.free.count]

/-! ## Views and files -/

theorem freeLone (h : PoolOk cap (some r) p) (hr : r ∈ p.lone) (hone : (p.ref r).refcount = 1) :
    PoolOk cap (p.ref r).owner { p.setCount r 0 with lone := p.lone.erase r } := by
  have hheld : p.held r = 0 := by
    have := (h.counted.lone r hr).1
    simp only [inFlight_self] at this
    omega
  have hneIn : ∀ x, p.InPool x → x ≠ r := fun x hx he => h.counted.alone r hr (he ▸ hx)
  have hneOwner : ∀ x, (p.ref r).owner = some x → p.InPool x := h.counted.owner r hr
  have href : ∀ x, x ≠ r → (p.setCount r 0).ref x = p.ref x := by
    intro x hx
    simp [hx]
  have hs : SameRefs p (p.setCount r 0) := by
    refine ⟨rfl, fun _ => ⟨rfl, rfl, rfl⟩, fun x => ?_, rfl, rfl, rfl, rfl⟩
    by_cases hx : x = r <;> simp [hx]
  have hviews : ∀ x, ({ p.setCount r 0 with lone := p.lone.erase r } : BufferPool).viewsOn x +
      inFlight (p.ref r).owner x = p.viewsOn x := by
    intro x
    have hperm := (perm_cons_erase hr).countP_eq (fun v => decide ((p.ref v).owner = some x))
    rw [countP_cons] at hperm
    simp only [BufferPool.viewsOn, (hs.ref _).2.1]
    rw [hperm, inFlight]
    simp
  have hlayout := hs.layout h.layout
  have herase : ∀ v ∈ p.lone.erase r, v ∈ p.lone ∧ v ≠ r := by
    intro v hv
    refine ⟨mem_of_mem_erase hv, fun he => ?_⟩
    subst he
    exact (List.Nodup.not_mem_erase h.counted.nodup) hv
  refine ⟨⟨hlayout.nodup, hlayout.refsApart, hlayout.memApart, hlayout.entry, hlayout.total,
    hlayout.bound, hlayout.maxLe, hlayout.sizePos⟩,
    ⟨?_, h.counted.nodup.erase r, ?_, ?_, ?_, ?_, ?_⟩, ⟨h.free.nodup, ?_, h.free.seg, h.free.count⟩⟩
  · intro x hx
    have hx : p.InPool x := hx
    have hcount := h.counted.pooled x hx
    have hv := hviews x
    rw [inFlight_of_ne (hneIn x hx)] at hcount
    change ((p.setCount r 0).ref x).refcount = (p.held x : ℤ) + _ + _
    rw [href x (hneIn x hx)]
    omega
  · exact fun v hv => h.counted.alone v (herase v hv).1
  · intro v hv
    obtain ⟨hv', hne⟩ := herase v hv
    have hcount := h.counted.lone v hv'
    rw [inFlight_of_ne hne] at hcount
    have hfl : inFlight (p.ref r).owner v = 0 :=
      if_neg (fun he => h.counted.alone v hv' (hneOwner v he))
    change ((p.setCount r 0).ref v).refcount = (p.held v : ℤ) + _ ∧ 0 < _
    rw [href v hne, hfl]
    exact hcount
  · intro v hv o ho
    rw [(hs.ref v).2.1] at ho
    exact h.counted.owner v (herase v hv).1 o ho
  · intro v hv ho
    rw [(hs.ref v).2.1] at ho
    rw [(hs.ref v).2.2.1]
    exact h.counted.kind v (herase v hv).1 ho
  · intro x hx
    change 0 < p.held x + inFlight (p.ref r).owner x at hx
    by_cases hown : (p.ref r).owner = some x
    · exact .inl (hneOwner x hown)
    · rw [inFlight, if_neg hown] at hx
      refine (h.counted.live x (by omega)).imp_right (fun hxl => ?_)
      refine (mem_erase_of_ne (fun he => ?_)).mpr hxl
      subst he
      omega
  · intro x
    refine (h.free.mem x).trans (and_congr_right fun hx => ?_)
    change _ ↔ ((p.setCount r 0).ref x).refcount = 0
    rw [href x (hneIn x hx)]

theorem addView {o : RefId} (h : PoolOk cap (some o) p) (ho : p.InPool o) {v : RefId}
    (hin : ¬ p.InPool v) (hlone : v ∉ p.lone) {x : PoolRef} (hx : x.owner = some o)
    (hone : x.refcount = 1) :
    PoolOk cap (some v) { p with lone := v :: p.lone, ref := Function.update p.ref v x } := by
  have hheld : p.held v = 0 := by
    by_contra hne
    rcases h.counted.live v (by omega) with h' | h'
    · exact hin h'
    · exact hlone h'
  have hneIn : ∀ y, p.InPool y → y ≠ v := fun y hy he => hin (he ▸ hy)
  have hneLone : ∀ y ∈ p.lone, y ≠ v := fun y hy he => hlone (he ▸ hy)
  have hviews : ∀ y, ({ p with lone := v :: p.lone, ref := Function.update p.ref v x } :
      BufferPool).viewsOn y = p.viewsOn y + inFlight (some o) y := by
    intro y
    simp only [BufferPool.viewsOn, countP_cons, update_self, hx]
    congr 1
    · refine countP_congr (fun u hu => ?_)
      simp only [update_of_ne (hneLone u hu)]
    · simp [inFlight]
  refine ⟨⟨h.layout.nodup, h.layout.refsApart, h.layout.memApart, ?_, h.layout.total,
    h.layout.bound, h.layout.maxLe, h.layout.sizePos⟩,
    ⟨?_, nodup_cons.mpr ⟨hlone, h.counted.nodup⟩, ?_, ?_, ?_, ?_, ?_⟩,
    ⟨h.free.nodup, ?_, h.free.seg, h.free.count⟩⟩
  · intro i hi y hy
    dsimp only
    rw [update_of_ne (hneIn y ⟨i, hi, hy⟩)]
    exact h.layout.entry i hi y hy
  · intro y hy
    have hy : p.InPool y := hy
    have hcount := h.counted.pooled y hy
    rw [hviews, inFlight_of_ne (hneIn y hy)]
    dsimp only
    rw [update_of_ne (hneIn y hy)]
    omega
  · intro u hu
    rcases List.mem_cons.mp hu with rfl | hu
    · exact hin
    · exact h.counted.alone u hu
  · intro u hu
    dsimp only
    rcases List.mem_cons.mp hu with rfl | hu
    · simp [hone, hheld]
    · rw [update_of_ne (hneLone u hu), inFlight_of_ne (hneLone u hu)]
      have hcount := h.counted.lone u hu
      rwa [inFlight_of_ne (fun he : u = o => h.counted.alone u hu (he ▸ ho))] at hcount
  · intro u hu y hy
    dsimp only at hy
    rcases List.mem_cons.mp hu with rfl | hu
    · rw [update_self, hx] at hy
      cases hy
      exact ho
    · rw [update_of_ne (hneLone u hu)] at hy
      exact h.counted.owner u hu y hy
  · intro u hu hy
    dsimp only at hy ⊢
    rcases List.mem_cons.mp hu with rfl | hu
    · rw [update_self, hx] at hy
      cases hy
    · rw [update_of_ne (hneLone u hu)] at hy ⊢
      exact h.counted.kind u hu hy
  · intro y hy
    by_cases he : y = v
    · exact .inr (he ▸ mem_cons_self)
    · rw [inFlight_of_ne he] at hy
      exact (h.counted.live y (Nat.lt_of_lt_of_le hy (Nat.le_add_right _ _))).imp_right
        (mem_cons_of_mem _)
  · intro y
    refine (h.free.mem y).trans (and_congr_right fun hy => ?_)
    dsimp only
    rw [update_of_ne (hneIn y hy)]

/-! ## Putting a reference -/

theorem putPooled (h : PoolOk cap (some r) p) (hr : p.InPool r) (n : ℕ) :
    PoolOk cap none (putNested (n + 1) p r) := by
  have hpos := h.count_pos (r := r) (by simp)
  obtain ⟨i, hi, hhas⟩ := hr
  obtain ⟨-, howner, htype, -⟩ := h.layout.entry i hi r hhas
  rw [putNested]
  simp only [BufferPool.setCount_ref, update_self, howner, htype, reduceCtorEq, if_false]
  split
  · have hone : (p.ref r).refcount = 1 := by omega
    rw [hone]
    exact h.release ⟨i, hi, hhas⟩ hone
  · refine h.setCount hpos (by omega) ?_ (fun x hx => ?_) (.inl ⟨i, hi, hhas⟩)
    · simp
    · rw [inFlight_of_ne hx, inFlight_none]

theorem refPut (h : PoolOk cap (some r) p) : PoolOk cap none (bufferRefPut p r) := by
  have hpos := h.count_pos (r := r) (by simp)
  rw [bufferRefPut]
  rcases h.counted.live r (by simp) with hr | hr
  · exact h.putPooled hr _
  · obtain ⟨n, hn⟩ : ∃ n, p.lone.length = n + 1 :=
      ⟨p.lone.length - 1, by have := length_pos_of_mem hr; omega⟩
    rw [hn, putNested]
    simp only [BufferPool.setCount_ref, update_self]
    split
    · have hone : (p.ref r).refcount = 1 := by omega
      have hfree := h.freeLone hr hone
      rw [hone]
      cases howner : (p.ref r).owner with
      | none =>
        rw [howner] at hfree
        simp only [h.counted.kind r hr howner, if_true]
        exact hfree
      | some o =>
        rw [howner] at hfree
        exact hfree.putPooled (h.counted.owner r hr o howner) n
    · refine h.setCount hpos (by omega) ?_ (fun x hx => ?_) (.inr hr)
      · simp
      · rw [inFlight_of_ne hx, inFlight_none]

theorem view (h : PoolOk cap none p) (hr : 0 < p.held r) {v : RefId} (hin : ¬ p.InPool v)
    (hlone : v ∉ p.lone) (htype : (p.ref r).type = .memory) :
    PoolOk cap (some v) (bufferRefView (some v) p r).1 := by
  have hpos := h.count_pos (r := r) (by omega)
  obtain ⟨o, ho, howner, hopos⟩ : ∃ o, p.InPool o ∧ (p.ref r).owner.getD r = o ∧
      0 < (p.ref o).refcount := by
    rcases h.counted.live r (by omega) with hlive | hlive
    · obtain ⟨i, hi, hhas⟩ := hlive
      obtain ⟨-, hnone, -, -⟩ := h.layout.entry i hi r hhas
      exact ⟨r, ⟨i, hi, hhas⟩, by rw [hnone]; rfl, hpos⟩
    · cases hown : (p.ref r).owner with
      | none =>
        have hfile := h.counted.kind r hlive hown
        rw [htype] at hfile
        cases hfile
      | some o =>
        have ho := h.counted.owner r hlive o hown
        refine ⟨o, ho, rfl, ?_⟩
        have hview : 0 < p.viewsOn o := countP_pos_iff.mpr ⟨r, hlive, by simpa using hown⟩
        rw [h.counted.pooled o ho]
        omega
  have hne : v ≠ o := fun he => hin (he ▸ ho)
  have hget := h.refGet (.inl ho) hopos
  have hsame : (bufferRefGet p o).InPool v ↔ p.InPool v := Iff.rfl
  have hview := hget.addView ho (hsame.not.mpr hin) hlone (x := { PoolRef.zero with
    type := .memory, data := (p.ref r).data, dataSize := (p.ref r).dataSize
    dataOffset := (p.ref r).dataOffset, refcount := 1, sharedFd := -1, owner := some o }) rfl rfl
  simp only [bufferRefView, htype, howner, ne_eq, not_true_eq_false, if_false]
  simp only [bufferRefGet, BufferPool.setCount, BufferPool.setRef,
    update_of_ne (Ne.symm hne)] at hview ⊢
  rwa [update_comm (Ne.symm hne)] at hview

end PoolOk

/-! ## New segments -/

/-- The memory of a new segment of `n` buffers overlaps nothing that is in use. -/
structure Fresh (n : ℕ) (m : SegmentMemory) (p : BufferPool) : Prop where
  segment : m.segment ∉ p.segments
  refs : ∀ k < n, ¬ p.InPool (m.refs + k) ∧ m.refs + k ∉ p.lone
  buffers : ∀ k < n * p.bufferSize, ∀ i ∈ p.segments,
    ¬ (p.seg i).covers p.bufferSize (m.buffers + k)

instance (n : ℕ) (m : SegmentMemory) (p : BufferPool) : Decidable (Fresh n m p) :=
  decidable_of_iff (m.segment ∉ p.segments ∧
      (∀ k < n, ¬ p.InPool (m.refs + k) ∧ m.refs + k ∉ p.lone) ∧
      ∀ k < n * p.bufferSize, ∀ i ∈ p.segments, ¬ (p.seg i).covers p.bufferSize (m.buffers + k))
    ⟨fun h => ⟨h.1, h.2.1, h.2.2⟩, fun h => ⟨h.segment, h.refs, h.buffers⟩⟩

def linkSegment (m : SegmentMemory) (n : ℕ) (p : BufferPool) : BufferPool :=
  { bufferPoolSegmentCreate m n p with
    segments := m.segment :: p.segments
    numBuffers := p.numBuffers + n
    numFree := p.numFree + n }

namespace Fresh

variable {n : ℕ} {m : SegmentMemory} {p : BufferPool}

theorem seg_old (h : Fresh n m p) {i : SegId} (hi : i ∈ p.segments) :
    (linkSegment m n p).seg i = p.seg i :=
  update_of_ne (fun he : i = m.segment => h.segment (he ▸ hi)) _ _

theorem seg_new : (linkSegment m n p).seg m.segment = ⟨m.buffers, m.refs, n, n⟩ := update_self _ _ _

theorem has_new (r : RefId) :
    ((linkSegment m n p).seg m.segment).has r ↔ m.refs ≤ r ∧ r < m.refs + n := by
  rw [seg_new]
  rfl

variable {r : RefId}

theorem apart (h : Fresh n m p) (hr : p.InPool r ∨ r ∈ p.lone) :
    ¬ (m.refs ≤ r ∧ r < m.refs + n) := by
  rintro ⟨hle, hlt⟩
  have hk := h.refs (r - m.refs) (Nat.sub_lt_left_of_lt_add hle hlt)
  rw [Nat.add_sub_cancel' hle] at hk
  exact hr.elim hk.1 hk.2

theorem ref_old (h : Fresh n m p) (hr : p.InPool r ∨ r ∈ p.lone) :
    (linkSegment m n p).ref r = p.ref r :=
  if_neg (h.apart hr)

theorem ref_new (hr : m.refs ≤ r ∧ r < m.refs + n) :
    (linkSegment m n p).ref r = segmentRef m p.bufferSize r :=
  if_pos hr

theorem inPool_iff (h : Fresh n m p) (r : RefId) :
    (linkSegment m n p).InPool r ↔ (m.refs ≤ r ∧ r < m.refs + n) ∨ p.InPool r := by
  constructor
  · rintro ⟨i, hi, hhas⟩
    rcases List.mem_cons.mp hi with rfl | hi
    · exact .inl ((has_new r).mp hhas)
    · rw [h.seg_old hi] at hhas
      exact .inr ⟨i, hi, hhas⟩
  · rintro (hr | ⟨i, hi, hhas⟩)
    · exact ⟨m.segment, mem_cons_self, (has_new r).mpr hr⟩
    · exact ⟨i, mem_cons_of_mem _ hi, by rwa [h.seg_old hi]⟩

theorem freeList_eq :
    (linkSegment m n p).freeList = (List.range' m.refs n).reverse ++ p.freeList := by
  rw [range'_eq_map_range]
  exact foldl_flip_cons_eq_append

variable {cap : ℕ}

section

variable (h : Fresh n m p)

include h

theorem layout (hp : Layout cap p) (hcap : p.numBuffers + n ≤ cap) :
    Layout cap (linkSegment m n p) := by
  have hcover : ∀ i ∈ p.segments, ∀ a, (p.seg i).covers p.bufferSize a →
        ¬ ((linkSegment m n p).seg m.segment).covers p.bufferSize a := by
    rintro i hi a ha ⟨hle, hlt⟩
    rw [seg_new] at hle hlt
    dsimp only at hle hlt
    have hk := h.buffers (a - m.buffers) (by omega) i hi
    rw [Nat.add_sub_cancel' hle] at hk
    exact hk ha
  refine ⟨nodup_cons.mpr ⟨h.segment, hp.nodup⟩, ?_, ?_, ?_, ?_, hcap, hp.maxLe, hp.sizePos⟩
  · intro i hi j hj r hri hrj
    rcases List.mem_cons.mp hi with rfl | hi <;> rcases List.mem_cons.mp hj with rfl | hj
    · rfl
    · rw [h.seg_old hj] at hrj
      exact absurd ((has_new r).mp hri) (h.apart (.inl ⟨j, hj, hrj⟩))
    · rw [h.seg_old hi] at hri
      exact absurd ((has_new r).mp hrj) (h.apart (.inl ⟨i, hi, hri⟩))
    · rw [h.seg_old hi] at hri
      rw [h.seg_old hj] at hrj
      exact hp.refsApart i hi j hj r hri hrj
  · intro i hi j hj a hai haj
    rcases List.mem_cons.mp hi with rfl | hi <;> rcases List.mem_cons.mp hj with rfl | hj
    · rfl
    · rw [h.seg_old hj] at haj
      exact absurd hai (hcover j hj a haj)
    · rw [h.seg_old hi] at hai
      exact absurd haj (hcover i hi a hai)
    · rw [h.seg_old hi] at hai
      rw [h.seg_old hj] at haj
      exact hp.memApart i hi j hj a hai haj
  · intro i hi r hr
    rcases List.mem_cons.mp hi with rfl | hi
    · rw [ref_new ((has_new r).mp hr), seg_new]
      exact ⟨rfl, rfl, rfl, rfl⟩
    · rw [h.seg_old hi] at hr ⊢
      rw [h.ref_old (.inl ⟨i, hi, hr⟩)]
      exact hp.entry i hi r hr
  · change p.numBuffers + n =
      ((m.segment :: p.segments).map (fun i => ((linkSegment m n p).seg i).numBuffers)).sum
    rw [map_cons, sum_cons, seg_new, hp.total, Nat.add_comm]
    congr 2
    exact map_congr_left (fun i hi => by rw [h.seg_old hi])

theorem viewsOn_eq (r : RefId) : (linkSegment m n p).viewsOn r = p.viewsOn r := by
  refine countP_congr (fun v hv => ?_)
  rw [h.ref_old (.inr hv)]

theorem counted (hp : PoolOk cap none p) : Counted none (linkSegment m n p) := by
  refine ⟨?_, hp.counted.nodup, ?_, ?_, ?_, ?_, ?_⟩
  · intro r hr
    rw [h.viewsOn_eq]
    by_cases hold : p.InPool r
    · rw [h.ref_old (.inl hold)]
      exact hp.counted.pooled r hold
    · have hnew := ((h.inPool_iff r).mp hr).resolve_right hold
      have hheld : p.held r = 0 := by
        by_contra hne
        exact h.apart (hp.counted.live r (by omega)) hnew
      have hview : p.viewsOn r = 0 := by
        refine countP_eq_zero.mpr (fun v hv he => hold ?_)
        exact hp.counted.owner v hv r (by simpa using he)
      rw [ref_new hnew, hview]
      change (0 : ℤ) = (p.held r : ℤ) + _ + _
      rw [hheld]
      rfl
  · intro v hv hin
    rcases (h.inPool_iff v).mp hin with hnew | hold
    · exact h.apart (.inr hv) hnew
    · exact hp.counted.alone v hv hold
  · intro v hv
    rw [h.ref_old (.inr hv)]
    exact hp.counted.lone v hv
  · intro v hv o ho
    rw [h.ref_old (.inr hv)] at ho
    exact (h.inPool_iff o).mpr (.inr (hp.counted.owner v hv o ho))
  · intro v hv ho
    rw [h.ref_old (.inr hv)] at ho ⊢
    exact hp.counted.kind v hv ho
  · intro r hr
    exact (hp.counted.live r hr).imp_left (fun hold => (h.inPool_iff r).mpr (.inr hold))

theorem free (hp : PoolOk cap none p) : FreeOk (linkSegment m n p) := by
  have hold : ∀ r ∈ p.freeList, p.InPool r := fun r hr => ((hp.free.mem r).mp hr).1
  refine ⟨?_, ?_, ?_, ?_⟩
  · rw [freeList_eq, nodup_append]
    refine ⟨nodup_reverse.mpr nodup_range', hp.free.nodup, ?_⟩
    rintro a ha b hb rfl
    rw [mem_reverse, mem_range'_1] at ha
    exact h.apart (.inl (hold a hb)) ha
  · intro r
    rw [freeList_eq, mem_append, mem_reverse, mem_range'_1, h.inPool_iff, hp.free.mem]
    by_cases hnew : m.refs ≤ r ∧ r < m.refs + n
    · rw [ref_new hnew]
      simp [hnew, segmentRef, PoolRef.zero]
    · simp only [hnew, false_or]
      refine and_congr_right (fun hin => ?_)
      rw [h.ref_old (.inl hin)]
  · intro i hi
    rw [freeList_eq, countP_append, countP_reverse]
    rcases List.mem_cons.mp hi with rfl | hi
    · have hall : (List.range' m.refs n).countP
          (fun r => decide (((linkSegment m n p).seg m.segment).has r)) = n := by
        rw [countP_eq_length.mpr, length_range']
        intro r hr
        rw [mem_range'_1] at hr
        simpa only [decide_eq_true_eq] using (has_new r).mpr hr
      have hnone : p.freeList.countP
          (fun r => decide (((linkSegment m n p).seg m.segment).has r)) = 0 := by
        refine countP_eq_zero.mpr (fun r hr hhas => ?_)
        simp only [decide_eq_true_eq] at hhas
        exact h.apart (.inl (hold r hr)) ((has_new r).mp hhas)
      rw [hall, hnone, seg_new]
      rfl
    · have hnone : (List.range' m.refs n).countP (fun r => decide ((p.seg i).has r)) = 0 := by
        refine countP_eq_zero.mpr (fun r hr hhas => ?_)
        rw [mem_range'_1] at hr
        simp only [decide_eq_true_eq] at hhas
        exact h.apart (.inl ⟨i, hi, hhas⟩) hr
      rw [h.seg_old hi, hnone, hp.free.seg i hi, Nat.zero_add]
  · rw [freeList_eq, length_append, length_reverse, length_range', ← hp.free.count]
    exact Nat.add_comm _ _

theorem ok (hp : PoolOk cap none p) (hcap : p.numBuffers + n ≤ cap) :
    PoolOk cap none (linkSegment m n p) :=
  ⟨h.layout hp.layout hcap, h.counted hp, h.free hp⟩

end

end Fresh

/-! ## Segments that are freed -/

namespace PoolOk

variable {cap : ℕ} {p : BufferPool} {i : SegId}

variable {r : RefId}

section

variable (h : PoolOk cap none p)

include h

theorem not_held (hr : r ∈ p.freeList) : p.held r = 0 ∧ p.viewsOn r = 0 := by
  obtain ⟨hin, hzero⟩ := (h.free.mem r).mp hr
  have := h.counted.pooled r hin
  omega

section

variable (hi : i ∈ p.segments)

include hi

theorem idle_free (hidle : (p.seg i).numFree = (p.seg i).numBuffers) (hr : (p.seg i).has r) :
    r ∈ p.freeList := by
  have hlen := h.free.seg i hi
  rw [hidle, countP_eq_length_filter] at hlen
  have hsub : p.freeList.filter (fun r => decide ((p.seg i).has r)) ⊆
      List.range' (p.seg i).refs (p.seg i).numBuffers := by
    intro x hx
    rw [mem_range'_1]
    exact of_decide_eq_true (mem_filter.mp hx).2
  have hperm := (subperm_of_subset (h.free.nodup.filter _) hsub).perm_of_length_le
    (by rw [length_range', ← hlen])
  exact (mem_filter.mp (hperm.mem_iff.mpr (mem_range'_1.mpr hr))).1

theorem covers_iff (hr : p.InPool r) :
    (p.seg i).covers p.bufferSize (p.ref r).data ↔ (p.seg i).has r := by
  have hown : ∀ j ∈ p.segments, (p.seg j).has r → (p.seg j).covers p.bufferSize (p.ref r).data := by
    intro j hj hhas
    obtain ⟨-, -, -, hdata⟩ := h.layout.entry j hj r hhas
    have hlt : (r - (p.seg j).refs) * p.bufferSize < (p.seg j).numBuffers * p.bufferSize :=
      Nat.mul_lt_mul_of_pos_right (Nat.sub_lt_left_of_lt_add hhas.1 hhas.2) h.layout.sizePos
    rw [hdata]
    exact ⟨Nat.le_add_right _ _, Nat.add_lt_add_left hlt _⟩
  obtain ⟨j, hj, hhas⟩ := hr
  constructor
  · intro hcover
    rwa [h.layout.memApart i hi j hj _ hcover (hown j hj hhas)]
  · exact hown i hi

theorem freeSegment_freeList :
    (freeSegment p i).freeList = p.freeList.filter (fun r => !decide ((p.seg i).has r)) := by
  refine filter_congr (fun r hr => ?_)
  simp [h.covers_iff hi ((h.free.mem r).mp hr).1]

theorem freeSegment_inPool (r : RefId) :
    (freeSegment p i).InPool r ↔ p.InPool r ∧ ¬ (p.seg i).has r := by
  constructor
  · rintro ⟨j, hj, hhas⟩
    have hj' : j ≠ i ∧ j ∈ p.segments := (List.Nodup.mem_erase_iff h.layout.nodup).mp hj
    exact ⟨⟨j, hj'.2, hhas⟩, fun hhas' => hj'.1 (h.layout.refsApart j hj'.2 i hi r hhas hhas')⟩
  · rintro ⟨⟨j, hj, hhas⟩, hnot⟩
    exact ⟨j, (mem_erase_of_ne (fun he : j = i => hnot (he ▸ hhas))).mpr hj, hhas⟩

theorem freeSegment (hidle : (p.seg i).numFree = (p.seg i).numBuffers) :
    PoolOk cap none (freeSegment p i) := by
  have hsub : ∀ j ∈ p.segments.erase i, j ∈ p.segments := fun j => mem_of_mem_erase
  have hnone : ∀ r, (p.seg i).has r → p.held r = 0 ∧ p.viewsOn r = 0 :=
    fun r hr => h.not_held (h.idle_free hi hidle hr)
  have hsum := (((perm_cons_erase hi).map (fun j => (p.seg j).numBuffers)).sum_eq)
  rw [map_cons, sum_cons, ← h.layout.total] at hsum
  refine ⟨⟨h.layout.nodup.erase i, fun j hj k hk => h.layout.refsApart j (hsub j hj) k (hsub k hk),
    fun j hj k hk => h.layout.memApart j (hsub j hj) k (hsub k hk),
    fun j hj => h.layout.entry j (hsub j hj), ?_,
    (Nat.sub_le _ _).trans h.layout.bound, h.layout.maxLe, h.layout.sizePos⟩,
    ⟨?_, h.counted.nodup, ?_, h.counted.lone, ?_, h.counted.kind, ?_⟩, ?_, ?_, ?_, ?_⟩
  · change p.numBuffers - (p.seg i).numBuffers = _
    exact Nat.sub_eq_of_eq_add' hsum
  · intro r hr
    exact h.counted.pooled r ((h.freeSegment_inPool hi r).mp hr).1
  · intro v hv hin
    exact h.counted.alone v hv ((h.freeSegment_inPool hi v).mp hin).1
  · intro v hv o ho
    refine (h.freeSegment_inPool hi o).mpr ⟨h.counted.owner v hv o ho, fun hhas => ?_⟩
    have hzero := (hnone o hhas).2
    exact countP_eq_zero.mp hzero v hv (decide_eq_true ho)
  · intro r hr
    refine (h.counted.live r hr).imp_left (fun hin => ?_)
    refine (h.freeSegment_inPool hi r).mpr ⟨hin, fun hhas => ?_⟩
    have hzero := (hnone r hhas).1
    change 0 < p.held r + 0 at hr
    omega
  · rw [h.freeSegment_freeList hi]
    exact h.free.nodup.filter _
  · intro r
    rw [h.freeSegment_freeList hi, mem_filter, h.free.mem, h.freeSegment_inPool hi]
    simp only [Bool.not_eq_true', decide_eq_false_iff_not]
    exact and_right_comm
  · intro j hj
    have hj' : j ≠ i ∧ j ∈ p.segments := (List.Nodup.mem_erase_iff h.layout.nodup).mp hj
    rw [h.freeSegment_freeList hi, countP_filter]
    refine (h.free.seg j hj'.2).trans (countP_congr (fun r hr => ?_))
    simp only [Bool.and_eq_true, Bool.not_eq_true', decide_eq_true_eq, decide_eq_false_iff_not]
    exact ⟨fun hhas => ⟨hhas, fun hhas' => hj'.1 (h.layout.refsApart j hj'.2 i hi r hhas hhas')⟩,
      fun hhas => hhas.1⟩
  · have hlen := length_eq_countP_add_countP
      (fun r => decide ((p.seg i).covers p.bufferSize (p.ref r).data)) (l := p.freeList)
    change p.numFree - _ = (p.freeList.filter _).length
    rw [← countP_eq_length_filter, h.free.count, hlen]
    simp

end

theorem shrinkSegments (minBuffers : ℕ) (is : List SegId) (hsub : ∀ i ∈ is, i ∈ p.segments)
    (hnodup : is.Nodup) : PoolOk cap none (shrinkSegments minBuffers is p) := by
  induction is generalizing p with
  | nil => exact h
  | cons i is ih =>
    rw [nodup_cons] at hnodup
    have hi := hsub i mem_cons_self
    rw [Rtp2httpd.shrinkSegments]
    split
    · rename_i hidle
      have hfree := h.freeSegment hi hidle.1
      dsimp only
      split
      · exact hfree
      · refine ih hfree (fun j hj => ?_) hnodup.2
        exact (mem_erase_of_ne (fun he : j = i => hnodup.1 (he ▸ hj))).mpr
          (hsub j (mem_cons_of_mem _ hj))
    · exact ih h (fun j hj => hsub j (mem_cons_of_mem _ hj)) hnodup.2

theorem shrinkSegments_idle (minBuffers : ℕ) (is : List SegId) (hsub : ∀ i ∈ is, i ∈ p.segments)
    (hnodup : is.Nodup) {j : SegId} (hj : j ∈ p.segments)
    (hgone : j ∉ (Rtp2httpd.shrinkSegments minBuffers is p).segments) (hr : (p.seg j).has r) :
    p.held r = 0 ∧ p.viewsOn r = 0 := by
  induction is generalizing p with
  | nil => exact absurd hj hgone
  | cons i is ih =>
    rw [nodup_cons] at hnodup
    have hi := hsub i mem_cons_self
    rw [Rtp2httpd.shrinkSegments] at hgone
    split at hgone
    · rename_i hidle
      by_cases he : j = i
      · subst he
        exact h.not_held (h.idle_free hi hidle.1 hr)
      · have hj' : j ∈ p.segments.erase i := (mem_erase_of_ne he).mpr hj
        dsimp only at hgone
        split at hgone
        · exact absurd hj' hgone
        · refine ih (p := Rtp2httpd.freeSegment p i) (h.freeSegment hi hidle.1) (fun k hk => ?_)
            hnodup.2 hj' hgone hr
          exact (mem_erase_of_ne (fun he : k = i => hnodup.1 (he ▸ hk))).mpr
            (hsub k (mem_cons_of_mem _ hk))
    · exact ih h (fun k hk => hsub k (mem_cons_of_mem _ hk)) hnodup.2 hj hgone hr

theorem tryShrink (minBuffers : ℕ) : PoolOk cap none (bufferPoolTryShrinkPool minBuffers p) := by
  unfold bufferPoolTryShrinkPool
  split
  · exact h
  · exact h.shrinkSegments minBuffers _ (fun _ hi => hi) h.layout.nodup

end

/-! ## Allocation -/

theorem takeFree_cases (h : PoolOk cap none p) :
    takeFree p = (p, none) ∨ ∃ r q, takeFree p = (q, some r) ∧ r ∈ p.freeList ∧
      PoolOk cap (some r) q ∧ q.segments = p.segments := by
  cases hlist : p.freeList with
  | nil =>
    left
    simp [takeFree, hlist]
  | cons r rest =>
    right
    refine ⟨r, (takeFree p).1, ?_, mem_cons_self, h.take hlist, ?_⟩
    · simp [takeFree, hlist]
    · simp [takeFree, hlist]

theorem allocFrom_eq (mem : Option SegmentMemory) (p : BufferPool) :
    ∃ q, bufferPoolAllocFrom mem p = takeFree q ∧
      (q = p ∨ ∃ m ∈ mem, p.numBuffers < p.maxBuffers ∧ q = linkSegment m p.buffersToAdd p) := by
  have hexpand : bufferPoolExpand mem p = none ∨ ∃ m ∈ mem, p.numBuffers < p.maxBuffers ∧
      bufferPoolExpand mem p = some (linkSegment m p.buffersToAdd p) := by
    unfold bufferPoolExpand
    split
    · exact .inl rfl
    · rename_i hlt
      cases mem with
      | none => exact .inl rfl
      | some m => exact .inr ⟨m, rfl, by omega, rfl⟩
  unfold bufferPoolAllocFrom
  split
  · rename_i hempty
    rcases hexpand with hnone | ⟨m, hm, hlt, hsome⟩
    · rw [hnone]
      refine ⟨p, ?_, .inl rfl⟩
      rw [takeFree, List.isEmpty_iff.mp hempty]
    · rw [hsome]
      exact ⟨_, rfl, .inr ⟨m, hm, hlt, rfl⟩⟩
  · split
    · rcases hexpand with hnone | ⟨m, hm, hlt, hsome⟩
      · rw [hnone]
        exact ⟨p, rfl, .inl rfl⟩
      · rw [hsome]
        exact ⟨_, rfl, .inr ⟨m, hm, hlt, rfl⟩⟩
    · exact ⟨p, rfl, .inl rfl⟩

section

variable {mem : Option SegmentMemory} (h : PoolOk cap none p)
  (hmem : ∀ m ∈ mem, Fresh p.buffersToAdd m p)

include h hmem

theorem allocSource : ∃ x, bufferPoolAllocFrom mem p = takeFree x ∧ PoolOk cap none x ∧
      (∀ i ∈ p.segments, i ∈ x.segments) ∧ x.bufferSize = p.bufferSize ∧
      ∀ r, p.held r = x.held r ∧ p.viewsOn r = x.viewsOn r := by
  obtain ⟨x, heq, hx⟩ := allocFrom_eq mem p
  refine ⟨x, heq, ?_⟩
  rcases hx with rfl | ⟨m, hm, hlt, rfl⟩
  · exact ⟨h, fun _ hi => hi, rfl, fun _ => ⟨rfl, rfl⟩⟩
  · have hfresh := hmem m hm
    have hcap : p.numBuffers + p.buffersToAdd ≤ cap := by
      have := h.layout.maxLe
      unfold BufferPool.buffersToAdd
      split <;> omega
    exact ⟨hfresh.ok h hcap, fun _ hi => mem_cons_of_mem _ hi, rfl,
      fun r => ⟨rfl, (hfresh.viewsOn_eq r).symm⟩⟩

theorem allocFrom : ∃ q, (∀ i ∈ p.segments, i ∈ q.segments) ∧
      ((bufferPoolAllocFrom mem p = (q, none) ∧ PoolOk cap none q) ∨
        ∃ r, bufferPoolAllocFrom mem p = (q, some r) ∧ PoolOk cap (some r) q ∧
          p.held r = 0 ∧ p.viewsOn r = 0) := by
  obtain ⟨x, heq, hok, hkeep, -, hheld⟩ := h.allocSource hmem
  rcases hok.takeFree_cases with hnone | ⟨r, q, hsome, hr, hq, hseg⟩
  · exact ⟨x, hkeep, .inl ⟨heq.trans hnone, hok⟩⟩
  · refine ⟨q, fun i hi => hseg ▸ hkeep i hi, .inr ⟨r, heq.trans hsome, hq, ?_⟩⟩
    rw [(hheld r).1, (hheld r).2]
    exact hok.not_held hr

/-- The reference that an allocation returns: an empty buffer of a segment. -/
theorem allocFrom_ref {q : BufferPool} (halloc : bufferPoolAllocFrom mem p = (q, some r)) :
    (q.ref r).segment.isSome ∧ (q.ref r).owner = none ∧ (q.ref r).type = .memory ∧
    (q.ref r).dataOffset = 0 ∧ q.bufferSize = p.bufferSize := by
  obtain ⟨x, heq, hok, -, hsize, -⟩ := h.allocSource hmem
  rw [heq, takeFree] at halloc
  split at halloc
  · cases halloc
  · rename_i y rest hlist
    have hy := (hok.free.mem y).mp (by rw [hlist]; exact mem_cons_self)
    obtain ⟨i, hi, hhas⟩ := hy.1
    obtain ⟨hseg, howner, htype, -⟩ := hok.layout.entry i hi y hhas
    rw [Prod.mk.injEq, Option.some.injEq] at halloc
    obtain ⟨rfl, rfl⟩ := halloc
    simp [hseg, howner, htype, hsize]

end

end PoolOk

/-! ## Runs -/

/-- What callers are allowed: they use references they hold, and the allocator answers with
    memory that is not in use. -/
def PoolOpOk (p : BufferPool) : PoolOp → Prop
  | .alloc mem => ∀ m ∈ mem, Fresh p.buffersToAdd m p
  | .get r => 0 < p.held r
  | .put r => 0 < p.held r
  | .view mem r => 0 < p.held r ∧ ∀ v ∈ mem, ¬ p.InPool v ∧ v ∉ p.lone
  | .shrink _ => True

instance (p : BufferPool) : DecidablePred (PoolOpOk p) := by
  intro op
  cases op <;> unfold PoolOpOk <;> infer_instance

namespace PoolOk

variable {cap : ℕ} {p : BufferPool}

theorem step (h : PoolOk cap none p) {op : PoolOp} (hop : PoolOpOk p op) :
    PoolOk cap none (poolStep p op) := by
  cases op with
  | alloc mem =>
    obtain ⟨q, -, ⟨heq, hq⟩ | ⟨r, heq, hq, -⟩⟩ := h.allocFrom hop
    · simpa only [poolStep, heq] using hq
    · simpa only [poolStep, heq] using hq.hold
  | get r =>
    exact (h.refGet (h.counted.live r (Nat.add_pos_left hop _))
      (h.count_pos (Nat.add_pos_left hop _))).hold
  | put r => exact (h.unhold hop).refPut
  | view mem r =>
    obtain ⟨hr, hmem⟩ := hop
    by_cases htype : (p.ref r).type = .memory
    · cases mem with
      | none => simpa [poolStep, bufferRefView, htype] using h
      | some v =>
        have hview := h.view hr (hmem v rfl).1 (hmem v rfl).2 htype
        have heq : (bufferRefView (some v) p r).2 = some v := by simp [bufferRefView, htype]
        rw [poolStep, show bufferRefView (some v) p r = ((bufferRefView (some v) p r).1, some v)
          from Prod.ext rfl heq]
        exact hview.hold
    · simpa [poolStep, bufferRefView, htype] using h
  | shrink minBuffers => exact h.tryShrink minBuffers

theorem sum_map_ite {α : Type} (f : α → Bool) (l : List α) :
    (l.map (fun a => if f a = true then 1 else 0)).sum = l.countP f := by
  induction l with
  | nil => rfl
  | cons a l ih => rw [map_cons, sum_cons, ih, countP_cons, Nat.add_comm]

theorem sum_numFree (h : PoolOk cap none p) :
    p.numFree = (p.segments.map (fun i => (p.seg i).numFree)).sum := by
  have hone : ∀ r ∈ p.freeList, p.segments.countP (fun i => decide ((p.seg i).has r)) = 1 := by
    intro r hr
    obtain ⟨i, hi, hhas⟩ := ((h.free.mem r).mp hr).1
    have hcount : p.segments.countP (fun i => decide ((p.seg i).has r)) = p.segments.count i := by
      refine countP_congr (fun j hj => ?_)
      simpa using h.has_iff hi hhas hj
    rw [hcount, count_eq_one_of_mem h.layout.nodup hi]
  have hsum : ∀ l : List RefId,
      (∀ r ∈ l, p.segments.countP (fun i => decide ((p.seg i).has r)) = 1) →
      (p.segments.map (fun i => l.countP (fun r => decide ((p.seg i).has r)))).sum = l.length := by
    intro l hl
    induction l with
    | nil => simp
    | cons r l ih =>
      rw [forall_mem_cons] at hl
      simp only [countP_cons, sum_map_add, ih hl.2, length_cons]
      rw [sum_map_ite, hl.1]
  rw [h.free.count, ← hsum _ hone]
  congr 1
  exact map_congr_left (fun i hi => (h.free.seg i hi).symm)

theorem init {bufferSize : ℕ} (hsize : 0 < bufferSize)
    (initialBuffers maxBuffers expandSize low high : ℕ) (mem : SegmentMemory) :
    PoolOk (max initialBuffers maxBuffers) none
      (bufferPoolInit bufferSize initialBuffers maxBuffers expandSize low high mem) := by
  let e : BufferPool :=
    { segments := [], seg := fun _ => ⟨0, 0, 0, 0⟩, ref := fun _ => .zero, freeList := []
      bufferSize, numBuffers := 0, numFree := 0, maxBuffers, expandSize, lowWatermark := low
      highWatermark := high, lone := [], held := fun _ => 0 }
  have hin : ∀ r, ¬ e.InPool r := by
    rintro r ⟨i, hi, -⟩
    cases hi
  have hempty : PoolOk (max initialBuffers maxBuffers) none e := by
    refine ⟨⟨nodup_nil, ?_, ?_, ?_, rfl, Nat.zero_le _, Nat.le_max_right _ _, hsize⟩,
      ⟨fun r hr => absurd hr (hin r), nodup_nil, ?_, ?_, ?_, ?_, ?_⟩,
      ⟨nodup_nil, fun r => ?_, ?_, rfl⟩⟩
    · exact fun i hi => absurd hi not_mem_nil
    · exact fun i hi => absurd hi not_mem_nil
    · exact fun i hi => absurd hi not_mem_nil
    · exact fun v hv => absurd hv not_mem_nil
    · exact fun v hv => absurd hv not_mem_nil
    · exact fun v hv => absurd hv not_mem_nil
    · exact fun v hv => absurd hv not_mem_nil
    · exact fun r hr => absurd hr (Nat.lt_irrefl 0)
    · exact ⟨fun hr => absurd hr not_mem_nil, fun hr => absurd hr.1 (hin r)⟩
    · exact fun i hi => absurd hi not_mem_nil
  have hfresh : Fresh initialBuffers mem e :=
    ⟨not_mem_nil, fun k _ => ⟨hin _, not_mem_nil⟩, fun _ _ i hi => absurd hi not_mem_nil⟩
  have heq : bufferPoolInit bufferSize initialBuffers maxBuffers expandSize low high mem =
      linkSegment mem initialBuffers e := by
    simp [bufferPoolInit, linkSegment, e]
  rw [heq]
  exact hfresh.ok hempty ((Nat.zero_add initialBuffers).le.trans (Nat.le_max_left _ _))

theorem step_idle (h : PoolOk cap none p) {op : PoolOp} (hop : PoolOpOk p op) {i : SegId}
    (hi : i ∈ p.segments) (hgone : i ∉ (poolStep p op).segments) {r : RefId}
    (hr : (p.seg i).has r) : p.held r = 0 ∧ p.viewsOn r = 0 := by
  have hput : ∀ (n : ℕ) (q : BufferPool) (x : RefId), (putNested n q x).segments = q.segments := by
    intro n
    induction n with
    | zero => exact fun _ _ => rfl
    | succ n ih =>
      intro q x
      rw [putNested]
      split
      · split
        · exact ih _ _
        · split <;> rfl
      · rfl
  cases op with
  | alloc mem =>
    obtain ⟨q, hkeep, ⟨heq, -⟩ | ⟨x, heq, -⟩⟩ := h.allocFrom hop
    · rw [poolStep, heq] at hgone
      exact absurd (hkeep i hi) hgone
    · rw [poolStep, heq] at hgone
      exact absurd (hkeep i hi) hgone
  | get x => exact absurd hi hgone
  | put x =>
    rw [poolStep, bufferRefPut, hput] at hgone
    exact absurd hi hgone
  | view mem x =>
    have hseg : (poolStep p (.view mem x)).segments = p.segments := by
      unfold poolStep bufferRefView
      by_cases htype : (p.ref x).type = .memory
      · cases mem
        · simp [htype]
        · simp [htype]
          rfl
      · simp [htype]
    exact absurd (hseg ▸ hi) hgone
  | shrink minBuffers =>
    rw [poolStep, bufferPoolTryShrinkPool] at hgone
    split at hgone
    · exact absurd hi hgone
    · exact h.shrinkSegments_idle minBuffers _ (fun _ hj => hj) h.layout.nodup hi hgone hr

end PoolOk

/-- Conservation: in every run of callers that use what they hold, the counters say what is
    free and what there is, within the bound; nothing free is in use; a segment that a call
    frees has no buffer in use; and an allocation returns a buffer that is not in use. -/
theorem pool_conservation (bufferSize initialBuffers maxBuffers expandSize low high : ℕ)
    (hsize : 0 < bufferSize) (mem : SegmentMemory) (ops : List PoolOp)
    (hops : Along poolStep PoolOpOk
      (bufferPoolInit bufferSize initialBuffers maxBuffers expandSize low high mem) ops) :
    let p := run poolStep
      (bufferPoolInit bufferSize initialBuffers maxBuffers expandSize low high mem) ops
    p.numFree = p.freeList.length ∧
    p.numFree = (p.segments.map (fun i => (p.seg i).numFree)).sum ∧
    p.numBuffers = (p.segments.map (fun i => (p.seg i).numBuffers)).sum ∧
    p.numBuffers ≤ max initialBuffers maxBuffers ∧
    (∀ r ∈ p.freeList, (p.ref r).refcount ≤ 0 ∧ p.held r = 0 ∧ p.viewsOn r = 0) ∧
    (∀ op, PoolOpOk p op → ∀ i ∈ p.segments, i ∉ (poolStep p op).segments →
      ∀ r, (p.seg i).has r → p.held r = 0 ∧ p.viewsOn r = 0) ∧
    ∀ mem, PoolOpOk p (.alloc mem) → ∀ r, (bufferPoolAllocFrom mem p).2 = some r →
      p.held r = 0 ∧ p.viewsOn r = 0 := by
  intro p
  have h : PoolOk (max initialBuffers maxBuffers) none p :=
    run_invariant (fun _ _ hp hop => hp.step hop)
      (PoolOk.init hsize initialBuffers maxBuffers expandSize low high mem) hops
  refine ⟨h.free.count, h.sum_numFree, h.layout.total, h.layout.bound, ?_, ?_, ?_⟩
  · intro r hr
    exact ⟨((h.free.mem r).mp hr).2.le, h.not_held hr⟩
  · exact fun op hop i hi hgone r hr => h.step_idle hop hi hgone hr
  · intro mem hmem r hr
    obtain ⟨q, -, ⟨heq, -⟩ | ⟨x, heq, -, hfree⟩⟩ := h.allocFrom hmem
    · rw [heq] at hr
      cases hr
    · rw [heq] at hr
      cases hr
      exact hfree

/-- One buffer of one byte, a second segment for the second allocation, a view on it, and a
    shrink after both are put. -/
theorem pool_conservation_shrunk : let p₀ := bufferPoolInit 1 1 3 2 0 0 ⟨1, 100, 10⟩
    let ops : List PoolOp := [.alloc none, .alloc (some ⟨2, 200, 20⟩), .view (some 30) 21,
      .put 21, .shrink 1, .put 30, .shrink 1]
    let p := run poolStep p₀ ops
    Along poolStep PoolOpOk p₀ ops ∧ p.segments = [1] ∧ p.freeList = [] ∧ p.numFree = 0 ∧
    p.numFree = (p.segments.map (fun i => (p.seg i).numFree)).sum := by
  have hops : Along poolStep PoolOpOk (bufferPoolInit 1 1 3 2 0 0 ⟨1, 100, 10⟩)
      [.alloc none, .alloc (some ⟨2, 200, 20⟩), .view (some 30) 21, .put 21, .shrink 1,
        .put 30, .shrink 1] := by
    decide
  exact ⟨hops, by decide, by decide, by decide,
    (pool_conservation 1 1 3 2 0 0 (by decide) ⟨1, 100, 10⟩ _ hops).2.1⟩

end Apackage.Rtp2httpd

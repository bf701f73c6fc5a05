import Gart.Fragment.EdgeIterator
import Gart.Seggraph.SegmentIndex

/-!
# The locks of put_edge (epoch_graph_writer.cpp, futex.hpp)

`put_edge` holds the futex of its vertex and the mutex of its segment, the mutex shared and, while the segment
is made or replaced, exclusively. The stages are those of `SegGraph.putEdge`; a lock that is not free blocks
the call for as long as nobody releases it.
-/

namespace Gart.Seggraph
open Gart.ByteMemory Gart.Outcome Gart.Fragment

/-- `vertex_futexes` and `seg_mutexes`. -/
structure Locks where
  futexes : Nat → Bool
  exclusive : Nat → Bool
  shared : Nat → Nat

inductive LockedStop
  /-- it waits for a lock -/
  | blocked
  /-- it ends with the locks it has then -/
  | stopped (stop : Stop) (locks : Locks)

namespace Locks

/-- No lock is held. -/
def free : Locks := { futexes := fun _ => false, exclusive := fun _ => false, shared := fun _ => 0 }

/-- `Futex::lock` (`futex.hpp:28-38`) -/
def lockFutex (locks : Locks) (v : Nat) : Except LockedStop Locks :=
  if locks.futexes v then .error .blocked
  else .ok { locks with futexes := Function.update locks.futexes v true }

/-- `Futex::unlock` (`futex.hpp:61-69`) -/
def unlockFutex (locks : Locks) (v : Nat) : Locks :=
  { locks with futexes := Function.update locks.futexes v false }

def lockShared (locks : Locks) (segid : Nat) : Except LockedStop Locks :=
  if locks.exclusive segid then .error .blocked
  else .ok { locks with shared := Function.update locks.shared segid (locks.shared segid + 1) }

def unlockShared (locks : Locks) (segid : Nat) : Locks :=
  { locks with shared := Function.update locks.shared segid (locks.shared segid - 1) }

/-- `std::shared_timed_mutex::lock` -/
def lock (locks : Locks) (segid : Nat) : Except LockedStop Locks :=
  if locks.exclusive segid ∨ locks.shared segid ≠ 0 then .error .blocked
  else .ok { locks with exclusive := Function.update locks.exclusive segid true }

def unlock (locks : Locks) (segid : Nat) : Locks :=
  { locks with exclusive := Function.update locks.exclusive segid false }

end Locks

def underLocks {α : Type} (locks : Locks) (x : Except Stop α) : Except LockedStop (α × Locks) :=
  match x with
  | .ok a => .ok (a, locks)
  | .error stop => .error (.stopped stop locks)

/-- A stage for which a shared lock is given up for the exclusive one, and taken again. -/
def exclusively {α : Type} (locks : Locks) (segid : Nat) (x : Except Stop α) : Except LockedStop (α × Locks) := do
  let locks ← (locks.unlockShared segid).lock segid
  let (a, locks) ← underLocks locks x
  let locks ← (locks.unlock segid).lockShared segid
  return (a, locks)

/-- A stage that makes or replaces the segment when `alone` holds. -/
def exclusivelyIf {α : Type} (locks : Locks) (segid : Nat) (alone : Prop) [Decidable alone] (x : Except Stop α) :
    Except LockedStop (α × Locks) :=
  if alone then exclusively locks segid x else underLocks locks x

namespace SegGraph

def NeedsMerge (g : SegGraph) (segment segidx edgePropSize : Nat) : Prop :=
  let seg := g.segments segment
  let edgeBlock := seg.regionPtrs segidx
  ¬ (edgeBlock ≠ 0 ∧ seg.hasSpace edgeBlock) ∧
    (seg.alloc (if edgeBlock ≠ 0 then seg.getOrder edgeBlock + 1 else defaultInitOrder) edgePropSize).1 = 0

instance (g : SegGraph) (segment segidx edgePropSize : Nat) : Decidable (g.NeedsMerge segment segidx edgePropSize) :=
  inferInstanceAs (Decidable (_ ∧ _))

/-- `put_edge` with its locks (`epoch_graph_writer.cpp:151-386`). None of its early returns releases one. -/
def putEdgeLocked (g : SegGraph) (locks : Locks) (writeEpochId src label : Nat) (dir : Dir) (dst : Nat)
    (edgeData : Bytes) : Except LockedStop (SegGraph × Locks) := do
  if src ≥ g.vertexId then
    .error (.stopped .invalidVertexId locks)
  else
    let segid := src / vertexPerSeg
    let segidx := src % vertexPerSeg
    let locks ← locks.lockFutex src
    let locks ← locks.lockShared segid
    let ((segment, g), locks) ←
      exclusivelyIf locks segid (g.locateSegment segid label dir = 0) (g.initSegment segid label dir)
    let ((segment, edgeBlock, g), locks) ←
      exclusivelyIf locks segid (g.NeedsMerge segment segidx edgeData.length)
        (g.roomForEdge writeEpochId segid label dir segidx segment edgeData.length)
    let ((table, g), locks) ← underLocks locks (g.initEpochTable writeEpochId segment segidx)
    let (g, locks) ← underLocks locks (g.openEpoch writeEpochId segment segidx edgeBlock table)
    let (seg, locks) ← underLocks locks (((g.segments segment).insertEdge edgeBlock dst edgeData).mapError .fault)
    return (g.setSegment segment seg, (locks.unlockShared segid).unlockFutex src)

end SegGraph

/-! ### A run with locks -/

inductive LockedCall
  | newVertex
  | putEdge (writeEpochId src label : Nat) (dir : Dir) (dst : Nat) (data : Bytes)

/-- A new vertex clears its futex, and one that is the first of its segment makes the mutex of the next segment. -/
def Locks.newVertex (locks : Locks) (g : SegGraph) : Locks :=
  let locks := { locks with futexes := Function.update locks.futexes g.vertexId false }
  if g.vertexId / vertexPerSeg ≥ g.segId then
    { locks with
      exclusive := Function.update locks.exclusive (g.segId + 1) false
      shared := Function.update locks.shared (g.segId + 1) 0 }
  else locks

/-- The state after a call that returns. One that returns at a failed allocation leaves what it has done; one that
waits or crashes leaves no state. -/
def LockedCall.step (s : SegGraph × Locks) : LockedCall → Option (SegGraph × Locks)
  | newVertex => some (s.1.newVertex, s.2.newVertex s.1)
  | putEdge writeEpochId src label dir dst data =>
    match s.1.putEdgeLocked s.2 writeEpochId src label dir dst data with
    | .ok s' => some s'
    | .error .blocked => none
    | .error (.stopped .invalidVertexId _) => some s
    | .error (.stopped (.allocFailed _ g') locks') => some (g', locks')
    | .error (.stopped _ _) => none

/-! ### What a call leaves of the locks -/

section locks
variable {α β : Type} {locks locks' : Locks} {src segid : Nat}

def midway (locks : Locks) (src segid : Nat) : Locks :=
  { locks with
    futexes := Function.update locks.futexes src true
    shared := Function.update locks.shared segid (locks.shared segid + 1) }

def midwayExclusive (locks : Locks) (src segid : Nat) : Locks :=
  { locks with
    futexes := Function.update locks.futexes src true
    exclusive := Function.update locks.exclusive segid true }

def Leaves (locks : Locks) (src segid : Nat) (locks' : Locks) : Prop :=
  locks' = midway locks src segid ∨ locks' = midwayExclusive locks src segid

/-- A stage with locks does what the stage does, unless it waits. -/
def Shadows (locked : Except LockedStop (α × Locks)) (plain : Except Stop α) (P E : Locks → Prop) : Prop :=
  Ensures locked (fun r => plain = .ok r.1 ∧ P r.2)
    fun stop => stop = .blocked ∨ ∃ s locks', stop = .stopped s locks' ∧ E locks' ∧ plain = .error s

theorem Shadows.bind {x : Except LockedStop (α × Locks)} {x' : Except Stop α}
    {f : α × Locks → Except LockedStop (β × Locks)}
    {f' : α → Except Stop β} {P Q E : Locks → Prop} (hx : Shadows x x' P E)
    (hf : ∀ a locks, P locks → Shadows (f (a, locks)) (f' a) Q E) : Shadows (x >>= f) (x' >>= f') Q E := by
  cases x with
  | ok r =>
    obtain ⟨hplain, hlocks⟩ := hx
    rw [hplain]
    exact hf r.1 r.2 hlocks
  | error stop =>
    rcases hx with hblocked | ⟨s, locks', hstop, hE, hplain⟩
    · exact Or.inl hblocked
    · rw [hplain]
      exact Or.inr ⟨s, locks', hstop, hE, rfl⟩

theorem shadows_underLocks (x : Except Stop α) (src segid : Nat) :
    Shadows (underLocks (midway locks src segid) x) x (· = midway locks src segid) (Leaves locks src segid) := by
  cases x with
  | ok a => exact ⟨rfl, rfl⟩
  | error stop => exact Or.inr ⟨stop, _, rfl, Or.inl rfl, rfl⟩

theorem unlockShared_midway : (midway locks src segid).unlockShared segid =
    { locks with futexes := Function.update locks.futexes src true } := by
  unfold Locks.unlockShared midway
  simp

theorem relock_midway (hfree : locks.exclusive segid = false) :
    ((midwayExclusive locks src segid).unlock segid).lockShared segid = .ok (midway locks src segid) := by
  have hback : Function.update (Function.update locks.exclusive segid true) segid false = locks.exclusive := by
    rw [Function.update_idem, ← hfree, Function.update_eq_self]
  unfold Locks.unlock Locks.lockShared midwayExclusive midway
  dsimp only
  rw [hback, if_neg (by rw [hfree]; decide)]

theorem shadows_exclusively (x : Except Stop α) (src segid : Nat) (hfree : locks.exclusive segid = false) :
    Shadows (exclusively (midway locks src segid) segid x) x (· = midway locks src segid)
      (Leaves locks src segid) := by
  unfold exclusively
  rw [unlockShared_midway]
  by_cases hshared : locks.exclusive segid = true ∨ locks.shared segid ≠ 0
  · have hlock : Locks.lock { locks with futexes := Function.update locks.futexes src true } segid =
        .error .blocked := if_pos hshared
    rw [hlock]
    exact Or.inl rfl
  · have hlock : Locks.lock { locks with futexes := Function.update locks.futexes src true } segid =
        .ok (midwayExclusive locks src segid) := if_neg hshared
    rw [hlock]
    cases x with
    | error stop => exact Or.inr ⟨stop, _, rfl, Or.inr rfl, rfl⟩
    | ok a =>
      show Shadows
          ((((midwayExclusive locks src segid).unlock segid).lockShared segid) >>= fun locks => pure (a, locks))
        _ _ _
      rw [relock_midway hfree]
      exact ⟨rfl, rfl⟩

theorem shadows_exclusivelyIf {alone : Prop} [Decidable alone] {x : Except Stop α}
    (hfree : locks.exclusive segid = false) :
    Shadows (exclusivelyIf (midway locks src segid) segid alone x) x (· = midway locks src segid)
      (Leaves locks src segid) := by
  unfold exclusivelyIf
  split
  · exact shadows_exclusively x src segid hfree
  · exact shadows_underLocks x src segid

theorem lock_both {f : Locks → Except LockedStop β} (h : (do
      let locks ← locks.lockFutex src
      let locks ← locks.lockShared segid
      f locks) ≠ .error .blocked) :
    locks.futexes src = false ∧ locks.exclusive segid = false ∧ (do
      let locks ← locks.lockFutex src
      let locks ← locks.lockShared segid
      f locks) = f (midway locks src segid) := by
  unfold Locks.lockFutex at h ⊢
  by_cases hfutex : locks.futexes src = true
  · rw [if_pos hfutex] at h
    exact absurd rfl h
  · rw [if_neg hfutex] at h ⊢
    by_cases hexclusive : locks.exclusive segid = true
    · refine absurd ?_ h
      show (Locks.lockShared { locks with futexes := Function.update locks.futexes src true } segid >>= f) = _
      unfold Locks.lockShared
      dsimp only
      rw [if_pos hexclusive]
      rfl
    · refine ⟨Bool.eq_false_iff.mpr hfutex, Bool.eq_false_iff.mpr hexclusive, ?_⟩
      show (Locks.lockShared { locks with futexes := Function.update locks.futexes src true } segid >>= f) = _
      unfold Locks.lockShared
      dsimp only
      rw [if_neg hexclusive]
      rfl

theorem release_midway (hfutex : locks.futexes src = false) :
    ((midway locks src segid).unlockShared segid).unlockFutex src = locks := by
  rw [unlockShared_midway]
  unfold Locks.unlockFutex
  dsimp only
  rw [Function.update_idem, ← hfutex, Function.update_eq_self]

end locks

/-! ### put_edge -/

section put
variable {g g' : SegGraph} {locks locks' : Locks} {w src label dst : Nat} {dir : Dir} {data : Bytes}

/-- A call that does not wait does what `putEdge` does. It releases its locks when it completes, and keeps them when
it ends early. -/
theorem putEdgeLocked_spec (hsrc : src < g.vertexId) :
    Shadows (g.putEdgeLocked locks w src label dir dst data) (g.putEdge w src label dir dst data) (· = locks)
      (Leaves locks src (src / vertexPerSeg)) := by
  by_cases hblocked : g.putEdgeLocked locks w src label dir dst data = .error .blocked
  · rw [hblocked]
    exact Or.inl rfl
  · unfold SegGraph.putEdgeLocked SegGraph.putEdge at *
    rw [if_neg (Nat.not_le.mpr hsrc)] at hblocked ⊢
    rw [if_neg (Nat.not_le.mpr hsrc)]
    dsimp only at hblocked ⊢
    obtain ⟨hfutex, hexclusive, hbody⟩ := lock_both hblocked
    rw [hbody]
    clear hbody hblocked
    refine Shadows.bind (shadows_exclusivelyIf hexclusive) ?_
    rintro ⟨segment, g1⟩ _ rfl
    refine Shadows.bind (shadows_exclusivelyIf hexclusive) ?_
    rintro ⟨segment', edgeBlock, g2⟩ _ rfl
    refine Shadows.bind (shadows_underLocks _ src _) ?_
    rintro ⟨table, g3⟩ _ rfl
    refine Shadows.bind (shadows_underLocks _ src _) ?_
    rintro g4 _ rfl
    refine Shadows.bind (shadows_underLocks _ src _) ?_
    rintro seg _ rfl
    exact ⟨rfl, release_midway hfutex⟩

theorem putEdgeLocked_stopped {stop : Stop} (hstop : stop ≠ .invalidVertexId)
    (hfail : g.putEdgeLocked locks w src label dir dst data = .error (.stopped stop locks')) :
    src < g.vertexId ∧ Leaves locks src (src / vertexPerSeg) locks' ∧
      g.putEdge w src label dir dst data = .error stop := by
  by_cases hsrc : src < g.vertexId
  · have hspec := @putEdgeLocked_spec g locks w src label dst dir data hsrc
    rw [hfail] at hspec
    rcases hspec with hblocked | ⟨stop', locks'', heq, hleaves, hplain⟩
    · cases hblocked
    · cases heq
      exact ⟨hsrc, hleaves, hplain⟩
  · unfold SegGraph.putEdgeLocked at hfail
    rw [if_pos (Nat.not_lt.mp hsrc)] at hfail
    cases hfail
    exact absurd rfl hstop

theorem Leaves.futexes {v segid : Nat} (h : Leaves locks src segid locks') (hv : v = src ∨ locks.futexes v = true) :
    locks'.futexes v = true := by
  have hupdate : Function.update locks.futexes src true v = true := by
    by_cases hsame : v = src
    · rw [hsame, Function.update_self]
    · rw [Function.update_of_ne hsame]
      exact hv.resolve_left hsame
  rcases h with rfl | rfl
  · exact hupdate
  · exact hupdate

theorem Leaves.mutex {segid : Nat} (h : Leaves locks src segid locks') :
    locks'.exclusive segid = true ∨ locks'.shared segid = locks.shared segid + 1 := by
  rcases h with rfl | rfl
  · exact Or.inr (Function.update_self ..)
  · exact Or.inl (Function.update_self ..)

theorem putEdgeLocked_of_held (hsrc : src < g.vertexId) (hheld : locks.futexes src = true) :
    g.putEdgeLocked locks w src label dir dst data = .error .blocked := by
  unfold SegGraph.putEdgeLocked
  rw [if_neg (Nat.not_le.mpr hsrc)]
  dsimp only
  unfold Locks.lockFutex
  rw [if_pos hheld]
  rfl

/-! ### A lock that nobody releases -/

def Held (v : Nat) (s : SegGraph × Locks) : Prop := v < s.1.vertexId ∧ s.2.futexes v = true

theorem Held.newVertex {v : Nat} {s : SegGraph × Locks} (h : Held v s) : Held v (s.1.newVertex, s.2.newVertex s.1) := by
  obtain ⟨hv, hheld⟩ := h
  have hclear : Function.update s.2.futexes s.1.vertexId false v = true := by
    rw [Function.update_of_ne (Nat.ne_of_lt hv)]
    exact hheld
  refine ⟨?_, ?_⟩
  · rw [newVertex_vertexId]
    exact Nat.lt_succ_of_lt hv
  · unfold Locks.newVertex
    dsimp only
    split
    · exact hclear
    · exact hclear

theorem Held.completed {v : Nat} {s s' : SegGraph × Locks} (h : Held v s)
    (hput : s.1.putEdgeLocked s.2 w src label dir dst data = .ok s') : Held v s' := by
  have hsrc : src < s.1.vertexId := by
    by_contra hsrc
    unfold SegGraph.putEdgeLocked at hput
    rw [if_pos (Nat.not_lt.mp hsrc)] at hput
    cases hput
  have hspec := @putEdgeLocked_spec s.1 s.2 w src label dst dir data hsrc
  rw [hput] at hspec
  obtain ⟨hplain, hlocks⟩ := hspec
  have hids := @putEdge_ids s.1 w label src dst dir data
  rw [hplain] at hids
  refine ⟨?_, ?_⟩
  · rw [hids.vertexId]
    exact h.1
  · rw [hlocks]
    exact h.2

theorem Held.allocFailed {v : Nat} {s : SegGraph × Locks} {site : AllocSite} (h : Held v s)
    (hput : s.1.putEdgeLocked s.2 w src label dir dst data = .error (.stopped (.allocFailed site g') locks')) :
    Held v (g', locks') := by
  obtain ⟨-, hleaves, hplain⟩ := putEdgeLocked_stopped (by simp) hput
  have hids := @putEdge_ids s.1 w label src dst dir data
  rw [hplain] at hids
  refine ⟨?_, hleaves.futexes (Or.inr h.2)⟩
  rw [(hids site g' rfl).vertexId]
  exact h.1

theorem Held.step {v : Nat} {s s' : SegGraph × Locks} {call : LockedCall} (h : Held v s)
    (hstep : call.step s = some s') :
    Held v s' := by
  cases call with
  | newVertex =>
    cases hstep
    exact h.newVertex
  | putEdge w src label dir dst data =>
    unfold LockedCall.step at hstep
    dsimp only at hstep
    cases hput : s.1.putEdgeLocked s.2 w src label dir dst data with
    | ok r =>
      rw [hput] at hstep
      cases hstep
      exact h.completed hput
    | error stop =>
      rw [hput] at hstep
      cases stop with
      | blocked => cases hstep
      | stopped stop locks' =>
        cases stop with
        | invalidVertexId =>
          cases hstep
          exact h
        | allocFailed site g' =>
          cases hstep
          exact h.allocFailed hput
        | _ => cases hstep

theorem Held.run {v : Nat} {s s' : SegGraph × Locks} {calls : List LockedCall} (h : Held v s)
    (hrun : calls.foldlM LockedCall.step s = some s') : Held v s' := by
  induction calls generalizing s with
  | nil =>
    cases hrun
    exact h
  | cons call calls ih =>
    rw [List.foldlM_cons] at hrun
    obtain ⟨s1, hstep, hrest⟩ := Option.bind_eq_some_iff.mp hrun
    exact ih (h.step hstep) hrest

/-! ### A failed allocation -/

/-- A call has undone what it did: readers see at every epoch what they saw, and the futex of the vertex and the
mutex of the segment are as before. -/
structure Unwound (g g' : SegGraph) (locks locks' : Locks) (src : Nat) : Prop where
  lists : ∀ v label dir edgePropSize epoch,
    readAdjList g' v label dir edgePropSize epoch = readAdjList g v label dir edgePropSize epoch
  futex : locks'.futexes src = locks.futexes src
  exclusive : locks'.exclusive (src / vertexPerSeg) = locks.exclusive (src / vertexPerSeg)
  shared : locks'.shared (src / vertexPerSeg) = locks.shared (src / vertexPerSeg)

/-- Every call of `put_edge` on a vertex waits, whatever calls return before it. -/
def WaitsForever (v : Nat) (s : SegGraph × Locks) : Prop :=
  ∀ (later : List LockedCall) (s' : SegGraph × Locks) (w label : Nat) (dir : Dir) (dst : Nat) (data : Bytes),
    later.foldlM LockedCall.step s = some s' →
      s'.1.putEdgeLocked s'.2 w v label dir dst data = .error .blocked

/-- No failed allocation is undone: the futex stays held and the mutex of the segment too. -/
theorem failedAlloc_not_unwound {site : AllocSite}
    (hfail : g.putEdgeLocked locks w src label dir dst data = .error (.stopped (.allocFailed site g') locks')) :
    ¬ Unwound g g' locks locks' src ∧ locks'.futexes src = true ∧
      (locks'.exclusive (src / vertexPerSeg) = true ∨
        locks'.shared (src / vertexPerSeg) = locks.shared (src / vertexPerSeg) + 1) ∧
      WaitsForever src (g', locks') := by
  have hids := @putEdge_ids g w label src dst dir data
  obtain ⟨hsrc, hleaves, hplain⟩ := putEdgeLocked_stopped (by simp) hfail
  have hheld := hleaves.futexes (Or.inl rfl)
  have hfree : locks.futexes src = false := by
    by_contra hfutex
    rw [putEdgeLocked_of_held hsrc (Bool.of_not_eq_false hfutex)] at hfail
    cases hfail
  refine ⟨fun h => ?_, hheld, hleaves.mutex, ?_⟩
  · have hfutex := h.futex
    rw [hheld, hfree] at hfutex
    cases hfutex
  · intro later s' w' label' dir' dst' data' hrun
    rw [hplain] at hids
    have hlt : src < g'.vertexId := by
      rw [(hids site g' rfl).vertexId]
      exact hsrc
    obtain ⟨hlt', hheld'⟩ := Held.run ⟨hlt, hheld⟩ hrun
    exact putEdgeLocked_of_held hlt' hheld'

/-- Two epochs of edges in space for one segment and one epoch table. -/
def fullTable : List LockedCall :=
  [.newVertex, .putEdge 1 0 0 .eout 0 [], .putEdge 1 0 0 .eout 0 [], .putEdge 2 0 0 .eout 0 [],
    .putEdge 2 0 0 .eout 0 []]

theorem fullTable_run : ∃ s g' locks',
    fullTable.foldlM LockedCall.step (SegGraph.create (2 ^ 21 + 128) [false], Locks.free) = some s ∧
      s.1.putEdgeLocked s.2 3 0 0 .eout 0 [] = .error (.stopped (.allocFailed .grownEpochTable g') locks') ∧
      readAdjList g' 0 0 .eout 0 2 ≠ readAdjList s.1 0 0 .eout 0 2 := by
  have hrun : ((fullTable.foldlM LockedCall.step (SegGraph.create (2 ^ 21 + 128) [false], Locks.free)).bind fun s =>
      match s.1.putEdgeLocked s.2 3 0 0 .eout 0 [] with
      | .error (.stopped (.allocFailed site g') _) =>
        (readAdjList s.1 0 0 .eout 0 2).toOption.bind fun old =>
        (readAdjList g' 0 0 .eout 0 2).toOption.map fun new =>
          decide (site = .grownEpochTable ∧ old.length = 4 ∧ new.length = 0)
      | .error (.stopped .invalidVertexId _) => none
      | .error (.stopped .labelBlockAlloc _) => none
      | .error (.stopped .outsideBuffer _) => none
      | .error (.stopped (.fault _) _) => none
      | .error .blocked => none
      | .ok _ => none) = some true := by
    decide +kernel
  obtain ⟨s, hs, hrun⟩ := Option.bind_eq_some_iff.mp hrun
  split at hrun
  case h_1 site g' locks' hput =>
    obtain ⟨old, hold, hrun⟩ := Option.bind_eq_some_iff.mp hrun
    obtain ⟨new, hnew, hrun⟩ := Option.map_eq_some_iff.mp hrun
    obtain ⟨hsite, holdLength, hnewLength⟩ := of_decide_eq_true hrun
    rw [hsite] at hput
    refine ⟨s, g', locks', hs, hput, ?_⟩
    rw [ok_of_toOption hold, ok_of_toOption hnew]
    intro heq
    rw [← Except.ok.inj heq, hnewLength] at holdLength
    cases holdLength
  all_goals cases hrun

/-- The next epoch finds no space for a larger table. -/
theorem failedAlloc_not_unwound_epoch : ∃ (s : SegGraph × Locks) (g' : SegGraph) (locks' : Locks),
    s.1.putEdgeLocked s.2 3 0 0 .eout 0 [] = .error (.stopped (.allocFailed .grownEpochTable g') locks') ∧
      ¬ Unwound s.1 g' s.2 locks' 0 ∧ WaitsForever 0 (g', locks') := by
  obtain ⟨s, g', locks', -, hput, -⟩ := fullTable_run
  have h := failedAlloc_not_unwound hput
  exact ⟨s, g', locks', hput, h.1, h.2.2.2⟩

/-- The four edges of the list are lost to its readers, and the locks are kept. -/
theorem failedAlloc_fullTable : ∃ s g' locks',
    fullTable.foldlM LockedCall.step (SegGraph.create (2 ^ 21 + 128) [false], Locks.free) = some s ∧
      s.1.putEdgeLocked s.2 3 0 0 .eout 0 [] = .error (.stopped (.allocFailed .grownEpochTable g') locks') ∧
      ¬ (readAdjList g' 0 0 .eout 0 2 = readAdjList s.1 0 0 .eout 0 2) ∧ ¬ Unwound s.1 g' s.2 locks' 0 := by
  obtain ⟨s, g', locks', hs, hput, hlists⟩ := fullTable_run
  exact ⟨s, g', locks', hs, hput, hlists, fun h => hlists (h.lists 0 0 .eout 0 2)⟩

end put

end Gart.Seggraph

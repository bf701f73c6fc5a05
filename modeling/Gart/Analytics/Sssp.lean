import Gart.Analytics.Fragments
import Gart.Lib.Slots
import Gart.Lib.Walks

/-!
# Shortest paths (apps/analytical_engine/apps/gart/property_sssp.h)

A vertex array is a function of slots. Distances are natural numbers: the model is that of the code as long as every sum
`dist_src + e_data` is below 2^31.
-/

namespace Gart.Analytics
open Gart.Supersteps Gart.Walks

/-- `PropertySSSPContext` (`property_sssp.h:38-108`) -/
structure PropertySSSPContext (S : Type) where
  result : S → Nat
  updated : S → Bool
  updatedNext : S → Bool

namespace Sssp

/-- `std::numeric_limits<int>::max()` -/
def infinity : Nat := 2 ^ 31 - 1

/-- The source vertex, with the fragments where `Oid2Gid` finds it; its own fragment does. -/
structure Source {n : Nat} {V S : Type} (g : PartitionedGraph n V S) where
  vertex : V
  isVertex : g.IsVertex vertex
  found : Fin n → Bool
  foundByOwner : found (g.fragId vertex) = true

structure Relaxed (V S : Type) where
  result : S → Nat
  updated : S → Bool
  sent : List (V × Nat)
  requireForceContinue : Bool

section program
variable {n : Nat} {V S : Type} [DecidableEq S]

/-- An edge of the source vertex in `PEval`. -/
def firstEdge (g : PartitionedGraph n V S) (i : Fin n) (st : Relaxed V S) (e : V × Nat) : Relaxed V S :=
  let dst := (g.fragment i).slot e.1
  let dist := min (st.result dst) e.2
  let result := Function.update st.result dst dist
  if g.fragId e.1 = i then
    { st with
      result := result
      updated := Function.update st.updated dst true }
  else
    { st with
      result := result
      sent := st.sent ++ [(e.1, dist)] }

/-- `PropertySSSP::PEval` (`property_sssp.h:124-161`) -/
def pEval (g : PartitionedGraph n V S) (source : Source g) (i : Fin n) :
    Outcome n (PropertySSSPContext S) (V × Nat) :=
  let src := (g.fragment i).slot source.vertex
  if source.found i then
    if g.fragId source.vertex = i then
      let st := ((g.fragment i).outgoing source.vertex).foldl (firstEdge g i)
        { result := Function.update (fun _ => infinity) src 0, updated := fun _ => false, sent := []
          requireForceContinue := true }
      { state := { result := st.result, updated := st.updated, updatedNext := fun _ => false }
        sent := st.sent.map fun m => (g.fragId m.1, m)
        forceContinue := true }
    else
      { state := { result := fun _ => infinity, updated := fun _ => false, updatedNext := fun _ => false }
        sent := []
        forceContinue := true }
  else
    { state := { result := fun _ => infinity, updated := fun _ => false, updatedNext := fun _ => false }
      sent := []
      forceContinue := false }

def receive (f : AppFragment V S) (inbox : List (V × Nat)) (ctx : PropertySSSPContext S) : PropertySSSPContext S :=
  inbox.foldl (fun ctx m =>
    if ctx.result (f.slot m.1) > m.2 then
      { ctx with
        result := Function.update ctx.result (f.slot m.1) m.2
        updated := Function.update ctx.updated (f.slot m.1) true }
    else ctx) ctx

def relaxEdge (g : PartitionedGraph n V S) (i : Fin n) (distSrc : Nat) (st : Relaxed V S) (e : V × Nat) : Relaxed V S :=
  let dst := (g.fragment i).slot e.1
  let newDistDst := distSrc + e.2
  if newDistDst < st.result dst then
    let result := Function.update st.result dst newDistDst
    if g.fragId e.1 = i then
      { st with
        result := result
        updated := Function.update st.updated dst true
        requireForceContinue := true }
    else
      { st with
        result := result
        sent := st.sent ++ [(e.1, newDistDst)] }
  else st

def relaxVertex (g : PartitionedGraph n V S) (i : Fin n) (updatedNext : S → Bool) (st : Relaxed V S) (src : V) :
    Relaxed V S :=
  if updatedNext ((g.fragment i).slot src) = false then st
  else
    let distSrc := st.result ((g.fragment i).slot src)
    ((g.fragment i).outgoing src).foldl (relaxEdge g i distSrc) st

/-- `PropertySSSP::IncEval` (`property_sssp.h:163-222`) -/
def incEval (g : PartitionedGraph n V S) (i : Fin n) (ctx : PropertySSSPContext S) (inbox : List (V × Nat)) :
    Outcome n (PropertySSSPContext S) (V × Nat) :=
  let ctx := receive (g.fragment i) inbox ctx
  -- the update sets are swapped, and the new one is cleared
  let updatedNext := ctx.updated
  let st := (g.fragment i).innerVertices.foldl (relaxVertex g i updatedNext)
    { result := ctx.result, updated := fun _ => false, sent := [], requireForceContinue := false }
  { state := { result := st.result, updated := st.updated, updatedNext := updatedNext }
    sent := st.sent.map fun m => (g.fragId m.1, m)
    forceContinue := st.requireForceContinue }

/-- The result of a vertex in the fragment that has it as an inner vertex. -/
def resultOf (g : PartitionedGraph n V S) (outs : Fin n → Outcome n (PropertySSSPContext S) (V × Nat)) (v : V) : Nat :=
  (outs (g.fragId v)).state.result ((g.fragment (g.fragId v)).slot v)

end program

/-! ### A distance that is offered to a vertex -/

section offers
variable {n : Nat} {V S : Type} [DecidableEq S] {g : PartitionedGraph n V S} {i : Fin n} {dist c : Nat} {y : V}
  {st st' : Relaxed V S} {e : V × Nat} {s : S}

/-- What a step does that offers the distance `c` to the vertex `y`. -/
structure Offered (g : PartitionedGraph n V S) (i : Fin n) (y : V) (c : Nat) (st st' : Relaxed V S) : Prop where
  result : ∀ s, st'.result s = if s = (g.fragment i).slot y then min (st.result s) c else st.result s
  flags : ∀ s, st.updated s = true → st'.updated s = true
  flagged : ∀ s, st'.updated s = true → st.updated s = true ∨
    s = (g.fragment i).slot y ∧ g.fragId y = i ∧ st'.requireForceContinue = true
  lowered : st'.result ((g.fragment i).slot y) < st.result ((g.fragment i).slot y) →
    if g.fragId y = i then st'.updated ((g.fragment i).slot y) = true
    else (y, st'.result ((g.fragment i).slot y)) ∈ st'.sent
  kept : ∀ m ∈ st.sent, m ∈ st'.sent
  sent : ∀ m ∈ st'.sent, m ∈ st.sent ∨ g.fragId y ≠ i ∧ m = (y, st'.result ((g.fragment i).slot y))
  force : st.requireForceContinue = true → st'.requireForceContinue = true

theorem update_min {f : S → Nat} {t : S} :
    Function.update f t (min (f t) c) s = if s = t then min (f s) c else f s := by
  by_cases hs : s = t
  · rw [hs, Function.update_self, if_pos rfl]
  · rw [Function.update_of_ne hs, if_neg hs]

theorem update_true {f : S → Bool} {t : S} (h : f s = true) : Function.update f t true s = true := by
  by_cases hs : s = t
  · rw [hs, Function.update_self]
  · rw [Function.update_of_ne hs, h]

theorem of_update_true {f : S → Bool} {t : S} (h : Function.update f t true s = true) : f s = true ∨ s = t := by
  by_cases hs : s = t
  · exact Or.inr hs
  · rw [Function.update_of_ne hs] at h
    exact Or.inl h

theorem offered_firstEdge (hforce : st.requireForceContinue = true) :
    Offered g i e.1 e.2 st (firstEdge g i st e) := by
  unfold firstEdge
  by_cases hinner : g.fragId e.1 = i
  · simp only [hinner, if_true]
    constructor
    · exact fun s => update_min
    · exact fun s hs => update_true hs
    · exact fun s hs => (of_update_true hs).imp_right fun heq => ⟨heq, hinner, hforce⟩
    · intro _
      rw [if_pos hinner]
      exact Function.update_self _ _ _
    · exact fun m hm => hm
    · exact fun m hm => Or.inl hm
    · exact id
  · simp only [hinner, if_false]
    constructor
    · exact fun s => update_min
    · exact fun s hs => hs
    · exact fun s hs => Or.inl hs
    · intro _
      simp [hinner]
    · exact fun m hm => List.mem_append_left _ hm
    · intro m hm
      dsimp only at hm ⊢
      rw [Function.update_self]
      exact (List.mem_append.mp hm).imp_right fun hm => ⟨hinner, List.mem_singleton.mp hm⟩
    · exact id

theorem offered_refl (h : st.result ((g.fragment i).slot y) ≤ c) : Offered g i y c st st := by
  constructor
  · intro s
    split
    · rename_i hs
      rw [hs, min_eq_left h]
    · rfl
  · exact fun s hs => hs
  · exact fun s hs => Or.inl hs
  · exact fun hlt => absurd hlt (lt_irrefl _)
  · exact fun m hm => hm
  · exact fun m hm => Or.inl hm
  · exact id

theorem offered_relaxEdge : Offered g i e.1 (dist + e.2) st (relaxEdge g i dist st e) := by
  unfold relaxEdge
  by_cases hless : dist + e.2 < st.result ((g.fragment i).slot e.1)
  · have hmin : min (st.result ((g.fragment i).slot e.1)) (dist + e.2) = dist + e.2 := min_eq_right hless.le
    by_cases hinner : g.fragId e.1 = i
    · simp only [hless, hinner, if_true]
      constructor
      · intro s
        rw [← update_min, hmin]
      · exact fun s hs => update_true hs
      · exact fun s hs => (of_update_true hs).imp_right fun heq => ⟨heq, hinner, rfl⟩
      · intro _
        rw [if_pos hinner]
        exact Function.update_self _ _ _
      · exact fun m hm => hm
      · exact fun m hm => Or.inl hm
      · exact fun _ => rfl
    · simp only [hless, hinner, if_true, if_false]
      constructor
      · intro s
        rw [← update_min, hmin]
      · exact fun s hs => hs
      · exact fun s hs => Or.inl hs
      · intro _
        simp [hinner]
      · exact fun m hm => List.mem_append_left _ hm
      · intro m hm
        dsimp only at hm ⊢
        rw [Function.update_self]
        exact (List.mem_append.mp hm).imp_right fun hm => ⟨hinner, List.mem_singleton.mp hm⟩
      · exact id
  · simp only [hless, if_false]
    exact offered_refl (not_lt.mp hless)

theorem Offered.result_le (h : Offered g i y c st st') (s : S) : st'.result s ≤ st.result s := by
  rw [h.result]
  split
  · exact min_le_left _ _
  · exact le_refl _

theorem Offered.result_slot (h : Offered g i y c st st') :
    st'.result ((g.fragment i).slot y) = min (st.result ((g.fragment i).slot y)) c := by
  rw [h.result, if_pos rfl]

theorem Offered.result_other (h : Offered g i y c st st') (hs : s ≠ (g.fragment i).slot y) :
    st'.result s = st.result s := by
  rw [h.result, if_neg hs]

end offers

end Sssp

end Gart.Analytics

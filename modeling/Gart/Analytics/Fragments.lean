import Gart.Lib.Supersteps

/-!
# Fragments of a graph

What an application sees of a graph that is divided into fragments. Vertices go by their global ids; the lists of a
fragment run over all vertex labels, its adjacency lists over all edge labels.
-/

namespace Gart.Analytics
open Gart.Supersteps

structure AppFragment (V S : Type) where
  innerVertices : List V
  outerVertices : List V
  /-- the label of a vertex with its slot in the vertex arrays of the label -/
  slot : V → S
  /-- `GetOutgoingAdjList` of an inner vertex, each edge with its weight -/
  outgoing : V → List (V × Nat)
  incoming : V → List V

/-- A graph in `n` fragments. Every vertex is an inner vertex of one fragment; the slots of inner vertices are distinct,
and those of outer vertices. -/
structure PartitionedGraph (n : Nat) (V S : Type) where
  fragment : Fin n → AppFragment V S
  /-- `GetFragId` -/
  fragId : V → Fin n
  inner : ∀ i, ∀ v ∈ (fragment i).innerVertices, fragId v = i
  outer : ∀ i, ∀ v ∈ (fragment i).outerVertices, fragId v ≠ i ∧ v ∈ (fragment (fragId v)).innerVertices
  innerSlots : ∀ i, ((fragment i).innerVertices.map (fragment i).slot).Nodup
  outerSlots : ∀ i, ((fragment i).outerVertices.map (fragment i).slot).Nodup
  neighbours : ∀ i, ∀ u ∈ (fragment i).innerVertices, ∀ e ∈ (fragment i).outgoing u,
    e.1 ∈ (fragment i).innerVertices ∨ e.1 ∈ (fragment i).outerVertices

namespace PartitionedGraph
variable {n : Nat} {V S : Type}

/-- The edges of a vertex, as the fragment has them that owns it. -/
def edgesOf (g : PartitionedGraph n V S) (v : V) : List (V × Nat) := (g.fragment (g.fragId v)).outgoing v

def IsVertex (g : PartitionedGraph n V S) (v : V) : Prop := v ∈ (g.fragment (g.fragId v)).innerVertices

instance [DecidableEq V] (g : PartitionedGraph n V S) (v : V) : Decidable (g.IsVertex v) :=
  inferInstanceAs (Decidable (v ∈ (g.fragment (g.fragId v)).innerVertices))

variable {g : PartitionedGraph n V S} {i : Fin n} {v w : V}

theorem isVertex_iff : g.IsVertex v ↔ ∃ i, v ∈ (g.fragment i).innerVertices := by
  constructor
  · intro h
    exact ⟨_, h⟩
  · rintro ⟨i, h⟩
    rw [← g.inner i v h] at h
    exact h

theorem edgesOf_inner (h : v ∈ (g.fragment i).innerVertices) : g.edgesOf v = (g.fragment i).outgoing v := by
  unfold edgesOf
  rw [g.inner i v h]

theorem inner_slot (hv : v ∈ (g.fragment i).innerVertices) (hw : w ∈ (g.fragment i).innerVertices)
    (h : (g.fragment i).slot v = (g.fragment i).slot w) : v = w :=
  List.inj_on_of_nodup_map (g.innerSlots i) hv hw h

theorem outer_slot (hv : v ∈ (g.fragment i).outerVertices) (hw : w ∈ (g.fragment i).outerVertices)
    (h : (g.fragment i).slot v = (g.fragment i).slot w) : v = w :=
  List.inj_on_of_nodup_map (g.outerSlots i) hv hw h

/-! ### Messages to the owners of outer vertices -/

variable {σ A : Type} {outs : Fin n → Outcome n σ (V × A)} {sent : List (V × A)} {m : V × A}

theorem sent_arrives (hsent : (outs i).sent = sent.map fun m => (g.fragId m.1, m)) (hm : m ∈ sent) :
    m ∈ inboxOf outs (g.fragId m.1) := by
  refine mem_inboxOf.mpr ⟨i, ?_⟩
  rw [hsent]
  exact List.mem_map.mpr ⟨m, hm, rfl⟩

theorem exists_sent {P : Fin n → List (V × A) → Prop}
    (h : ∀ j, ∃ sent, (outs j).sent = sent.map (fun m => (g.fragId m.1, m)) ∧ P j sent) (hm : m ∈ inboxOf outs i) :
    g.fragId m.1 = i ∧ ∃ j sent, P j sent ∧ m ∈ sent := by
  obtain ⟨j, hmem⟩ := mem_inboxOf.mp hm
  obtain ⟨sent, hsent, hp⟩ := h j
  rw [hsent] at hmem
  obtain ⟨m', hm', heq⟩ := List.mem_map.mp hmem
  obtain ⟨rfl, rfl⟩ := Prod.mk.inj heq
  exact ⟨rfl, j, sent, hp, hm'⟩

end PartitionedGraph

def firstFragment : Fin 2 := 0

/-- Two vertices in a fragment each, of the same label or of different ones, with an edge from the first to the second
one. -/
def twoVertices (alike : Bool) : PartitionedGraph 2 Nat (Nat × Nat) where
  fragment i :=
    { innerVertices := [i.val]
      outerVertices := if i = 0 then [1] else [0]
      slot := fun v => (if alike then 0 else v, 0)
      outgoing := fun v => if v = 0 then [(1, 5)] else []
      incoming := fun v => if v = 1 then [0] else [] }
  fragId v := if v = 0 then 0 else 1
  inner := by decide +revert
  outer := by decide +revert
  innerSlots := by decide +revert
  outerSlots := by decide +revert
  neighbours := by decide +revert

end Gart.Analytics

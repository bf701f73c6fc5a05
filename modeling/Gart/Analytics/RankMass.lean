import Gart.Analytics.PageRank

/-!
# The mass of the ranks

What vertices send along their edges arrives, whatever slots the fragments share. The rank that has no edge to go along
is counted in a sum that leaves out what has arrived.
-/

namespace Gart.Analytics
open Gart.Supersteps Gart.Slots PageRank

/-! ### Sums over the vertices -/

section total
variable {n : Nat} {V S : Type} {g : PartitionedGraph n V S} {a b : V → ℚ} {c : ℚ} {i : Fin n} {v : V}

def total (g : PartitionedGraph n V S) (a : V → ℚ) : ℚ := ∑ i, ((g.fragment i).innerVertices.map a).sum

def vertexNum (g : PartitionedGraph n V S) : Nat := ∑ i, (g.fragment i).innerVertices.length

def danglingNum (g : PartitionedGraph n V S) : Nat :=
  ∑ i, (g.fragment i).innerVertices.countP fun u => ((g.fragment i).outgoing u).isEmpty

theorem total_congr (h : ∀ i, ∀ v ∈ (g.fragment i).innerVertices, a v = b v) : total g a = total g b :=
  Finset.sum_congr rfl fun i _ => by rw [List.map_congr_left (h i)]

theorem total_add : total g (fun v => a v + b v) = total g a + total g b := by
  unfold total
  simp only [List.sum_map_add, Finset.sum_add_distrib]

theorem total_mul : total g (fun v => c * a v) = c * total g a := by
  unfold total
  simp only [List.sum_map_mul_left, Finset.mul_sum]

theorem total_const : total g (fun _ => c) = vertexNum g * c := by
  unfold total vertexNum
  simp only [List.map_const', List.sum_replicate, nsmul_eq_mul]
  rw [← Finset.sum_mul, Nat.cast_sum]

theorem total_dangling : total g (fun v => if (g.edgesOf v).isEmpty then c else 0) = danglingNum g * c := by
  have hlist : ∀ (p : V → Bool) (us : List V), (us.map fun v => if p v then c else 0).sum = us.countP p * c := by
    intro p us
    induction us with
    | nil => simp
    | cons u us ih =>
      rw [List.map_cons, List.sum_cons, ih, List.countP_cons]
      by_cases hp : p u = true <;> simp [hp]
      ring
  unfold total danglingNum
  rw [Nat.cast_sum, Finset.sum_mul]
  refine Finset.sum_congr rfl fun i _ => ?_
  rw [← hlist]
  exact congrArg List.sum (List.map_congr_left fun v hv => by rw [PartitionedGraph.edgesOf_inner hv])

theorem le_total (ha : ∀ i, ∀ v ∈ (g.fragment i).innerVertices, 0 ≤ a v) (hv : v ∈ (g.fragment i).innerVertices) :
    a v ≤ total g a := by
  have hnonneg : ∀ j, 0 ≤ ((g.fragment j).innerVertices.map a).sum := fun j =>
    List.sum_nonneg fun x hx => by
      obtain ⟨w, hw, rfl⟩ := List.mem_map.mp hx
      exact ha j w hw
  have hone : a v ≤ ((g.fragment i).innerVertices.map a).sum :=
    List.single_le_sum (fun x hx => by
      obtain ⟨w, hw, rfl⟩ := List.mem_map.mp hx
      exact ha i w hw) _ (List.mem_map_of_mem hv)
  exact hone.trans (Finset.single_le_sum (fun j _ => hnonneg j) (Finset.mem_univ i))

end total

/-! ### One fragment -/

section fragment
variable {V S : Type} [DecidableEq S] {f : AppFragment V S} {slot : V → S} {keys : List V} {k : V} {c : ℚ} {s : S}

theorem sum_slot (hkeys : (keys.map slot).Nodup) (hk : k ∈ keys) :
    (keys.map fun v => if slot k = slot v then c else 0).sum = c := by
  induction keys with
  | nil => cases hk
  | cons v keys ih =>
    obtain ⟨hnew, hrest⟩ := List.nodup_cons.mp hkeys
    rw [List.map_cons, List.sum_cons]
    rcases List.mem_cons.mp hk with rfl | hk
    · have hzero : ∀ w ∈ keys, (if slot k = slot w then c else 0) = (0 : ℚ) := fun w hw =>
        if_neg fun heq => hnew (List.mem_map.mpr ⟨w, hw, heq.symm⟩)
      rw [if_pos rfl, List.map_congr_left hzero]
      simp
    · have hne : slot k ≠ slot v := fun heq => hnew (heq ▸ List.mem_map_of_mem hk)
      rw [if_neg hne, ih hrest hk, zero_add]

theorem sum_count {slots leads : List S} (hslots : slots.Nodup) (hleads : ∀ s ∈ leads, s ∈ slots) :
    (slots.map fun s => (leads.count s : ℚ)).sum = leads.length := by
  induction leads with
  | nil => simp
  | cons lead leads ih =>
    have hcount : ∀ s, ((lead :: leads).count s : ℚ) = leads.count s + if id lead = id s then 1 else 0 := by
      intro s
      rw [List.count_cons]
      by_cases hs : lead = s <;> simp [hs]
    simp only [hcount, List.sum_map_add]
    rw [ih fun s hs => hleads s (List.mem_cons_of_mem _ hs),
      sum_slot (by rwa [List.map_id]) (hleads lead List.mem_cons_self)]
    simp

/-- The slots of a fragment, those that an outer vertex has for themselves. -/
def slotsOf (f : AppFragment V S) : List S :=
  (f.innerVertices.map f.slot).filter (fun s => s ∉ f.outerVertices.map f.slot) ++ f.outerVertices.map f.slot

theorem mem_slotsOf : s ∈ slotsOf f ↔ s ∈ f.innerVertices.map f.slot ∨ s ∈ f.outerVertices.map f.slot := by
  unfold slotsOf
  rw [List.mem_append, List.mem_filter, decide_eq_true_iff]
  by_cases houter : s ∈ f.outerVertices.map f.slot
  · simp only [houter, or_true]
  · simp only [houter, not_false_eq_true, and_true, or_false]

theorem slotsOf_nodup (hinner : (f.innerVertices.map f.slot).Nodup) (houter : (f.outerVertices.map f.slot).Nodup) :
    (slotsOf f).Nodup := by
  refine List.Nodup.append (hinner.filter _) houter fun s hs hs' => ?_
  exact of_decide_eq_true (List.mem_filter.mp hs).2 hs'

/-- The slots that are read for the inner vertices and those of the outer ones are all slots. -/
theorem sum_slotsOf (a : S → ℚ) : ((slotsOf f).map a).sum =
    (f.innerVertices.map fun v => if f.slot v ∈ f.outerVertices.map f.slot then 0 else a (f.slot v)).sum +
      (f.outerVertices.map fun x => a (f.slot x)).sum := by
  unfold slotsOf
  rw [List.map_append, List.sum_append, List.map_map]
  congr 1
  generalize f.outerVertices.map f.slot = outer
  induction f.innerVertices with
  | nil => rfl
  | cons v vs ih =>
    rw [List.map_cons, List.map_cons, List.sum_cons, ← ih]
    by_cases hv : f.slot v ∈ outer
    · rw [List.filter_cons_of_neg (by simpa using hv), if_pos hv, zero_add]
    · rw [List.filter_cons_of_pos (by simpa using hv), if_neg hv, List.map_cons, List.sum_cons]

theorem sum_flowOf (hinner : (f.innerVertices.map f.slot).Nodup) (houter : (f.outerVertices.map f.slot).Nodup)
    (rank : V → ℚ) {us : List V}
    (hedges : ∀ u ∈ us, ∀ e ∈ f.outgoing u, e.1 ∈ f.innerVertices ∨ e.1 ∈ f.outerVertices) :
    ((slotsOf f).map (flowOf f rank us)).sum = (us.map fun u => if (f.outgoing u).isEmpty then 0 else rank u).sum := by
  induction us with
  | nil =>
    have hnone : flowOf f rank [] = fun _ => 0 := rfl
    simp [hnone]
  | cons u us ih =>
    have hsplit : flowOf f rank (u :: us) = fun s => (hits f u s : ℚ) * (rank u / (f.outgoing u).length) +
        flowOf f rank us s := by
      funext s
      unfold flowOf
      rw [List.map_cons, List.sum_cons]
    have hleads : ∀ s ∈ (f.outgoing u).map fun e => f.slot e.1, s ∈ slotsOf f := by
      intro s hs
      obtain ⟨e, he, rfl⟩ := List.mem_map.mp hs
      exact mem_slotsOf.mpr ((hedges u List.mem_cons_self e he).imp List.mem_map_of_mem List.mem_map_of_mem)
    have hcount : ((slotsOf f).map fun s => (hits f u s : ℚ)).sum = (f.outgoing u).length := by
      have hsum := sum_count (slotsOf_nodup hinner houter) hleads
      rw [List.length_map] at hsum
      exact hsum
    rw [hsplit, List.sum_map_add, List.sum_map_mul_right, hcount, ih fun v hv => hedges v (List.mem_cons_of_mem u hv),
      List.map_cons, List.sum_cons]
    congr 1
    cases hout : f.outgoing u with
    | nil => simp
    | cons e edges =>
      have hpos : (((e :: edges).length : Nat) : ℚ) ≠ 0 := by simp; positivity
      rw [mul_div_cancel₀ _ hpos]
      simp

theorem sum_receive {next : S → ℚ} {inbox : List (V × ℚ)} (hinner : (f.innerVertices.map f.slot).Nodup)
    (hinbox : ∀ m ∈ inbox, m.1 ∈ f.innerVertices) :
    (f.innerVertices.map fun v => receive f next inbox (f.slot v)).sum =
      (f.innerVertices.map fun v => next (f.slot v)).sum + (inbox.map Prod.snd).sum := by
  simp only [receive_apply, List.sum_map_add]
  congr 1
  induction inbox with
  | nil => simp
  | cons m inbox ih =>
    simp only [List.map_cons, List.sum_cons, List.sum_map_add]
    rw [ih fun m' hm' => hinbox m' (List.mem_cons_of_mem m hm'), sum_slot hinner (hinbox m List.mem_cons_self)]

end fragment

end Gart.Analytics

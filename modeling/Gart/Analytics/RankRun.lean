import Gart.Analytics.RankMass

/-!
# The ranks of a run

From round to round the application keeps the sum of the ranks that vertices without edges have, but computes it before
the ranks of the round are known.
-/

namespace Gart.Analytics
open Gart.Supersteps Gart.Slots PageRank

section run
variable {n : Nat} {V S : Type} [DecidableEq S] {g : PartitionedGraph n V S} {k : Nat} {r : V → ℚ} {d delta : ℚ}
  {maxRound : Int} {outs : Fin n → Outcome n (PageRankContext S) (V × ℚ)} {inbox : Fin n → List (V × ℚ)} {i : Fin n}
  {u v w : V}

/-- The fragments behind a round that sends the ranks of the round along the edges. -/
structure Spreading (g : PartitionedGraph n V S) (k : Nat) (r : V → ℚ) (d : ℚ)
    (outs : Fin n → Outcome n (PageRankContext S) (V × ℚ)) : Prop where
  result : ∀ i, ∀ v ∈ (g.fragment i).innerVertices, (outs i).state.result ((g.fragment i).slot v) = r v
  resultNext : ∀ i s, (outs i).state.resultNext s =
    if s ∈ (g.fragment i).outerVertices.map (g.fragment i).slot then 0 else flow (g.fragment i) r s
  sent : ∀ i, (outs i).sent = (g.fragment i).outerVertices.map fun x =>
    (g.fragId x, x, flow (g.fragment i) r ((g.fragment i).slot x))
  degree : ∀ i, ∀ v ∈ (g.fragment i).innerVertices,
    (outs i).state.degree ((g.fragment i).slot v) = ((g.fragment i).outgoing v).length
  currentRound : ∀ i, (outs i).state.currentRound = k
  totalVertexNum : ∀ i, (outs i).state.totalVertexNum = vertexNum g
  totalDanglingVnum : ∀ i, (outs i).state.totalDanglingVnum = danglingNum g
  danglingSum : ∀ i, (outs i).state.danglingSum = d

/-- `base` of a round -/
def baseOf (g : PartitionedGraph n V S) (delta d : ℚ) : ℚ := (1 - delta) / vertexNum g + delta * d / vertexNum g

/-- What has been added up for a vertex when the messages are in. -/
def arrived (g : PartitionedGraph n V S) (outs : Fin n → Outcome n (PageRankContext S) (V × ℚ))
    (inbox : Fin n → List (V × ℚ)) (v : V) : ℚ :=
  receive (g.fragment (g.fragId v)) (outs (g.fragId v)).state.resultNext (inbox (g.fragId v))
    ((g.fragment (g.fragId v)).slot v)

def nextRank (g : PartitionedGraph n V S) (delta d : ℚ) (outs : Fin n → Outcome n (PageRankContext S) (V × ℚ))
    (inbox : Fin n → List (V × ℚ)) (v : V) : ℚ :=
  baseOf g delta d + delta * arrived g outs inbox v

def sentRank (g : PartitionedGraph n V S) (r : V → ℚ) : ℚ := total g fun v => if (g.edgesOf v).isEmpty then 0 else r v

def strandedRank (g : PartitionedGraph n V S) (a : V → ℚ) : ℚ :=
  total g fun v => if (g.edgesOf v).isEmpty then a v else 0

omit [DecidableEq S] in
theorem rankSum_eq (h : ∀ i, ∀ v ∈ (g.fragment i).innerVertices,
    (outs i).state.result ((g.fragment i).slot v) = r v) : rankSum g outs = total g r :=
  Finset.sum_congr rfl fun i _ => by rw [List.map_congr_left (h i)]

theorem spreading_pEval : Spreading g 0 (fun _ => 1 / (vertexNum g : ℚ)) (1 / vertexNum g * danglingNum g)
    (pEval g) := by
  have hspec := fun i => firstSpread_spec (g.innerSlots i) (1 / (vertexNum g : ℚ))
  have hdrain :=
    fun i => @drain_spec _ _ _ _ _ _ (firstSpread (g.fragment i) (1 / (vertexNum g : ℚ))).resultNext (0 : ℚ)
    (g.outerSlots i)
  have hnum : (∑ j, (firstSpread (g.fragment j) (1 / (vertexNum g : ℚ))).danglingVnum) = danglingNum g :=
    Finset.sum_congr rfl fun i _ => (hspec i).2.2
  constructor
  · intro i
    exact (hspec i).1
  · intro i s
    show (drain _ 0 _ (firstSpread (g.fragment i) (1 / (vertexNum g : ℚ))).resultNext).2 s = _
    rw [hdrain]
    dsimp only
    rw [(hspec i).2.1]
  · intro i
    show (drain _ 0 _ (firstSpread (g.fragment i) (1 / (vertexNum g : ℚ))).resultNext).1.map _ = _
    rw [hdrain, List.map_map]
    refine List.map_congr_left fun x _ => ?_
    show (g.fragId x, x, _) = _
    rw [(hspec i).2.1]
  · intro i v hv
    exact degrees_inner (g.innerSlots i) hv
  · exact fun i => rfl
  · exact fun i => rfl
  · exact fun i => hnum
  · intro i
    show 1 / (vertexNum g : ℚ) *
        ((∑ j, (firstSpread (g.fragment j) (1 / (vertexNum g : ℚ))).danglingVnum : Nat) : ℚ) = _
    rw [hnum]

theorem Spreading.mem_inboxOf (h : Spreading g k r d outs) {m : V × ℚ} : m ∈ inboxOf outs i ↔ g.fragId m.1 = i ∧
    ∃ j, m.1 ∈ (g.fragment j).outerVertices ∧ m.2 = flow (g.fragment j) r ((g.fragment j).slot m.1) := by
  rw [Supersteps.mem_inboxOf]
  constructor
  · rintro ⟨j, hsent⟩
    rw [h.sent j] at hsent
    obtain ⟨x, hx, hmsg⟩ := List.mem_map.mp hsent
    obtain ⟨rfl, rfl⟩ := Prod.mk.inj hmsg
    exact ⟨rfl, j, hx, rfl⟩
  · rintro ⟨rfl, j, hx, hval⟩
    refine ⟨j, ?_⟩
    rw [h.sent j]
    exact List.mem_map.mpr ⟨m.1, hx, by rw [← hval]⟩

theorem Spreading.messages (h : Spreading g k r d outs) {m : V × ℚ} (hm : m ∈ inboxOf outs i) :
    m.1 ∈ (g.fragment i).innerVertices := by
  obtain ⟨rfl, j, hx, -⟩ := h.mem_inboxOf.mp hm
  exact (g.outer j _ hx).2

theorem flow_eq_zero {s : S} (hs : ∀ u ∈ (g.fragment i).innerVertices, hits (g.fragment i) u s = 0) :
    flow (g.fragment i) r s = 0 := by
  unfold flow flowOf
  refine List.sum_eq_zero fun x hx => ?_
  obtain ⟨u, hu, rfl⟩ := List.mem_map.mp hx
  rw [hs u hu, Nat.cast_zero, zero_mul]

theorem hits_eq_zero {f : AppFragment V S} {s : S} (hs : ∀ e ∈ f.outgoing u, f.slot e.1 ≠ s) : hits f u s = 0 := by
  refine List.count_eq_zero.mpr fun hmem => ?_
  obtain ⟨e, he, heq⟩ := List.mem_map.mp hmem
  exact hs e he heq

theorem Spreading.cleared (h : Spreading g k r d outs) (hinbox : ∀ m ∈ inbox i, m.1 ∈ (g.fragment i).innerVertices)
    (s : S) : (if s ∈ (g.fragment i).innerVertices.map (g.fragment i).slot then 0
      else receive (g.fragment i) (outs i).state.resultNext (inbox i) s) = 0 := by
  by_cases hinner : s ∈ (g.fragment i).innerVertices.map (g.fragment i).slot
  · rw [if_pos hinner]
  · have hmessages : ((inbox i).map fun m => if (g.fragment i).slot m.1 = s then m.2 else 0).sum = 0 := by
      refine List.sum_eq_zero fun x hx => ?_
      obtain ⟨m, hm, rfl⟩ := List.mem_map.mp hx
      refine if_neg fun heq => hinner ?_
      rw [← heq]
      exact List.mem_map_of_mem (hinbox m hm)
    rw [if_neg hinner, receive_apply, hmessages, add_zero, h.resultNext]
    by_cases houter : s ∈ (g.fragment i).outerVertices.map (g.fragment i).slot
    · rw [if_pos houter]
    · rw [if_neg houter]
      refine flow_eq_zero fun u hu => hits_eq_zero fun e he heq => ?_
      rcases g.neighbours i u hu e he with hin | hout
      · exact hinner (heq ▸ List.mem_map_of_mem hin)
      · exact houter (heq ▸ List.mem_map_of_mem hout)

theorem Spreading.base_eq (h : Spreading g k r d outs) (delta : ℚ) (i : Fin n) :
    (1 - delta) / ((outs i).state.totalVertexNum : ℚ) +
      delta * (outs i).state.danglingSum / ((outs i).state.totalVertexNum : ℚ) = baseOf g delta d := by
  rw [h.totalVertexNum, h.danglingSum]
  rfl

theorem nextRank_inner (hv : v ∈ (g.fragment i).innerVertices) : nextRank g delta d outs inbox v =
    baseOf g delta d +
      delta * receive (g.fragment i) (outs i).state.resultNext (inbox i) ((g.fragment i).slot v) := by
  unfold nextRank arrived
  rw [g.inner i v hv]

def newResult (g : PartitionedGraph n V S) (delta d : ℚ) (outs : Fin n → Outcome n (PageRankContext S) (V × ℚ))
    (inbox : Fin n → List (V × ℚ)) (i : Fin n) : S → ℚ :=
  fill (g.fragment i).slot (nextRank g delta d outs inbox) (g.fragment i).innerVertices (outs i).state.result

theorem newResult_inner (hv : v ∈ (g.fragment i).innerVertices) :
    newResult g delta d outs inbox i ((g.fragment i).slot v) = nextRank g delta d outs inbox v :=
  fill_key (g.innerSlots i) hv

theorem fill_nextRank : fill (g.fragment i).slot (fun src => baseOf g delta d +
      delta * receive (g.fragment i) (outs i).state.resultNext (inbox i) ((g.fragment i).slot src))
    (g.fragment i).innerVertices (outs i).state.result = newResult g delta d outs inbox i :=
  fill_congr fun _ hv => (nextRank_inner hv).symm

theorem Spreading.incEval_last (h : Spreading g k r d outs) (hlast : ((k + 1 : Nat) : Int) = maxRound) (i : Fin n) :
    incEval g delta maxRound i (outs i).state (inbox i) =
      { state := { (outs i).state with
          result := newResult g delta d outs inbox i
          resultNext := receive (g.fragment i) (outs i).state.resultNext (inbox i)
          currentRound := (k + 1 : Nat)
          danglingSum := baseOf g delta d * danglingNum g }
        sent := [], forceContinue := false } := by
  have hround : (outs i).state.currentRound + 1 = ((k + 1 : Nat) : Int) := by
    rw [h.currentRound]
    rfl
  unfold incEval
  dsimp only
  rw [h.base_eq, hround, if_pos hlast, h.totalDanglingVnum, fill_nextRank]

theorem Spreading.incEval_more (h : Spreading g k r d outs)
    (hmessages : ∀ m ∈ inbox i, m.1 ∈ (g.fragment i).innerVertices) (hmore : ((k + 1 : Nat) : Int) ≠ maxRound) :
    incEval g delta maxRound i (outs i).state (inbox i) =
      { state := { (outs i).state with
          result := newResult g delta d outs inbox i
          resultNext := fun s => if s ∈ (g.fragment i).outerVertices.map (g.fragment i).slot then 0
            else flow (g.fragment i) (nextRank g delta d outs inbox) s
          currentRound := (k + 1 : Nat)
          danglingSum := baseOf g delta d * danglingNum g }
        sent := (g.fragment i).outerVertices.map fun x =>
          (g.fragId x, x, flow (g.fragment i) (nextRank g delta d outs inbox) ((g.fragment i).slot x))
        forceContinue := false } := by
  have hround : (outs i).state.currentRound + 1 = ((k + 1 : Nat) : Int) := by
    rw [h.currentRound]
    rfl
  have hspread : spread (g.fragment i) (outs i).state.degree (newResult g delta d outs inbox i)
      (fun s => if s ∈ (g.fragment i).innerVertices.map (g.fragment i).slot then 0
        else receive (g.fragment i) (outs i).state.resultNext (inbox i) s) =
      flow (g.fragment i) (nextRank g delta d outs inbox) := by
    funext s
    rw [spread_apply (h.degree i) fun _ hv => newResult_inner hv, h.cleared hmessages s, zero_add]
  unfold incEval
  dsimp only
  rw [h.base_eq, hround, if_neg hmore, refresh_spec (g.innerSlots i)]
  dsimp only
  rw [fill_nextRank, hspread, drain_spec (g.outerSlots i), List.map_map, h.totalDanglingVnum]
  rfl

theorem Spreading.round (delta : ℚ) (maxRound : Int) (h : Spreading g k r d outs)
    (hinbox : ∀ i, (inbox i).Perm (inboxOf outs i)) :
    (∀ i, ∀ v ∈ (g.fragment i).innerVertices,
      (incEval g delta maxRound i (outs i).state (inbox i)).state.result ((g.fragment i).slot v) =
        nextRank g delta d outs inbox v) ∧
    if ((k + 1 : Nat) : Int) = maxRound then
      Quiet fun i => incEval g delta maxRound i (outs i).state (inbox i)
    else Spreading g (k + 1) (nextRank g delta d outs inbox) (baseOf g delta d * danglingNum g)
      fun i => incEval g delta maxRound i (outs i).state (inbox i) := by
  have hmessages : ∀ i, ∀ m ∈ inbox i, m.1 ∈ (g.fragment i).innerVertices := fun i m hm =>
    h.messages ((hinbox i).mem_iff.mp hm)
  by_cases hlast : ((k + 1 : Nat) : Int) = maxRound
  · have hstep := fun i => @incEval_last _ _ _ _ g k r d delta maxRound outs inbox h hlast i
    rw [if_pos hlast, funext hstep]
    refine ⟨fun i v hv => ?_, fun i => ⟨rfl, rfl⟩⟩
    rw [hstep]
    exact newResult_inner hv
  · have hstep := fun i => @incEval_more _ _ _ _ g k r d delta maxRound outs inbox i h (hmessages i) hlast
    rw [if_neg hlast, funext hstep]
    refine ⟨fun i v hv => ?_, ?_⟩
    · rw [hstep]
      exact newResult_inner hv
    · constructor
      · exact fun i v hv => newResult_inner hv
      · exact fun i s => rfl
      · exact fun i => rfl
      · exact h.degree
      · exact fun i => rfl
      · exact h.totalVertexNum
      · exact h.totalDanglingVnum
      · exact fun i => rfl

theorem Spreading.total_arrived (h : Spreading g k r d outs) (hinbox : ∀ i, (inbox i).Perm (inboxOf outs i)) :
    total g (arrived g outs inbox) = sentRank g r := by
  have hfragment : ∀ i, ((g.fragment i).innerVertices.map (arrived g outs inbox)).sum =
      ((g.fragment i).innerVertices.map fun v => (outs i).state.resultNext ((g.fragment i).slot v)).sum +
        ((inboxOf outs i).map Prod.snd).sum := by
    intro i
    have hsame : ∀ v ∈ (g.fragment i).innerVertices, arrived g outs inbox v =
        receive (g.fragment i) (outs i).state.resultNext (inbox i) ((g.fragment i).slot v) := by
      intro v hv
      unfold arrived
      rw [g.inner i v hv]
    rw [List.map_congr_left hsame, sum_receive (g.innerSlots i) fun m hm => h.messages ((hinbox i).mem_iff.mp hm),
      ((hinbox i).map Prod.snd).sum_eq]
  unfold total
  simp only [hfragment, Finset.sum_add_distrib]
  rw [sum_inboxOf outs Prod.snd, ← Finset.sum_add_distrib]
  refine Finset.sum_congr rfl fun i _ => ?_
  have hedges : ((g.fragment i).innerVertices.map fun v => if (g.edgesOf v).isEmpty then 0 else r v) =
      (g.fragment i).innerVertices.map fun u => if ((g.fragment i).outgoing u).isEmpty then 0 else r u :=
    List.map_congr_left fun v hv => by rw [PartitionedGraph.edgesOf_inner hv]
  rw [hedges, ← sum_flowOf (g.innerSlots i) (g.outerSlots i) r (g.neighbours i), sum_slotsOf, h.sent i, List.map_map]
  simp only [h.resultNext]
  rfl

theorem Spreading.total_next (h : Spreading g k r d outs) (hinbox : ∀ i, (inbox i).Perm (inboxOf outs i))
    (hne : 0 < vertexNum g) :
    total g (nextRank g delta d outs inbox) = 1 - delta + delta * (d + sentRank g r) := by
  have hpos : (vertexNum g : ℚ) ≠ 0 := Nat.cast_ne_zero.mpr (Nat.ne_of_gt hne)
  unfold nextRank
  rw [total_add, total_const, total_mul, h.total_arrived hinbox]
  unfold baseOf
  field_simp
  ring

theorem sentRank_next : baseOf g delta d * danglingNum g + sentRank g (nextRank g delta d outs inbox) =
    total g (nextRank g delta d outs inbox) - delta * strandedRank g (arrived g outs inbox) := by
  have hsplit : total g (nextRank g delta d outs inbox) = sentRank g (nextRank g delta d outs inbox) +
      (danglingNum g * baseOf g delta d + delta * strandedRank g (arrived g outs inbox)) := by
    unfold sentRank strandedRank
    rw [← total_dangling, ← total_mul, ← total_add, ← total_add]
    refine total_congr fun i v _ => ?_
    unfold nextRank
    by_cases hv : (g.edgesOf v).isEmpty
    · simp [hv]
    · simp [hv]
  rw [hsplit]
  ring

omit [DecidableEq S] in
theorem sentRank_first (hne : 0 < vertexNum g) :
    1 / (vertexNum g : ℚ) * danglingNum g + sentRank g (fun _ => 1 / (vertexNum g : ℚ)) = 1 := by
  have hpos : (vertexNum g : ℚ) ≠ 0 := Nat.cast_ne_zero.mpr (Nat.ne_of_gt hne)
  have hsplit : total g (fun _ => 1 / (vertexNum g : ℚ)) = sentRank g (fun _ => 1 / (vertexNum g : ℚ)) +
      danglingNum g * (1 / (vertexNum g : ℚ)) := by
    unfold sentRank
    rw [← total_dangling, ← total_add]
    refine total_congr fun i v _ => ?_
    by_cases hv : (g.edgesOf v).isEmpty
    · simp [hv]
    · simp [hv]
  rw [total_const, mul_one_div_cancel hpos] at hsplit
  rw [mul_comm, add_comm]
  exact hsplit.symm

/-! ### Vertices without edges -/

def LandsStranded (g : PartitionedGraph n V S) (i : Fin n) (w : V) : Prop :=
  g.edgesOf (landing (g.fragment i) w) = []

theorem landing_outer (hx : v ∈ (g.fragment i).outerVertices)
    (hslot : (g.fragment i).slot v = (g.fragment i).slot w) : landing (g.fragment i) w = v := by
  unfold landing
  cases hfind : (g.fragment i).outerVertices.find? fun x => (g.fragment i).slot x = (g.fragment i).slot w with
  | none =>
    refine absurd (decide_eq_true hslot) (List.find?_eq_none.mp hfind v hx)
  | some x =>
    have hsame := List.find?_some hfind
    rw [decide_eq_true_iff] at hsame
    exact PartitionedGraph.outer_slot (List.mem_of_find?_eq_some hfind) hx (hsame.trans hslot.symm)

theorem landing_inner (hnone : (g.fragment i).slot w ∉ (g.fragment i).outerVertices.map (g.fragment i).slot) :
    landing (g.fragment i) w = w := by
  unfold landing
  rw [List.find?_eq_none.mpr fun x hx heq => hnone ?_]
  · rfl
  · rw [← of_decide_eq_true heq]
    exact List.mem_map_of_mem hx

theorem Spreading.stranded_eq_zero (h : Spreading g k r d outs) (hinbox : ∀ i, (inbox i).Perm (inboxOf outs i))
    (hnone : ∀ i, ∀ u ∈ (g.fragment i).innerVertices, ∀ e ∈ (g.fragment i).outgoing u, ¬ LandsStranded g i e.1) :
    strandedRank g (arrived g outs inbox) = 0 := by
  have hzero : ∀ i, ∀ v ∈ (g.fragment i).innerVertices,
      (if (g.edgesOf v).isEmpty then arrived g outs inbox v else 0) = (0 : ℚ) := by
    intro i v hv
    by_cases hedges : (g.edgesOf v).isEmpty
    · rw [if_pos hedges]
      unfold arrived
      rw [g.inner i v hv, receive_apply, h.resultNext]
      have hmessages : ((inbox i).map fun m =>
          if (g.fragment i).slot m.1 = (g.fragment i).slot v then m.2 else 0).sum = 0 := by
        refine List.sum_eq_zero fun x hx => ?_
        obtain ⟨m, hm, rfl⟩ := List.mem_map.mp hx
        have hmem := (hinbox i).mem_iff.mp hm
        by_cases hslot : (g.fragment i).slot m.1 = (g.fragment i).slot v
        · have hsame := PartitionedGraph.inner_slot (h.messages hmem) hv hslot
          obtain ⟨-, j, houter, hval⟩ := h.mem_inboxOf.mp hmem
          rw [if_pos hslot, hval]
          refine flow_eq_zero fun u hu => hits_eq_zero fun e he heq => hnone j u hu e he ?_
          unfold LandsStranded
          rw [landing_outer houter heq.symm, hsame]
          exact List.isEmpty_iff.mp hedges
        · exact if_neg hslot
      rw [hmessages, add_zero]
      by_cases houter : (g.fragment i).slot v ∈ (g.fragment i).outerVertices.map (g.fragment i).slot
      · exact if_pos houter
      · rw [if_neg houter]
        refine flow_eq_zero fun u hu => hits_eq_zero fun e he heq => hnone i u hu e he ?_
        have hinner : e.1 ∈ (g.fragment i).innerVertices :=
          (g.neighbours i u hu e he).resolve_right fun hout => houter (heq ▸ List.mem_map_of_mem hout)
        have hsame := PartitionedGraph.inner_slot hinner hv heq
        unfold LandsStranded
        rw [landing_inner (by rw [heq]; exact houter), hsame]
        exact List.isEmpty_iff.mp hedges
    · exact if_neg hedges
  unfold strandedRank
  rw [total_congr hzero, total_const, mul_zero]

theorem term_nonneg {f : AppFragment V S} {s : S} (hr : 0 ≤ r u) :
    0 ≤ (hits f u s : ℚ) * (r u / (f.outgoing u).length) :=
  mul_nonneg (Nat.cast_nonneg _) (div_nonneg hr (Nat.cast_nonneg _))

theorem flow_nonneg {f : AppFragment V S} {s : S} (hr : ∀ v ∈ f.innerVertices, 0 ≤ r v) : 0 ≤ flow f r s := by
  unfold flow flowOf
  refine List.sum_nonneg fun x hx => ?_
  obtain ⟨u, hu, rfl⟩ := List.mem_map.mp hx
  exact term_nonneg (hr u hu)

theorem flow_pos {f : AppFragment V S} {e : V × Nat} (hr : ∀ v ∈ f.innerVertices, 0 < r v) (hu : u ∈ f.innerVertices)
    (he : e ∈ f.outgoing u) : 0 < flow f r (f.slot e.1) := by
  have hhits : 0 < hits f u (f.slot e.1) := List.count_pos_iff.mpr (List.mem_map_of_mem he)
  have hlength : 0 < (f.outgoing u).length := List.length_pos_of_mem he
  have hterm : 0 < (hits f u (f.slot e.1) : ℚ) * (r u / (f.outgoing u).length) :=
    mul_pos (Nat.cast_pos.mpr hhits) (div_pos (hr u hu) (Nat.cast_pos.mpr hlength))
  refine lt_of_lt_of_le hterm ?_
  unfold flow flowOf
  refine List.single_le_sum (fun x hx => ?_) _ (List.mem_map_of_mem hu)
  obtain ⟨v, hv, rfl⟩ := List.mem_map.mp hx
  exact term_nonneg (hr v hv).le

theorem Spreading.stranded_pos (h : Spreading g k r d outs) (hinbox : ∀ i, (inbox i).Perm (inboxOf outs i))
    (hr : ∀ v, 0 < r v) {e : V × Nat} (hu : u ∈ (g.fragment i).innerVertices) (he : e ∈ (g.fragment i).outgoing u)
    (hlands : LandsStranded g i e.1) : 0 < strandedRank g (arrived g outs inbox) := by
  have hflow : ∀ j s, 0 ≤ flow (g.fragment j) r s := fun j s => flow_nonneg fun v _ => (hr v).le
  have hmessages : ∀ j s, ∀ x ∈ (inbox j).map fun m => if (g.fragment j).slot m.1 = s then m.2 else (0 : ℚ), 0 ≤ x := by
    intro j s x hx
    obtain ⟨m, hm, rfl⟩ := List.mem_map.mp hx
    obtain ⟨-, j', -, hval⟩ := h.mem_inboxOf.mp ((hinbox j).mem_iff.mp hm)
    split
    · rw [hval]
      exact hflow j' _
    · exact le_refl 0
  have hslots : ∀ j s, 0 ≤ (outs j).state.resultNext s := by
    intro j s
    rw [h.resultNext]
    split
    · exact le_refl 0
    · exact hflow j s
  have hnonneg : ∀ v, 0 ≤ arrived g outs inbox v := by
    intro v
    unfold arrived
    rw [receive_apply]
    exact add_nonneg (hslots _ _) (List.sum_nonneg (hmessages _ _))
  -- the vertex where the rank lands, and what it gets
  obtain ⟨v, j, hv, hedges, hpos⟩ : ∃ v j, v ∈ (g.fragment j).innerVertices ∧ g.edgesOf v = [] ∧
      0 < arrived g outs inbox v := by
    have hsent := flow_pos (fun v _ => hr v) hu he
    by_cases houter : (g.fragment i).slot e.1 ∈ (g.fragment i).outerVertices.map (g.fragment i).slot
    · obtain ⟨x, hx, hslot⟩ := List.mem_map.mp houter
      unfold LandsStranded at hlands
      rw [landing_outer hx hslot] at hlands
      refine ⟨x, g.fragId x, (g.outer i x hx).2, hlands, ?_⟩
      unfold arrived
      rw [receive_apply]
      refine add_pos_of_nonneg_of_pos (hslots _ _) ?_
      have hmem : (x, flow (g.fragment i) r ((g.fragment i).slot x)) ∈ inbox (g.fragId x) :=
        (hinbox _).mem_iff.mpr (h.mem_inboxOf.mpr ⟨rfl, i, hx, rfl⟩)
      refine lt_of_lt_of_le ?_ (List.single_le_sum (hmessages _ _) _ (List.mem_map.mpr ⟨_, hmem, if_pos rfl⟩))
      dsimp only
      rw [hslot]
      exact hsent
    · have hinner : e.1 ∈ (g.fragment i).innerVertices :=
        (g.neighbours i u hu e he).resolve_right fun hout => houter (List.mem_map_of_mem hout)
      unfold LandsStranded at hlands
      rw [landing_inner houter] at hlands
      refine ⟨e.1, i, hinner, hlands, ?_⟩
      unfold arrived
      rw [g.inner i _ hinner, receive_apply, h.resultNext, if_neg houter]
      exact add_pos_of_pos_of_nonneg hsent (List.sum_nonneg (hmessages _ _))
  have hle := @le_total _ _ _ g (fun v => if (g.edgesOf v).isEmpty then arrived g outs inbox v else 0) j v
    (fun i w _ => by
      split
      · exact hnonneg w
      · exact le_refl 0) hv
  rw [if_pos (List.isEmpty_iff.mpr hedges)] at hle
  exact lt_of_lt_of_le hpos hle

/-! ### The run -/

/-- A round that sends ranks, with the rank that the next one has to place. -/
def Placing (g : PartitionedGraph n V S) (k : Nat) (outs : Fin n → Outcome n (PageRankContext S) (V × ℚ)) (a : ℚ) :
    Prop :=
  ∃ r d, Spreading g k r d outs ∧ d + sentRank g r = a

theorem Placing.round {a : ℚ} (delta : ℚ) (maxRound : Int) (hne : 0 < vertexNum g) (h : Placing g k outs a)
    (hinbox : ∀ i, (inbox i).Perm (inboxOf outs i)) :
    rankSum g (fun i => incEval g delta maxRound i (outs i).state (inbox i)) = 1 - delta + delta * a ∧
      (Quiet (fun i => incEval g delta maxRound i (outs i).state (inbox i)) ∨
        Placing g (k + 1) (fun i => incEval g delta maxRound i (outs i).state (inbox i))
          (rankSum g (fun i => incEval g delta maxRound i (outs i).state (inbox i)) -
            delta * strandedRank g (arrived g outs inbox))) := by
  obtain ⟨r, d, hspreading, rfl⟩ := h
  obtain ⟨hresult, hlast⟩ := hspreading.round delta maxRound hinbox
  refine ⟨(rankSum_eq hresult).trans (hspreading.total_next hinbox hne), ?_⟩
  split at hlast
  · exact Or.inl hlast
  · refine Or.inr ⟨_, _, hlast, ?_⟩
    rw [sentRank_next, rankSum_eq hresult]

theorem placing_pEval (hne : 0 < vertexNum g) : Placing g 0 (pEval g) 1 ∧ rankSum g (pEval g) = 1 := by
  have hpos : (vertexNum g : ℚ) ≠ 0 := Nat.cast_ne_zero.mpr (Nat.ne_of_gt hne)
  have hfirst := @spreading_pEval _ _ _ _ g
  refine ⟨⟨_, _, hfirst, sentRank_first hne⟩, ?_⟩
  rw [rankSum_eq hfirst.result, total_const, mul_one_div_cancel hpos]

/-- One round is the last one when it is the last that is asked for, and when no fragment has anything to send. -/
theorem quiet_behind_first (hstop : maxRound = 1 ∨ ∀ i, (g.fragment i).outerVertices = [])
    (hrun : Run (pEval g) (incEval g delta maxRound) k outs) (hk : k ≠ 0) : Quiet outs := by
  induction hrun with
  | start => exact absurd rfl hk
  | @round k before inbox hbefore goes delivered ih =>
    by_cases hfirst : k = 0
    · subst hfirst
      cases hbefore
      have hlast := ((@spreading_pEval _ _ _ _ g).round delta maxRound delivered).2
      split at hlast
      · exact hlast
      · rename_i hmore
        have hnone := hstop.resolve_left fun hone => hmore hone.symm
        intro i
        refine ⟨?_, ?_⟩
        · rw [hlast.sent i, hnone i]
          rfl
        · unfold incEval
          dsimp only
          split <;> rfl
    · exact absurd (ih hfirst) goes

def KeepsMass (g : PartitionedGraph n V S) (delta : ℚ) (maxRound : Int) : Prop :=
  delta = 0 ∨ maxRound = 1 ∨ (∀ i, (g.fragment i).outerVertices = []) ∨
    ∀ i, ∀ u ∈ (g.fragment i).innerVertices, ∀ e ∈ (g.fragment i).outgoing u, ¬ LandsStranded g i e.1

theorem rankSum_of_keepsMass (hne : 0 < vertexNum g) (hkeeps : KeepsMass g delta maxRound)
    (hrun : Run (pEval g) (incEval g delta maxRound) k outs) :
    rankSum g outs = 1 ∧ (Quiet outs ∨ ∃ a, Placing g k outs a ∧ (delta = 0 ∨ a = 1)) := by
  induction hrun with
  | start =>
    obtain ⟨hplacing, hsum⟩ := placing_pEval hne
    exact ⟨hsum, Or.inr ⟨1, hplacing, Or.inr rfl⟩⟩
  | @round k before inbox hbefore goes delivered ih =>
    obtain ⟨a, hplacing, ha⟩ := ih.2.resolve_left goes
    obtain ⟨hsum, hnext⟩ := hplacing.round delta maxRound hne delivered
    have hsame : 1 - delta + delta * a = 1 := by
      rcases ha with rfl | rfl <;> ring
    refine ⟨hsum.trans hsame, ?_⟩
    have hafter := Run.round inbox hbefore goes delivered
    rcases hkeeps with hzero | hone | hnone | hlands
    · exact hnext.imp id fun hnext => ⟨_, hnext, Or.inl hzero⟩
    · exact Or.inl (quiet_behind_first (Or.inl hone) hafter (Nat.succ_ne_zero k))
    · exact Or.inl (quiet_behind_first (Or.inr hnone) hafter (Nat.succ_ne_zero k))
    · refine hnext.imp id fun hnext => ⟨_, hnext, Or.inr ?_⟩
      obtain ⟨r, d, hspreading, -⟩ := hplacing
      rw [hspreading.stranded_eq_zero delivered hlands, mul_zero, sub_zero]
      exact hsum.trans hsame

theorem stranded_of_rankSum (hne : 0 < vertexNum g) (hdelta : delta ≠ 0) (hmore : maxRound ≠ 1)
    (houter : ¬ ∀ i, (g.fragment i).outerVertices = [])
    (hsums : ∀ k outs, Run (pEval g) (incEval g delta maxRound) k outs → rankSum g outs = 1) :
    strandedRank g (arrived g (pEval g) (inboxOf (pEval g))) = 0 := by
  obtain ⟨i, hi⟩ := not_forall.mp houter
  have hgoes : ¬ Quiet (pEval g) := fun hquiet => by
    have hforce : true = false := (hquiet i).2
    cases hforce
  have hfirst := @Run.round _ _ _ (pEval g) (incEval g delta maxRound) _ _ (inboxOf (pEval g)) .start hgoes
    fun i => .refl _
  have hspreading := ((@spreading_pEval _ _ _ _ g).round delta maxRound fun i => .refl (inboxOf (pEval g) i)).2
  rw [if_neg fun hone => hmore hone.symm] at hspreading
  have hgoes' : ¬ Quiet fun i => incEval g delta maxRound i (pEval g i).state (inboxOf (pEval g) i) := fun hquiet => by
    have hsent := (hquiet i).1
    rw [hspreading.sent i] at hsent
    exact hi (List.map_eq_nil_iff.mp hsent)
  have hsecond := Run.round (inboxOf fun i => incEval g delta maxRound i (pEval g i).state (inboxOf (pEval g) i))
    hfirst hgoes' fun i => .refl _
  obtain ⟨-, hnext⟩ := (placing_pEval hne).1.round delta maxRound hne fun i => .refl (inboxOf (pEval g) i)
  have hplacing := hnext.resolve_left hgoes'
  have hsum := (hplacing.round delta maxRound hne fun i => .refl _).1
  rw [hsums _ _ hsecond, hsums _ _ hfirst] at hsum
  have hzero : delta * (delta * strandedRank g (arrived g (pEval g) (inboxOf (pEval g)))) = 0 := by
    linear_combination hsum
  exact (mul_eq_zero.mp ((mul_eq_zero.mp hzero).resolve_left hdelta)).resolve_left hdelta

end run

/-- The ranks of every round sum up to 1 exactly when the damping factor is 0, there is only one round behind the first
evaluation, or no edge takes rank to a vertex without edges. -/
theorem rankSum_iff {n : Nat} {V S : Type} [DecidableEq S] (g : PartitionedGraph n V S) (delta : ℚ) (maxRound : Int)
    (hne : 0 < vertexNum g) :
    (∀ k outs, Run (pEval g) (incEval g delta maxRound) k outs → rankSum g outs = 1) ↔ KeepsMass g delta maxRound := by
  refine ⟨fun hsums => ?_, fun hkeeps k outs hrun => (rankSum_of_keepsMass hne hkeeps hrun).1⟩
  by_cases hdelta : delta = 0
  · exact Or.inl hdelta
  by_cases hmore : maxRound = 1
  · exact Or.inr (Or.inl hmore)
  by_cases houter : ∀ i, (g.fragment i).outerVertices = []
  · exact Or.inr (Or.inr (Or.inl houter))
  refine Or.inr (Or.inr (Or.inr fun i u hu e he hlands => ?_))
  have hpos : (0 : ℚ) < 1 / vertexNum g := one_div_pos.mpr (Nat.cast_pos.mpr hne)
  have hstranded := (@spreading_pEval _ _ _ _ g).stranded_pos (fun i => .refl _) (fun _ => hpos) hu he hlands
  rw [stranded_of_rankSum hne hdelta hmore houter hsums] at hstranded
  exact lt_irrefl 0 hstranded

theorem rankSum_iff_two : 0 < vertexNum (twoVertices false) ∧
    ((∀ k outs, Run (pEval (twoVertices false)) (incEval (twoVertices false) (1 / 2) 3) k outs →
      rankSum (twoVertices false) outs = 1) ↔ KeepsMass (twoVertices false) (1 / 2) 3) :=
  ⟨by decide, rankSum_iff (twoVertices false) (1 / 2) 3 (by decide)⟩

/-- What arrives at the second vertex is not in `base` two rounds later. -/
theorem rankSum_lost :
    ∃ outs, Run (pEval (twoVertices false)) (incEval (twoVertices false) (1 / 2) 3) 2 outs ∧
      rankSum (twoVertices false) outs = 7 / 8 := by
  refine ⟨_, .round _ (.round _ .start (fun h => absurd (h 0).2 (by decide)) fun i => .refl _)
    (fun h => absurd (h 0).1 ?_) fun i => .refl _, ?_⟩
  · decide +kernel
  · decide +kernel

end Gart.Analytics

import Gart.Analytics.Sssp

/-!
# The distances of a run

Between the rounds, a vertex that has got a distance is in the update set of its fragment, or its edges cannot lower
anything; what an outer vertex has got is at its owner or on the way there.
-/

namespace Gart.Analytics.Sssp
open Gart.Supersteps Gart.Walks

section sweep
variable {n : Nat} {V S : Type} [DecidableEq S] {g : PartitionedGraph n V S} {source : Source g} {i : Fin n}
  {arrived arrived' : V → Nat} {pending pending' : V → Prop} {st st' : Relaxed V S} {u v x y : V} {c dist : Nat} {s : S}

/-- An outer vertex at the end of an edge of a vertex that the source reaches. -/
def Mirror (g : PartitionedGraph n V S) (source : Source g) (i : Fin n) (x : V) : Prop :=
  x ∈ (g.fragment i).outerVertices ∧ ∃ u ∈ (g.fragment i).innerVertices,
    Reachable g.edgesOf source.vertex u ∧ ∃ e ∈ (g.fragment i).outgoing u, e.1 = x

def OwnSlots (g : PartitionedGraph n V S) (source : Source g) : Prop :=
  ∀ i x, Mirror g source i x → ∀ v ∈ (g.fragment i).innerVertices, (g.fragment i).slot v ≠ (g.fragment i).slot x

def Here (g : PartitionedGraph n V S) (source : Source g) (i : Fin n) (v : V) : Prop :=
  v ∈ (g.fragment i).innerVertices ∨ Mirror g source i v

omit [DecidableEq S] in
theorem OwnSlots.slot_inj (hslots : OwnSlots g source) (hx : Here g source i x) (hy : Here g source i y)
    (h : (g.fragment i).slot x = (g.fragment i).slot y) : x = y := by
  rcases hx with hx | hx <;> rcases hy with hy | hy
  · exact PartitionedGraph.inner_slot hx hy h
  · exact absurd h (hslots i y hy x hx)
  · exact absurd h.symm (hslots i x hx y hy)
  · exact PartitionedGraph.outer_slot hx.1 hy.1 h

omit [DecidableEq S] in
theorem Mirror.other (hx : Mirror g source i x) : g.fragId x ≠ i := (g.outer i x hx.1).1

omit [DecidableEq S] in
theorem reachable_head (hu : u ∈ (g.fragment i).innerVertices) (hreach : Reachable g.edgesOf source.vertex u)
    {e : V × Nat} (he : e ∈ (g.fragment i).outgoing u) :
    Here g source i e.1 ∧ Reachable g.edgesOf source.vertex e.1 := by
  refine ⟨(g.neighbours i u hu e he).imp_right fun hout => ⟨hout, u, hu, hreach, e, he, rfl⟩, hreach.along ?_⟩
  rw [PartitionedGraph.edgesOf_inner hu]
  exact he

/-- A fragment while distances are offered to its vertices; `arrived` is what the owners of its outer vertices have,
and the vertices that are `pending` have edges left that could lower something. -/
structure Relaxing (g : PartitionedGraph n V S) (source : Source g) (i : Fin n) (arrived : V → Nat) (pending : V → Prop)
    (st : Relaxed V S) : Prop where
  bounded : ∀ s, st.result s ≤ infinity
  fromSource : g.fragId source.vertex = i → st.result ((g.fragment i).slot source.vertex) = 0
  sound : ∀ v, Here g source i v → st.result ((g.fragment i).slot v) < infinity →
    Walk g.edgesOf source.vertex v (st.result ((g.fragment i).slot v))
  sent : ∀ m ∈ st.sent, Mirror g source i m.1 ∧ (m.2 < infinity → Walk g.edgesOf source.vertex m.1 m.2)
  flagged : ∀ v ∈ (g.fragment i).innerVertices, st.updated ((g.fragment i).slot v) = true →
    Reachable g.edgesOf source.vertex v ∧ st.requireForceContinue = true
  relaxed : ∀ u ∈ (g.fragment i).innerVertices, st.result ((g.fragment i).slot u) < infinity →
    pending u ∨ st.updated ((g.fragment i).slot u) = true ∨
      ∀ e ∈ (g.fragment i).outgoing u, st.result ((g.fragment i).slot e.1) ≤ st.result ((g.fragment i).slot u) + e.2
  mirrors : ∀ x, Mirror g source i x → st.result ((g.fragment i).slot x) < infinity →
    arrived x ≤ st.result ((g.fragment i).slot x) ∨ ∃ val, (x, val) ∈ st.sent ∧ val ≤ st.result ((g.fragment i).slot x)

theorem Relaxing.offered (hslots : OwnSlots g source) (h : Relaxing g source i arrived pending st)
    (hoffer : Offered g i y c st st') (hy : Here g source i y) (hreach : Reachable g.edgesOf source.vertex y)
    (hwalk : c < infinity → Walk g.edgesOf source.vertex y c) : Relaxing g source i arrived pending st' := by
  have hsound : ∀ v, Here g source i v → st'.result ((g.fragment i).slot v) < infinity →
      Walk g.edgesOf source.vertex v (st'.result ((g.fragment i).slot v)) := by
    intro v hv hfinite
    by_cases hs : (g.fragment i).slot v = (g.fragment i).slot y
    · obtain rfl := hslots.slot_inj hv hy hs
      rw [hoffer.result_slot] at hfinite ⊢
      rcases min_choice (st.result ((g.fragment i).slot v)) c with hmin | hmin
      · rw [hmin] at hfinite ⊢
        exact h.sound v hv hfinite
      · rw [hmin] at hfinite ⊢
        exact hwalk hfinite
    · rw [hoffer.result_other hs] at hfinite ⊢
      exact h.sound v hv hfinite
  have hsame : ∀ s, ¬ st'.result s < st.result s → st'.result s = st.result s := fun s hs =>
    le_antisymm (hoffer.result_le s) (not_lt.mp hs)
  have hlowered : ∀ v, Here g source i v → st'.result ((g.fragment i).slot v) < st.result ((g.fragment i).slot v) →
      v = y := by
    intro v hv hlt
    by_cases hs : (g.fragment i).slot v = (g.fragment i).slot y
    · exact hslots.slot_inj hv hy hs
    · rw [hoffer.result_other hs] at hlt
      exact absurd hlt (lt_irrefl _)
  constructor
  · exact fun s => (hoffer.result_le s).trans (h.bounded s)
  · intro hi
    have hle := hoffer.result_le ((g.fragment i).slot source.vertex)
    rw [h.fromSource hi] at hle
    exact Nat.eq_zero_of_le_zero hle
  · exact hsound
  · intro m hm
    rcases hoffer.sent m hm with hold | ⟨hother, rfl⟩
    · exact h.sent m hold
    · have hmirror : Mirror g source i y := hy.resolve_left fun hin => hother (g.inner i y hin)
      exact ⟨hmirror, hsound y hy⟩
  · intro v hv hflag
    rcases hoffer.flagged _ hflag with hold | ⟨hs, -, hforce⟩
    · obtain ⟨hreach, hforce⟩ := h.flagged v hv hold
      exact ⟨hreach, hoffer.force hforce⟩
    · obtain rfl := hslots.slot_inj (Or.inl hv) hy hs
      exact ⟨hreach, hforce⟩
  · intro u hu hfinite
    by_cases hlt : st'.result ((g.fragment i).slot u) < st.result ((g.fragment i).slot u)
    · obtain rfl := hlowered u (Or.inl hu) hlt
      have hflag := hoffer.lowered hlt
      rw [if_pos (g.inner i u hu)] at hflag
      exact Or.inr (Or.inl hflag)
    · rw [hsame _ hlt] at hfinite ⊢
      rcases h.relaxed u hu hfinite with hpending | hflag | hedges
      · exact Or.inl hpending
      · exact Or.inr (Or.inl (hoffer.flags _ hflag))
      · exact Or.inr (Or.inr fun e he => (hoffer.result_le _).trans (hedges e he))
  · intro x hx hfinite
    by_cases hlt : st'.result ((g.fragment i).slot x) < st.result ((g.fragment i).slot x)
    · obtain rfl := hlowered x (Or.inr hx) hlt
      have hsent := hoffer.lowered hlt
      rw [if_neg hx.other] at hsent
      exact Or.inr ⟨_, hsent, le_refl _⟩
    · rw [hsame _ hlt] at hfinite ⊢
      rcases h.mirrors x hx hfinite with hold | ⟨val, hval, hle⟩
      · exact Or.inl hold
      · exact Or.inr ⟨val, hoffer.kept _ hval, hle⟩

theorem Relaxing.edges (hslots : OwnSlots g source) {edges : List (V × Nat)} {forced : Prop}
    {step : Relaxed V S → V × Nat → Relaxed V S}
    (hstep : ∀ st e, (forced → st.requireForceContinue = true) → Offered g i e.1 (dist + e.2) st (step st e))
    (hu : u ∈ (g.fragment i).innerVertices) (hreach : Reachable g.edgesOf source.vertex u)
    (hedges : ∀ e ∈ edges, e ∈ (g.fragment i).outgoing u) (hforced : forced → st.requireForceContinue = true)
    (hdist : st.result ((g.fragment i).slot u) = dist) (h : Relaxing g source i arrived pending st) :
    Relaxing g source i arrived pending (edges.foldl step st) ∧ (∀ s, (edges.foldl step st).result s ≤ st.result s) ∧
      (edges.foldl step st).result ((g.fragment i).slot u) = dist ∧
      ∀ e ∈ edges, (edges.foldl step st).result ((g.fragment i).slot e.1) ≤ dist + e.2 := by
  induction edges generalizing st with
  | nil => exact ⟨h, fun s => le_refl _, hdist, fun e he => by cases he⟩
  | cons e edges ih =>
    have he := hedges e List.mem_cons_self
    have hoffer := hstep st e hforced
    obtain ⟨hhere, hhead⟩ := reachable_head hu hreach he
    have hwalk : dist + e.2 < infinity → Walk g.edgesOf source.vertex e.1 (dist + e.2) := by
      intro hfinite
      have hbefore := h.sound u (Or.inl hu) (by rw [hdist]; omega)
      rw [hdist] at hbefore
      refine hbefore.along ?_
      rw [PartitionedGraph.edgesOf_inner hu]
      exact he
    have hkeeps : (step st e).result ((g.fragment i).slot u) = dist := by
      by_cases hs : (g.fragment i).slot u = (g.fragment i).slot e.1
      · rw [hs, hoffer.result_slot, ← hs, hdist]
        exact min_eq_left (Nat.le_add_right _ _)
      · rw [hoffer.result_other hs, hdist]
    obtain ⟨hrelaxing, hle, hsrc, hall⟩ := @ih (step st e) (fun e' he' => hedges e' (List.mem_cons_of_mem e he'))
      (fun hf => hoffer.force (hforced hf)) hkeeps (h.offered hslots hoffer hhere hhead hwalk)
    refine ⟨hrelaxing, fun s => (hle s).trans (hoffer.result_le s), hsrc, fun e' he' => ?_⟩
    rcases List.mem_cons.mp he' with rfl | he'
    · refine (hle _).trans ?_
      rw [hoffer.result_slot]
      exact min_le_right _ _
    · exact hall e' he'

theorem Relaxing.vertex (hslots : OwnSlots g source) {updatedNext : S → Bool} {src : V} {rest : List V}
    (hnext : ∀ v ∈ (g.fragment i).innerVertices, updatedNext ((g.fragment i).slot v) = true →
      Reachable g.edgesOf source.vertex v) (hsrc : src ∈ (g.fragment i).innerVertices)
    (h : Relaxing g source i arrived (fun v => v ∈ src :: rest ∧ updatedNext ((g.fragment i).slot v) = true) st) :
    Relaxing g source i arrived (fun v => v ∈ rest ∧ updatedNext ((g.fragment i).slot v) = true)
        (relaxVertex g i updatedNext st src) ∧
      ∀ s, (relaxVertex g i updatedNext st src).result s ≤ st.result s := by
  unfold relaxVertex
  by_cases hflag : updatedNext ((g.fragment i).slot src) = false
  · rw [if_pos hflag]
    refine ⟨{ h with relaxed := fun u hu hfinite => ?_ }, fun s => le_refl _⟩
    rcases h.relaxed u hu hfinite with ⟨hmem, hpending⟩ | hdone
    · rcases List.mem_cons.mp hmem with rfl | hmem
      · rw [hflag] at hpending
        cases hpending
      · exact Or.inl ⟨hmem, hpending⟩
    · exact Or.inr hdone
  · rw [if_neg hflag]
    have hreach := hnext src hsrc (Bool.not_eq_false _ ▸ hflag)
    obtain ⟨hrelaxing, hle, hdist, hall⟩ := h.edges hslots (fun _ _ _ => offered_relaxEdge) hsrc hreach
      (fun e he => he) (fun hf : False => hf.elim) rfl
    refine ⟨{ hrelaxing with relaxed := fun u hu hfinite => ?_ }, hle⟩
    rcases hrelaxing.relaxed u hu hfinite with ⟨hmem, hpending⟩ | hdone
    · rcases List.mem_cons.mp hmem with rfl | hmem
      · refine Or.inr (Or.inr fun e he => ?_)
        rw [hdist]
        exact hall e he
      · exact Or.inl ⟨hmem, hpending⟩
    · exact Or.inr hdone

theorem Relaxing.sweep (hslots : OwnSlots g source) {updatedNext : S → Bool} {us : List V}
    (hnext : ∀ v ∈ (g.fragment i).innerVertices, updatedNext ((g.fragment i).slot v) = true →
      Reachable g.edgesOf source.vertex v) (hus : ∀ v ∈ us, v ∈ (g.fragment i).innerVertices)
    (h : Relaxing g source i arrived (fun v => v ∈ us ∧ updatedNext ((g.fragment i).slot v) = true) st) :
    Relaxing g source i arrived (fun _ => False) (us.foldl (relaxVertex g i updatedNext) st) ∧
      ∀ s, (us.foldl (relaxVertex g i updatedNext) st).result s ≤ st.result s := by
  induction us generalizing st with
  | nil =>
    refine ⟨{ h with relaxed := fun u hu hfinite => ?_ }, fun s => le_refl _⟩
    exact (h.relaxed u hu hfinite).imp_left fun hpending => by cases hpending.1
  | cons src rest ih =>
    obtain ⟨hturn, hle⟩ := h.vertex hslots hnext (hus src List.mem_cons_self)
    obtain ⟨hrest, hle'⟩ := ih (fun v hv => hus v (List.mem_cons_of_mem src hv)) hturn
    exact ⟨hrest, fun s => (hle' s).trans (hle s)⟩

/-! ### Messages -/

variable {ctx : PropertySSSPContext S} {m : V × Nat} {inbox : List (V × Nat)}

def receiving (ctx : PropertySSSPContext S) : Relaxed V S :=
  { result := ctx.result, updated := ctx.updated, sent := [], requireForceContinue := true }

theorem offered_message (hm : m.1 ∈ (g.fragment i).innerVertices) :
    Offered g i m.1 m.2 (receiving ctx) (receiving (receive (g.fragment i) [m] ctx)) := by
  unfold receive
  rw [List.foldl_cons, List.foldl_nil]
  by_cases hless : ctx.result ((g.fragment i).slot m.1) > m.2
  · rw [if_pos hless]
    have hmin : min (ctx.result ((g.fragment i).slot m.1)) m.2 = m.2 := min_eq_right hless.le
    constructor
    · intro s
      show Function.update ctx.result ((g.fragment i).slot m.1) m.2 s =
          if _ then min (ctx.result s) m.2 else ctx.result s
      rw [← update_min, hmin]
    · exact fun s hs => update_true hs
    · exact fun s hs => (of_update_true hs).imp_right fun heq => ⟨heq, g.inner i _ hm, rfl⟩
    · intro _
      rw [if_pos (g.inner i _ hm)]
      exact Function.update_self _ _ _
    · exact fun m hm => hm
    · exact fun m hm => Or.inl hm
    · exact id
  · rw [if_neg hless]
    exact offered_refl (not_lt.mp hless)

theorem Relaxing.receive (hslots : OwnSlots g source)
    (hinbox : ∀ m ∈ inbox, m.1 ∈ (g.fragment i).innerVertices ∧ Reachable g.edgesOf source.vertex m.1 ∧
      (m.2 < infinity → Walk g.edgesOf source.vertex m.1 m.2))
    (h : Relaxing g source i arrived pending (receiving ctx)) :
    Relaxing g source i arrived pending (receiving (receive (g.fragment i) inbox ctx)) ∧
      (∀ s, (Sssp.receive (g.fragment i) inbox ctx).result s ≤ ctx.result s) ∧
      ∀ m ∈ inbox, (Sssp.receive (g.fragment i) inbox ctx).result ((g.fragment i).slot m.1) ≤ m.2 := by
  induction inbox generalizing ctx with
  | nil => exact ⟨h, fun s => le_refl _, fun m hm => by cases hm⟩
  | cons m inbox ih =>
    obtain ⟨hm, hreach, hwalk⟩ := hinbox m List.mem_cons_self
    have hoffer := @offered_message _ _ _ _ g i ctx m hm
    obtain ⟨hrest, hle, hall⟩ := ih (fun m' hm' => hinbox m' (List.mem_cons_of_mem m hm'))
      (h.offered hslots hoffer (Or.inl hm) hreach hwalk)
    refine ⟨hrest, fun s => (hle s).trans (hoffer.result_le s), fun m' hm' => ?_⟩
    rcases List.mem_cons.mp hm' with rfl | hm'
    · refine (hle _).trans ?_
      rw [show (Sssp.receive (g.fragment i) [m'] ctx).result _ = _ from hoffer.result_slot]
      exact min_le_right _ _
    · exact hall m' hm'

end sweep

/-! ### Rounds -/

section rounds
variable {n : Nat} {V S : Type} [DecidableEq S] {g : PartitionedGraph n V S} {source : Source g} {k : Nat}
  {outs : Fin n → Outcome n (PropertySSSPContext S) (V × Nat)} {inbox : Fin n → List (V × Nat)} {i : Fin n} {v x : V}

def Settling (g : PartitionedGraph n V S) (source : Source g)
    (outs : Fin n → Outcome n (PropertySSSPContext S) (V × Nat)) : Prop :=
  ∀ i, ∃ sent, (outs i).sent = sent.map (fun m => (g.fragId m.1, m)) ∧
    Relaxing g source i (resultOf g outs) (fun _ => False)
      { result := (outs i).state.result, updated := (outs i).state.updated, sent := sent
        requireForceContinue := (outs i).forceContinue }

theorem relaxing_source (hslots : OwnSlots g source) (arrived : V → Nat) (hi : g.fragId source.vertex = i) :
    Relaxing g source i arrived (fun v => v = source.vertex)
      { result := Function.update (fun _ => infinity) ((g.fragment i).slot source.vertex) 0, updated := fun _ => false
        sent := [], requireForceContinue := true } := by
  have hsource : Here g source i source.vertex := by
    have hvertex := source.isVertex
    unfold PartitionedGraph.IsVertex at hvertex
    rw [hi] at hvertex
    exact Or.inl hvertex
  have hfirst : ∀ v, Here g source i v → Function.update (fun _ => infinity) ((g.fragment i).slot source.vertex) 0
      ((g.fragment i).slot v) < infinity → v = source.vertex := by
    intro v hv hfinite
    by_cases hs : (g.fragment i).slot v = (g.fragment i).slot source.vertex
    · exact hslots.slot_inj hv hsource hs
    · rw [Function.update_of_ne hs] at hfinite
      exact absurd hfinite (lt_irrefl _)
  constructor
  · intro s
    by_cases hs : s = (g.fragment i).slot source.vertex
    · rw [hs]
      dsimp only
      rw [Function.update_self]
      exact Nat.zero_le _
    · dsimp only
      rw [Function.update_of_ne hs]
  · intro _
    dsimp only
    rw [Function.update_self]
  · intro v hv hfinite
    obtain rfl := hfirst v hv hfinite
    dsimp only
    rw [Function.update_self]
    exact .start
  · intro m hm
    cases hm
  · intro v _ hflag
    cases hflag
  · exact fun u hu hfinite => Or.inl (hfirst u (Or.inl hu) hfinite)
  · intro x hx hfinite
    obtain rfl := hfirst x (Or.inr hx) hfinite
    exact absurd hi hx.other

omit [DecidableEq S] in
theorem relaxing_idle (arrived : V → Nat) (force : Bool) (hi : g.fragId source.vertex ≠ i) :
    Relaxing g source i arrived (fun _ => False)
      { result := fun _ => infinity, updated := fun _ => false, sent := [], requireForceContinue := force } := by
  constructor
  · exact fun s => le_refl _
  · exact fun heq => absurd heq hi
  · exact fun v _ hfinite => absurd hfinite (lt_irrefl _)
  · exact fun m hm => by cases hm
  · exact fun v _ hflag => by cases hflag
  · exact fun u _ hfinite => absurd hfinite (lt_irrefl _)
  · exact fun x _ hfinite => absurd hfinite (lt_irrefl _)

theorem settling_pEval (hslots : OwnSlots g source) : Settling g source (pEval g source) := by
  intro i
  unfold pEval
  dsimp only
  by_cases hi : g.fragId source.vertex = i
  · have hfound : source.found i = true := hi ▸ source.foundByOwner
    have hinner : source.vertex ∈ (g.fragment i).innerVertices := hi ▸ source.isVertex
    rw [if_pos hfound, if_pos hi]
    refine ⟨_, rfl, ?_⟩
    have hstep : ∀ (st : Relaxed V S) (e : V × Nat), (True → st.requireForceContinue = true) →
        Offered g i e.1 (0 + e.2) st (firstEdge g i st e) := by
      intro st e hforce
      rw [Nat.zero_add]
      exact offered_firstEdge (hforce trivial)
    obtain ⟨hrelaxing, -, hdist, hall⟩ := (relaxing_source hslots (resultOf g (pEval g source)) hi).edges hslots hstep
      hinner .start (fun e he => he) (fun _ => rfl) (by dsimp only; rw [Function.update_self])
    constructor
    · exact hrelaxing.bounded
    · exact hrelaxing.fromSource
    · exact hrelaxing.sound
    · exact hrelaxing.sent
    · exact fun v hv hflag => ⟨(hrelaxing.flagged v hv hflag).1, rfl⟩
    · intro u hu hfinite
      rcases hrelaxing.relaxed u hu hfinite with rfl | hdone
      · refine Or.inr (Or.inr fun e he => ?_)
        dsimp only
        rw [hdist]
        exact hall e he
      · exact Or.inr hdone
    · exact hrelaxing.mirrors
  · by_cases hfound : source.found i = true
    · rw [if_pos hfound, if_neg hi]
      exact ⟨[], rfl, relaxing_idle _ true hi⟩
    · rw [if_neg hfound]
      exact ⟨[], rfl, relaxing_idle _ false hi⟩

omit [DecidableEq S] in
theorem Settling.messages (h : Settling g source outs) {m : V × Nat} (hm : m ∈ inboxOf outs i) :
    m.1 ∈ (g.fragment i).innerVertices ∧ Reachable g.edgesOf source.vertex m.1 ∧
      (m.2 < infinity → Walk g.edgesOf source.vertex m.1 m.2) := by
  obtain ⟨rfl, j, sent, hrelaxing, hm'⟩ := PartitionedGraph.exists_sent h hm
  obtain ⟨⟨hout, u, hu, hreach, e, he, hhead⟩, hwalk⟩ := hrelaxing.sent m hm'
  refine ⟨(g.outer j _ hout).2, ?_, hwalk⟩
  rw [← hhead]
  exact (reachable_head hu hreach he).2

def received (g : PartitionedGraph n V S) (outs : Fin n → Outcome n (PropertySSSPContext S) (V × Nat))
    (inbox : Fin n → List (V × Nat)) (i : Fin n) : PropertySSSPContext S :=
  receive (g.fragment i) (inbox i) (outs i).state

def arrivedAt (g : PartitionedGraph n V S) (outs : Fin n → Outcome n (PropertySSSPContext S) (V × Nat))
    (inbox : Fin n → List (V × Nat)) (v : V) : Nat :=
  (received g outs inbox (g.fragId v)).result ((g.fragment (g.fragId v)).slot v)

theorem Settling.received (hslots : OwnSlots g source) (h : Settling g source outs)
    (hinbox : ∀ i, (inbox i).Perm (inboxOf outs i)) {arrived : V → Nat}
    (hmirrors : ∀ x, Mirror g source i x → (outs i).state.result ((g.fragment i).slot x) < infinity →
      arrived x ≤ (outs i).state.result ((g.fragment i).slot x)) :
    Relaxing g source i arrived (fun _ => False) (receiving (Sssp.received g outs inbox i)) ∧
      (∀ s, (Sssp.received g outs inbox i).result s ≤ (outs i).state.result s) ∧
      ∀ m ∈ inbox i, (Sssp.received g outs inbox i).result ((g.fragment i).slot m.1) ≤ m.2 := by
  obtain ⟨sent, hsent, hrelaxing⟩ := h i
  refine Relaxing.receive hslots (fun m hm => h.messages ((hinbox i).mem_iff.mp hm)) ?_
  constructor
  · exact hrelaxing.bounded
  · exact hrelaxing.fromSource
  · exact hrelaxing.sound
  · exact fun m hm => by cases hm
  · exact fun v hv hflag => ⟨(hrelaxing.flagged v hv hflag).1, rfl⟩
  · exact hrelaxing.relaxed
  · exact fun x hx hfinite => Or.inl (hmirrors x hx hfinite)

theorem Settling.arrivedAt_le (hslots : OwnSlots g source) (h : Settling g source outs)
    (hinbox : ∀ i, (inbox i).Perm (inboxOf outs i)) (hx : Mirror g source i x)
    (hfinite : (outs i).state.result ((g.fragment i).slot x) < infinity) :
    arrivedAt g outs inbox x ≤ (outs i).state.result ((g.fragment i).slot x) := by
  obtain ⟨-, hle, hall⟩ := @Settling.received _ _ _ _ g source outs inbox (g.fragId x) hslots h hinbox (fun _ => 0)
    fun _ _ _ => Nat.zero_le _
  obtain ⟨sent, hsent, hrelaxing⟩ := h i
  rcases hrelaxing.mirrors x hx hfinite with hold | ⟨val, hval, hval_le⟩
  · exact (hle _).trans hold
  · have hmem : (x, val) ∈ inbox (g.fragId x) :=
      (hinbox _).mem_iff.mpr (PartitionedGraph.sent_arrives hsent hval)
    exact (hall _ hmem).trans hval_le

theorem Settling.swept (hslots : OwnSlots g source) (h : Settling g source outs)
    (hinbox : ∀ i, (inbox i).Perm (inboxOf outs i)) (i : Fin n) :
    Relaxing g source i (arrivedAt g outs inbox) (fun _ => False) ((g.fragment i).innerVertices.foldl
      (relaxVertex g i (Sssp.received g outs inbox i).updated)
      { result := (Sssp.received g outs inbox i).result, updated := fun _ => false, sent := []
        requireForceContinue := false }) ∧
      ∀ s, (incEval g i (outs i).state (inbox i)).state.result s ≤ (Sssp.received g outs inbox i).result s := by
  obtain ⟨hrelaxing, -⟩ := h.received hslots hinbox fun x hx hfinite => h.arrivedAt_le hslots hinbox hx hfinite
  refine Relaxing.sweep hslots (fun v hv hflag => (hrelaxing.flagged v hv hflag).1) (fun v hv => hv) ?_
  constructor
  · exact hrelaxing.bounded
  · exact hrelaxing.fromSource
  · exact hrelaxing.sound
  · exact fun m hm => by cases hm
  · exact fun v _ hflag => by cases hflag
  · intro u hu hfinite
    rcases hrelaxing.relaxed u hu hfinite with hnever | hflag | hedges
    · exact hnever.elim
    · exact Or.inl ⟨hu, hflag⟩
    · exact Or.inr (Or.inr hedges)
  · intro x hx hfinite
    exact (hrelaxing.mirrors x hx hfinite).imp_right fun hsent => by
      obtain ⟨val, hval, -⟩ := hsent
      cases hval

theorem Settling.round (hslots : OwnSlots g source) (h : Settling g source outs)
    (hinbox : ∀ i, (inbox i).Perm (inboxOf outs i)) :
    Settling g source fun i => incEval g i (outs i).state (inbox i) := by
  intro i
  have hswept := h.swept hslots hinbox
  refine ⟨_, rfl, { (hswept i).1 with mirrors := fun x hx hfinite => ?_ }⟩
  exact ((hswept i).1.mirrors x hx hfinite).imp_left fun hold => ((hswept (g.fragId x)).2 _).trans hold

theorem settling_run (hslots : OwnSlots g source) (hrun : Run (pEval g source) (incEval g) k outs) :
    Settling g source outs :=
  @Run.induct _ _ _ _ _ _ _ (fun _ outs => Settling g source outs) hrun (settling_pEval hslots)
    fun _ _ _ _ h _ delivered => h.round hslots delivered

omit [DecidableEq S] in
theorem Settling.quiet (h : Settling g source outs) (hquiet : Quiet outs)
    (hfits : ∀ u d, IsDistance g.edgesOf source.vertex u d → d < infinity) (hv : g.IsVertex v) :
    (∀ d, IsDistance g.edgesOf source.vertex v d → resultOf g outs v = d) ∧
      (resultOf g outs v = infinity ↔ ¬ Reachable g.edgesOf source.vertex v) := by
  have hbound : ∀ u, g.IsVertex u → resultOf g outs u ≤ infinity := by
    intro u _
    obtain ⟨sent, -, hrelaxing⟩ := h (g.fragId u)
    exact hrelaxing.bounded _
  have hsound : ∀ u, g.IsVertex u → resultOf g outs u < infinity →
      Walk g.edgesOf source.vertex u (resultOf g outs u) := by
    intro u hu hfinite
    obtain ⟨sent, -, hrelaxing⟩ := h (g.fragId u)
    exact hrelaxing.sound u (Or.inl hu) hfinite
  have hclosed : ∀ u, g.IsVertex u → ∀ e ∈ g.edgesOf u, g.IsVertex e.1 := by
    intro u hu e he
    rcases g.neighbours _ u hu e he with hin | hout
    · exact PartitionedGraph.isVertex_iff.mpr ⟨_, hin⟩
    · exact (g.outer _ _ hout).2
  refine labels_distances hclosed source.isVertex ?_ hbound ?_ hsound hfits hv
  · obtain ⟨sent, -, hrelaxing⟩ := h (g.fragId source.vertex)
    exact hrelaxing.fromSource rfl
  · intro u hu hfinite e he
    obtain ⟨sent, hsent, hrelaxing⟩ := h (g.fragId u)
    have hsent : sent = [] := List.map_eq_nil_iff.mp (hsent.symm.trans (hquiet _).1)
    have hreach : Reachable g.edgesOf source.vertex u := ⟨_, hsound u hu hfinite⟩
    have hedges := ((hrelaxing.relaxed u hu hfinite).resolve_left id).resolve_left fun hflag => by
      have hforce := (hrelaxing.flagged u hu hflag).2
      rw [show (outs (g.fragId u)).forceContinue = false from (hquiet _).2] at hforce
      cases hforce
    refine le_trans ?_ (hedges e he)
    rcases (reachable_head hu hreach he).1 with hin | hmirror
    · unfold resultOf
      rw [g.inner _ _ hin]
    · by_cases hslot : (outs (g.fragId u)).state.result ((g.fragment (g.fragId u)).slot e.1) < infinity
      · refine (hrelaxing.mirrors e.1 hmirror hslot).resolve_right ?_
        rintro ⟨val, hval, -⟩
        rw [hsent] at hval
        cases hval
      · exact (hbound e.1 (hclosed u hu e he)).trans (not_lt.mp hslot)

end rounds

/-- The results of a run that has come to rest are the distances from the source when its paths lead to no outer vertex
whose slot an inner vertex has, and are shorter than the value that stands for infinity. -/
theorem result_distance {n : Nat} {V S : Type} [DecidableEq S] (g : PartitionedGraph n V S) (source : Source g)
    (k : Nat)
    (outs : Fin n → Outcome n (PropertySSSPContext S) (V × Nat)) (hslots : OwnSlots g source)
    (hfits : ∀ u d, IsDistance g.edgesOf source.vertex u d → d < infinity)
    (hrun : Run (pEval g source) (incEval g) k outs) (hquiet : Quiet outs) (v : V) (hv : g.IsVertex v) :
    (∀ d, IsDistance g.edgesOf source.vertex v d → resultOf g outs v = d) ∧
      (resultOf g outs v = infinity ↔ ¬ Reachable g.edgesOf source.vertex v) :=
  (settling_run hslots hrun).quiet hquiet hfits hv

def firstVertex (alike : Bool) : Source (twoVertices alike) where
  vertex := 0
  isVertex := by decide +revert
  found i := i = firstFragment
  foundByOwner := by decide +revert

theorem walk_twoVertices {alike : Bool} {v d : Nat} (h : Walk (twoVertices alike).edgesOf 0 v d) :
    v = 0 ∧ d = 0 ∨ v = 1 ∧ d = 5 := by
  induction h with
  | start => exact Or.inl ⟨rfl, rfl⟩
  | @along u d e before edge ih =>
    rcases ih with ⟨rfl, rfl⟩ | ⟨rfl, rfl⟩
    · obtain rfl := List.mem_singleton.mp edge
      exact Or.inr ⟨rfl, rfl⟩
    · cases edge

theorem result_distance_two : ∃ outs,
    Run (pEval (twoVertices false) (firstVertex false)) (incEval (twoVertices false)) 1 outs ∧ Quiet outs ∧
      (∀ d, IsDistance (twoVertices false).edgesOf 0 1 d → resultOf (twoVertices false) outs 1 = d) ∧
      (resultOf (twoVertices false) outs 1 = infinity ↔ ¬ Reachable (twoVertices false).edgesOf 0 1) := by
  have hslots : OwnSlots (twoVertices false) (firstVertex false) := by
    rintro i x ⟨hx, -⟩ v hv
    revert i x v
    decide
  have hfits : ∀ u d, IsDistance (twoVertices false).edgesOf 0 u d → d < infinity := by
    intro u d hd
    unfold infinity
    rcases walk_twoVertices hd.1 with ⟨-, rfl⟩ | ⟨-, rfl⟩ <;> omega
  refine ⟨_, .round _ .start (fun h => absurd (h 0).2 (by decide)) fun i => .refl _, by decide, ?_⟩
  exact result_distance (twoVertices false) (firstVertex false) 1 _ hslots hfits
    (.round _ .start (fun h => absurd (h 0).2 (by decide)) fun i => .refl _) (by decide) 1 (by decide)

/-- An outer vertex with the slot of the source counts as near as the source. -/
theorem result_sharedSlot : ∃ outs,
    Run (pEval (twoVertices true) (firstVertex true)) (incEval (twoVertices true)) 1 outs ∧ Quiet outs ∧
      IsDistance (twoVertices true).edgesOf 0 1 5 ∧ resultOf (twoVertices true) outs 1 = 0 := by
  refine ⟨_, .round _ .start (fun h => absurd (h 0).2 (by decide)) fun i => .refl _, by decide, ⟨?_, ?_⟩, ?_⟩
  · have hedge : (1, 5) ∈ (twoVertices true).edgesOf 0 := List.mem_cons_self
    exact Walk.start.along hedge
  · intro d hd
    rcases walk_twoVertices hd with ⟨hv, -⟩ | ⟨-, rfl⟩
    · cases hv
    · exact le_refl _
  · decide

end Gart.Analytics.Sssp

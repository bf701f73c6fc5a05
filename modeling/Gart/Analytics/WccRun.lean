import Gart.Analytics.Wcc

/-!
# The labels of a run

A vertex gets the labels of vertices from which edges lead to it. When a run comes to rest it has those that need not
wait for a further sweep on their way.
-/

namespace Gart.Analytics.Wcc
open Gart.Supersteps Gart.Slots Gart.Sweeps

section sweep
variable {n : Nat} {V S : Type} [DecidableEq S] {g : IncomingGraph n V S} {i : Fin n} {before after : S → Int}
  {sent : List (V × Int)} {owners owners' : V → Int} {inbox : List (V × Int)} {s : S} {u v w x : V}

/-- What the loops over the vertices of a fragment do. -/
structure SweptTo (g : IncomingGraph n V S) (i : Fin n) (before after : S → Int) (sent : List (V × Int)) : Prop where
  inner : ∀ v ∈ (g.fragment i).innerVertices,
    IsLeast {a | ∃ w, Carried (innerNeighbours g i) (g.fragment i).innerVertices w v ∧
      before ((g.fragment i).slot w) = a} (after ((g.fragment i).slot v))
  outer : ∀ x ∈ (g.fragment i).outerVertices, after ((g.fragment i).slot x) ≤ before ((g.fragment i).slot x) ∧
    ∀ u ∈ (g.fragment i).incoming x, after ((g.fragment i).slot x) ≤ after ((g.fragment i).slot u)
  origin : ∀ x ∈ (g.fragment i).outerVertices, after ((g.fragment i).slot x) = before ((g.fragment i).slot x) ∨
    ∃ u ∈ (g.fragment i).incoming x, after ((g.fragment i).slot x) = after ((g.fragment i).slot u)
  sent : ∀ m, m ∈ sent ↔ m.1 ∈ (g.fragment i).outerVertices ∧ m.2 = after ((g.fragment i).slot m.1) ∧
    m.2 < before ((g.fragment i).slot m.1)

theorem sweptTo_sweep (hslots : OwnSlots g) (before : S → Int) :
    SweptTo g i before (sweep g i before).1 (sweep g i before).2 := by
  have hother : ∀ x ∈ (g.fragment i).outerVertices, ∀ u ∈ (g.fragment i).incoming x,
      (g.fragment i).slot u ∉ (g.fragment i).outerVertices.map (g.fragment i).slot := by
    intro x hx u hu hmem
    obtain ⟨y, hy, hs⟩ := List.mem_map.mp hmem
    exact hslots i u (g.incomingOuter i x hx u hu).1 y hy hs.symm
  obtain ⟨hlabels, hsent⟩ := @outerVertices_spec _ _ _ _ g i (innerSweep g i before) _ [] (g.outerSlots i) hother
  have hinner : ∀ v ∈ (g.fragment i).innerVertices,
      (sweep g i before).1 ((g.fragment i).slot v) = innerSweep g i before ((g.fragment i).slot v) := by
    intro v hv
    unfold sweep
    rw [hlabels]
    refine fill_other fun hmem => ?_
    obtain ⟨x, hx, hs⟩ := List.mem_map.mp hmem
    exact hslots i v hv x hx hs.symm
  have houter : ∀ x ∈ (g.fragment i).outerVertices,
      (sweep g i before).1 ((g.fragment i).slot x) = newData g i (innerSweep g i before) x := by
    intro x hx
    unfold sweep
    rw [hlabels]
    exact fill_key (g.outerSlots i) hx
  have hbefore : ∀ x ∈ (g.fragment i).outerVertices,
      innerSweep g i before ((g.fragment i).slot x) = before ((g.fragment i).slot x) := by
    intro x hx
    refine innerSweep_other fun hmem => ?_
    obtain ⟨v, hv, hs⟩ := List.mem_map.mp hmem
    exact hslots i v hv x hx hs
  constructor
  · intro v hv
    rw [hinner v hv]
    exact innerSweep_least hv
  · intro x hx
    rw [houter x hx, ← hbefore x hx]
    refine ⟨lowest_le_start, fun u hu => ?_⟩
    rw [hinner u (g.incomingOuter i x hx u hu).1]
    exact lowest_le hu
  · intro x hx
    rw [houter x hx, ← hbefore x hx]
    refine lowest_attained.imp_right ?_
    rintro ⟨u, hu, heq⟩
    refine ⟨u, hu, ?_⟩
    rw [hinner u (g.incomingOuter i x hx u hu).1]
    exact heq
  · intro m
    have hm := hsent m
    constructor
    · intro hmem
      obtain ⟨hx, hval, hlt⟩ := (hm.mp hmem).resolve_left List.not_mem_nil
      rw [houter m.1 hx, ← hbefore m.1 hx, hval]
      exact ⟨hx, rfl, hlt⟩
    · rintro ⟨hx, hval, hlt⟩
      rw [houter m.1 hx] at hval
      rw [← hbefore m.1 hx, hval] at hlt
      exact hm.mpr (Or.inr ⟨hx, hval, hlt⟩)

/-! ### Edges between fragments -/

/-- An edge along which labels go: `GetIncomingAdjList` of the second vertex has the first one. -/
def Flows (g : IncomingGraph n V S) (u v : V) : Prop := g.IsVertex v ∧ u ∈ (g.fragment (g.fragId v)).incoming v

def Reaches (g : IncomingGraph n V S) : V → V → Prop := Relation.ReflTransGen (Flows g)

def SameComponent (g : IncomingGraph n V S) : V → V → Prop := Relation.EqvGen (Flows g)

omit [DecidableEq S] in
theorem Reaches.sameComponent (h : Reaches g u v) : SameComponent g u v := by
  induction h with
  | refl => exact .refl u
  | tail _ edge ih => exact .trans _ _ _ ih (.rel _ _ edge)

omit [DecidableEq S] in
theorem flows_inner (hv : v ∈ (g.fragment i).innerVertices) (hu : u ∈ (g.fragment i).incoming v) : Flows g u v := by
  refine ⟨PartitionedGraph.isVertex_iff.mpr ⟨i, hv⟩, ?_⟩
  rw [g.inner i v hv]
  exact hu

omit [DecidableEq S] in
theorem flows_outer (hx : x ∈ (g.fragment i).outerVertices) (hu : u ∈ (g.fragment i).incoming x) : Flows g u x :=
  ⟨(g.outer i x hx).2, (g.incomingOuter i x hx u hu).2⟩

omit [DecidableEq S] in
theorem carried_reaches (hv : v ∈ (g.fragment i).innerVertices)
    (h : Carried (innerNeighbours g i) (g.fragment i).innerVertices w v) :
    Reaches g w v ∧ w ∈ (g.fragment i).innerVertices := by
  induction h with
  | self => exact ⟨.refl, hv⟩
  | edge edge =>
    obtain ⟨hu, hin⟩ := (mem_innerNeighbours hv).mp edge
    exact ⟨.single (flows_inner hv hin), hu⟩
  | next _ edge _ ih =>
    obtain ⟨hu, hin⟩ := (mem_innerNeighbours hv).mp edge
    obtain ⟨hreach, hw⟩ := ih hu
    exact ⟨hreach.tail (flows_inner hv hin), hw⟩

/-- One sweep takes the label of the first vertex to the second one, both inner vertices of the fragment. -/
def CarriedIn (g : IncomingGraph n V S) (i : Fin n) : V → V → Prop :=
  Carried (innerNeighbours g i) (g.fragment i).innerVertices

/-- A fragment between two rounds; `owners` are the labels of the vertices in the fragments that own them. What an outer
vertex has got is either on its way to the owner, or a sweep of the owner has taken it on. -/
structure Labelled (g : IncomingGraph n V S) (i : Fin n) (owners : V → Int) (result : S → Int) (sent : List (V × Int)) :
    Prop where
  sound : ∀ v, v ∈ (g.fragment i).innerVertices ∨ v ∈ (g.fragment i).outerVertices →
    ∃ u, Reaches g u v ∧ g.getId u = result ((g.fragment i).slot v)
  own : ∀ v ∈ (g.fragment i).innerVertices, ∀ w, CarriedIn g i w v → result ((g.fragment i).slot v) ≤ g.getId w
  messages : ∀ m ∈ sent, m.1 ∈ (g.fragment i).outerVertices ∧ ∃ u, Reaches g u m.1 ∧ g.getId u = m.2
  mirrors : ∀ x ∈ (g.fragment i).outerVertices,
    (∀ v ∈ (g.fragment (g.fragId x)).innerVertices, CarriedIn g (g.fragId x) x v →
      owners v ≤ result ((g.fragment i).slot x)) ∨
    ∃ val, (x, val) ∈ sent ∧ val ≤ result ((g.fragment i).slot x)
  edges : ∀ x ∈ (g.fragment i).outerVertices, ∀ u ∈ (g.fragment i).incoming x,
    result ((g.fragment i).slot x) ≤ result ((g.fragment i).slot u)

omit [DecidableEq S] in
theorem SweptTo.labelled (h : SweptTo g i before after sent)
    (hsound : ∀ v, v ∈ (g.fragment i).innerVertices ∨ v ∈ (g.fragment i).outerVertices →
      ∃ u, Reaches g u v ∧ g.getId u = before ((g.fragment i).slot v))
    (hown : ∀ v ∈ (g.fragment i).innerVertices, before ((g.fragment i).slot v) ≤ g.getId v)
    (howners : ∀ x ∈ (g.fragment i).outerVertices, ∀ v ∈ (g.fragment (g.fragId x)).innerVertices,
      CarriedIn g (g.fragId x) x v → owners v ≤ before ((g.fragment i).slot x)) :
    Labelled g i owners after sent := by
  have hinner : ∀ v ∈ (g.fragment i).innerVertices,
      ∃ u, Reaches g u v ∧ g.getId u = after ((g.fragment i).slot v) := by
    intro v hv
    obtain ⟨w, hcarried, heq⟩ := (h.inner v hv).1
    obtain ⟨hreach, hw⟩ := carried_reaches hv hcarried
    obtain ⟨u, hu, hid⟩ := hsound w (Or.inl hw)
    exact ⟨u, hu.trans hreach, hid.trans heq⟩
  have houter : ∀ x ∈ (g.fragment i).outerVertices,
      ∃ u, Reaches g u x ∧ g.getId u = after ((g.fragment i).slot x) := by
    intro x hx
    rcases h.origin x hx with heq | ⟨w, hw, heq⟩
    · rw [heq]
      exact hsound x (Or.inr hx)
    · obtain ⟨u, hu, hid⟩ := hinner w (g.incomingOuter i x hx w hw).1
      exact ⟨u, hu.tail (flows_outer hx hw), hid.trans heq.symm⟩
  constructor
  · exact fun v hv => hv.elim (hinner v) (houter v)
  · intro v hv w hw
    exact ((h.inner v hv).2 ⟨w, hw, rfl⟩).trans (hown w (carried_reaches hv hw).2)
  · intro m hm
    obtain ⟨hx, hval, -⟩ := (h.sent m).mp hm
    rw [hval]
    exact ⟨hx, houter m.1 hx⟩
  · intro x hx
    by_cases hlt : after ((g.fragment i).slot x) < before ((g.fragment i).slot x)
    · exact Or.inr ⟨_, (h.sent (x, _)).mpr ⟨hx, rfl, hlt⟩, le_refl _⟩
    · exact Or.inl fun v hv hcarried => (howners x hx v hv hcarried).trans (not_lt.mp hlt)
  · exact fun x hx => (h.outer x hx).2

theorem receive_spec (result : S → Int) (inbox : List (V × Int)) (s : S) :
    receive (g.fragment i) inbox result s ≤ result s ∧
      (∀ m ∈ inbox, (g.fragment i).slot m.1 = s → receive (g.fragment i) inbox result s ≤ m.2) ∧
      (receive (g.fragment i) inbox result s = result s ∨
        ∃ m ∈ inbox, (g.fragment i).slot m.1 = s ∧ receive (g.fragment i) inbox result s = m.2) := by
  induction inbox generalizing result with
  | nil =>
    refine ⟨le_refl _, ?_, Or.inl rfl⟩
    intro m hm
    cases hm
  | cons m inbox ih =>
    have hcons : receive (g.fragment i) (m :: inbox) result = receive (g.fragment i) inbox
        (if m.2 < result ((g.fragment i).slot m.1) then Function.update result ((g.fragment i).slot m.1) m.2
          else result) := rfl
    rw [hcons]
    have hfirst : (if m.2 < result ((g.fragment i).slot m.1) then
        Function.update result ((g.fragment i).slot m.1) m.2 else result) s =
          if (g.fragment i).slot m.1 = s ∧ m.2 < result s then m.2 else result s := by
      by_cases hs : (g.fragment i).slot m.1 = s
      · subst hs
        by_cases hlt : m.2 < result ((g.fragment i).slot m.1)
        · simp [hlt]
        · simp [hlt]
      · have hnot : ¬ ((g.fragment i).slot m.1 = s ∧ m.2 < result s) := fun h => hs h.1
        rw [if_neg hnot]
        split
        · exact Function.update_of_ne (Ne.symm hs) _ _
        · rfl
    obtain ⟨hle, hall, horigin⟩ := ih (if m.2 < result ((g.fragment i).slot m.1) then
      Function.update result ((g.fragment i).slot m.1) m.2 else result)
    rw [hfirst] at hle horigin
    by_cases hlowers : (g.fragment i).slot m.1 = s ∧ m.2 < result s
    · rw [if_pos hlowers] at hle horigin
      refine ⟨hle.trans hlowers.2.le, fun m' hm' hs => ?_, ?_⟩
      · rcases List.mem_cons.mp hm' with rfl | hm'
        · exact hle
        · exact hall m' hm' hs
      · rcases horigin with heq | ⟨m', hm', hrest⟩
        · exact Or.inr ⟨m, List.mem_cons_self, hlowers.1, heq⟩
        · exact Or.inr ⟨m', List.mem_cons_of_mem m hm', hrest⟩
    · rw [if_neg hlowers] at hle horigin
      refine ⟨hle, fun m' hm' hs => ?_, ?_⟩
      · rcases List.mem_cons.mp hm' with rfl | hm'
        · exact hle.trans (not_lt.mp fun hlt => hlowers ⟨hs, hlt⟩)
        · exact hall m' hm' hs
      · rcases horigin with heq | ⟨m', hm', hrest⟩
        · exact Or.inl heq
        · exact Or.inr ⟨m', List.mem_cons_of_mem m hm', hrest⟩

end sweep

/-! ### Rounds -/

section rounds
variable {n : Nat} {V S : Type} [DecidableEq S] {g : IncomingGraph n V S} {k : Nat}
  {outs : Fin n → Outcome n (PropertyWCCContext S) (V × Int)} {inbox : Fin n → List (V × Int)} {i : Fin n} {u v w x : V}

def Labelling (g : IncomingGraph n V S) (outs : Fin n → Outcome n (PropertyWCCContext S) (V × Int)) : Prop :=
  ∀ i, ∃ sent, (outs i).sent = sent.map (fun m => (g.fragId m.1, m)) ∧
    Labelled g i (resultOf g outs) (outs i).state.result sent

omit [DecidableEq S] in
theorem slot_inj (hslots : OwnSlots g) (hv : v ∈ (g.fragment i).innerVertices ∨ v ∈ (g.fragment i).outerVertices)
    (hw : w ∈ (g.fragment i).innerVertices ∨ w ∈ (g.fragment i).outerVertices)
    (h : (g.fragment i).slot v = (g.fragment i).slot w) : v = w := by
  rcases hv with hv | hv <;> rcases hw with hw | hw
  · exact PartitionedGraph.inner_slot hv hw h
  · exact absurd h (hslots i v hv w hw)
  · exact absurd h.symm (hslots i w hw v hv)
  · exact PartitionedGraph.outer_slot hv hw h

theorem initial_slot (hslots : OwnSlots g)
    (hv : v ∈ (g.fragment i).innerVertices ∨ v ∈ (g.fragment i).outerVertices) :
    initial g i ((g.fragment i).slot v) = g.getId v := by
  refine fill_key ?_ (List.mem_append.mpr hv)
  rw [List.map_append]
  refine List.nodup_append.mpr ⟨g.innerSlots i, g.outerSlots i, fun s hs t ht heq => ?_⟩
  obtain ⟨w, hw, rfl⟩ := List.mem_map.mp hs
  obtain ⟨x, hx, rfl⟩ := List.mem_map.mp ht
  exact hslots i w hw x hx heq

theorem resultOf_le (hslots : OwnSlots g) {before : Fin n → S → Int} (hv : v ∈ (g.fragment i).innerVertices)
    (hcarried : CarriedIn g i w v) (houts : ∀ i, (outs i).state.result = (sweep g i (before i)).1) :
    resultOf g outs v ≤ before i ((g.fragment i).slot w) := by
  unfold resultOf
  rw [g.inner i v hv, houts]
  exact ((sweptTo_sweep hslots (before i)).inner v hv).2 ⟨w, hcarried, rfl⟩

theorem labelling_pEval (hslots : OwnSlots g) : Labelling g (pEval g) := by
  intro i
  refine ⟨_, rfl, (sweptTo_sweep hslots (initial g i)).labelled
    (fun v hv => ⟨v, .refl, (initial_slot hslots hv).symm⟩)
    (fun v hv => (initial_slot hslots (Or.inl hv)).le) fun x hx v hv hcarried => ?_⟩
  rw [initial_slot hslots (Or.inr hx), ← initial_slot hslots (Or.inl (g.outer i x hx).2)]
  exact resultOf_le hslots hv hcarried fun _ => rfl

omit [DecidableEq S] in
theorem Labelling.messages (h : Labelling g outs) {m : V × Int} (hm : m ∈ inboxOf outs i) :
    m.1 ∈ (g.fragment i).innerVertices ∧ ∃ u, Reaches g u m.1 ∧ g.getId u = m.2 := by
  obtain ⟨rfl, j, sent, hlabelled, hm'⟩ := PartitionedGraph.exists_sent h hm
  obtain ⟨hx, hreach⟩ := hlabelled.messages m hm'
  exact ⟨(g.outer j m.1 hx).2, hreach⟩

def received (g : IncomingGraph n V S) (outs : Fin n → Outcome n (PropertyWCCContext S) (V × Int))
    (inbox : Fin n → List (V × Int)) (i : Fin n) : S → Int :=
  receive (g.fragment i) (inbox i) (outs i).state.result

theorem Labelling.received_sound (hslots : OwnSlots g) (h : Labelling g outs)
    (hinbox : ∀ i, (inbox i).Perm (inboxOf outs i))
    (hv : v ∈ (g.fragment i).innerVertices ∨ v ∈ (g.fragment i).outerVertices) :
    ∃ u, Reaches g u v ∧ g.getId u = received g outs inbox i ((g.fragment i).slot v) := by
  obtain ⟨sent, -, hlabelled⟩ := h i
  unfold received
  rcases (@receive_spec _ _ _ _ g i (outs i).state.result (inbox i) ((g.fragment i).slot v)).2.2
    with heq | ⟨m, hm, hs, heq⟩
  · rw [heq]
    exact hlabelled.sound v hv
  · obtain ⟨hinner, hreach⟩ := h.messages ((hinbox i).mem_iff.mp hm)
    rw [heq, ← slot_inj hslots (Or.inl hinner) hv hs]
    exact hreach

theorem Labelling.incEval_owner (hslots : OwnSlots g) (h : Labelling g outs)
    (hinbox : ∀ i, (inbox i).Perm (inboxOf outs i)) (hx : x ∈ (g.fragment i).outerVertices)
    (hv : v ∈ (g.fragment (g.fragId x)).innerVertices) (hcarried : CarriedIn g (g.fragId x) x v) :
    resultOf g (fun i => incEval g i (outs i).state (inbox i)) v ≤ received g outs inbox i ((g.fragment i).slot x) := by
  obtain ⟨sent, hsent, hlabelled⟩ := h i
  have hspec := fun i => @receive_spec _ _ _ _ g i (outs i).state.result (inbox i)
  have hnext : ∀ w, CarriedIn g (g.fragId x) w v → resultOf g (fun i => incEval g i (outs i).state (inbox i)) v ≤
      received g outs inbox (g.fragId x) ((g.fragment (g.fragId x)).slot w) := fun w hw =>
    resultOf_le hslots hv hw fun _ => rfl
  have hsame : received g outs inbox i ((g.fragment i).slot x) = (outs i).state.result ((g.fragment i).slot x) := by
    refine (hspec i _).2.2.resolve_right ?_
    rintro ⟨m, hm, hs, -⟩
    exact hslots i m.1 (h.messages ((hinbox i).mem_iff.mp hm)).1 x hx hs
  rw [hsame]
  rcases hlabelled.mirrors x hx with htaken | ⟨val, hval, hle⟩
  · refine ((hnext v (.self v)).trans (hspec _ _).1).trans ?_
    have hle := htaken v hv hcarried
    unfold resultOf at hle
    rw [g.inner _ v hv] at hle
    exact hle
  · have hmem : (x, val) ∈ inbox (g.fragId x) :=
      (hinbox _).mem_iff.mpr (PartitionedGraph.sent_arrives hsent hval)
    exact ((hnext x hcarried).trans ((hspec _ _).2.1 _ hmem rfl)).trans hle

theorem Labelling.round (hslots : OwnSlots g) (h : Labelling g outs) (hinbox : ∀ i, (inbox i).Perm (inboxOf outs i)) :
    Labelling g fun i => incEval g i (outs i).state (inbox i) := by
  intro i
  obtain ⟨sent, hsent, hlabelled⟩ := h i
  have hown : ∀ v ∈ (g.fragment i).innerVertices, received g outs inbox i ((g.fragment i).slot v) ≤ g.getId v :=
    fun v hv => (@receive_spec _ _ _ _ g i (outs i).state.result (inbox i) _).1.trans (hlabelled.own v hv v (.self v))
  exact ⟨_, rfl, (sweptTo_sweep hslots (received g outs inbox i)).labelled
    (fun v hv => h.received_sound hslots hinbox hv) hown
    fun x hx v hv hcarried => h.incEval_owner hslots hinbox hx hv hcarried⟩

theorem labelling_run (hslots : OwnSlots g) (hrun : Run (pEval g) (incEval g) k outs) : Labelling g outs :=
  @Run.induct _ _ _ _ _ _ _ (fun _ outs => Labelling g outs) hrun (labelling_pEval hslots)
    fun _ _ _ _ h _ delivered => h.round hslots delivered

/-! ### Labels that arrive -/

/-- The label of the first vertex gets to the second one without waiting for a sweep that only another message could
bring: two sweeps are made in any case, and behind an edge to another fragment one sweep takes it on. Only the graph,
its partition and the order of the inner vertices matter. -/
inductive Arrives (g : IncomingGraph n V S) : V → V → Prop
  | start {i : Fin n} {u w v : V} (inner : v ∈ (g.fragment i).innerVertices) (first : CarriedIn g i u w)
      (second : CarriedIn g i w v) : Arrives g u v
  | across {i : Fin n} {u w x v : V} (before : Arrives g u w) (mirror : x ∈ (g.fragment i).outerVertices)
      (edge : w ∈ (g.fragment i).incoming x) (inner : v ∈ (g.fragment (g.fragId x)).innerVertices)
      (inside : CarriedIn g (g.fragId x) x v) : Arrives g u v

theorem Labelling.result_le (hslots : OwnSlots g) (h : Labelling g outs) (hinbox : ∀ i, (inbox i).Perm (inboxOf outs i))
    (hquiet : Quiet fun i => incEval g i (outs i).state (inbox i)) (harrives : Arrives g u v) :
    resultOf g (fun i => incEval g i (outs i).state (inbox i)) v ≤ g.getId u := by
  induction harrives with
  | @start i u w v inner first second =>
    obtain ⟨sent, -, hlabelled⟩ := h i
    have hw := (carried_reaches inner second).2
    have hlast : resultOf g (fun i => incEval g i (outs i).state (inbox i)) v ≤
        received g outs inbox i ((g.fragment i).slot w) := resultOf_le hslots inner second fun _ => rfl
    exact (hlast.trans (@receive_spec _ _ _ _ g i (outs i).state.result (inbox i) _).1).trans
        (hlabelled.own w hw u first)
  | @across i u w x v _ mirror edge inner inside ih =>
    obtain ⟨sent, hsent, hlabelled⟩ := h.round hslots hinbox i
    have hnil : sent = [] := List.map_eq_nil_iff.mp (hsent.symm.trans (hquiet i).1)
    have hw := (g.incomingOuter i x mirror w edge).1
    rcases hlabelled.mirrors x mirror with htaken | ⟨val, hval, -⟩
    · have hmirror := (htaken v inner inside).trans (hlabelled.edges x mirror w edge)
      refine hmirror.trans ?_
      unfold resultOf at ih
      rw [g.inner i w hw] at ih
      exact ih
    · rw [hnil] at hval
      cases hval

omit [DecidableEq S] in
theorem Arrives.reaches (h : Arrives g u v) : Reaches g u v := by
  induction h with
  | start inner first second =>
    obtain ⟨hsecond, hw⟩ := carried_reaches inner second
    exact (carried_reaches hw first).1.trans hsecond
  | @across i u w x v _ mirror edge inner inside ih =>
    exact (ih.tail (flows_outer mirror edge)).trans (carried_reaches inner inside).1

/-- The sweeps follow the edges: wherever a path inside a fragment leads to, one sweep takes labels along. -/
def FollowsEdges (g : IncomingGraph n V S) : Prop :=
  ∀ i, ∀ v ∈ (g.fragment i).innerVertices, ∀ w,
    Path (innerNeighbours g i) (g.fragment i).innerVertices w v → CarriedIn g i w v

omit [DecidableEq S] in
theorem Reaches.arrives (hfollows : FollowsEdges g) (hv : g.IsVertex v) (h : Reaches g u v) : Arrives g u v := by
  have hinside : ∀ {i : Fin n} {c w v : V}, v ∈ (g.fragment i).innerVertices → CarriedIn g i c w →
      w ∈ innerNeighbours g i v → CarriedIn g i c v := by
    intro i c w v hv hcarried hw
    have hinner := ((mem_innerNeighbours hv).mp hw).1
    exact hfollows i v hv c ((hcarried.path hinner fun v hv u hu => ((mem_innerNeighbours hv).mp hu).1).tail ⟨hv, hw⟩)
  induction h with
  | refl => exact .start hv (.self u) (.self u)
  | @tail w v hreach hflows ih =>
    rcases g.incomingInner _ v hv w hflows.2 with hinner | ⟨hout, hmirror, hin⟩
    · have hw := (mem_innerNeighbours hv).mpr ⟨hinner, hflows.2⟩
      have hvertex := PartitionedGraph.isVertex_iff.mpr ⟨_, hinner⟩
      cases ih hvertex with
      | @start i _ c _ inner first second =>
        obtain rfl : i = g.fragId v := (g.inner i w inner).symm.trans (g.inner _ w hinner)
        exact .start hv first (hinside hv second hw)
      | @across i _ c x _ before mirror edge inner inside =>
        have hsame : g.fragId x = g.fragId v := (g.inner _ w inner).symm.trans (g.inner _ w hinner)
        have hv' : v ∈ (g.fragment (g.fragId x)).innerVertices := by
          rw [hsame]
          exact hv
        exact .across before mirror edge hv' (hinside hv' inside (by rw [hsame]; exact hw))
    · exact .across (ih (g.outer _ w hout).2) hmirror hin hv (.self v)

omit [DecidableEq S] in
theorem arrives_iff_reaches (hfollows : FollowsEdges g) (hv : g.IsVertex v) : Arrives g u v ↔ Reaches g u v := by
  constructor
  · exact Arrives.reaches
  · exact Reaches.arrives hfollows hv

end rounds

section atRest
variable {n : Nat} {V S : Type} [DecidableEq S] {g : IncomingGraph n V S} {k : Nat}
  {outs : Fin n → Outcome n (PropertyWCCContext S) (V × Int)} {inbox : Fin n → List (V × Int)}

/-- The results are the smallest external ids of the weakly connected components. -/
def LeastIds (g : IncomingGraph n V S) (outs : Fin n → Outcome n (PropertyWCCContext S) (V × Int)) : Prop :=
  ∀ v, g.IsVertex v → IsLeast {a | ∃ u, SameComponent g u v ∧ g.getId u = a} (resultOf g outs v)

/-- What a run at rest has are external ids of vertices from which edges lead to the vertex. -/
theorem reaches_of_rest (hslots : OwnSlots g) (hrun : Run (pEval g) (incEval g) k outs) (hgoes : ¬ Quiet outs)
    (hinbox : ∀ i, (inbox i).Perm (inboxOf outs i)) {v : V} (hv : g.IsVertex v) :
    ∃ u, Reaches g u v ∧ g.getId u = resultOf g (fun i => incEval g i (outs i).state (inbox i)) v := by
  obtain ⟨sent, -, hlabelled⟩ := labelling_run hslots (.round inbox hrun hgoes hinbox) (g.fragId v)
  exact hlabelled.sound v (Or.inl hv)

theorem leastIds_of_arrives (hslots : OwnSlots g) (hrun : Run (pEval g) (incEval g) k outs) (hgoes : ¬ Quiet outs)
    (hinbox : ∀ i, (inbox i).Perm (inboxOf outs i)) (hquiet : Quiet fun i => incEval g i (outs i).state (inbox i))
    (harrives : ∀ v, g.IsVertex v → ∃ u, Arrives g u v ∧ ∀ w, SameComponent g w v → g.getId u ≤ g.getId w) :
    LeastIds g fun i => incEval g i (outs i).state (inbox i) := by
  intro v hv
  constructor
  · obtain ⟨u, hreach, hid⟩ := reaches_of_rest hslots hrun hgoes hinbox hv
    exact ⟨u, hreach.sameComponent, hid⟩
  · rintro a ⟨w, hw, rfl⟩
    obtain ⟨u, harrives, hleast⟩ := harrives v hv
    exact ((labelling_run hslots hrun).result_le hslots hinbox hquiet harrives).trans (hleast w hw)

theorem reaches_of_leastIds (hslots : OwnSlots g) (hrun : Run (pEval g) (incEval g) k outs) (hgoes : ¬ Quiet outs)
    (hinbox : ∀ i, (inbox i).Perm (inboxOf outs i))
    (hleast : LeastIds g fun i => incEval g i (outs i).state (inbox i)) {v : V} (hv : g.IsVertex v) :
    ∃ u, Reaches g u v ∧ ∀ w, SameComponent g w v → g.getId u ≤ g.getId w := by
  obtain ⟨u, hreach, hid⟩ := reaches_of_rest hslots hrun hgoes hinbox hv
  refine ⟨u, hreach, fun w hw => ?_⟩
  rw [hid]
  exact (hleast v hv).2 ⟨w, hw, rfl⟩

theorem leastIds_iff_of_followsEdges (hslots : OwnSlots g) (hfollows : FollowsEdges g)
    (hrun : Run (pEval g) (incEval g) k outs) (hgoes : ¬ Quiet outs) (hinbox : ∀ i, (inbox i).Perm (inboxOf outs i))
    (hquiet : Quiet fun i => incEval g i (outs i).state (inbox i)) :
    (LeastIds g fun i => incEval g i (outs i).state (inbox i)) ↔
      ∀ v, g.IsVertex v → ∃ u, Reaches g u v ∧ ∀ w, SameComponent g w v → g.getId u ≤ g.getId w := by
  constructor
  · exact fun hleast v hv => reaches_of_leastIds hslots hrun hgoes hinbox hleast hv
  · intro hreaches
    refine leastIds_of_arrives hslots hrun hgoes hinbox hquiet fun v hv => ?_
    obtain ⟨u, hreach, hleast⟩ := hreaches v hv
    exact ⟨u, (arrives_iff_reaches hfollows hv).mpr hreach, hleast⟩

theorem arrives_of_alone (halone : ∀ i, (g.fragment i).outerVertices = []) (hslots : OwnSlots g)
    (hrun : Run (pEval g) (incEval g) k outs) (hgoes : ¬ Quiet outs) (hinbox : ∀ i, (inbox i).Perm (inboxOf outs i))
    {v : V} (hv : g.IsVertex v) :
    ∃ u, Arrives g u v ∧ g.getId u = resultOf g (fun i => incEval g i (outs i).state (inbox i)) v := by
  have hsilent : ∀ i result, (sweep g i result).2 = [] := by
    intro i result
    unfold sweep
    rw [halone i]
    rfl
  cases hrun with
  | round inbox' before goes delivered =>
    refine absurd (fun i => ⟨?_, rfl⟩) hgoes
    show (sweep g i _).2.map _ = []
    rw [hsilent]
    rfl
  | start =>
    have hempty : inboxOf (pEval g) (g.fragId v) = [] := by
      refine List.eq_nil_iff_forall_not_mem.mpr fun m hm => ?_
      obtain ⟨j, hsent⟩ := mem_inboxOf.mp hm
      have hsent : (g.fragId v, m) ∈ (sweep g j (initial g j)).2.map fun m => (g.fragId m.1, m) := hsent
      rw [hsilent] at hsent
      cases hsent
    have hinner : v ∈ (g.fragment (g.fragId v)).innerVertices := hv
    obtain ⟨w, second, hw⟩ := ((sweptTo_sweep hslots (received g (pEval g) inbox (g.fragId v))).inner v hinner).1
    have hwInner := (carried_reaches hinner second).2
    obtain ⟨u, first, hu⟩ := ((sweptTo_sweep hslots (initial g (g.fragId v))).inner w hwInner).1
    refine ⟨u, .start hinner first second, ?_⟩
    have hreceived : received g (pEval g) inbox (g.fragId v) ((g.fragment (g.fragId v)).slot w) =
        (sweep g (g.fragId v) (initial g (g.fragId v))).1 ((g.fragment (g.fragId v)).slot w) := by
      have hnil := hinbox (g.fragId v)
      rw [hempty] at hnil
      unfold received
      rw [hnil.eq_nil]
      rfl
    rw [hreceived] at hw
    rw [← initial_slot hslots (Or.inl (carried_reaches hwInner first).2)]
    exact hu.trans hw

/-- When a run comes to rest, the results are right if the label of a vertex with the smallest id of the component
arrives at every vertex. They are right only if edges lead from one along their direction to the vertex, and in a
graph without outer vertices only if its label arrives. -/
theorem result_least_of_arrives (g : IncomingGraph n V S) (k : Nat)
    (outs : Fin n → Outcome n (PropertyWCCContext S) (V × Int)) (inbox : Fin n → List (V × Int)) (hslots : OwnSlots g)
    (hrun : Run (pEval g) (incEval g) k outs) (hgoes : ¬ Quiet outs) (hinbox : ∀ i, (inbox i).Perm (inboxOf outs i))
    (hquiet : Quiet fun i => incEval g i (outs i).state (inbox i)) :
    ((∀ v, g.IsVertex v → ∃ u, Arrives g u v ∧ ∀ w, SameComponent g w v → g.getId u ≤ g.getId w) →
      LeastIds g fun i => incEval g i (outs i).state (inbox i)) ∧
    ((LeastIds g fun i => incEval g i (outs i).state (inbox i)) →
      (∀ v, g.IsVertex v → ∃ u, Reaches g u v ∧ ∀ w, SameComponent g w v → g.getId u ≤ g.getId w) ∧
      ((∀ i, (g.fragment i).outerVertices = []) →
        ∀ v, g.IsVertex v → ∃ u, Arrives g u v ∧ ∀ w, SameComponent g w v → g.getId u ≤ g.getId w)) := by
  refine ⟨leastIds_of_arrives hslots hrun hgoes hinbox hquiet, fun hleast => ⟨fun v hv =>
    reaches_of_leastIds hslots hrun hgoes hinbox hleast hv, fun halone v hv => ?_⟩⟩
  obtain ⟨u, harrives, hid⟩ := arrives_of_alone halone hslots hrun hgoes hinbox hv
  refine ⟨u, harrives, fun w hw => ?_⟩
  rw [hid]
  exact (hleast v hv).2 ⟨w, hw, rfl⟩

end atRest

/-- Two vertices in a fragment each, with their external ids and an edge from the first to the second one. -/
def twoIds (first second : Int) : IncomingGraph 2 Nat (Nat × Nat) :=
  { twoVertices false with
    getId := fun v => if v = 0 then first else second
    incomingInner := by decide
    incomingOuter := by decide }

theorem ownSlots_twoIds (first second : Int) : OwnSlots (twoIds first second) := by
  unfold OwnSlots
  show ∀ i, ∀ v ∈ ((twoVertices false).fragment i).innerVertices,
    ∀ x ∈ ((twoVertices false).fragment i).outerVertices,
      ((twoVertices false).fragment i).slot v ≠ ((twoVertices false).fragment i).slot x
  decide

/-- The label 3 of the first vertex goes to the second one. -/
theorem result_least_of_arrives_two : ∃ outs, Run (pEval (twoIds 3 7)) (incEval (twoIds 3 7)) 1 outs ∧ Quiet outs ∧
    LeastIds (twoIds 3 7) outs := by
  have hgoes : ¬ Quiet (pEval (twoIds 3 7)) := by decide
  have hstart : Arrives (twoIds 3 7) 0 0 :=
    .start (show 0 ∈ ((twoIds 3 7).fragment 0).innerVertices by decide) (.self 0) (.self 0)
  have hacross : Arrives (twoIds 3 7) 0 1 :=
    .across hstart (show 1 ∈ ((twoIds 3 7).fragment 0).outerVertices by decide) (by decide) (by decide) (.self 1)
  refine ⟨_, .round _ .start hgoes fun i => .refl _, by decide, ?_⟩
  refine (result_least_of_arrives (twoIds 3 7) 0 _ _ (ownSlots_twoIds 3 7) .start hgoes (fun i => .refl _)
    (by decide)).1 fun v hv => ⟨0, ?_, fun w _ => ?_⟩
  · by_cases hv0 : v = 0
    · rw [hv0]
      exact hstart
    · have hv1 : v = 1 := by
        have hmem : v ∈ [((if v = 0 then 0 else 1 : Fin 2)).val] := hv
        rw [if_neg hv0] at hmem
        exact List.mem_singleton.mp hmem
      rw [hv1]
      exact hacross
  · show (3 : Int) ≤ if w = 0 then 3 else 7
    split <;> decide

/-- A vertex does not get the smaller id of the vertex that its edge leads to. -/
theorem result_upstream : ∃ outs, Run (pEval (twoIds 7 3)) (incEval (twoIds 7 3)) 1 outs ∧ Quiet outs ∧
    SameComponent (twoIds 7 3) 1 0 ∧ (twoIds 7 3).getId 1 = 3 ∧ resultOf (twoIds 7 3) outs 0 = 7 := by
  have hgoes : ¬ Quiet (pEval (twoIds 7 3)) := by decide
  have hedge : Flows (twoIds 7 3) 0 1 := ⟨by decide, by decide⟩
  exact ⟨_, .round _ .start hgoes fun i => .refl _, by decide, .symm _ _ (.rel _ _ hedge), rfl, by decide⟩

end Gart.Analytics.Wcc

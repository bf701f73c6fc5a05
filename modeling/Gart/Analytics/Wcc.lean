import Gart.Analytics.Fragments
import Gart.Lib.Slots
import Gart.Lib.Sweeps

/-!
# Connected components (apps/analytical_engine/apps/gart/property_wcc.h)

Labels go along the edges of the incoming lists. A vertex array is a function of slots.
-/

namespace Gart.Analytics
open Gart.Supersteps Gart.Slots Gart.Sweeps

/-- A graph with its external ids and incoming lists. The lists run over all edge labels; an undirected label lists the
neighbours of a vertex on both sides. A fragment has the edges of both its inner and its outer vertices. -/
structure IncomingGraph (n : Nat) (V S : Type) extends PartitionedGraph n V S where
  getId : V → Int
  incomingInner : ∀ i, ∀ v ∈ (fragment i).innerVertices, ∀ u ∈ (fragment i).incoming v,
    u ∈ (fragment i).innerVertices ∨ u ∈ (fragment i).outerVertices ∧
      v ∈ (fragment (fragId u)).outerVertices ∧ u ∈ (fragment (fragId u)).incoming v
  incomingOuter : ∀ i, ∀ x ∈ (fragment i).outerVertices, ∀ u ∈ (fragment i).incoming x,
    u ∈ (fragment i).innerVertices ∧ u ∈ (fragment (fragId x)).incoming x

/-- `PropertyWCCContext` (`property_wcc.h:33-68`) -/
structure PropertyWCCContext (S : Type) where
  result : S → Int

namespace Wcc

section program
variable {n : Nat} {V S : Type} [DecidableEq S]

def innerVertex (g : IncomingGraph n V S) (i : Fin n) (result : S → Int) (src : V) : S → Int :=
  ((g.fragment i).incoming src).foldl (fun result dst =>
    if g.fragId dst = i then
      if result ((g.fragment i).slot dst) < result ((g.fragment i).slot src) then
        Function.update result ((g.fragment i).slot src) (result ((g.fragment i).slot dst))
      else result
    else result) result

/-- The smallest label that an outer vertex gets from its neighbours. -/
def newData (g : IncomingGraph n V S) (i : Fin n) (result : S → Int) (src : V) : Int :=
  lowest (fun dst => result ((g.fragment i).slot dst)) ((g.fragment i).incoming src) (result ((g.fragment i).slot src))

def outerVertex (g : IncomingGraph n V S) (i : Fin n) (st : (S → Int) × List (V × Int)) (src : V) :
    (S → Int) × List (V × Int) :=
  if newData g i st.1 src < st.1 ((g.fragment i).slot src) then
    (Function.update st.1 ((g.fragment i).slot src) (newData g i st.1 src), st.2 ++ [(src, newData g i st.1 src)])
  else st

def innerSweep (g : IncomingGraph n V S) (i : Fin n) (result : S → Int) : S → Int :=
  (g.fragment i).innerVertices.foldl (innerVertex g i) result

def sweep (g : IncomingGraph n V S) (i : Fin n) (result : S → Int) : (S → Int) × List (V × Int) :=
  (g.fragment i).outerVertices.foldl (outerVertex g i) (innerSweep g i result, [])

def initial (g : IncomingGraph n V S) (i : Fin n) : S → Int :=
  fill (g.fragment i).slot g.getId ((g.fragment i).innerVertices ++ (g.fragment i).outerVertices) fun _ => 2 ^ 63 - 1

/-- `PropertyWCC::PEval` (`property_wcc.h:85-148`) -/
def pEval (g : IncomingGraph n V S) (i : Fin n) : Outcome n (PropertyWCCContext S) (V × Int) :=
  let swept := sweep g i (initial g i)
  { state := { result := swept.1 }
    sent := swept.2.map fun m => (g.fragId m.1, m)
    forceContinue := true }

def receive (f : AppFragment V S) (inbox : List (V × Int)) (result : S → Int) : S → Int :=
  inbox.foldl (fun result m =>
    if m.2 < result (f.slot m.1) then Function.update result (f.slot m.1) m.2 else result) result

/-- `PropertyWCC::IncEval` (`property_wcc.h:150-211`) -/
def incEval (g : IncomingGraph n V S) (i : Fin n) (ctx : PropertyWCCContext S) (inbox : List (V × Int)) :
    Outcome n (PropertyWCCContext S) (V × Int) :=
  let swept := sweep g i (receive (g.fragment i) inbox ctx.result)
  { state := { result := swept.1 }
    sent := swept.2.map fun m => (g.fragId m.1, m)
    forceContinue := false }

/-- The result of a vertex in the fragment that has it as an inner vertex. -/
def resultOf (g : IncomingGraph n V S) (outs : Fin n → Outcome n (PropertyWCCContext S) (V × Int)) (v : V) : Int :=
  (outs (g.fragId v)).state.result ((g.fragment (g.fragId v)).slot v)

end program

/-! ### The loops of a fragment -/

section loops
variable {n : Nat} {V S : Type} [DecidableEq S] {g : IncomingGraph n V S} {i : Fin n} {result result' : S → Int} {s : S}
  {u v x : V}

/-- No outer vertex of a fragment has the slot of an inner vertex. -/
def OwnSlots (g : IncomingGraph n V S) : Prop :=
  ∀ i, ∀ v ∈ (g.fragment i).innerVertices, ∀ x ∈ (g.fragment i).outerVertices,
    (g.fragment i).slot v ≠ (g.fragment i).slot x

/-- `GetIncomingAdjList` of an inner vertex, with the neighbours that `IsInnerVertex` holds of. -/
def innerNeighbours (g : IncomingGraph n V S) (i : Fin n) (src : V) : List V :=
  ((g.fragment i).incoming src).filter fun dst => g.fragId dst = i

omit [DecidableEq S] in
theorem mem_innerNeighbours (hv : v ∈ (g.fragment i).innerVertices) : u ∈ innerNeighbours g i v ↔
    u ∈ (g.fragment i).innerVertices ∧ u ∈ (g.fragment i).incoming v := by
  unfold innerNeighbours
  rw [List.mem_filter, decide_eq_true_iff]
  constructor
  · rintro ⟨hmem, hinner⟩
    refine ⟨(g.incomingInner i v hv u hmem).resolve_right ?_, hmem⟩
    rintro ⟨hout, -⟩
    exact (g.outer i u hout).1 hinner
  · rintro ⟨hinner, hmem⟩
    exact ⟨hmem, g.inner i u hinner⟩

theorem innerVertex_eq : innerVertex g i result v = Function.update result ((g.fragment i).slot v)
    (lowest (fun dst => result ((g.fragment i).slot dst)) (innerNeighbours g i v)
        (result ((g.fragment i).slot v))) := by
  -- the label of the vertex is the only one that changes, and it does not grow
  have hall : ∀ (us : List V) (a : Int), a ≤ result ((g.fragment i).slot v) →
      us.foldl (fun result dst =>
        if g.fragId dst = i then
          if result ((g.fragment i).slot dst) < result ((g.fragment i).slot v) then
            Function.update result ((g.fragment i).slot v) (result ((g.fragment i).slot dst))
          else result
        else result) (Function.update result ((g.fragment i).slot v) a) =
      Function.update result ((g.fragment i).slot v) (lowest (fun dst => result ((g.fragment i).slot dst))
        (us.filter fun dst => g.fragId dst = i) a) := by
    intro us
    induction us with
    | nil => exact fun a _ => rfl
    | cons dst us ih =>
      intro a ha
      rw [List.foldl_cons]
      by_cases hinner : g.fragId dst = i
      · have hfilter : (dst :: us).filter (fun dst => g.fragId dst = i) =
            dst :: us.filter fun dst => g.fragId dst = i := by
          simp [hinner]
        rw [if_pos hinner, hfilter, Function.update_self]
        by_cases hs : (g.fragment i).slot dst = (g.fragment i).slot v
        · rw [hs, Function.update_self, if_neg (lt_irrefl a), ih a ha, lowest_cons]
          rw [hs, if_neg (not_lt.mpr ha)]
        · rw [Function.update_of_ne hs, lowest_cons]
          by_cases hlt : result ((g.fragment i).slot dst) < a
          · rw [if_pos hlt, if_pos hlt, Function.update_idem]
            exact ih _ (hlt.le.trans ha)
          · rw [if_neg hlt, if_neg hlt]
            exact ih a ha
      · have hfilter : (dst :: us).filter (fun dst => g.fragId dst = i) = us.filter fun dst => g.fragId dst = i := by
          simp [hinner]
        rw [if_neg hinner, hfilter]
        exact ih a ha
  have := hall ((g.fragment i).incoming v) (result ((g.fragment i).slot v)) (le_refl _)
  rw [Function.update_eq_self] at this
  exact this

theorem innerSweep_least (hv : v ∈ (g.fragment i).innerVertices) :
    IsLeast {a | ∃ w, Carried (innerNeighbours g i) (g.fragment i).innerVertices w v ∧
      result ((g.fragment i).slot w) = a} (innerSweep g i result ((g.fragment i).slot v)) := by
  refine @sweep_least _ _ _ _ (innerNeighbours g i) (g.fragment i).innerVertices v
    (fun result v => result ((g.fragment i).slot v)) (innerVertex g i) (List.Nodup.of_map _ (g.innerSlots i))
    (fun v hv u hu => ((mem_innerNeighbours hv).mp hu).1) (fun result v _ => ?_) (fun result v hv w hw hne => ?_)
    result hv
  · rw [innerVertex_eq, Function.update_self]
  · rw [innerVertex_eq]
    exact Function.update_of_ne (fun hs => hne (PartitionedGraph.inner_slot hw hv hs)) _ _

theorem innerSweep_other (hs : s ∉ (g.fragment i).innerVertices.map (g.fragment i).slot) :
    innerSweep g i result s = result s := by
  unfold innerSweep
  generalize (g.fragment i).innerVertices = us at hs
  induction us generalizing result with
  | nil => rfl
  | cons u us ih =>
    rw [List.map_cons, List.mem_cons, not_or] at hs
    rw [List.foldl_cons, ih hs.2, innerVertex_eq, Function.update_of_ne hs.1]

omit [DecidableEq S] in
theorem newData_congr (hx : result ((g.fragment i).slot x) = result' ((g.fragment i).slot x))
    (hu : ∀ u ∈ (g.fragment i).incoming x, result ((g.fragment i).slot u) = result' ((g.fragment i).slot u)) :
    newData g i result x = newData g i result' x := by
  unfold newData
  rw [hx, lowest_congr hu]

theorem outerVertices_spec {xs : List V} {sent : List (V × Int)} (hxs : (xs.map (g.fragment i).slot).Nodup)
    (hother : ∀ x ∈ xs, ∀ u ∈ (g.fragment i).incoming x, (g.fragment i).slot u ∉ xs.map (g.fragment i).slot) :
    (xs.foldl (outerVertex g i) (result, sent)).1 = fill (g.fragment i).slot (newData g i result) xs result ∧
      ∀ m, m ∈ (xs.foldl (outerVertex g i) (result, sent)).2 ↔ m ∈ sent ∨ m.1 ∈ xs ∧ m.2 = newData g i result m.1 ∧
        newData g i result m.1 < result ((g.fragment i).slot m.1) := by
  induction xs generalizing result sent with
  | nil => simp [fill]
  | cons x xs ih =>
    obtain ⟨hnew, hrest⟩ := List.nodup_cons.mp hxs
    obtain ⟨hx, hxs'⟩ := List.forall_mem_cons.mp hother
    have hstep : (outerVertex g i (result, sent) x).1 =
        Function.update result ((g.fragment i).slot x) (newData g i result x) := by
      unfold outerVertex
      dsimp only
      split
      · rfl
      · rename_i hle
        have hsame : newData g i result x = result ((g.fragment i).slot x) :=
          le_antisymm lowest_le_start (not_lt.mp hle)
        rw [hsame, Function.update_eq_self]
    have hsent : ∀ m, m ∈ (outerVertex g i (result, sent) x).2 ↔ m ∈ sent ∨ m = (x, newData g i result x) ∧
        newData g i result x < result ((g.fragment i).slot x) := by
      intro m
      unfold outerVertex
      dsimp only
      split
      · rename_i hlt
        simp [hlt]
      · rename_i hle
        simp [hle]
    -- the other vertices of the list see the labels from before
    have hkept : ∀ u ∈ xs,
        Function.update result ((g.fragment i).slot x) (newData g i result x) ((g.fragment i).slot u) =
        result ((g.fragment i).slot u) := fun u hu =>
      Function.update_of_ne (fun hs => hnew (List.mem_map.mpr ⟨u, hu, hs⟩)) _ _
    have hdata : ∀ u ∈ xs, newData g i (Function.update result ((g.fragment i).slot x) (newData g i result x)) u =
        newData g i result u := fun u hu => newData_congr (hkept u hu) fun w hw =>
      Function.update_of_ne (fun hs => hxs' u hu w hw (List.mem_map.mpr ⟨x, List.mem_cons_self, hs.symm⟩)) _ _
    obtain ⟨hlabels, hall⟩ := @ih (outerVertex g i (result, sent) x).1 (outerVertex g i (result, sent) x).2 hrest
      fun u hu w hw hmem => hxs' u hu w hw (List.mem_cons_of_mem _ hmem)
    rw [List.foldl_cons]
    rw [hstep] at hlabels hall
    refine ⟨?_, fun m => ?_⟩
    · rw [show outerVertex g i (result, sent) x =
          ((outerVertex g i (result, sent) x).1, (outerVertex g i (result, sent) x).2)
        from rfl, hstep, hlabels, fill_congr hdata]
      rfl
    · rw [show outerVertex g i (result, sent) x =
          ((outerVertex g i (result, sent) x).1, (outerVertex g i (result, sent) x).2)
        from rfl, hstep, hall m, hsent m, List.mem_cons, or_assoc]
      refine or_congr_right ⟨?_, ?_⟩
      · rintro (⟨rfl, hlt⟩ | ⟨hmem, hval, hlt⟩)
        · exact ⟨Or.inl rfl, rfl, hlt⟩
        · rw [hdata m.1 hmem] at hval hlt
          rw [hkept m.1 hmem] at hlt
          exact ⟨Or.inr hmem, hval, hlt⟩
      · rintro ⟨rfl | hmem, hval, hlt⟩
        · exact Or.inl ⟨Prod.ext rfl hval, hlt⟩
        · rw [hdata m.1 hmem, hkept m.1 hmem]
          exact Or.inr ⟨hmem, hval, hlt⟩

end loops

end Wcc

end Gart.Analytics

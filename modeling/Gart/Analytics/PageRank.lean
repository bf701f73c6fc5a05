import Gart.Analytics.Fragments
import Gart.Lib.Slots
import Mathlib.Algebra.Order.BigOperators.Group.Finset
import Mathlib.Algebra.Order.BigOperators.Group.List
import Mathlib.Tactic.FieldSimp
import Mathlib.Tactic.Linarith
import Mathlib.Tactic.LinearCombination
import Mathlib.Tactic.Ring

/-!
# PageRank (apps/analytical_engine/apps/gart/property_pagerank.h)

The application over exact rationals. A vertex array is a function of slots.
-/

namespace Gart.Analytics
open Gart.Supersteps Gart.Slots

/-- `PropertyPageRankContext` (`property_pagerank.h:32-85`) -/
structure PageRankContext (S : Type) where
  result : S → ℚ
  resultNext : S → ℚ
  degree : S → Nat
  currentRound : Int
  totalVertexNum : Nat
  danglingSum : ℚ
  totalDanglingVnum : Nat

/-- What the second loop of `PEval` changes. -/
structure Spread (S : Type) where
  result : S → ℚ
  resultNext : S → ℚ
  danglingVnum : Nat

namespace PageRank

section program
variable {n : Nat} {V S : Type} [DecidableEq S]

/-- `ctx.result_next[dst] += msg` for the edges of a vertex. -/
def scatter (f : AppFragment V S) (msg : ℚ) (resultNext : S → ℚ) (src : V) : S → ℚ :=
  (f.outgoing src).foldl (fun next e => Function.update next (f.slot e.1) (next (f.slot e.1) + msg)) resultNext

def degrees (f : AppFragment V S) : S → Nat :=
  fill f.slot (fun src => (f.outgoing src).length) f.innerVertices fun _ => 0

def firstTurn (f : AppFragment V S) (degree : S → Nat) (p : ℚ) (st : Spread S) (src : V) : Spread S :=
  let result := Function.update st.result (f.slot src) p
  let edgeNum := degree (f.slot src)
  if edgeNum > 0 then
    { st with
      result := result
      resultNext := scatter f (p / edgeNum) st.resultNext src }
  else
    { st with
      result := result
      danglingVnum := st.danglingVnum + 1 }

def firstSpread (f : AppFragment V S) (p : ℚ) : Spread S :=
  f.innerVertices.foldl (firstTurn f (degrees f) p)
      { result := fun _ => 0, resultNext := fun _ => 0, danglingVnum := 0 }

/-- `PropertyPageRank::PEval` (`property_pagerank.h:104-209`) -/
def pEval (g : PartitionedGraph n V S) (i : Fin n) : Outcome n (PageRankContext S) (V × ℚ) :=
  let f := g.fragment i
  let totalVertexNum := ∑ j, (g.fragment j).innerVertices.length
  let p : ℚ := 1 / totalVertexNum
  let st := firstSpread f p
  let totalDanglingVnum := ∑ j, (firstSpread (g.fragment j) p).danglingVnum
  let synced := drain f.slot 0 f.outerVertices st.resultNext
  { state :=
      { result := st.result, resultNext := synced.2, degree := degrees f, currentRound := 0
        totalVertexNum := totalVertexNum, danglingSum := p * totalDanglingVnum, totalDanglingVnum := totalDanglingVnum }
    sent := synced.1.map fun m => (g.fragId m.1, m)
    forceContinue := true }

def receive (f : AppFragment V S) (resultNext : S → ℚ) (inbox : List (V × ℚ)) : S → ℚ :=
  inbox.foldl (fun next m => Function.update next (f.slot m.1) (next (f.slot m.1) + m.2)) resultNext

/-- The new ranks; what has been added up is cleared. -/
def refresh (f : AppFragment V S) (base delta : ℚ) (result resultNext : S → ℚ) : (S → ℚ) × (S → ℚ) :=
  f.innerVertices.foldl (fun st src => (Function.update st.1 (f.slot src) (base + delta * st.2 (f.slot src)),
    Function.update st.2 (f.slot src) 0)) (result, resultNext)

def spread (f : AppFragment V S) (degree : S → Nat) (result resultNext : S → ℚ) : S → ℚ :=
  f.innerVertices.foldl (fun next src =>
    let edgeNum := degree (f.slot src)
    if edgeNum > 0 then scatter f (result (f.slot src) / edgeNum) next src else next) resultNext

/-- `PropertyPageRank::IncEval` (`property_pagerank.h:211-283`) -/
def incEval (g : PartitionedGraph n V S) (delta : ℚ) (maxRound : Int) (i : Fin n) (ctx : PageRankContext S)
    (inbox : List (V × ℚ)) : Outcome n (PageRankContext S) (V × ℚ) :=
  let f := g.fragment i
  let currentRound := ctx.currentRound + 1
  let base := (1 - delta) / ctx.totalVertexNum + delta * ctx.danglingSum / ctx.totalVertexNum
  let danglingSum := base * ctx.totalDanglingVnum
  let resultNext := receive f ctx.resultNext inbox
  if currentRound = maxRound then
    { state := { ctx with
        result := fill f.slot (fun src => base + delta * resultNext (f.slot src)) f.innerVertices ctx.result
        resultNext := resultNext
        currentRound := currentRound
        danglingSum := danglingSum }
      sent := []
      forceContinue := false }
  else
    let refreshed := refresh f base delta ctx.result resultNext
    let synced := drain f.slot 0 f.outerVertices (spread f ctx.degree refreshed.1 refreshed.2)
    { state := { ctx with
        result := refreshed.1
        resultNext := synced.2
        currentRound := currentRound
        danglingSum := danglingSum }
      sent := synced.1.map fun m => (g.fragId m.1, m)
      forceContinue := false }

def rankSum (g : PartitionedGraph n V S) (outs : Fin n → Outcome n (PageRankContext S) (V × ℚ)) : ℚ :=
  ∑ i, ((g.fragment i).innerVertices.map fun v => (outs i).state.result ((g.fragment i).slot v)).sum

/-- The vertex that gets what is added for a neighbour: an outer vertex that has the slot, when there is one. -/
def landing (f : AppFragment V S) (w : V) : V := (f.outerVertices.find? fun x => f.slot x = f.slot w).getD w

end program

/-! ### The loops -/

section loops
variable {V S : Type} [DecidableEq S] {f : AppFragment V S} {us : List V} {next : S → ℚ} {s : S} {v : V}

def hits (f : AppFragment V S) (u : V) (s : S) : Nat := ((f.outgoing u).map fun e => f.slot e.1).count s

theorem scatter_apply (msg : ℚ) (src : V) : scatter f msg next src s = next s + hits f src s * msg := by
  unfold scatter hits
  induction f.outgoing src generalizing next with
  | nil => simp
  | cons e edges ih =>
    rw [List.foldl_cons, ih, List.map_cons, List.count_cons]
    by_cases hs : f.slot e.1 = s
    · rw [hs, Function.update_self]
      simp
      ring
    · rw [Function.update_of_ne (Ne.symm hs)]
      simp [hs]

def flowOf (f : AppFragment V S) (rank : V → ℚ) (us : List V) (s : S) : ℚ :=
  (us.map fun u => hits f u s * (rank u / (f.outgoing u).length)).sum

def flow (f : AppFragment V S) (rank : V → ℚ) (s : S) : ℚ := flowOf f rank f.innerVertices s

theorem degrees_inner (hslots : (f.innerVertices.map f.slot).Nodup) (hv : v ∈ f.innerVertices) :
    degrees f (f.slot v) = (f.outgoing v).length := fill_key hslots hv

theorem scatter_turn {degree : S → Nat} {rank : ℚ} (hdegree : degree (f.slot v) = (f.outgoing v).length) :
    (if degree (f.slot v) > 0 then scatter f (rank / degree (f.slot v)) next v else next) s =
      next s + hits f v s * (rank / (f.outgoing v).length) := by
  rw [hdegree]
  split
  · exact scatter_apply _ v
  · rename_i hzero
    have hnil : f.outgoing v = [] := List.length_eq_zero_iff.mp (by omega)
    unfold hits
    simp [hnil]

theorem spread_apply {degree : S → Nat} {result : S → ℚ} {rank : V → ℚ}
    (hdegree : ∀ v ∈ f.innerVertices, degree (f.slot v) = (f.outgoing v).length)
    (hresult : ∀ v ∈ f.innerVertices, result (f.slot v) = rank v) :
    spread f degree result next s = next s + flow f rank s := by
  unfold spread flow flowOf
  generalize f.innerVertices = us at hdegree hresult
  induction us generalizing next with
  | nil => simp
  | cons u us ih =>
    have hu := hdegree u List.mem_cons_self
    rw [List.foldl_cons, ih (fun v hv => hdegree v (List.mem_cons_of_mem u hv))
      fun v hv => hresult v (List.mem_cons_of_mem u hv), List.map_cons, List.sum_cons]
    rw [scatter_turn hu, hresult u List.mem_cons_self]
    ring

theorem firstTurns_spec {degree : S → Nat} (p : ℚ) (st : Spread S)
    (hdegree : ∀ v ∈ us, degree (f.slot v) = (f.outgoing v).length) :
    (us.foldl (firstTurn f degree p) st).result = fill f.slot (fun _ => p) us st.result ∧
      (∀ s, (us.foldl (firstTurn f degree p) st).resultNext s = st.resultNext s + flowOf f (fun _ => p) us s) ∧
      (us.foldl (firstTurn f degree p) st).danglingVnum =
        st.danglingVnum + us.countP fun u => (f.outgoing u).isEmpty := by
  induction us generalizing st with
  | nil => simp [fill, flowOf]
  | cons u us ih =>
    have hu := hdegree u List.mem_cons_self
    obtain ⟨hresult, hnext, hnum⟩ := ih (firstTurn f degree p st u) fun v hv => hdegree v (List.mem_cons_of_mem u hv)
    rw [List.foldl_cons, hresult, hnum]
    have hfirst : (firstTurn f degree p st u).result = Function.update st.result (f.slot u) p := by
      unfold firstTurn
      dsimp only
      split <;> rfl
    refine ⟨by rw [hfirst]; rfl, fun s => ?_, ?_⟩
    · rw [hnext]
      have hturn : (firstTurn f degree p st u).resultNext s =
          (if degree (f.slot u) > 0 then scatter f (p / degree (f.slot u)) st.resultNext u else st.resultNext) s := by
        unfold firstTurn
        dsimp only
        split <;> rfl
      rw [hturn, scatter_turn hu]
      unfold flowOf
      rw [List.map_cons, List.sum_cons]
      ring
    · rw [List.countP_cons]
      unfold firstTurn
      dsimp only
      rw [hu]
      cases hedges : f.outgoing u with
      | nil => simp; omega
      | cons e edges => simp

theorem firstSpread_spec (hslots : (f.innerVertices.map f.slot).Nodup) (p : ℚ) :
    (∀ v ∈ f.innerVertices, (firstSpread f p).result (f.slot v) = p) ∧
      (∀ s, (firstSpread f p).resultNext s = flow f (fun _ => p) s) ∧
      (firstSpread f p).danglingVnum = f.innerVertices.countP fun u => (f.outgoing u).isEmpty := by
  obtain ⟨hresult, hnext, hnum⟩ :=
    firstTurns_spec p { result := fun _ => 0, resultNext := fun _ => 0, danglingVnum := 0 }
    fun v hv => @degrees_inner _ _ _ f v hslots hv
  refine ⟨fun v hv => ?_, fun s => ?_, ?_⟩
  · exact (congrFun hresult _).trans (fill_key hslots hv)
  · exact (hnext s).trans (zero_add _)
  · exact hnum.trans (Nat.zero_add _)

theorem receive_apply (inbox : List (V × ℚ)) :
    receive f next inbox s = next s + (inbox.map fun m => if f.slot m.1 = s then m.2 else 0).sum := by
  unfold receive
  induction inbox generalizing next with
  | nil => simp
  | cons m inbox ih =>
    rw [List.foldl_cons, ih, List.map_cons, List.sum_cons]
    by_cases hs : f.slot m.1 = s
    · rw [← hs, Function.update_self, if_pos rfl]
      ring
    · rw [Function.update_of_ne (Ne.symm hs), if_neg hs]
      ring

theorem refresh_spec (hslots : (f.innerVertices.map f.slot).Nodup) (base delta : ℚ) (result resultNext : S → ℚ) :
    refresh f base delta result resultNext =
      (fill f.slot (fun src => base + delta * resultNext (f.slot src)) f.innerVertices result,
        fun s => if s ∈ f.innerVertices.map f.slot then 0 else resultNext s) := by
  unfold refresh
  generalize f.innerVertices = us at hslots
  induction us generalizing result resultNext with
  | nil => simp [fill]
  | cons u us ih =>
    obtain ⟨hnew, hrest⟩ := List.nodup_cons.mp hslots
    have hsame : ∀ v ∈ us, base + delta * Function.update resultNext (f.slot u) 0 (f.slot v) =
        base + delta * resultNext (f.slot v) := fun v hv => by
      rw [Function.update_of_ne fun heq => hnew (List.mem_map.mpr ⟨v, hv, heq⟩)]
    rw [List.foldl_cons, ih _ _ hrest, fill_congr hsame]
    refine Prod.ext rfl (funext fun s => ?_)
    by_cases hs : s = f.slot u
    · simp [hs]
    · simp [hs, Function.update_of_ne]

end loops

end PageRank

end Gart.Analytics

import Gart.Fragment.ReadSpec

/-!
# Searching an adjacency list (graph_ops/del_edge.cc, graph_ops/del_vertex.cc)

A deletion goes through the blocks of a list from the newest entry to the oldest. It looks for the slot of an edge,
or collects the slots that no marker names; the number of a slot counts the entries of all older blocks.
-/

namespace Gart.Seggraph
open Gart.ByteMemory Gart.Outcome Gart.Fragment

namespace VegitoSegment

/-- The entries of a block from `remaining` down, up to the first that is searched. -/
def findInBlock (seg : VegitoSegment) (searched : Nat → Bool) (edgeBlock : Nat) : Nat → Option Nat
  | 0 => none
  | r + 1 => if searched (seg.getEntry edgeBlock r) then some r else findInBlock seg searched edgeBlock r

/-- The blocks of a chain; `prefix_sum` of a block is the number of entries of the older ones. -/
def findInBlocks (seg : VegitoSegment) (searched : Nat → Bool) : List Nat → Option Nat
  | [] => none
  | edgeBlock :: older =>
    match seg.findInBlock searched edgeBlock (seg.getNumEntries edgeBlock) with
    | some r => some (r + (older.map seg.getNumEntries).sum)
    | none => findInBlocks seg searched older

def findEntry (seg : VegitoSegment) (searched : Nat → Bool) (edgeBlock : Nat) : Except Fault (Option Nat) :=
  if edgeBlock = 0 then .error .nullBlock
  else do
    let blocks ← seg.chainBlocks chainLimit edgeBlock
    return seg.findInBlocks searched blocks

/-- `delete_offsets`, and the slots found with their vertices. -/
structure LiveScan where
  deleteOffsets : List Nat := []
  deleteLoc : List (Nat × Nat) := []

/-- One round of the loop that finds the edges of a deleted vertex. -/
def scanEntry (vid loc : Nat) (st : LiveScan) : LiveScan :=
  if vid ≥ deleteFlag then { st with deleteOffsets := MarkerLog.push (vid - deleteFlag) st.deleteOffsets }
  else
    match st.deleteOffsets with
    | [] => { st with deleteLoc := st.deleteLoc ++ [(vid, loc)] }
    | top :: rest =>
      if top ≠ loc then { st with deleteLoc := st.deleteLoc ++ [(vid, loc)] } else { st with deleteOffsets := rest }

def scanEntries (seg : VegitoSegment) (edgeBlock older : Nat) : Nat → LiveScan → LiveScan
  | 0, st => st
  | r + 1, st => scanEntries seg edgeBlock older r (scanEntry (seg.getEntry edgeBlock r) (r + older) st)

def scanBlocks (seg : VegitoSegment) : List Nat → LiveScan → LiveScan
  | [], st => st
  | edgeBlock :: older, st =>
    scanBlocks seg older
      (seg.scanEntries edgeBlock (older.map seg.getNumEntries).sum (seg.getNumEntries edgeBlock) st)

/-- `delete_vertices` and `delete_loc` -/
def findEdges (seg : VegitoSegment) (edgeBlock : Nat) : Except Fault (List (Nat × Nat)) := do
  let blocks ← seg.chainBlocks chainLimit edgeBlock
  return (seg.scanBlocks blocks {}).deleteLoc

end VegitoSegment

/-! ### What is found -/

def newest (searched : Nat → Bool) (edges : List Edge) : Nat → Option Nat
  | 0 => none
  | k + 1 =>
    match edges[k]? with
    | some edge => if searched edge.dst then some k else newest searched edges k
    | none => newest searched edges k

theorem newest_succ {searched : Nat → Bool} {edges : List Edge} {edge : Edge} {k : Nat} (h : edges[k]? = some edge) :
    newest searched edges (k + 1) = if searched edge.dst then some k else newest searched edges k := by
  rw [newest, h]

/-- The edges of a list that its reader stops at, with their positions. -/
def liveEdges (edges : List Edge) : List (Nat × Nat) :=
  (MarkerLog.yields (marksOf edges) edges.length []).filterMap fun p => edges[p]?.map fun edge => (edge.dst, p)

section found
variable {tracked : Prop} {stride : Nat} {seg : VegitoSegment} {searched : Nat → Bool} {b : Block} {rest : List Block}
  {edges : List Edge} {prevNum prevPtr r : Nat}

theorem findInBlock_spec (hw : BlockWords seg b (chainEdges rest).length prevPtr)
    (hedges : chainEdges (b :: rest) <+: edges) (hr : r ≤ b.edges.length) :
    newest searched edges ((chainEdges rest).length + r) =
      match seg.findInBlock searched (b.pointer seg.head) r with
      | some i => some (i + (chainEdges rest).length)
      | none => newest searched edges (chainEdges rest).length := by
  induction r with
  | zero => rfl
  | succ r ih =>
    have hlt : r < b.edges.length := hr
    have hentry := hw.getEntry r hlt
    have hget := getElem_of_chain hedges hlt
    unfold VegitoSegment.findInBlock
    rw [hentry, show (chainEdges rest).length + (r + 1) = (chainEdges rest).length + r + 1 from rfl]
    rw [newest_succ hget]
    split
    · rw [Nat.add_comm]
    · exact ih (Nat.le_of_lt hlt)

theorem findInBlocks_spec {c : List Block} (h : ChainOk tracked stride seg c) (hedges : chainEdges c <+: edges) :
    seg.findInBlocks searched (c.map fun b => b.pointer seg.head) = newest searched edges (chainEdges c).length := by
  induction c with
  | nil => rfl
  | cons b rest ih =>
    obtain ⟨hw, -, -, -, hrest⟩ := h
    have hsum := hrest.sum_numEntries
    have hlen : (chainEdges (b :: rest)).length = (chainEdges rest).length + b.edges.length := List.length_append
    have hspec := @findInBlock_spec seg searched b rest edges (chainPtr seg.head rest) b.edges.length hw hedges
      (Nat.le_refl _)
    rw [List.map_cons, hlen, hspec]
    unfold VegitoSegment.findInBlocks
    rw [hw.getNumEntries, hsum, ih hrest ((List.prefix_append _ _).trans hedges)]

theorem findEntry_spec {c : List Block} (h : ChainOk tracked stride seg c) (hne : c ≠ []) :
    seg.findEntry searched (chainPtr seg.head c) = .ok (newest searched (chainEdges c) (chainEdges c).length) := by
  unfold VegitoSegment.findEntry
  rw [if_neg (fun hzero => hne (chainPtr_eq_zero.mp hzero)), h.chainBlocks_chainLimit]
  show Except.ok _ = _
  exact congrArg Except.ok (findInBlocks_spec h List.prefix_rfl)

/-! ### What is collected -/

/-- The collecting loop over the entries of a list from a position down. -/
def scanList (edges : List Edge) : Nat → VegitoSegment.LiveScan → VegitoSegment.LiveScan
  | 0, st => st
  | k + 1, st =>
    match edges[k]? with
    | some edge => scanList edges k (VegitoSegment.scanEntry edge.dst k st)
    | none => scanList edges k st

theorem scanList_succ {edge : Edge} {k : Nat} {st : VegitoSegment.LiveScan} (h : edges[k]? = some edge) :
    scanList edges (k + 1) st = scanList edges k (VegitoSegment.scanEntry edge.dst k st) := by
  rw [scanList, h]

theorem scanList_yields {k : Nat} (hk : k ≤ edges.length) (st : VegitoSegment.LiveScan) :
    (scanList edges k st).deleteLoc = st.deleteLoc ++
      (MarkerLog.yields (marksOf edges) k st.deleteOffsets).filterMap fun p =>
        edges[p]?.map fun edge => (edge.dst, p) := by
  induction k generalizing st with
  | zero => exact (List.append_nil _).symm
  | succ k ih =>
    have hedge : edges[k]? = some edges[k] := List.getElem?_eq_getElem hk
    have hlt : k ≤ edges.length := Nat.le_of_lt hk
    rw [scanList_succ hedge, ih hlt]
    simp only [MarkerLog.yields, marksOf_getElem hedge]
    unfold VegitoSegment.scanEntry
    by_cases hflag : edges[k].dst ≥ deleteFlag
    · rw [if_pos hflag, if_pos hflag]
    · rw [if_neg hflag, if_neg hflag]
      have hcons : ∀ ps : List Nat, ((k :: ps).filterMap fun p => edges[p]?.map fun edge => (edge.dst, p)) =
          (edges[k].dst, k) :: ps.filterMap fun p => edges[p]?.map fun edge => (edge.dst, p) := by
        intro ps
        apply List.filterMap_cons_some
        rw [hedge]
        rfl
      cases st.deleteOffsets with
      | nil =>
        dsimp only
        rw [hcons, List.append_assoc]
        rfl
      | cons top rest =>
        dsimp only
        by_cases htop : top = k
        · rw [if_neg (fun hne => hne htop), if_pos htop]
        · rw [if_pos htop, if_neg htop]
          dsimp only
          rw [hcons, List.append_assoc]
          rfl

theorem scanEntries_spec (hw : BlockWords seg b (chainEdges rest).length prevPtr)
    (hedges : chainEdges (b :: rest) <+: edges) (hr : r ≤ b.edges.length) (st : VegitoSegment.LiveScan) :
    scanList edges ((chainEdges rest).length + r) st =
      scanList edges (chainEdges rest).length
        (seg.scanEntries (b.pointer seg.head) (chainEdges rest).length r st) := by
  induction r generalizing st with
  | zero => rfl
  | succ r ih =>
    have hlt : r < b.edges.length := hr
    have hget := getElem_of_chain hedges hlt
    unfold VegitoSegment.scanEntries
    rw [hw.getEntry r hlt, show (chainEdges rest).length + (r + 1) = (chainEdges rest).length + r + 1 from rfl,
      scanList_succ hget, ih (Nat.le_of_lt hlt), Nat.add_comm r]

theorem scanBlocks_spec {c : List Block} (h : ChainOk tracked stride seg c) (hedges : chainEdges c <+: edges)
    (st : VegitoSegment.LiveScan) :
    seg.scanBlocks (c.map fun b => b.pointer seg.head) st = scanList edges (chainEdges c).length st := by
  induction c generalizing st with
  | nil => rfl
  | cons b rest ih =>
    obtain ⟨hw, -, -, -, hrest⟩ := h
    have hlen : (chainEdges (b :: rest)).length = (chainEdges rest).length + b.edges.length := List.length_append
    rw [List.map_cons, hlen, scanEntries_spec hw hedges (Nat.le_refl _) st]
    unfold VegitoSegment.scanBlocks
    rw [hw.getNumEntries, hrest.sum_numEntries, ih hrest ((List.prefix_append _ _).trans hedges)]

theorem findEdges_spec {c : List Block} (h : ChainOk tracked stride seg c) :
    seg.findEdges (chainPtr seg.head c) = .ok (liveEdges (chainEdges c)) := by
  unfold VegitoSegment.findEdges
  rw [h.chainBlocks_chainLimit]
  show Except.ok _ = _
  rw [scanBlocks_spec h List.prefix_rfl, scanList_yields (Nat.le_refl _)]
  rfl

theorem mem_liveEdges {edges : List Edge} {found : Nat × Nat} (h : found ∈ liveEdges edges) :
    ∃ edge, edges[found.2]? = some edge ∧ edge.dst = found.1 := by
  obtain ⟨p, -, hp⟩ := List.mem_filterMap.mp h
  obtain ⟨edge, hedge, rfl⟩ := Option.map_eq_some_iff.mp hp
  exact ⟨edge, hedge, rfl⟩

end found

end Gart.Seggraph

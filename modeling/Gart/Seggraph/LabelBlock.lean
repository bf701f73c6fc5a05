import Gart.Seggraph.Merge

/-!
# The edge-label block as a map

`update_edge_label_block` changes what `locate_segment` finds for one label and
one direction (both for an undirected label), in place, by appending to the
block, or in a larger copy of it.
-/

namespace Gart.Seggraph
open Gart.ByteMemory Gart.Outcome

/-- What the loop of `locate_segment` finds among label entries. -/
def entriesPointer (entries : List EdgeLabelEntry) (label : Nat) (dir : Dir) : Nat :=
  match entries.find? (fun entry => entry.label == label) with
  | some entry => entry.getPointer dir
  | none => 0

namespace SegGraph

theorem locateSegment_eq (g : SegGraph) (segid label : Nat) (dir : Dir) :
    g.locateSegment segid label dir =
      if g.edgeLabelPtrs segid = 0 then 0
      else entriesPointer (g.edgeLabelBlocks (g.edgeLabelPtrs segid)).entries label dir := rfl

theorem locateSegment_of_null {g : SegGraph} {segid : Nat} (h : g.edgeLabelPtrs segid = 0)
    (label : Nat) (dir : Dir) : g.locateSegment segid label dir = 0 := by
  rw [locateSegment_eq, if_pos h]

theorem locateSegment_of_block {g : SegGraph} {segid q : Nat} (h : g.edgeLabelPtrs segid = q)
    (hq : q ≠ 0) (label : Nat) (dir : Dir) :
    g.locateSegment segid label dir = entriesPointer (g.edgeLabelBlocks q).entries label dir := by
  subst h
  rw [locateSegment_eq, if_neg hq]

/-- The pointers that belong to one list of edges: a direction, or both of an
undirected label. -/
def SameList (undirected : Bool) (dir dir' : Dir) : Prop := dir' = dir ∨ undirected = true

instance (undirected : Bool) (dir dir' : Dir) : Decidable (SameList undirected dir dir') :=
  inferInstanceAs (Decidable (_ ∨ _))

theorem setLabelPointer_label (undirected : Bool) (dir : Dir) (pointer : Nat)
    (entry : EdgeLabelEntry) : (setLabelPointer undirected dir pointer entry).label = entry.label := by
  cases undirected <;> cases dir <;> rfl

theorem setLabelPointer_getPointer (undirected : Bool) (dir dir' : Dir) (pointer : Nat)
    (entry : EdgeLabelEntry) :
    (setLabelPointer undirected dir pointer entry).getPointer dir' =
      if SameList undirected dir dir' then pointer else entry.getPointer dir' := by
  cases undirected <;> cases dir <;> cases dir' <;> rfl

section entries
variable {label : Nat} {undirected : Bool} {dir : Dir} {pointer : Nat}

theorem entriesPointer_cons (entry : EdgeLabelEntry) (rest : List EdgeLabelEntry) (l : Nat)
    (d : Dir) : entriesPointer (entry :: rest) l d =
      if entry.label = l then entry.getPointer d else entriesPointer rest l d := by
  simp only [entriesPointer, List.find?_cons]
  by_cases hl : entry.label = l
  · simp [hl]
  · have hbeq : (entry.label == l) = false := by simpa using hl
    rw [hbeq, if_neg hl]

theorem entriesPointer_rewrite {entries entries' : List EdgeLabelEntry}
    (h : rewriteLabelEntry label (setLabelPointer undirected dir pointer) entries = some entries')
    (l : Nat) (d : Dir) : entriesPointer entries' l d =
      if l = label ∧ SameList undirected dir d then pointer else entriesPointer entries l d := by
  induction entries generalizing entries' with
  | nil => simp [rewriteLabelEntry] at h
  | cons entry rest ih =>
    simp only [rewriteLabelEntry] at h
    by_cases hlabel : entry.label = label
    · rw [if_pos hlabel] at h
      rw [← Option.some.inj h]
      simp only [entriesPointer_cons, setLabelPointer_label, setLabelPointer_getPointer]
      by_cases hl : l = label
      · subst hl
        simp [hlabel]
      · have hne : ¬ entry.label = l := by
          rintro rfl
          exact hl hlabel
        simp [hl, hne]
    · rw [if_neg hlabel] at h
      obtain ⟨rest', hrest, rfl⟩ := Option.map_eq_some_iff.mp h
      simp only [entriesPointer_cons, ih hrest]
      by_cases hl : entry.label = l
      · have hne : ¬ l = label := by
          rintro rfl
          exact hlabel hl
        simp [hl, hne]
      · simp [hl]

theorem entriesPointer_append {entries : List EdgeLabelEntry}
    (h : rewriteLabelEntry label (setLabelPointer undirected dir pointer) entries = none)
    (l : Nat) (d : Dir) :
    entriesPointer (entries ++ [setLabelPointer undirected dir pointer ⟨label, 0, 0⟩]) l d =
      if l = label ∧ SameList undirected dir d then pointer else entriesPointer entries l d := by
  induction entries with
  | nil =>
    simp only [List.nil_append, entriesPointer_cons, setLabelPointer_label,
      setLabelPointer_getPointer]
    by_cases hl : l = label
    · subst hl
      cases d <;> simp [entriesPointer, EdgeLabelEntry.getPointer]
    · simp [hl, Ne.symm hl]
  | cons entry rest ih =>
    simp only [rewriteLabelEntry] at h
    by_cases hlabel : entry.label = label
    · rw [if_pos hlabel] at h
      exact absurd h (by simp)
    · rw [if_neg hlabel, Option.map_eq_none_iff] at h
      simp only [List.cons_append, entriesPointer_cons, ih h]
      by_cases hl : entry.label = l
      · have hne : ¬ l = label := by
          rintro rfl
          exact hlabel hl
        simp [hl, hne]
      · simp [hl]

theorem foldl_append_label {order : Nat} {entries acc : List EdgeLabelEntry}
    (hsize : edgeLabelHeaderSize + (acc.length + entries.length) * edgeLabelEntrySize ≤ 2 ^ order) :
    entries.foldl (fun block entry => (block.append entry).getD block)
        { order := order, entries := acc } =
      ({ order := order, entries := acc ++ entries } : EdgeLabelBlock) := by
  induction entries generalizing acc with
  | nil => simp
  | cons entry rest ih =>
    simp only [List.length_cons, edgeLabelHeaderSize, edgeLabelEntrySize] at hsize
    have hfits : ({ order := order, entries := acc } : EdgeLabelBlock).append entry =
        some { order := order, entries := acc ++ [entry] } := by
      unfold EdgeLabelBlock.append
      rw [if_neg (by simp only [edgeLabelHeaderSize, edgeLabelEntrySize]; omega)]
    rw [List.foldl_cons, hfits, Option.getD_some, ih]
    · simp
    · simp only [List.length_append, List.length_singleton, edgeLabelHeaderSize,
        edgeLabelEntrySize]
      omega

end entries

/-! ### The update -/

def Obtained (bm bm' : BlockManager) (old pointer : Nat) : Prop :=
  (pointer = old ∧ old ≠ 0 ∧ bm' = bm) ∨ BlockManager.Alloc bm pointer bm'

theorem Obtained.wellFormed {bm bm' : BlockManager} {old pointer : Nat}
    (h : Obtained bm bm' old pointer) (hbm : bm.WellFormed) : bm'.WellFormed := by
  rcases h with ⟨-, -, rfl⟩ | ha
  · exact hbm
  · exact ha.wellFormed

theorem Obtained.capacity {bm bm' : BlockManager} {old pointer : Nat}
    (h : Obtained bm bm' old pointer) : bm'.capacity = bm.capacity := by
  rcases h with ⟨-, -, rfl⟩ | ha
  · rfl
  · exact ha.capacity

theorem allocBlock_spec {g : SegGraph} (hbm : g.blockManager.WellFormed) (order : Nat) :
    Ensures (g.allocBlock order)
      (fun r => ∃ bm', r.2 = { g with blockManager := bm' } ∧
        (r.1 = 0 ∨ (BlockManager.Alloc g.blockManager r.1 bm' ∧
          r.1 + 2 ^ order ≤ g.blockManager.capacity)))
      Stop.Exhausted := by
  unfold allocBlock
  dsimp only
  split
  · trivial
  · rename_i hin
    refine ⟨_, rfl, ?_⟩
    rcases BlockManager.alloc_spec hbm order with h0 | halloc
    · exact Or.inl h0
    · refine Or.inr ⟨halloc, ?_⟩
      have hpos := halloc.pos
      have hcap := halloc.capacity
      simp only [ne_eq, gt_iff_lt, not_and, Nat.not_lt] at hin
      have hle := hin (by omega)
      omega

/-- The graph after `update_edge_label_block`. -/
structure LabelUpdate (g g' : SegGraph) (segid label : Nat) (dir : Dir) (pointer : Nat) : Prop where
  result : ∃ q bm' block, g' = { g with
      blockManager := bm'
      edgeLabelPtrs := Function.update g.edgeLabelPtrs segid q
      edgeLabelBlocks := Function.update g.edgeLabelBlocks q block } ∧
    Obtained g.blockManager bm' (g.edgeLabelPtrs segid) q ∧
    ∀ l d, entriesPointer block.entries l d =
      if l = label ∧ SameList (g.isEdgeUndirected label) dir d then pointer
      else g.locateSegment segid l d

theorem replaceLabelBlock_spec {g : SegGraph} (hbm : g.blockManager.WellFormed) {segid : Nat}
    (entries : List EdgeLabelEntry) (labelEntry : EdgeLabelEntry) :
    Ensures (g.replaceLabelBlock segid entries labelEntry)
      (fun g' => ∃ q bm' block, g' = { g with
          blockManager := bm'
          edgeLabelPtrs := Function.update g.edgeLabelPtrs segid q
          edgeLabelBlocks := Function.update g.edgeLabelBlocks q block } ∧
        BlockManager.Alloc g.blockManager q bm' ∧ block.entries = entries ++ [labelEntry])
      Stop.Exhausted := by
  unfold replaceLabelBlock
  refine Ensures.bind (allocBlock_spec hbm _) ?_
  rintro ⟨q, g1⟩ ⟨bm', hg1, hq⟩
  subst hg1
  dsimp only at hq ⊢
  by_cases h0 : q = 0
  · rw [if_pos h0]
    trivial
  · rw [if_neg h0]
    rcases hq with hq | ⟨halloc, -⟩
    · exact absurd hq h0
    · refine ⟨q, bm', _, rfl, halloc, ?_⟩
      rw [foldl_append_label]
      · rfl
      · have hle := le_two_pow_sizeToOrder
          (edgeLabelHeaderSize + (1 + entries.length) * edgeLabelEntrySize)
        simp only [List.length_nil, List.length_append, List.length_singleton, Nat.zero_add]
        rw [Nat.add_comm entries.length 1]
        exact hle

theorem updateEdgeLabelBlock_spec {g : SegGraph} (hbm : g.blockManager.WellFormed)
    (segid label : Nat) (dir : Dir) (pointer : Nat) :
    Ensures (g.updateEdgeLabelBlock segid label dir pointer)
      (fun g' => LabelUpdate g g' segid label dir pointer) Stop.Exhausted := by
  unfold updateEdgeLabelBlock
  dsimp only
  by_cases h0 : g.edgeLabelPtrs segid = 0
  · rw [if_pos h0]
    refine (replaceLabelBlock_spec hbm [] _).imp ?_
    rintro g' ⟨q, bm', block, hg', halloc, hentries⟩
    refine ⟨q, bm', block, hg', Or.inr halloc, ?_⟩
    intro l d
    rw [hentries, entriesPointer_append rfl, locateSegment_eq, if_pos h0]
    rfl
  · rw [if_neg h0]
    have hloc : ∀ l d, g.locateSegment segid l d =
        entriesPointer (g.edgeLabelBlocks (g.edgeLabelPtrs segid)).entries l d := by
      intro l d
      rw [locateSegment_eq, if_neg h0]
    -- rewriting or appending in place leaves the pointer of the block as it is
    have hinplace : ∀ block, (∀ l d, entriesPointer block.entries l d =
          if l = label ∧ SameList (g.isEdgeUndirected label) dir d then pointer
          else g.locateSegment segid l d) →
        LabelUpdate g (g.setEdgeLabelBlock (g.edgeLabelPtrs segid) block) segid label dir
          pointer := by
      intro block hblock
      refine ⟨g.edgeLabelPtrs segid, g.blockManager, block, ?_, Or.inl ⟨rfl, h0, rfl⟩, hblock⟩
      rw [Function.update_eq_self]
      rfl
    split
    · rename_i entries hrewrite
      apply hinplace
      intro l d
      rw [entriesPointer_rewrite hrewrite, hloc]
    · rename_i hrewrite
      split
      · rename_i block' happend
        apply hinplace
        intro l d
        unfold EdgeLabelBlock.append at happend
        split at happend
        · exact absurd happend (by simp)
        · rw [← Option.some.inj happend]
          dsimp only
          rw [entriesPointer_append hrewrite, hloc]
      · refine (replaceLabelBlock_spec hbm _ _).imp ?_
        rintro g' ⟨q, bm', block, hg', halloc, hentries⟩
        refine ⟨q, bm', block, hg', Or.inr halloc, ?_⟩
        intro l d
        rw [hentries, entriesPointer_append hrewrite, hloc]

end SegGraph

end Gart.Seggraph

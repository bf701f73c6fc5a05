import Gart.Store.ArrayCol

/-!
# Runs of the array property store

Every row is inserted once and then updated as a whole. A reader gets the last write of the row that its version may
see, when no updatable column comes after a fixed one.
-/

namespace Gart.Store
open Gart.ByteMemory Gart.Versions

inductive ArrayWrite
  | insert (off key : Nat) (cells : List Bytes) (ver : Nat)
  | update (off : Nat) (cids : List Nat) (cells : List Bytes) (seq ver : Nat)

namespace ArrayWrite

def off : ArrayWrite → Nat
  | .insert off _ _ _ => off
  | .update off _ _ _ _ => off

def cells : ArrayWrite → List Bytes
  | .insert _ _ cells _ => cells
  | .update _ _ cells _ _ => cells

def ver : ArrayWrite → Nat
  | .insert _ _ _ ver => ver
  | .update _ _ _ _ ver => ver

def seq : ArrayWrite → Nat
  | .insert _ _ _ _ => 0
  | .update _ _ _ seq _ => seq

def IsInsert : ArrayWrite → Prop
  | .insert _ _ _ _ => True
  | .update _ _ _ _ _ => False

end ArrayWrite

def lastRowWrite (writes : List ArrayWrite) (off ver : Nat) : Option ArrayWrite :=
  writes.reverse.find? fun w => w.off = off ∧ w.ver ≤ ver

namespace PropertyColArray

def apply (p : PropertyColArray) : ArrayWrite → PropertyColArray
  | .insert off key cells ver => p.insert off key cells.flatten ver
  | .update off cids cells seq ver => p.update off cids cells.flatten seq ver

end PropertyColArray

/-- A write that may follow others: a row is inserted once and then updated with growing sequence numbers and its old
fixed values, and versions do not decrease. -/
structure NextWrite (cols : List ColumnFamily) (maxItems : Nat) (writes : List ArrayWrite) (w : ArrayWrite) : Prop where
  row : w.off < maxItems
  cells : w.cells.map List.length = cols.map ColumnFamily.vlen
  versions : ∀ v ∈ writes, v.ver ≤ w.ver
  insert : w.IsInsert ↔ ∀ v ∈ writes, v.off ≠ w.off
  signed : w.seq < 2 ^ 63
  seq : ∀ v ∈ writes, v.off = w.off → v.seq < w.seq
  fixed : ∀ v ∈ writes, v.off = w.off → ∀ (i : Nat) (col : ColumnFamily), cols[i]? = some col → ¬ col.updatable →
    v.cells[i]? = w.cells[i]?

def ValidWrites (cols : List ColumnFamily) (maxItems : Nat) (writes : List ArrayWrite) : Prop :=
  ∀ before w after, writes = before ++ w :: after → NextWrite cols maxItems before w

/-- For every column of a row that is inserted at a version, a reader gets the cell of the last write. -/
def ReadsLast (p : PropertyColArray) (writes : List ArrayWrite) : Prop :=
  ∀ off i ver, (∃ key cells v, .insert off key cells v ∈ writes ∧ v ≤ ver) → i < p.cols.length →
    ∃ w, lastRowWrite writes off ver = some w ∧ p.getByOffset off i ver = w.cells[i]?

def UpdatableFirst (cols : List ColumnFamily) : Prop :=
  ∀ (i j : Nat) (fixed col : ColumnFamily), i < j → cols[i]? = some fixed → cols[j]? = some col →
      col.updatable = true → 0 < col.vlen →
    fixed.updatable = true

section last
variable {writes : List ArrayWrite} {w : ArrayWrite} {off e : Nat}

theorem lastRowWrite_append : lastRowWrite (writes ++ [w]) off e =
    if w.off = off ∧ w.ver ≤ e then some w else lastRowWrite writes off e := by
  unfold lastRowWrite
  rw [List.reverse_append]
  show List.find? _ (w :: writes.reverse) = _
  rw [List.find?_cons]
  by_cases h : w.off = off ∧ w.ver ≤ e
  · rw [if_pos h, decide_eq_true h]
  · rw [if_neg h, decide_eq_false h]

theorem mem_of_lastRowWrite (h : lastRowWrite writes off e = some w) : w ∈ writes ∧ w.off = off ∧ w.ver ≤ e := by
  have hmem := List.mem_of_find?_eq_some h
  have hp := List.find?_some h
  exact ⟨List.mem_reverse.mp hmem, of_decide_eq_true hp⟩

theorem exists_lastRowWrite {v : ArrayWrite} (hv : v ∈ writes) (hoff : v.off = off) (hver : v.ver ≤ e) :
    ∃ w, lastRowWrite writes off e = some w := by
  refine Option.isSome_iff_exists.mp (List.find?_isSome.mpr ⟨v, List.mem_reverse.mpr hv, ?_⟩)
  exact decide_eq_true ⟨hoff, hver⟩

end last

/-! ### One write -/

section step
variable {cols : List ColumnFamily} {maxItems : Nat} {writes : List ArrayWrite} {w : ArrayWrite}
  {p : PropertyColArray}

theorem apply_eq (hsigned : w.seq < 2 ^ 63) (hseq : p.seq w.off < w.seq) : ∃ p' : PropertyColArray,
    p'.cols = p.cols ∧ p'.maxItems = p.maxItems ∧ p'.seq = p.seq ∧ p'.fixCols = p.fixCols ∧ p'.flexCols = p.flexCols ∧
      p.apply w = { PropertyColArray.putCols w.off (p.seq w.off) w.ver p.cols.zipIdx w.cells.flatten p' with
        seq := Function.update p.seq w.off w.seq } := by
  have hput : ∀ (key : Nat) (insert : Bool), ∃ p' : PropertyColArray,
      p'.cols = p.cols ∧ p'.maxItems = p.maxItems ∧ p'.seq = p.seq ∧ p'.fixCols = p.fixCols ∧ p'.flexCols = p.flexCols ∧
        p.put w.off key w.cells.flatten w.seq w.ver insert =
          { PropertyColArray.putCols w.off (p.seq w.off) w.ver p.cols.zipIdx w.cells.flatten p' with
            seq := Function.update p.seq w.off w.seq } := by
    intro key insert
    have hlater : ¬ p.seq w.off ≥ (w.seq : Int) := by omega
    unfold PropertyColArray.put
    dsimp only
    rw [if_neg hlater]
    by_cases hnew : insert = true ∧ p.seq w.off = -1
    · refine ⟨{ p with keyCol := Function.update p.keyCol w.off key }, rfl, rfl, rfl, rfl, rfl, ?_⟩
      rw [if_pos hnew]
      dsimp only
      rw [PropertyColArray.putCols_rest.2.2]
    · refine ⟨p, rfl, rfl, rfl, rfl, rfl, ?_⟩
      rw [if_neg hnew]
      rw [PropertyColArray.putCols_rest.2.2]
  cases w with
  | insert off key cells ver => exact hput key true
  | update off cids cells seq ver =>
    have hwrap : Decimal.wrap 64 (seq : Int) = seq := by
      have hlt : seq < 2 ^ 63 := hsigned
      unfold Decimal.wrap
      exact Int.bmod_eq_of_le (by omega) (by omega)
    obtain ⟨p', hcols, hmax, hseqs, hfix, hflex, heq⟩ := hput (2 ^ 64 - 1) false
    refine ⟨p', hcols, hmax, hseqs, hfix, hflex, ?_⟩
    rw [← heq]
    show p.put off (2 ^ 64 - 1) cells.flatten (Decimal.wrap 64 seq) ver false = _
    rw [hwrap]
    rfl

structure RowInv (cols : List ColumnFamily) (writes : List ArrayWrite) (p : PropertyColArray) (off : Nat) : Prop where
  absent : (∀ v ∈ writes, v.off ≠ off) → p.seq off = -1 ∧ ∀ i, p.flexCols i off = []
  present : ∀ v ∈ writes, v.off = off → 0 ≤ p.seq off ∧ ∃ u ∈ writes, u.off = off ∧ p.seq off = u.seq
  upTo : ∀ i ver, (∀ v ∈ writes, v.ver ≤ ver) → UpTo ValueNode.ver ver (p.flexCols i off)
  nonempty : ∀ (i : Nat) (col : ColumnFamily), cols[i]? = some col → col.updatable = true →
      ∀ v ∈ writes, v.off = off → p.flexCols i off ≠ []
  flex : ∀ (i : Nat) (col : ColumnFamily), cols[i]? = some col → col.updatable = true → ∀ e,
    (visible ValueNode.ver e (p.flexCols i off)).map ValueNode.val =
    (lastRowWrite writes off e).bind fun w => w.cells[i]?
  fix : ∀ (i : Nat) (col : ColumnFamily), cols[i]? = some col → ¬ col.updatable → ∀ v ∈ writes, v.off = off →
      v.cells[i]? = some (p.fixCols i off)

structure ArrayInv (cols : List ColumnFamily) (writes : List ArrayWrite) (p : PropertyColArray) : Prop where
  sameCols : p.cols = cols
  cells : ∀ v ∈ writes, v.cells.map List.length = cols.map ColumnFamily.vlen
  rows : ∀ off, RowInv cols writes p off

theorem arrayInv_create (blank : Nat → Nat → Bytes) : ArrayInv cols [] (.create cols maxItems blank) where
  sameCols := rfl
  cells v hv := by cases hv
  rows off :=
    { absent := fun _ => ⟨rfl, fun _ => rfl⟩
      present := fun v hv => by cases hv
      upTo := fun i ver _ x hx => by cases hx
      nonempty := fun i col _ _ v hv => by cases hv
      flex := fun i col _ _ e => rfl
      fix := fun i col _ _ v hv => by cases hv }

theorem cell_of_lengths {cells : List Bytes} (h : cells.map List.length = cols.map ColumnFamily.vlen) {i : Nat}
    {col : ColumnFamily} (hcol : cols[i]? = some col) : ∃ value, cells[i]? = some value ∧ value.length = col.vlen := by
  have hlen := congrArg (fun xs => xs[i]?) h
  rw [List.getElem?_map, List.getElem?_map, hcol] at hlen
  obtain ⟨value, hvalue, hlength⟩ := Option.map_eq_some_iff.mp hlen
  exact ⟨value, hvalue, hlength⟩

theorem exists_fixed {metaSeq : Int} {j : Nat} {col : ColumnFamily}
    (hreach : PropertyColArray.reach metaSeq cols ≤ j) (hcol : cols[j]? = some col) :
    metaSeq ≥ 0 ∧ ∃ i fixed, i ≤ j ∧ cols[i]? = some fixed ∧ ¬ fixed.updatable := by
  induction cols generalizing j with
  | nil => cases hcol
  | cons first cols ih =>
    by_cases hstop : metaSeq ≥ 0 ∧ ¬ first.updatable
    · exact ⟨hstop.1, 0, first, Nat.zero_le _, rfl, hstop.2⟩
    · rw [PropertyColArray.reach_cons hstop] at hreach
      cases j with
      | zero => omega
      | succ j =>
        obtain ⟨hseq, i, fixed, hle, hfixed, hnot⟩ := ih (by omega) hcol
        exact ⟨hseq, i + 1, fixed, by omega, hfixed, hnot⟩

theorem RowInv.other (h : RowInv cols writes p off) (hne : w.off ≠ off) {p' : PropertyColArray}
    (hseq : p'.seq off = p.seq off) (hfix : ∀ i, p'.fixCols i off = p.fixCols i off)
    (hflex : ∀ i, p'.flexCols i off = p.flexCols i off) : RowInv cols (writes ++ [w]) p' off := by
  have hold : ∀ v ∈ writes ++ [w], v.off = off → v ∈ writes := by
    intro v hv hoff
    rcases List.mem_append.mp hv with hv | hv
    · exact hv
    · rw [List.mem_singleton.mp hv] at hoff
      exact absurd hoff hne
  constructor
  · intro hnone
    rw [hseq]
    obtain ⟨hs, hempty⟩ := h.absent fun v hv => hnone v (List.mem_append_left _ hv)
    exact ⟨hs, fun i => (hflex i).trans (hempty i)⟩
  · intro v hv hoff
    rw [hseq]
    obtain ⟨hpos, u, hu, huoff, hus⟩ := h.present v (hold v hv hoff) hoff
    exact ⟨hpos, u, List.mem_append_left _ hu, huoff, hus⟩
  · intro i ver hver
    rw [hflex]
    exact h.upTo i ver fun v hv => hver v (List.mem_append_left _ hv)
  · intro i col hcol hup v hv hoff
    rw [hflex]
    exact h.nonempty i col hcol hup v (hold v hv hoff) hoff
  · intro i col hcol hup e
    rw [hflex, lastRowWrite_append, if_neg fun hw => hne hw.1]
    exact h.flex i col hcol hup e
  · intro i col hcol hfixed v hv hoff
    rw [hfix]
    exact h.fix i col hcol hfixed v (hold v hv hoff) hoff

theorem RowInv.written (h : RowInv cols writes p w.off) (hfirst : UpdatableFirst cols)
    (hnext : NextWrite cols maxItems writes w)
    (hcells : ∀ v ∈ writes, v.cells.map List.length = cols.map ColumnFamily.vlen) {p' p'' : PropertyColArray}
    (hfixCols : p'.fixCols = p.fixCols) (hflexCols : p'.flexCols = p.flexCols)
    (hput : p'' = { PropertyColArray.putCols w.off (p.seq w.off) w.ver cols.zipIdx w.cells.flatten p' with
      seq := Function.update p.seq w.off w.seq }) : RowInv cols (writes ++ [w]) p'' w.off := by
  have hself : w ∈ writes ++ [w] := List.mem_append_right _ (List.mem_singleton.mpr rfl)
  have hseq : p''.seq w.off = w.seq := by rw [hput]; exact Function.update_self _ _ _
  have hmem : ∀ v ∈ writes ++ [w], v ∈ writes ∨ v = w := fun v hv =>
    (List.mem_append.mp hv).imp_right List.mem_singleton.mp
  -- a row that is not there has no sequence number, and no node
  have hnew : p.seq w.off = -1 → ∀ v ∈ writes, v.off ≠ w.off := by
    intro hneg v hv hoff
    have hpos := (h.present v hv hoff).1
    omega
  have hold : p.seq w.off ≠ -1 → ∃ v ∈ writes, v.off = w.off := by
    intro hne
    by_contra hnone
    exact hne (h.absent fun v hv hoff => hnone ⟨v, hv, hoff⟩).1
  have hcell : ∀ i col value, cols[i]? = some col → w.cells[i]? = some value →
      i < PropertyColArray.reach (p.seq w.off) cols →
      p''.fixCols i w.off = (if col.updatable then p.fixCols i w.off else value) ∧
        p''.flexCols i w.off =
            if col.updatable then PropertyColArray.putNode (p.seq w.off) w.ver value (p.flexCols i w.off)
          else p.flexCols i w.off := by
    intro i col value hcol hvalue hi
    have hput' :=
      @PropertyColArray.putCols_cell (p.seq w.off) w.off w.ver 0 i cols w.cells p' col value hnext.cells hi hcol
      hvalue
    rw [Nat.zero_add, hfixCols, hflexCols] at hput'
    rw [hput]
    exact hput'
  have hkept : ∀ i, PropertyColArray.reach (p.seq w.off) cols ≤ i →
      p''.fixCols i w.off = p.fixCols i w.off ∧ p''.flexCols i w.off = p.flexCols i w.off := by
    intro i hi
    have hframe :=
      @PropertyColArray.putCols_frame (p.seq w.off) w.off w.ver 0 i w.off cols p' w.cells.flatten (by omega)
    rw [hfixCols, hflexCols] at hframe
    rw [hput]
    exact hframe
  have hnode : ∀ i col value, cols[i]? = some col → col.updatable = true →
      UpTo ValueNode.ver w.ver (PropertyColArray.putNode (p.seq w.off) w.ver value (p.flexCols i w.off)) ∧
        ∀ e, (visible ValueNode.ver e (PropertyColArray.putNode (p.seq w.off) w.ver value (p.flexCols i w.off))).map
          ValueNode.val = if w.ver ≤ e then some value
            else (visible ValueNode.ver e (p.flexCols i w.off)).map ValueNode.val := by
    intro i col value hcol hup
    refine putNode_spec (fun hneg => (h.absent (hnew hneg)).2 i) (fun hne => ?_) (h.upTo i w.ver hnext.versions)
    obtain ⟨v, hv, hoff⟩ := hold hne
    exact h.nonempty i col hcol hup v hv hoff
  -- a column with values is only left out when it is fixed
  have hempty : ∀ i col, cols[i]? = some col → col.updatable = true → PropertyColArray.reach (p.seq w.off) cols ≤ i →
      col.vlen = 0 ∧ p.seq w.off ≠ -1 := by
    intro i col hcol hup hi
    obtain ⟨hpos, j, fixed, hle, hfixed, hnot⟩ := exists_fixed hi hcol
    refine ⟨?_, by omega⟩
    have hlt : j < i := by
      rcases Nat.lt_or_eq_of_le hle with hlt | rfl
      · exact hlt
      · rw [hcol] at hfixed
        rw [← Option.some.inj hfixed] at hnot
        exact absurd hup hnot
    by_contra hsize
    exact hnot (hfirst j i fixed col hlt hfixed hcol hup (Nat.pos_of_ne_zero hsize))
  constructor
  · intro hnone
    exact absurd rfl (hnone w hself)
  · intro v _ _
    rw [hseq]
    exact ⟨by omega, w, hself, rfl, rfl⟩
  · intro i ver hver
    have hle : w.ver ≤ ver := hver w hself
    have hbefore := h.upTo i w.ver hnext.versions
    by_cases hi : i < PropertyColArray.reach (p.seq w.off) cols
    · obtain ⟨col, hcol⟩ : ∃ col, cols[i]? = some col := by
        exact ⟨_, List.getElem?_eq_getElem (Nat.lt_of_lt_of_le hi PropertyColArray.reach_le_length)⟩
      obtain ⟨value, hvalue, -⟩ := cell_of_lengths hnext.cells hcol
      rw [(hcell i col value hcol hvalue hi).2]
      by_cases hup : col.updatable = true
      · rw [if_pos hup]
        exact (hnode i col value hcol hup).1.mono hle
      · rw [if_neg hup]
        exact hbefore.mono hle
    · rw [(hkept i (by omega)).2]
      exact hbefore.mono hle
  · intro i col hcol hup v _ _
    by_cases hi : i < PropertyColArray.reach (p.seq w.off) cols
    · obtain ⟨value, hvalue, -⟩ := cell_of_lengths hnext.cells hcol
      rw [(hcell i col value hcol hvalue hi).2, if_pos hup]
      intro hnil
      have hread := (hnode i col value hcol hup).2 w.ver
      rw [hnil, if_pos (Nat.le_refl _)] at hread
      cases hread
    · rw [(hkept i (by omega)).2]
      obtain ⟨u, hu, huoff⟩ := hold (hempty i col hcol hup (by omega)).2
      exact h.nonempty i col hcol hup u hu huoff
  · intro i col hcol hup e
    obtain ⟨value, hvalue, hlength⟩ := cell_of_lengths hnext.cells hcol
    rw [lastRowWrite_append]
    by_cases hi : i < PropertyColArray.reach (p.seq w.off) cols
    · rw [(hcell i col value hcol hvalue hi).2, if_pos hup, (hnode i col value hcol hup).2 e]
      by_cases he : w.ver ≤ e
      · rw [if_pos he, if_pos ⟨rfl, he⟩]
        exact hvalue.symm
      · rw [if_neg he, if_neg fun hw => he hw.2]
        exact h.flex i col hcol hup e
    · rw [(hkept i (by omega)).2, h.flex i col hcol hup e]
      obtain ⟨hsize, hne⟩ := hempty i col hcol hup (by omega)
      by_cases he : w.ver ≤ e
      · -- the cells of a column without bytes are all the same
        obtain ⟨v, hv, hoff⟩ := hold hne
        obtain ⟨u, hu⟩ := exists_lastRowWrite hv hoff (Nat.le_trans (hnext.versions v hv) he)
        obtain ⟨value', hvalue', hlength'⟩ := cell_of_lengths (hcells u (mem_of_lastRowWrite hu).1) hcol
        rw [if_pos ⟨rfl, he⟩, hu]
        show u.cells[i]? = w.cells[i]?
        rw [hvalue, hvalue', List.length_eq_zero_iff.mp (hlength.trans hsize),
          List.length_eq_zero_iff.mp (hlength'.trans hsize)]
      · rw [if_neg fun hw => he hw.2]
  · intro i col hcol hfixed v hv hoff
    obtain ⟨value, hvalue, -⟩ := cell_of_lengths hnext.cells hcol
    by_cases hneg : p.seq w.off = -1
    · have hi : i < PropertyColArray.reach (p.seq w.off) cols := by
        unfold PropertyColArray.reach
        rw [if_neg (by omega)]
        exact (List.getElem?_eq_some_iff.mp hcol).1
      rw [(hcell i col value hcol hvalue hi).1, if_neg hfixed]
      rcases hmem v hv with hv | rfl
      · exact absurd hoff (hnew hneg v hv)
      · exact hvalue
    · have hi : PropertyColArray.reach (p.seq w.off) cols ≤ i := by
        by_contra hi
        obtain ⟨u, hu, huoff⟩ := hold hneg
        exact hfixed (PropertyColArray.updatable_of_lt_reach (h.present u hu huoff).1 (by omega) hcol)
      rw [(hkept i hi).1]
      rcases hmem v hv with hv | rfl
      · exact h.fix i col hcol hfixed v hv hoff
      · obtain ⟨u, hu, huoff⟩ := hold hneg
        rw [← hnext.fixed u hu huoff i col hcol hfixed]
        exact h.fix i col hcol hfixed u hu huoff

theorem ArrayInv.step (h : ArrayInv cols writes p) (hfirst : UpdatableFirst cols)
    (hnext : NextWrite cols maxItems writes w) : ArrayInv cols (writes ++ [w]) (p.apply w) := by
  have hrow := h.rows w.off
  have hseq : p.seq w.off < w.seq := by
    by_cases hthere : ∃ v ∈ writes, v.off = w.off
    · obtain ⟨v, hv, hoff⟩ := hthere
      obtain ⟨-, u, hu, huoff, hus⟩ := hrow.present v hv hoff
      have hlt := hnext.seq u hu huoff
      omega
    · have hneg := (hrow.absent fun v hv hoff => hthere ⟨v, hv, hoff⟩).1
      omega
  obtain ⟨p', hcols, hmax, hseqs, hfix, hflex, heq⟩ := apply_eq hnext.signed hseq
  have hsame := h.sameCols
  rw [hsame] at heq
  constructor
  · rw [heq]
    exact PropertyColArray.putCols_rest.1.trans (hcols.trans hsame)
  · intro v hv
    rcases List.mem_append.mp hv with hv | hv
    · exact h.cells v hv
    · rw [List.mem_singleton.mp hv]
      exact hnext.cells
  · intro off
    by_cases hoff : w.off = off
    · rw [← hoff]
      exact hrow.written hfirst hnext h.cells hfix hflex heq
    · have hframe : ∀ i, (p.apply w).fixCols i off = p.fixCols i off ∧
          (p.apply w).flexCols i off = p.flexCols i off := by
        intro i
        have hframe := @PropertyColArray.putCols_frame (p.seq w.off) w.off w.ver 0 i off cols p' w.cells.flatten
          (Or.inl (Ne.symm hoff))
        rw [hfix, hflex] at hframe
        rw [heq]
        exact hframe
      refine (h.rows off).other hoff ?_ (fun i => (hframe i).1) fun i => (hframe i).2
      rw [heq]
      exact Function.update_of_ne (Ne.symm hoff) _ _

end step

/-! ### Runs -/

section run
variable {cols : List ColumnFamily} {maxItems : Nat} {writes : List ArrayWrite} {blank : Nat → Nat → Bytes}
  {p : PropertyColArray}

theorem ValidWrites.of_append {later : List ArrayWrite} (h : ValidWrites cols maxItems (writes ++ later)) :
    ValidWrites cols maxItems writes := by
  intro before w after hsplit
  exact h before w (after ++ later) (by rw [hsplit, List.append_assoc, List.cons_append])

theorem arrayInv_run (hfirst : UpdatableFirst cols) (hvalid : ValidWrites cols maxItems writes) :
    ArrayInv cols writes (writes.foldl PropertyColArray.apply (.create cols maxItems blank)) := by
  induction writes using List.reverseRecOn with
  | nil => exact arrayInv_create blank
  | append_singleton writes w ih =>
    rw [List.foldl_append]
    exact (ih hvalid.of_append).step hfirst (hvalid writes w [] rfl)

theorem ArrayInv.readsLast (h : ArrayInv cols writes p) : ReadsLast p writes := by
  rintro off i ver ⟨key, cells, v, hmem, hver⟩ hi
  obtain ⟨w, hw⟩ := @exists_lastRowWrite writes off ver _ hmem rfl hver
  refine ⟨w, hw, ?_⟩
  obtain ⟨hwmem, hwoff, -⟩ := mem_of_lastRowWrite hw
  obtain ⟨col, hcol⟩ : ∃ col, p.cols[i]? = some col := ⟨_, List.getElem?_eq_getElem hi⟩
  unfold PropertyColArray.getByOffset
  rw [hcol]
  dsimp only
  rw [h.sameCols] at hcol
  by_cases hup : col.updatable = true
  · rw [if_pos hup, (h.rows off).flex i _ hcol hup ver, hw]
    rfl
  · rw [if_neg hup]
    exact ((h.rows off).fix i _ hcol hup w hwmem hwoff).symm

end run

/-! ### An updatable column after a fixed one -/

/-- The cells of a row with one byte everywhere in the updatable columns, and zeros in the others. -/
def filledRow (cols : List ColumnFamily) (byte : UInt8) : List Bytes :=
  cols.map fun col => List.replicate col.vlen (if col.updatable then byte else 0)

def insertThenUpdate (cols : List ColumnFamily) : List ArrayWrite :=
  [.insert 0 0 (filledRow cols 0) 0, .update 0 [] (filledRow cols 1) 1 1]

section late
variable {cols : List ColumnFamily} {col fixed : ColumnFamily} {i j : Nat}

theorem filledRow_lengths (byte : UInt8) : (filledRow cols byte).map List.length = cols.map ColumnFamily.vlen := by
  unfold filledRow
  rw [List.map_map]
  exact List.map_congr_left fun col _ => List.length_replicate

theorem filledRow_cell (byte : UInt8) (hcol : cols[j]? = some col) :
    (filledRow cols byte)[j]? = some (List.replicate col.vlen (if col.updatable then byte else 0)) := by
  unfold filledRow
  rw [List.getElem?_map, hcol]
  rfl

theorem validWrites_insertThenUpdate : ValidWrites cols 1 (insertThenUpdate cols) := by
  intro before w after hsplit
  match before, hsplit with
  | [], hsplit =>
    cases hsplit
    exact ⟨Nat.zero_lt_one, filledRow_lengths 0, fun v hv => absurd hv List.not_mem_nil,
      ⟨fun _ v hv => absurd hv List.not_mem_nil, fun _ => trivial⟩, Nat.two_pow_pos 63,
      fun v hv => absurd hv List.not_mem_nil, fun v hv => absurd hv List.not_mem_nil⟩
  | [_], hsplit =>
    cases hsplit
    refine ⟨Nat.zero_lt_one, filledRow_lengths 1, ?_, ?_, Nat.one_lt_two_pow (by decide), ?_, ?_⟩
    · intro v hv
      rw [List.mem_singleton.mp hv]
      exact Nat.zero_le _
    · exact ⟨fun hinsert => hinsert.elim,
          fun hnone => absurd rfl (hnone (.insert 0 0 (filledRow cols 0) 0) List.mem_cons_self)⟩
    · intro v hv _
      rw [List.mem_singleton.mp hv]
      exact Nat.zero_lt_one
    · intro v hv _ k c hc hfixed
      rw [List.mem_singleton.mp hv]
      show (filledRow cols 0)[k]? = (filledRow cols 1)[k]?
      rw [filledRow_cell 0 hc, filledRow_cell 1 hc, if_neg hfixed, if_neg hfixed]
  | _ :: _ :: before, hsplit => simp [insertThenUpdate] at hsplit

/-- The update stops at the fixed column, and a reader of the later one gets what was inserted. -/
theorem not_readsLast_insertThenUpdate (blank : Nat → Nat → Bytes) (hij : i < j) (hfixed : cols[i]? = some fixed)
    (hnot : ¬ fixed.updatable) (hcol : cols[j]? = some col) (hup : col.updatable = true) (hsize : 0 < col.vlen) :
    ¬ ReadsLast ((insertThenUpdate cols).foldl PropertyColArray.apply (.create cols 1 blank))
        (insertThenUpdate cols) := by
  have hj : j < cols.length := (List.getElem?_eq_some_iff.mp hcol).1
  have hzeros := filledRow_cell 0 hcol
  have hones := filledRow_cell 1 hcol
  rw [if_pos hup] at hzeros hones
  show ¬ ReadsLast ((PropertyColArray.apply (.create cols 1 blank) (.insert 0 0 (filledRow cols 0) 0)).apply
    (.update 0 [] (filledRow cols 1) 1 1)) _
  -- after the insertion the column has one node
  obtain ⟨p1, hcols1, -, -, -, hflex1, heq1⟩ :=
    @apply_eq (.insert 0 0 (filledRow cols 0) 0) (.create cols 1 blank) (Nat.two_pow_pos 63) neg_one_lt_zero
  generalize PropertyColArray.apply (.create cols 1 blank) (.insert 0 0 (filledRow cols 0) 0) = q at heq1 ⊢
  have hqseq : q.seq 0 = 0 := by
    rw [heq1]
    show Function.update (PropertyColArray.create cols 1 blank).seq 0 0 0 = 0
    rw [Function.update_self]
  have hqcols : q.cols = cols := by
    rw [heq1]
    exact PropertyColArray.putCols_rest.1.trans hcols1
  have hall : j < PropertyColArray.reach (-1) cols := by
    unfold PropertyColArray.reach
    rw [if_neg (by decide)]
    exact hj
  have hqflex : q.flexCols j 0 = [⟨0, List.replicate col.vlen 0⟩] := by
    have hcell :=
      @PropertyColArray.putCols_cell (-1) 0 0 0 j cols (filledRow cols 0) p1 col _ (filledRow_lengths 0) hall hcol
      hzeros
    rw [Nat.zero_add, if_pos hup, if_pos hup] at hcell
    rw [heq1]
    refine hcell.2.trans ?_
    rw [hflex1]
    rfl
  -- the update leaves it
  obtain ⟨p2, hcols2, -, -, -, hflex2, heq2⟩ :=
    @apply_eq (.update 0 [] (filledRow cols 1) 1 1) q (Nat.one_lt_two_pow (by decide)) (by
      show q.seq 0 < 1
      rw [hqseq]
      decide)
  have hreach : PropertyColArray.reach (q.seq 0) cols ≤ j := by
    by_contra hlt
    refine hnot (PropertyColArray.updatable_of_lt_reach (Int.le_of_eq hqseq.symm) ?_ hfixed)
    omega
  have hkept := @PropertyColArray.putCols_frame (q.seq 0) 0 1 0 j 0 cols p2 (filledRow cols 1).flatten (by omega)
  rw [hflex2, hqflex] at hkept
  intro h
  obtain ⟨w, hw, hread⟩ := h 0 j 1 ⟨0, _, 0, List.mem_cons_self, Nat.zero_le _⟩ (by
    rw [heq2]
    show j < (PropertyColArray.putCols _ _ _ _ _ p2).cols.length
    rw [PropertyColArray.putCols_rest.1, hcols2, hqcols]
    exact hj)
  obtain rfl := Option.some.inj hw
  have hgot : (q.apply (.update 0 [] (filledRow cols 1) 1 1)).getByOffset 0 j 1 = some (List.replicate col.vlen 0) := by
    have hcols : (q.apply (.update 0 [] (filledRow cols 1) 1 1)).cols = cols := by
      rw [heq2]
      exact PropertyColArray.putCols_rest.1.trans (hcols2.trans hqcols)
    unfold PropertyColArray.getByOffset
    rw [hcols, hcol]
    dsimp only
    rw [if_pos hup, heq2, hqcols]
    show (visible ValueNode.ver 1
        ((PropertyColArray.putCols 0 (q.seq 0) 1 cols.zipIdx (filledRow cols 1).flatten p2).flexCols
      j 0)).map ValueNode.val = _
    rw [hkept.2]
    rfl
  rw [hgot] at hread
  have hsame : some (List.replicate col.vlen (0 : UInt8)) = some (List.replicate col.vlen 1) := hread.trans hones
  rw [Option.some_inj, List.replicate_inj] at hsame
  rcases hsame.2 with hzero | hbyte
  · omega
  · exact absurd hbyte (by decide)

end late

/-- Readers get the last writes in every run if and only if no updatable column with values comes after a fixed one. -/
theorem array_readsLast_iff (cols : List ColumnFamily) :
    (∀ (maxItems : Nat) (blank : Nat → Nat → Bytes) (writes : List ArrayWrite), ValidWrites cols maxItems writes →
      ReadsLast (writes.foldl PropertyColArray.apply (.create cols maxItems blank)) writes) ↔ UpdatableFirst cols := by
  constructor
  · intro h i j fixed col hij hfixed hcol hup hsize
    by_contra hnot
    exact not_readsLast_insertThenUpdate (fun _ _ => []) hij hfixed hnot hcol hup hsize
      (h 1 _ (insertThenUpdate cols) validWrites_insertThenUpdate)
  · intro hfirst maxItems blank writes hvalid
    exact (arrayInv_run hfirst hvalid).readsLast

def fixedFirst : List ColumnFamily := [{ vlen := 1, updatable := false }, { vlen := 1, updatable := true }]

theorem update_lost : ¬ ∀ (cols : List ColumnFamily) (maxItems : Nat) (blank : Nat → Nat → Bytes)
    (writes : List ArrayWrite), ValidWrites cols maxItems writes →
      ReadsLast (writes.foldl PropertyColArray.apply (.create cols maxItems blank)) writes := by
  intro h
  obtain ⟨w, hw, hread⟩ :=
    h fixedFirst 1 (fun _ _ => []) (insertThenUpdate fixedFirst) validWrites_insertThenUpdate 0 1 1
    ⟨0, _, 0, List.mem_cons_self, Nat.zero_le _⟩ (by decide)
  obtain rfl := Option.some.inj hw
  revert hread
  decide

end Gart.Store

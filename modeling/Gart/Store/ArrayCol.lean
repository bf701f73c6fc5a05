import Mathlib.Logic.Function.Basic
import Gart.Lib.ByteMemory
import Gart.Lib.Decimal
import Gart.Lib.Versions
import Gart.Store.Schema

/-!
# The array property store (property_col_array.cc)

`PropertyColArray` keeps the columns that are not updatable in place, and the values of the other ones in chains of
nodes, of which the newest is in place. A row is written in one pass over the columns.
-/

namespace Gart.Store
open Gart.ByteMemory Gart.Versions

/-- `ValueNode` with the bytes behind it -/
structure ValueNode where
  ver : Nat
  val : Bytes

/-- `PropertyColArray` (`property_col_array.cc:34-53`) -/
structure PropertyColArray where
  cols : List ColumnFamily
  maxItems : Nat
  seq : Nat → Int
  keyCol : Nat → Nat
  /-- the values of a column that is not updatable, by row -/
  fixCols : Nat → Nat → Bytes
  /-- the nodes of an updatable column by row, along `prev` -/
  flexCols : Nat → Nat → List ValueNode

namespace PropertyColArray

/-- The constructor; `new char[]` leaves what the memory held. -/
def create (cols : List ColumnFamily) (maxItems : Nat) (blank : Nat → Nat → Bytes) : PropertyColArray :=
  { cols := cols, maxItems := maxItems, seq := fun _ => -1, keyCol := fun _ => 0, fixCols := blank
    flexCols := fun _ _ => [] }

def setFix (p : PropertyColArray) (i offset : Nat) (value : Bytes) : PropertyColArray :=
  { p with fixCols := Function.update p.fixCols i (Function.update (p.fixCols i) offset value) }

def setFlex (p : PropertyColArray) (i offset : Nat) (chain : List ValueNode) : PropertyColArray :=
  { p with flexCols := Function.update p.flexCols i (Function.update (p.flexCols i) offset chain) }

theorem setFix_fixCols (p : PropertyColArray) (i offset : Nat) (value : Bytes) (j row : Nat) :
    (p.setFix i offset value).fixCols j row = if j = i ∧ row = offset then value else p.fixCols j row := by
  unfold setFix
  by_cases hj : j = i
  · by_cases hrow : row = offset <;> simp [hj, hrow]
  · simp [hj]

theorem setFlex_flexCols (p : PropertyColArray) (i offset : Nat) (chain : List ValueNode) (j row : Nat) :
    (p.setFlex i offset chain).flexCols j row = if j = i ∧ row = offset then chain else p.flexCols j row := by
  unfold setFlex
  by_cases hj : j = i
  · by_cases hrow : row = offset <;> simp [hj, hrow]
  · simp [hj]

/-- A value goes into the node in place, behind a copy of it when the version is later. -/
def putNode (metaSeq : Int) (version : Nat) (value : Bytes) (chain : List ValueNode) : List ValueNode :=
  let chain :=
    if metaSeq = -1 then [⟨version, []⟩]
    else
      match chain with
      | [] => []
      | node :: older => if node.ver < version then { node with ver := version } :: node :: older else node :: older
  chain.modifyHead fun node => { node with val := value }

def putCols (offset : Nat) (metaSeq : Int) (version : Nat) :
    List (ColumnFamily × Nat) → Bytes → PropertyColArray → PropertyColArray
  | [], _, p => p
  | (col, i) :: rest, val, p =>
    if metaSeq ≥ 0 ∧ ¬ col.updatable then p
    else
      let value := val.take col.vlen
      let p :=
        if col.updatable then p.setFlex i offset (putNode metaSeq version value (p.flexCols i offset))
        else p.setFix i offset value
      putCols offset metaSeq version rest (val.drop col.vlen) p

/-- `_put` (`property_col_array.cc:64-122`) -/
def put (p : PropertyColArray) (offset key : Nat) (val : Bytes) (seq : Int) (version : Nat) (insert : Bool) :
    PropertyColArray :=
  let metaSeq := p.seq offset
  let p := if insert ∧ metaSeq = -1 then { p with keyCol := Function.update p.keyCol offset key } else p
  if metaSeq ≥ seq then p
  else
    let p := putCols offset metaSeq version p.cols.zipIdx val p
    { p with seq := Function.update p.seq offset seq }

/-- `PropertyColArray::insert` (`property_col_array.cc:55-57`) -/
def insert (p : PropertyColArray) (off k : Nat) (v : Bytes) (ver : Nat) : PropertyColArray :=
  p.put off k v 0 ver true

/-- `update` (`property_col_array.cc:59-62`); nothing reads the list of columns. -/
def update (p : PropertyColArray) (off : Nat) (_cids : List Nat) (v : Bytes) (seq ver : Nat) : PropertyColArray :=
  p.put off (2 ^ 64 - 1) v (Decimal.wrap 64 seq) ver false

/-- `getByOffset` (`property_col_array.cc:124-128`); none for a walk that ends behind the last node. -/
def getByOffset (p : PropertyColArray) (offset colId version : Nat) : Option Bytes :=
  match p.cols[colId]? with
  | none => none
  | some col =>
    if col.updatable then (visible ValueNode.ver version (p.flexCols colId offset)).map ValueNode.val
    else some (p.fixCols colId offset)

end PropertyColArray

/-! ### Nodes -/

section nodes
variable {metaSeq : Int} {version w e : Nat} {value : Bytes} {chain : List ValueNode}

theorem putNode_spec (hfirst : metaSeq = -1 → chain = []) (hlater : metaSeq ≠ -1 → chain ≠ [])
    (hup : UpTo ValueNode.ver version chain) :
    UpTo ValueNode.ver version (PropertyColArray.putNode metaSeq version value chain) ∧
      ∀ e, (visible ValueNode.ver e (PropertyColArray.putNode metaSeq version value chain)).map ValueNode.val =
        if version ≤ e then some value else (visible ValueNode.ver e chain).map ValueNode.val := by
  have hopened : ∃ chain' x, Opened ValueNode.ver version chain chain' x ∧
      PropertyColArray.putNode metaSeq version value chain =
          chain'.modifyHead fun node => { node with val := value } := by
    unfold PropertyColArray.putNode
    by_cases hnew : metaSeq = -1
    · rw [if_pos hnew, hfirst hnew]
      refine ⟨[⟨version, []⟩], ⟨version, []⟩, opened_cons rfl fun x hx => ?_, rfl⟩
      cases hx
    · rw [if_neg hnew]
      cases chain with
      | nil => exact absurd rfl (hlater hnew)
      | cons node older =>
        dsimp only
        by_cases hlt : node.ver < version
        · rw [if_pos hlt]
          exact ⟨_, _, opened_cons rfl hup, rfl⟩
        · rw [if_neg hlt]
          have hle := hup node List.mem_cons_self
          exact ⟨_, _, opened_same (by omega) hup, rfl⟩
  obtain ⟨chain', x, hopen, hput⟩ := hopened
  obtain ⟨hupTo, hbefore, hfrom⟩ := @Opened.visible_write _ _ _ _ _ _ hopen (fun node => { node with val := value })
    hopen.version
  rw [hput]
  refine ⟨hupTo, fun e => ?_⟩
  by_cases he : version ≤ e
  · rw [if_pos he, hfrom e he]
    rfl
  · rw [if_neg he, hbefore e (by omega)]

end nodes

/-! ### Columns -/

namespace PropertyColArray

/-- The columns that the loop gets to: a fixed one ends it for a row that is there. -/
def reach (metaSeq : Int) (cols : List ColumnFamily) : Nat :=
  if metaSeq ≥ 0 then (cols.takeWhile fun col => col.updatable).length else cols.length

section columns
variable {metaSeq : Int} {offset version n i k row : Nat} {cols : List ColumnFamily} {cells : List Bytes}
  {p : PropertyColArray} {col : ColumnFamily} {value : Bytes}

theorem reach_cons_of_stop (hstop : metaSeq ≥ 0 ∧ ¬ col.updatable) : reach metaSeq (col :: cols) = 0 := by
  unfold reach
  rw [if_pos hstop.1, List.takeWhile_cons_of_neg hstop.2]
  rfl

theorem reach_cons (hgo : ¬ (metaSeq ≥ 0 ∧ ¬ col.updatable)) :
    reach metaSeq (col :: cols) = reach metaSeq cols + 1 := by
  unfold reach
  by_cases hseq : metaSeq ≥ 0
  · have hcol : col.updatable = true := by
      by_contra hcol
      exact hgo ⟨hseq, hcol⟩
    rw [if_pos hseq, if_pos hseq, List.takeWhile_cons_of_pos hcol]
    rfl
  · rw [if_neg hseq, if_neg hseq]
    rfl

theorem reach_le_length : reach metaSeq cols ≤ cols.length := by
  unfold reach
  split
  · exact (List.takeWhile_sublist _).length_le
  · exact Nat.le_refl _

theorem updatable_of_lt_reach (hseq : metaSeq ≥ 0) (hk : k < reach metaSeq cols) (hcol : cols[k]? = some col) :
    col.updatable = true := by
  induction cols generalizing k with
  | nil => cases hcol
  | cons first cols ih =>
    by_cases hstop : metaSeq ≥ 0 ∧ ¬ first.updatable
    · rw [reach_cons_of_stop hstop] at hk
      omega
    · rw [reach_cons hstop] at hk
      cases k with
      | zero =>
        rw [← Option.some.inj hcol]
        by_contra hfirst
        exact hstop ⟨hseq, hfirst⟩
      | succ k => exact ih (by omega) hcol

/-- Other rows stay, and so do the columns in front of the loop and those that it does not get to. -/
theorem putCols_frame {val : Bytes} (hout : row ≠ offset ∨ i < n ∨ n + reach metaSeq cols ≤ i) :
    (putCols offset metaSeq version (cols.zipIdx n) val p).fixCols i row = p.fixCols i row ∧
      (putCols offset metaSeq version (cols.zipIdx n) val p).flexCols i row = p.flexCols i row := by
  induction cols generalizing n val p with
  | nil => exact ⟨rfl, rfl⟩
  | cons col cols ih =>
    rw [List.zipIdx_cons]
    unfold putCols
    by_cases hstop : metaSeq ≥ 0 ∧ ¬ col.updatable
    · rw [if_pos hstop]
      exact ⟨rfl, rfl⟩
    · rw [if_neg hstop]
      rw [reach_cons hstop] at hout
      dsimp only
      have hne : row ≠ offset ∨ i ≠ n := by omega
      obtain ⟨hfix, hflex⟩ := @ih (n + 1) (if col.updatable then
        p.setFlex n offset (putNode metaSeq version (val.take col.vlen) (p.flexCols n offset))
        else p.setFix n offset (val.take col.vlen)) (val.drop col.vlen) (by omega)
      rw [hfix, hflex]
      have hother : ¬ (i = n ∧ row = offset) := by omega
      by_cases hcol : col.updatable
      · rw [if_pos hcol, setFlex_flexCols, if_neg hother]
        exact ⟨rfl, rfl⟩
      · rw [if_neg hcol, setFix_fixCols, if_neg hother]
        exact ⟨rfl, rfl⟩

theorem putCols_cell (hcells : cells.map List.length = cols.map ColumnFamily.vlen) (hk : k < reach metaSeq cols)
    (hcol : cols[k]? = some col) (hvalue : cells[k]? = some value) :
    (putCols offset metaSeq version (cols.zipIdx n) cells.flatten p).fixCols (n + k) offset =
        (if col.updatable then p.fixCols (n + k) offset else value) ∧
      (putCols offset metaSeq version (cols.zipIdx n) cells.flatten p).flexCols (n + k) offset =
        if col.updatable then putNode metaSeq version value (p.flexCols (n + k) offset)
        else p.flexCols (n + k) offset := by
  induction cols generalizing n k cells p with
  | nil => cases hcol
  | cons first cols ih =>
    cases cells with
    | nil => cases hcells
    | cons cell cells =>
      obtain ⟨hcell, hcells⟩ := List.cons_eq_cons.mp hcells
      have hgo : ¬ (metaSeq ≥ 0 ∧ ¬ first.updatable) := by
        intro hstop
        rw [reach_cons_of_stop hstop] at hk
        omega
      rw [reach_cons hgo] at hk
      rw [List.zipIdx_cons, List.flatten_cons]
      unfold putCols
      rw [if_neg hgo]
      dsimp only
      rw [← hcell, List.take_left', List.drop_left']
      · cases k with
        | zero =>
          obtain rfl := Option.some.inj hcol
          obtain rfl := Option.some.inj hvalue
          obtain ⟨hfix, hflex⟩ := @putCols_frame metaSeq offset version (n + 1) n offset cols
            (if first.updatable then p.setFlex n offset (putNode metaSeq version cell (p.flexCols n offset))
              else p.setFix n offset cell) cells.flatten (by omega)
          have hzero : n + 0 = n := rfl
          rw [hzero, hfix, hflex]
          by_cases hupdatable : first.updatable
          · rw [if_pos hupdatable, if_pos hupdatable, if_pos hupdatable]
            rw [setFlex_flexCols, if_pos ⟨rfl, rfl⟩]
            exact ⟨rfl, rfl⟩
          · rw [if_neg hupdatable, if_neg hupdatable, if_neg hupdatable]
            rw [setFix_fixCols, if_pos ⟨rfl, rfl⟩]
            exact ⟨rfl, rfl⟩
        | succ k =>
          obtain ⟨hfix, hflex⟩ := @ih (n + 1) k cells
            (if first.updatable then p.setFlex n offset (putNode metaSeq version cell (p.flexCols n offset))
              else p.setFix n offset cell) hcells (by omega) hcol hvalue
          have hindex : n + 1 + k = n + (k + 1) := by omega
          have hother : ¬ (n + (k + 1) = n ∧ offset = offset) := by omega
          rw [hindex] at hfix hflex
          rw [hfix, hflex]
          by_cases hupdatable : first.updatable
          · rw [if_pos hupdatable, setFlex_flexCols, if_neg hother]
            exact ⟨rfl, rfl⟩
          · rw [if_neg hupdatable, setFix_fixCols, if_neg hother]
            exact ⟨rfl, rfl⟩
      · rfl
      · rfl

theorem putCols_rest {val : Bytes} : (putCols offset metaSeq version (cols.zipIdx n) val p).cols = p.cols ∧
    (putCols offset metaSeq version (cols.zipIdx n) val p).maxItems = p.maxItems ∧
      (putCols offset metaSeq version (cols.zipIdx n) val p).seq = p.seq := by
  induction cols generalizing n val p with
  | nil => exact ⟨rfl, rfl, rfl⟩
  | cons col cols ih =>
    rw [List.zipIdx_cons]
    unfold putCols
    by_cases hstop : metaSeq ≥ 0 ∧ ¬ col.updatable
    · rw [if_pos hstop]
      exact ⟨rfl, rfl, rfl⟩
    · rw [if_neg hstop]
      dsimp only
      obtain ⟨hcols, hmax, hseq⟩ := @ih (n + 1) (if col.updatable then
        p.setFlex n offset (putNode metaSeq version (val.take col.vlen) (p.flexCols n offset))
        else p.setFix n offset (val.take col.vlen)) (val.drop col.vlen)
      rw [hcols, hmax, hseq]
      by_cases hcol : col.updatable
      · rw [if_pos hcol]
        exact ⟨rfl, rfl, rfl⟩
      · rw [if_neg hcol]
        exact ⟨rfl, rfl, rfl⟩

end columns

end PropertyColArray

end Gart.Store

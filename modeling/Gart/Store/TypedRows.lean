import Gart.Store.StoreSteps
import Gart.Store.VertexRows

/-!
# Rows of all types in the default build

The switches of `insert` and `update` store numbers and strings. A property of another type is only logged as
unsupported: the assertion behind the message is compiled out, and the loop goes on.
-/

namespace Gart.Store
open Gart.ByteMemory Gart.BitArray Gart.Outcome Gart.Versions Gart.Fragment

/-- Reading floating-point texts, and the comparison of the numbers; numbers are given by their bits. -/
structure FloatOps where
  stof : Bytes → Except StoreFault (BitVec 32)
  stod : Bytes → Except StoreFault (BitVec 64)
  neFloat : Nat → Nat → Bool
  neDouble : Nat → Nat → Bool

namespace PropertyDataType

/-- The types that `insert` has a branch for. -/
def Stored : PropertyDataType → Prop
  | int | long | float | double | string => True
  | _ => False

instance : DecidablePred Stored
  | int | long | float | double | string => isTrue trivial
  | char | date | datetime | time | timestamp => isFalse id

end PropertyDataType

namespace PropertyColPaged

/-- The first loop of `insert` for one property. -/
def insertPropTyped (floats : FloatOps) (p : PropertyColPaged) (layout : VertexLayout)
    (dtypes : List PropertyDataType) (b : RowBuild) (prop : Bytes × Nat) : Except StoreFault RowBuild :=
  match placeOf layout prop.2, dtypes[prop.2]? with
  | some place, some dtype =>
    if p.cols.length ≤ place.family then .error .outOfBounds
    else
      let buffer := b.propBuffer place.family
      match dtype with
      | .int | .long | .string => p.insertProp layout dtypes b prop
      | .float =>
        if prop.1 = [] then .ok (b.pushNull place.family true)
        else do
          let x ← floats.stof prop.1
          let b := b.pushNull place.family false
          return b.setBuffer place.family (store buffer place.offset 4 x.toNat)
      | .double =>
        if prop.1 = [] then .ok (b.pushNull place.family true)
        else do
          let x ← floats.stod prop.1
          let b := b.pushNull place.family false
          return b.setBuffer place.family (store buffer place.offset 8 x.toNat)
      | _ => .ok (b.pushNull place.family (prop.1 = []))
  | _, _ => .error .outOfBounds

/-- `insert` (`property_col_paged.cc:271-358`); `heap` is what `malloc` leaves in the `prop_buffer` of each family. -/
def insertTyped (floats : FloatOps) (p : PropertyColPaged) (buf : RegionBuffer) (layout : VertexLayout)
    (dtypes : List PropertyDataType) (heap : Nat → Memory) (off ver : Nat) (vList : List Bytes) :
    Except StoreFault (PropertyColPaged × RegionBuffer) :=
  if p.maxItems ≤ off then .error .outOfBounds
  else do
    let b ← vList.zipIdx.foldlM (p.insertPropTyped floats layout dtypes) { propBuffer := heap }
    (List.range p.cols.length).foldlM (fun s family => putFamily b off ver family s) (p, buf)

/-- The first loop of `update` for one property. -/
def updatePropTyped (floats : FloatOps) (p : PropertyColPaged) (layout : VertexLayout)
    (dtypes : List PropertyDataType) (off : Nat) (s : RowBuild × StringBuffer) (prop : Bytes × Nat) :
    Except StoreFault (RowBuild × StringBuffer) :=
  match placeOf layout prop.2, dtypes[prop.2]? with
  | some place, some dtype =>
    match p.cols[place.family]? with
    | none => .error .outOfBounds
    | some col =>
      match p.pages place.family (off / col.pageSize) with
      | [] => .error .nullPointer
      | page :: _ =>
        let oldIsNull := getBit page.content (col.nullBit (off % col.pageSize) place.nullBit)
        let dst := col.cell (off % col.pageSize) place.offset
        let buffer := s.1.propBuffer place.family
        if prop.1 = [] then
          .ok ((s.1.pushNull place.family true).mark place.family !oldIsNull, s.2)
        else
          let b := s.1.pushNull place.family false
          match dtype with
          | .int | .long | .string => p.updateProp layout dtypes off s prop
          | .float => do
            let x ← floats.stof prop.1
            let b := b.setBuffer place.family (store buffer place.offset 4 x.toNat)
            return (b.mark place.family (oldIsNull || floats.neFloat x.toNat (load page.content dst 4)), s.2)
          | .double => do
            let x ← floats.stod prop.1
            let b := b.setBuffer place.family (store buffer place.offset 8 x.toNat)
            return (b.mark place.family (oldIsNull || floats.neDouble x.toNat (load page.content dst 8)), s.2)
          | _ => .ok (b, s.2)
  | _, _ => .error .outOfBounds

/-- `update` (`property_col_paged.cc:360-477`) -/
def updateTyped (floats : FloatOps) (p : PropertyColPaged) (buf : RegionBuffer) (strings : StringBuffer)
    (layout : VertexLayout) (dtypes : List PropertyDataType) (heap : Nat → Memory) (off ver : Nat)
    (vList : List Bytes) : Except StoreFault (PropertyColPaged × RegionBuffer × StringBuffer) := do
  let (b, strings) ← vList.zipIdx.foldlM (p.updatePropTyped floats layout dtypes off) ({ propBuffer := heap }, strings)
  let (p, buf) ← (List.range p.cols.length).foldlM
    (fun s family => if b.updated family then putFamily b off ver family s else .ok s) (p, buf)
  return (p, buf, strings)

end PropertyColPaged

/-- A call of `insert_inner_vertex` or `update_inner_vertex`, with what `malloc` leaves. -/
structure TypedCall where
  call : VertexCall
  heap : Nat → Memory

namespace GraphStore

/-- `insert_inner_vertex` (`graph_store.cc:518-594`) -/
def insertInnerVertexTyped (floats : FloatOps) (s : GraphStore) (recycle : Bool) (epoch gid : Nat)
    (externalId : Bytes) (vprop : List Bytes) (heap : Nat → Memory) : Except StoreFault GraphStore := do
  let vlabel := s.idParser.getLabelId gid
  let l ← s.getLabel vlabel
  let l ← s.mapVertex true l externalId gid
  if s.idParser.getFid gid ≠ s.localPid then return s.setLabel vlabel l
  else
    let l ← s.mapVertex false l externalId gid
    let lid := s.idParser.generateId 0 vlabel (s.idParser.getOffset gid)
    let graph := l.graph.createGraphWriter recycle epoch
    let v := graph.vertexId
    let (_, property) := l.property.getNewOffset
    let vtable ← l.vtable.addInner lid
    let (value, strings) ← l.externalIdValue s.strings externalId
    let (args, strings) ← putStrings l.dtypes strings vprop
    let (property, regions) ← property.insertTyped floats s.regions l.layout l.dtypes heap v epoch args
    let l := { l with
      graph := graph.newVertex, property := property, vtable := vtable
      externalIdStore := Function.update l.externalIdStore v value }
    return { s.setLabel vlabel l with strings := strings, regions := regions }

/-- `update_inner_vertex` (`graph_store.cc:596-609`) -/
def updateInnerVertexTyped (floats : FloatOps) (s : GraphStore) (epoch gid : Nat) (vprop : List Bytes)
    (heap : Nat → Memory) : Except StoreFault GraphStore :=
  if s.idParser.getFid gid ≠ s.localPid then .ok s
  else do
    let vlabel := s.idParser.getLabelId gid
    let l ← s.getLabel vlabel
    let (property, regions, strings) ← l.property.updateTyped floats s.regions s.strings l.layout l.dtypes heap
      (s.idParser.getOffset gid) epoch vprop
    return { s.setLabel vlabel { l with property := property } with
      strings := strings, regions := regions }

def applyTypedCall (floats : FloatOps) (s : GraphStore) (c : TypedCall) : Except StoreFault GraphStore :=
  match c.call with
  | .insert recycle epoch gid externalId vprop =>
    s.insertInnerVertexTyped floats recycle epoch gid externalId vprop c.heap
  | .update epoch gid vprop => s.updateInnerVertexTyped floats epoch gid vprop c.heap

end GraphStore

/-! ### A round of insert -/

/-- The bytes at an address are the value that a text has in a type with a branch. -/
def StoredAt (floats : FloatOps) (strings : StringBuffer) (dtype : PropertyDataType) (m : Memory) (a : Nat)
    (text : Bytes) : Prop :=
  match dtype with
  | .float => ∃ x, floats.stof text = .ok x ∧ load m a 4 = x.toNat
  | .double => ∃ x, floats.stod text = .ok x ∧ load m a 8 = x.toNat
  | _ => ValueAt strings dtype m a text

/-- A cell of `prop_buffer` after its round: `old` is what `malloc` left in it. -/
def CellOf (floats : FloatOps) (strings : StringBuffer) (dtype : PropertyDataType) (old : Bytes) (m : Memory) (a : Nat)
    (text : Bytes) : Prop :=
  if dtype.Stored then StoredAt floats strings dtype m a text else read m a dtype.size = old

section rounds
variable {floats : FloatOps} {p p' : PropertyColPaged} {layout : VertexLayout} {dtypes : List PropertyDataType}
variable {dtype : PropertyDataType} {strings : StringBuffer} {m m' : Memory} {a a' k i : Nat} {b b' : RowBuild}
variable {text arg old : Bytes} {place : Place}

theorem CellOf.congr (h : CellOf floats strings dtype old m a text)
    (hread : read m' a' dtype.size = read m a dtype.size) : CellOf floats strings dtype old m' a' text := by
  unfold CellOf at h ⊢
  by_cases hstored : dtype.Stored
  · rw [if_pos hstored] at h ⊢
    cases dtype with
    | float =>
      obtain ⟨x, hx, hload⟩ := h
      exact ⟨x, hx, (congrArg ofBytes hread).trans hload⟩
    | double =>
      obtain ⟨x, hx, hload⟩ := h
      exact ⟨x, hx, (congrArg ofBytes hread).trans hload⟩
    | int => exact ValueAt.congr (show ValueAt strings .int m a text from h) hread
    | long => exact ValueAt.congr (show ValueAt strings .long m a text from h) hread
    | string => exact ValueAt.congr (show ValueAt strings .string m a text from h) hread
    | _ => exact hstored.elim
  · rw [if_neg hstored] at h ⊢
    exact hread.trans h

theorem insertProp_shape (hplace : placeOf layout k = some place) (hdtype : dtypes[k]? = some dtype)
    (h : p.insertProp layout dtypes b (arg, k) = .ok b') : Round layout place dtype b b' := by
  have hstore : ∀ (w : Nat) (n : Int), dtype.size = w / 8 →
      Round layout place dtype b ((b.pushNull place.family false).setBuffer place.family
        (storeInt w (b.propBuffer place.family) place.offset n)) := by
    intro w n hsize
    refine ⟨⟨false, rfl⟩, store_outside_buffer b place false _ fun x hx => store_outside ?_⟩
    rw [← hsize]
    exact hx
  unfold PropertyColPaged.insertProp at h
  rw [hplace, hdtype] at h
  dsimp only at h
  split at h
  · cases h
  · cases dtype with
    | int =>
      dsimp only at h
      split at h
      · rw [← Except.ok.inj h]
        exact round_pushNull layout place _ b
      · obtain ⟨n, -, h⟩ := bind_eq_ok h
        rw [← Except.ok.inj h]
        exact hstore 32 n rfl
    | long =>
      dsimp only at h
      split at h
      · rw [← Except.ok.inj h]
        exact round_pushNull layout place _ b
      · obtain ⟨n, -, h⟩ := bind_eq_ok h
        rw [← Except.ok.inj h]
        exact hstore 64 n rfl
    | string =>
      obtain ⟨key, -, h⟩ := bind_eq_ok h
      split at h
      · rw [← Except.ok.inj h]
        exact round_pushNull layout place _ b
      · rw [← Except.ok.inj h]
        exact hstore 64 key rfl
    | _ => cases h

theorem insertPropTyped_shape (hplace : placeOf layout k = some place) (hdtype : dtypes[k]? = some dtype)
    (h : p.insertPropTyped floats layout dtypes b (arg, k) = .ok b') :
    place.family < p.cols.length ∧ Round layout place dtype b b' := by
  have hstore : ∀ x : Nat, Round layout place dtype b ((b.pushNull place.family false).setBuffer place.family
      (store (b.propBuffer place.family) place.offset dtype.size x)) := fun x =>
    ⟨⟨false, rfl⟩, store_outside_buffer b place false _ fun y hy => store_outside hy⟩
  have hpush : ∀ null, Round layout place dtype b (b.pushNull place.family null) := fun null =>
    ⟨⟨null, rfl⟩, fun _ => ⟨fun _ => rfl, fun _ _ => rfl⟩⟩
  unfold PropertyColPaged.insertPropTyped at h
  rw [hplace, hdtype] at h
  dsimp only at h
  split at h
  · cases h
  · rename_i hfamily
    refine ⟨Nat.not_le.mp hfamily, ?_⟩
    cases dtype with
    | float =>
      dsimp only at h
      split at h
      · rw [← Except.ok.inj h]
        exact hpush true
      · obtain ⟨x, -, h⟩ := bind_eq_ok h
        rw [← Except.ok.inj h]
        exact hstore x.toNat
    | double =>
      dsimp only at h
      split at h
      · rw [← Except.ok.inj h]
        exact hpush true
      · obtain ⟨x, -, h⟩ := bind_eq_ok h
        rw [← Except.ok.inj h]
        exact hstore x.toNat
    | int => exact insertProp_shape hplace hdtype h
    | long => exact insertProp_shape hplace hdtype h
    | string => exact insertProp_shape hplace hdtype h
    | _ =>
      rw [← Except.ok.inj h]
      exact hpush _

theorem insertPropTyped_round (hplace : placeOf layout k = some place) (hdtype : dtypes[k]? = some dtype)
    (hne : text ≠ []) (hgiven : Given strings dtype text arg)
    (h : p.insertPropTyped floats layout dtypes b (arg, k) = .ok b') :
    b'.isNull = Function.update b.isNull place.family (b.isNull place.family ++ [false]) ∧
      CellOf floats strings dtype (read (b.propBuffer place.family) place.offset dtype.size)
        (b'.propBuffer place.family) place.offset text := by
  have hnumber : p.insertProp layout dtypes b (arg, k) = .ok b' → dtype.Stored →
      (∀ m a, ValueAt strings dtype m a text → StoredAt floats strings dtype m a text) →
      b'.isNull = Function.update b.isNull place.family (b.isNull place.family ++ [false]) ∧
        CellOf floats strings dtype (read (b.propBuffer place.family) place.offset dtype.size)
          (b'.propBuffer place.family) place.offset text := by
    intro hrun hstored hvalue
    obtain ⟨-, hnull, hat⟩ := insertProp_round hplace hdtype hgiven hrun
    rw [decide_eq_false hne] at hnull
    refine ⟨hnull, ?_⟩
    unfold CellOf
    rw [if_pos hstored]
    exact hvalue _ _ (hat hne)
  unfold PropertyColPaged.insertPropTyped at h
  rw [hplace, hdtype] at h
  dsimp only at h
  split at h
  · cases h
  · cases dtype with
    | int => exact hnumber h trivial fun _ _ hat => hat
    | long => exact hnumber h trivial fun _ _ hat => hat
    | string => exact hnumber h trivial fun _ _ hat => hat
    | float =>
      have harg : arg = text := hgiven
      rw [harg] at h
      dsimp only at h
      rw [if_neg hne] at h
      obtain ⟨x, hx, h⟩ := bind_eq_ok h
      rw [← Except.ok.inj h]
      refine ⟨rfl, x, hx, ?_⟩
      show load (Function.update b.propBuffer place.family _ place.family) _ 4 = _
      rw [Function.update_self, load_store_of_lt x.isLt]
    | double =>
      have harg : arg = text := hgiven
      rw [harg] at h
      dsimp only at h
      rw [if_neg hne] at h
      obtain ⟨x, hx, h⟩ := bind_eq_ok h
      rw [← Except.ok.inj h]
      refine ⟨rfl, x, hx, ?_⟩
      show load (Function.update b.propBuffer place.family _ place.family) _ 8 = _
      rw [Function.update_self, load_store_of_lt x.isLt]
    | _ =>
      have harg : arg = text := hgiven
      rw [← Except.ok.inj h, harg, decide_eq_false hne]
      exact ⟨rfl, rfl⟩

/-! ### The row -/

/-- What `prop_buffer` and the flags have of one property after `k` rounds. -/
structure TargetInv (floats : FloatOps) (strings : StringBuffer) (cols : List ColumnFamily) (layout : VertexLayout)
    (heap : Nat → Memory) (place : Place) (dtype : PropertyDataType) (text : Bytes) (i k : Nat) (b : RowBuild) :
    Prop where
  flagged : Flagged cols layout k b
  before : k ≤ i → read (b.propBuffer place.family) place.offset dtype.size =
    read (heap place.family) place.offset dtype.size
  flag : i < k → (b.isNull place.family).getD place.nullBit false = false
  cell : i < k → CellOf floats strings dtype (read (heap place.family) place.offset dtype.size)
    (b.propBuffer place.family) place.offset text

theorem TargetInv.next {cols : List ColumnFamily} {heap : Nat → Memory} {place' : Place} {dtype' : PropertyDataType}
    (h : TargetInv floats strings cols layout heap place dtype text i k b) (hlaid : WellLaid cols layout dtypes)
    (hplace : placeOf layout i = some place) (hdtype : dtypes[i]? = some dtype)
    (hplace' : placeOf layout k = some place') (hdtype' : dtypes[k]? = some dtype')
    (hround : Round layout place' dtype' b b')
    (htarget : k = i → b'.isNull = Function.update b.isNull place.family (b.isNull place.family ++ [false]) ∧
      CellOf floats strings dtype (read (b.propBuffer place.family) place.offset dtype.size)
        (b'.propBuffer place.family) place.offset text) :
    TargetInv floats strings cols layout heap place dtype text i (k + 1) b' := by
  have hkeep : k ≠ i → read (b'.propBuffer place.family) place.offset dtype.size =
      read (b.propBuffer place.family) place.offset dtype.size := by
    intro hne
    obtain ⟨hother, hsame⟩ := hround.buffer place.family
    by_cases hf : place.family = place'.family
    · obtain ⟨hapart, -⟩ := hlaid.apart i k dtype dtype' place place' (Ne.symm hne) hdtype hdtype' hplace hplace' hf
      refine read_congr fun x hlo hhi => hsame x ?_
      omega
    · rw [hother hf]
  have hbit := hlaid.bit i dtype place hdtype hplace
  refine ⟨hround.flagged hlaid hplace' hdtype' h.flagged, fun hle => ?_, fun hlt => ?_, fun hlt => ?_⟩
  · rw [hkeep (by omega)]
    exact h.before (by omega)
  · by_cases hki : k = i
    · rw [(htarget hki).1, Function.update_self, List.getD_append_right]
      · rw [h.flagged.length, hbit, hki, Nat.sub_self]
        rfl
      · rw [h.flagged.length, hbit, hki]
    · obtain ⟨null, hnull⟩ := hround.flag
      rw [hnull]
      by_cases hf : place.family = place'.family
      · have hle : (layout.propColumnFamily.take (i + 1)).count place.family ≤
            (layout.propColumnFamily.take k).count place.family :=
          (List.take_sublist_take_left (by omega)).count_le place.family
        rw [count_take_succ hplace, if_pos rfl] at hle
        rw [← hf, Function.update_self, List.getD_append _ _ _ _ (by rw [h.flagged.length, hbit]; omega)]
        exact h.flag (by omega)
      · rw [Function.update_of_ne hf]
        exact h.flag (by omega)
  · by_cases hki : k = i
    · have hcell := (htarget hki).2
      rw [h.before (by omega)] at hcell
      exact hcell
    · exact (h.cell (by omega)).congr (hkeep hki)

theorem families_of_build {args : List Bytes} {heap : Nat → Memory}
    (h : args.zipIdx.foldlM (p.insertPropTyped floats layout dtypes) { propBuffer := heap } = .ok b) :
    ∀ j < args.length, ∃ place, placeOf layout j = some place ∧ place.family < p.cols.length := by
  have hrun := @foldlM_invariant _ _ _ (p.insertPropTyped floats layout dtypes)
    (fun done _ => ∀ j < done.length, ∃ place, placeOf layout j = some place ∧ place.family < p.cols.length)
    (fun _ => True) [] args.zipIdx { propBuffer := heap } (fun j hj => absurd hj (Nat.not_lt_zero j)) ?_
  · have hdone := hrun.of_ok h
    rw [List.nil_append, List.length_zipIdx] at hdone
    exact hdone
  · intro before x after b hsplit hbefore
    rw [List.nil_append] at hsplit
    obtain ⟨hx, -⟩ := zipIdx_split hsplit
    cases hone : p.insertPropTyped floats layout dtypes b x with
    | error e => trivial
    | ok b' =>
      intro j hj
      rw [List.length_append, List.length_singleton] at hj
      rcases Nat.lt_succ_iff_lt_or_eq.mp hj with hlt | rfl
      · exact hbefore j hlt
      · rw [hx] at hone
        cases hplace : placeOf layout before.length with
        | none =>
          unfold PropertyColPaged.insertPropTyped at hone
          rw [hplace] at hone
          cases hone
        | some place =>
          cases hdtype : dtypes[before.length]? with
          | none =>
            unfold PropertyColPaged.insertPropTyped at hone
            rw [hplace, hdtype] at hone
            cases hone
          | some dtype => exact ⟨place, rfl, (insertPropTyped_shape hplace hdtype hone).1⟩

theorem target_of_build {args : List Bytes} {heap : Nat → Memory} (hlaid : WellLaid p.cols layout dtypes)
    (hplace : placeOf layout i = some place) (hdtype : dtypes[i]? = some dtype) (hne : text ≠ [])
    (hlength : args.length = dtypes.length) (harg : args[i]? = some arg) (hgiven : Given strings dtype text arg)
    (h : args.zipIdx.foldlM (p.insertPropTyped floats layout dtypes) { propBuffer := heap } = .ok b) :
    TargetInv floats strings p.cols layout heap place dtype text i dtypes.length b := by
  have hrun := @foldlM_invariant _ _ _ (p.insertPropTyped floats layout dtypes)
    (fun done b => TargetInv floats strings p.cols layout heap place dtype text i done.length b)
    (fun _ => True) [] args.zipIdx { propBuffer := heap } ?_ ?_
  · have hdone := hrun.of_ok h
    rw [List.nil_append, List.length_zipIdx, hlength] at hdone
    exact hdone
  · exact ⟨flagged_zero heap, fun _ => rfl, fun hlt => absurd hlt (Nat.not_lt_zero i),
      fun hlt => absurd hlt (Nat.not_lt_zero i)⟩
  · intro before x after b hsplit hb
    rw [List.nil_append] at hsplit
    obtain ⟨hx, hget⟩ := zipIdx_split hsplit
    cases hone : p.insertPropTyped floats layout dtypes b x with
    | error e => trivial
    | ok b' =>
      have hk : before.length < dtypes.length := by
        rw [← hlength]
        exact (List.getElem?_eq_some_iff.mp hget).1
      have hdtype' := List.getElem?_eq_getElem hk
      obtain ⟨place', col, hplace', -⟩ := hlaid.found _ _ hdtype'
      rw [hx] at hone
      rw [List.length_append, List.length_singleton]
      refine hb.next hlaid hplace hdtype hplace' hdtype' (insertPropTyped_shape hplace' hdtype' hone).2 fun hki => ?_
      rw [hki] at hone hget
      rw [harg] at hget
      rw [← Option.some.inj hget] at hone
      exact insertPropTyped_round hplace hdtype hne hgiven hone

end rounds

/-! ### The pages -/

section pages
variable {p p' : PropertyColPaged} {buf buf' : RegionBuffer} {b : RowBuild} {off w w' f : Nat}

/-- No page has a version from after `w`. -/
def PagesUpTo (p : PropertyColPaged) (w : Nat) : Prop := ∀ f pg, UpTo Page.ver w (p.pages f pg)

/-- Readers from `w` on find the built row in the pages of the families `done`. -/
structure RowPut (p : PropertyColPaged) (b : RowBuild) (off w : Nat) (done : List Nat)
    (s : PropertyColPaged × RegionBuffer) : Prop where
  cols : s.1.cols = p.cols
  upTo : PagesUpTo s.1 w
  put : ∀ f ∈ done, ∀ col, p.cols[f]? = some col → ∃ page, ∀ e, w ≤ e →
    visible Page.ver e (s.1.pages f (off / col.pageSize)) = some (Page.putRow col (off % col.pageSize)
      (read (b.propBuffer f) 0 col.vlen) (b.isNull f) page)

theorem RowPut.next {done : List Nat} {s s' : PropertyColPaged × RegionBuffer} (h : RowPut p b off w done s)
    (hf : f ∉ done) (hlt : f < p.cols.length) (hput : PropertyColPaged.putFamily b off w f s = .ok s') :
    RowPut p b off w (done ++ [f]) s' := by
  obtain ⟨q, buf⟩ := s
  obtain ⟨q', buf'⟩ := s'
  obtain ⟨col, hcol⟩ : ∃ col, p.cols[f]? = some col := ⟨_, List.getElem?_eq_getElem hlt⟩
  have hcols : q.cols = p.cols := h.cols
  have hcol' := hcol
  rw [← hcols] at hcol'
  obtain ⟨honly, chain', page, hopened, -, hpages⟩ := putFamily_chain hcol' (h.upTo f _) (Nat.le_refl w) hput
  generalize hputRow : Page.putRow col (off % col.pageSize) (read (b.propBuffer f) 0 col.vlen) (b.isNull f) =
    putRow at hpages
  have hver : (putRow page).ver = w := by
    rw [← hputRow]
    exact hopened.version
  obtain ⟨hup, -, hnew⟩ := hopened.visible_write hver
  refine ⟨honly.cols.trans hcols, fun g pg => ?_, fun g hg col' hcolg => ?_⟩
  · show UpTo Page.ver w (q'.pages g pg)
    by_cases hgf : g = f
    · rw [hgf, hpages]
      by_cases hpg : pg = off / col.pageSize
      · rw [hpg, Function.update_self]
        exact hup
      · rw [Function.update_of_ne hpg]
        exact h.upTo f pg
    · rw [honly.other g hgf]
      exact h.upTo g pg
  · show ∃ page, ∀ e, w ≤ e → visible Page.ver e (q'.pages g (off / col'.pageSize)) = _
    rcases List.mem_append.mp hg with hold | hlast
    · have hgf : g ≠ f := by
        rintro rfl
        exact hf hold
      rw [honly.other g hgf]
      exact h.put g hold col' hcolg
    · rw [List.mem_singleton.mp hlast, hcol] at hcolg
      rw [List.mem_singleton.mp hlast, ← Option.some.inj hcolg, hputRow, hpages, Function.update_self]
      exact ⟨page, hnew⟩

theorem rowPut_of_run (hup : PagesUpTo p w)
    (h : (List.range p.cols.length).foldlM (fun s family => PropertyColPaged.putFamily b off w family s) (p, buf) =
      .ok (p', buf')) : RowPut p b off w (List.range p.cols.length) (p', buf') := by
  have hrun := @foldlM_invariant _ _ _ (fun s family => PropertyColPaged.putFamily b off w family s)
    (RowPut p b off w) (fun _ => True) [] (List.range p.cols.length) (p, buf)
    ⟨rfl, hup, fun f hf => by cases hf⟩ ?_
  · exact hrun.of_ok h
  · intro before f after s hsplit hs
    rw [List.nil_append] at hsplit
    obtain ⟨hf, hlt⟩ := range_split hsplit
    cases hone : PropertyColPaged.putFamily b off w f s with
    | error e => trivial
    | ok s' => exact hs.next hf hlt hone

theorem PagesUpTo.mono (h : PagesUpTo p w') (hle : w' ≤ w) : PagesUpTo p w := fun f pg => (h f pg).mono hle

theorem insertTyped_spec {floats : FloatOps} {layout : VertexLayout} {dtypes : List PropertyDataType}
    {heap : Nat → Memory} {args : List Bytes} (hup : PagesUpTo p w)
    (h : p.insertTyped floats buf layout dtypes heap off w args = .ok (p', buf')) :
    ∃ b, args.zipIdx.foldlM (p.insertPropTyped floats layout dtypes) { propBuffer := heap } = .ok b ∧
      RowPut p b off w (List.range p.cols.length) (p', buf') := by
  unfold PropertyColPaged.insertTyped at h
  split at h
  · cases h
  · obtain ⟨b, hb, h⟩ := bind_eq_ok h
    exact ⟨b, hb, rowPut_of_run hup h⟩

theorem updateTyped_keeps {floats : FloatOps} {layout : VertexLayout} {dtypes : List PropertyDataType}
    {heap : Nat → Memory} {texts : List Bytes} {strings strings' : StringBuffer} (hup : PagesUpTo p w)
    (h : p.updateTyped floats buf strings layout dtypes heap off w texts = .ok (p', buf', strings')) :
    p'.cols = p.cols ∧ PagesUpTo p' w := by
  unfold PropertyColPaged.updateTyped at h
  obtain ⟨⟨b, strings''⟩, -, h⟩ := bind_eq_ok h
  obtain ⟨⟨q, buf''⟩, hput, h⟩ := bind_eq_ok h
  obtain ⟨hq, -⟩ := Prod.mk.inj (Except.ok.inj h)
  have hrun := @foldlM_invariant _ _ _
    (fun s family => if b.updated family then PropertyColPaged.putFamily b off w family s else .ok s)
    (fun done s => ∃ written ⊆ done, RowPut p b off w written s) (fun _ => True) [] (List.range p.cols.length) (p, buf)
    ⟨[], List.Subset.refl _, rfl, hup, fun f hf => by cases hf⟩ ?_
  · obtain ⟨written, -, hdone⟩ := hrun.of_ok hput
    rw [← hq]
    exact ⟨hdone.cols, hdone.upTo⟩
  · rintro before f after s hsplit ⟨written, hsub, hs⟩
    rw [List.nil_append] at hsplit
    obtain ⟨hf, hlt⟩ := range_split hsplit
    by_cases hmark : b.updated f = true
    · rw [if_pos hmark]
      cases hone : PropertyColPaged.putFamily b off w f s with
      | error e => trivial
      | ok s' =>
        refine ⟨written ++ [f], fun g hg => ?_, hs.next (fun hmem => hf (hsub hmem)) hlt hone⟩
        rcases List.mem_append.mp hg with hg | hg
        · exact List.mem_append_left _ (hsub hg)
        · exact List.mem_append_right _ hg
    · rw [if_neg hmark]
      exact ⟨written, fun g hg => List.mem_append_left _ (hsub hg), hs⟩

end pages

/-! ### The store -/

section store
variable {floats : FloatOps} {c : StoreConfig} {sb : SchemaBuild} {s s' : GraphStore} {w w' epoch gid : Nat}
variable {recycle : Bool} {externalId : Bytes} {vprop : List Bytes} {heap : Nat → Memory}

/-- The label of an inserted vertex of the partition. -/
structure TypedInserted (floats : FloatOps) (s s' : GraphStore) (epoch : Nat) (vprop : List Bytes)
    (heap : Nat → Memory) (l l' : LabelStore) : Prop where
  layout : l'.layout = l.layout
  dtypes : l'.dtypes = l.dtypes
  property : ∃ strings args, putStrings l.dtypes strings vprop = .ok (args, s'.strings) ∧
    l.property.getNewOffset.2.insertTyped floats s.regions l.layout l.dtypes heap l.graph.vertexId epoch args =
      .ok (l'.property, s'.regions)

theorem insertInnerVertexTyped_cases
    (h : s.insertInnerVertexTyped floats recycle epoch gid externalId vprop heap = .ok s') :
    ∃ l l', OneLabel (s.idParser.getLabelId gid) l l' s s' ∧
      (s.idParser.getFid gid ≠ s.localPid ∧ (∃ map, l' = { l with vertexMap := map }) ∨
        s.idParser.getFid gid = s.localPid ∧ TypedInserted floats s s' epoch vprop heap l l') := by
  unfold GraphStore.insertInnerVertexTyped at h
  dsimp only at h
  obtain ⟨l, hl, h⟩ := bind_eq_ok h
  obtain ⟨l1, hl1, h⟩ := bind_eq_ok h
  have hl := getLabel_eq hl
  obtain ⟨map1, rfl⟩ := mapVertex_eq hl1
  split at h
  · rename_i hfid
    rw [← Except.ok.inj h]
    exact ⟨l, _, oneLabel_setLabel hl _ _, Or.inl ⟨hfid, ⟨map1, rfl⟩⟩⟩
  · rename_i hfid
    obtain ⟨l2, hl2, h⟩ := bind_eq_ok h
    obtain ⟨map2, rfl⟩ := mapVertex_eq hl2
    obtain ⟨vtable, -, h⟩ := bind_eq_ok h
    obtain ⟨⟨value, strings⟩, -, h⟩ := bind_eq_ok h
    obtain ⟨⟨args, strings'⟩, hargs, h⟩ := bind_eq_ok h
    obtain ⟨⟨property, regions⟩, hproperty, h⟩ := bind_eq_ok h
    have hv : (l.graph.createGraphWriter recycle epoch).vertexId = l.graph.vertexId :=
      (Seggraph.createGraphWriter_sameGraph l.graph recycle epoch).vertexId
    rw [← Except.ok.inj h]
    dsimp only at hproperty ⊢
    rw [hv] at hproperty
    exact ⟨l, _, oneLabel_setLabel hl _ _, Or.inr ⟨Decidable.not_not.mp hfid, rfl, rfl, strings, args, hargs,
      hproperty⟩⟩

/-- The layouts of the labels, and no version from after `w`. -/
structure TypedInv (c : StoreConfig) (sb : SchemaBuild) (s : GraphStore) (w : Nat) : Prop where
  idParser : s.idParser = IdParser.init c.totalPartitions
  localPid : s.localPid = c.localPid
  label : ∀ i l, s.labels[i]? = some l → ∃ layout, sb.layouts[i]? = some layout ∧ l.layout = layout ∧
    l.dtypes = sb.dtypesOf i ∧
        l.property.cols = layout.colFamilies.map (ColumnFamily.settle (c.label i).vertexCapacity) ∧
    PagesUpTo l.property w

theorem typedInv_create (c : StoreConfig) (sb : SchemaBuild) : TypedInv c sb (GraphStore.create c sb) 0 := by
  have hlabels : (GraphStore.create c sb).labels = sb.layouts.zipIdx.map fun layout =>
      LabelStore.create (c.label layout.2) c.edgeIsUndirected layout.1 (sb.dtypesOf layout.2) := rfl
  refine ⟨rfl, rfl, fun i l hl => ?_⟩
  rw [hlabels, List.getElem?_map, List.getElem?_zipIdx] at hl
  obtain ⟨x, hx, rfl⟩ := Option.map_eq_some_iff.mp hl
  obtain ⟨layout, hlayout, rfl⟩ := Option.map_eq_some_iff.mp hx
  rw [Nat.zero_add]
  exact ⟨layout, hlayout, rfl, rfl, rfl, fun f pg page hpage => by cases hpage⟩

theorem TypedInv.mono (h : TypedInv c sb s w') (hle : w' ≤ w) : TypedInv c sb s w := by
  refine ⟨h.idParser, h.localPid, fun i l hl => ?_⟩
  obtain ⟨layout, hlayout, hsame, hdtypes, hcols, hup⟩ := h.label i l hl
  exact ⟨layout, hlayout, hsame, hdtypes, hcols, hup.mono hle⟩

theorem TypedInv.oneLabel {vlabel : Nat} {l l' : LabelStore} (h : TypedInv c sb s w)
    (hone : OneLabel vlabel l l' s s') (hlayout : l'.layout = l.layout) (hdtypes : l'.dtypes = l.dtypes)
    (hcols : l'.property.cols = l.property.cols) (hup : PagesUpTo l.property w → PagesUpTo l'.property w) :
    TypedInv c sb s' w := by
  refine ⟨hone.same.idParser.trans h.idParser, hone.same.localPid.trans h.localPid, fun i k hk => ?_⟩
  rw [hone.after] at hk
  split at hk
  · rename_i hi
    obtain ⟨layout, hat, hsame, htypes, hfamilies, hold⟩ := h.label vlabel l hone.before
    rw [hi, ← Option.some.inj hk]
    exact ⟨layout, hat, hlayout.trans hsame, hdtypes.trans htypes, hcols.trans hfamilies, hup hold⟩
  · exact h.label i k hk

theorem TypedInv.call {call : TypedCall} (h : TypedInv c sb s w') (hle : w' ≤ call.call.epoch)
    (hcall : s.applyTypedCall floats call = .ok s') : TypedInv c sb s' call.call.epoch := by
  obtain ⟨call, heap⟩ := call
  have hnow := h.mono hle
  cases call with
  | insert recycle epoch gid externalId vprop =>
    obtain ⟨l, l', hone, ⟨-, map, rfl⟩ | ⟨-, hl'⟩⟩ := insertInnerVertexTyped_cases hcall
    · exact hnow.oneLabel hone rfl rfl rfl id
    · obtain ⟨strings, args, -, hproperty⟩ := hl'.property
      obtain ⟨layout, -, -, -, -, hup⟩ := hnow.label _ l hone.before
      obtain ⟨b, -, hput⟩ := insertTyped_spec (p := l.property.getNewOffset.2) hup hproperty
      exact hnow.oneLabel hone hl'.layout hl'.dtypes hput.cols fun _ => hput.upTo
  | update epoch gid vprop =>
    change s.updateInnerVertexTyped floats epoch gid vprop heap = .ok s' at hcall
    unfold GraphStore.updateInnerVertexTyped at hcall
    split at hcall
    · rw [← Except.ok.inj hcall]
      exact hnow
    · obtain ⟨l, hl, hcall⟩ := bind_eq_ok hcall
      obtain ⟨⟨property, regions, strings⟩, hproperty, hcall⟩ := bind_eq_ok hcall
      obtain ⟨layout, -, -, -, -, hup⟩ := hnow.label _ l (getLabel_eq hl)
      obtain ⟨hcols, hup'⟩ := updateTyped_keeps hup hproperty
      rw [← Except.ok.inj hcall]
      exact hnow.oneLabel (oneLabel_setLabel (getLabel_eq hl) _ _) rfl rfl hcols fun _ => hup'

theorem TypedInv.run {calls : List TypedCall} (h : TypedInv c sb s w)
    (hepochs : (w :: calls.map fun call => call.call.epoch).Pairwise (· ≤ ·))
    (hrun : calls.foldlM (GraphStore.applyTypedCall floats) s = .ok s') :
    ∃ w' ∈ w :: calls.map fun call => call.call.epoch, TypedInv c sb s' w' := by
  induction calls generalizing s w with
  | nil =>
    rw [← Except.ok.inj hrun]
    exact ⟨w, List.mem_cons_self, h⟩
  | cons call calls ih =>
    rw [List.foldlM_cons] at hrun
    obtain ⟨s'', hcall, hrun⟩ := bind_eq_ok hrun
    rw [List.map_cons, List.pairwise_cons] at hepochs
    obtain ⟨w', hw', hinv⟩ := ih (h.call (hepochs.1 call.call.epoch List.mem_cons_self) hcall) hepochs.2 hrun
    exact ⟨w', List.mem_cons_of_mem _ hw', hinv⟩

end store

end Gart.Store

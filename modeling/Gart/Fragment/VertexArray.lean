import Gart.Fragment.VertexRanges
import Gart.Lib.Slots

/-!
# Vertex arrays (apps/analytical_engine/core/utils/gart_vertex_array.h)

An array for the vertices of a range, the inner ones by their offset and the outer ones behind `inner_size_`.
-/

namespace Gart.Fragment
open Gart.Outcome Gart.Store Gart.Slots

/-- An entry of `addrs_` with its flag, by its slots of the table; `none` is a null pointer. -/
structure AddrPair where
  first : Option Int
  second : Option Int
  highToLow : Bool

/-- The address pairs of `Vertices`, for a table that is there. -/
def verticesAddrs (vmeta : VTableMeta) (len : Nat) : List AddrPair :=
  [{ first := some ((vmeta.maxInnerLocation : Int) - 1), second := some (-1), highToLow := true },
    { first := some vmeta.minOuterLocation, second := some len, highToLow := false }]

/-- What `Init` takes for `inner_size_`; it asks whether `second` is there. -/
def AddrPair.innerSize (a : AddrPair) : Nat :=
  if a.first.isNone ∨ a.second.isSome then 0 else (a.first.getD 0 - a.second.getD 0).toNat

/-- `GartVertexArray` (`gart_vertex_array.h:31-140`) -/
structure VertexArray (T : Type) where
  data : List T
  innerSize : Nat

/-- A write of a value to a vertex, with `SetValue` or through `operator[]`. -/
structure VertexWrite (T : Type) where
  loc : Nat
  value : T
  bySetValue : Bool

namespace VertexArray
variable {T : Type}

/-- One turn of the loop of `Init`, with `total_size` and `inner_size_`. -/
def initStep (f : VertexRanges) (vlabel : Nat) (sizes : Nat × Nat) (a : AddrPair) : Nat × Nat :=
  if a.highToLow then (sizes.1 + f.getMaxInnerVerticesNum vlabel, a.innerSize)
  else (sizes.1 + f.getMaxOuterVerticesNum vlabel, sizes.2)

/-- `GartVertexArray::Init` (`gart_vertex_array.h:40-59`) -/
def init (f : VertexRanges) (vlabel : Nat) (addrs : List AddrPair) (value : T) : VertexArray T :=
  let sizes := addrs.foldl (initStep f vlabel) (0, 0)
  { data := List.replicate sizes.1 value, innerSize := sizes.2 }

/-- The slot of `operator[]` -/
def slot (a : VertexArray T) (f : VertexRanges) (loc : Nat) : Nat :=
  let offset := f.getOffset loc
  if f.isOuterVertex loc then offset + a.innerSize else offset

/-- `GartVertexArray::operator[]` (`gart_vertex_array.h:97-108`) -/
def get (a : VertexArray T) (f : VertexRanges) (loc : Nat) : Except StoreFault T :=
  match a.data[a.slot f loc]? with
  | some value => .ok value
  | none => .error .outOfBounds

/-- `data_[offset] = value` -/
def put (a : VertexArray T) (offset : Nat) (value : T) : Except StoreFault (VertexArray T) :=
  if offset < a.data.length then .ok { a with data := a.data.set offset value } else .error .outOfBounds

/-- `GartVertexArray::SetValue` (`gart_vertex_array.h:82-84`) -/
def setValue (a : VertexArray T) (f : VertexRanges) (loc : Nat) (value : T) : Except StoreFault (VertexArray T) :=
  let offset := f.getOffset loc
  if f.isInnerVertex loc then a.put offset value
  else if f.isOuterVertex loc then a.put (offset + a.innerSize) value
  else .ok a

def write (f : VertexRanges) (a : VertexArray T) (w : VertexWrite T) : Except StoreFault (VertexArray T) :=
  if w.bySetValue then a.setValue f w.loc w.value else a.put (a.slot f w.loc) w.value

end VertexArray

def lastValue {T : Type} (v : Nat) (value : T) (writes : List (VertexWrite T)) : T :=
  lastWritten v value (writes.map fun w => (w.loc, w.value))

/-- An array over inner and outer vertices is a map: each vertex has its own slot, and is read as it was written
last. -/
structure IsVertexMap {T : Type} (f : VertexRanges) (a : VertexArray T) (value : T) (inner outer : List Nat) :
    Prop where
  inside : ∀ v ∈ inner ++ outer, a.slot f v < a.data.length
  distinct : ∀ v ∈ inner ++ outer, ∀ w ∈ inner ++ outer, a.slot f v = a.slot f w → v = w
  apart : ∀ v ∈ inner, ∀ w ∈ outer, a.slot f v ≠ a.slot f w
  reads : ∀ writes : List (VertexWrite T), (∀ w ∈ writes, w.loc ∈ inner ++ outer) →
    ∃ a', writes.foldlM (VertexArray.write f) a = .ok a' ∧
      ∀ v ∈ inner ++ outer, a'.get f v = .ok (lastValue v value writes)

section slots
variable {T : Type} {f : VertexRanges} {vlabel maxInner maxOuter v : Nat} {inner outer : List Nat} {vmeta : VTableMeta}
  {len : Nat} {a : VertexArray T} {value : T}

theorem vertexArray_init (h : SplitsLids f vlabel maxInner maxOuter) :
    VertexArray.init f vlabel (verticesAddrs vmeta len) value =
      { data := List.replicate (maxInner + maxOuter) value, innerSize := 0 } := by
  unfold VertexArray.init verticesAddrs
  simp [VertexArray.initStep, AddrPair.innerSize, h.getMaxInner, h.getMaxOuter]

theorem slot_eq (hsize : a.innerSize = 0) (v : Nat) : a.slot f v = f.getOffset v := by
  unfold VertexArray.slot
  dsimp only
  rw [hsize, Nat.add_zero, ite_self]

theorem write_eq (hsize : a.innerSize = 0) {w : VertexWrite T}
    (hkind : f.isInnerVertex w.loc = true ∨ f.isOuterVertex w.loc = true) :
    VertexArray.write f a w = a.put (f.getOffset w.loc) w.value := by
  unfold VertexArray.write VertexArray.setValue
  rw [slot_eq hsize, hsize]
  rcases hkind with hinner | houter
  · simp [hinner]
  · simp [houter]

theorem foldlM_write {writes : List (VertexWrite T)} (hsize : a.innerSize = 0)
    (hkind : ∀ w ∈ writes, f.isInnerVertex w.loc = true ∨ f.isOuterVertex w.loc = true) {data : List T}
    (hrun : writeAll f.getOffset a.data (writes.map fun w => (w.loc, w.value)) = some data) :
    writes.foldlM (VertexArray.write f) a = .ok { a with data := data } := by
  induction writes generalizing a with
  | nil =>
    have hdata : a.data = data := Option.some.inj hrun
    rw [← hdata]
    rfl
  | cons w writes ih =>
    unfold writeAll at hrun
    rw [List.map_cons, List.foldlM_cons] at hrun
    obtain ⟨next, hfirst, hrest⟩ := Option.bind_eq_some_iff.mp hrun
    unfold Slots.write at hfirst
    split at hfirst
    · rename_i hroom
      have hput : VertexArray.write f a w = .ok { a with data := next } := by
        rw [write_eq hsize (hkind w List.mem_cons_self), ← Option.some.inj hfirst]
        exact if_pos hroom
      rw [List.foldlM_cons, hput]
      exact @ih { a with data := next } hsize (fun w' hw' => hkind w' (List.mem_cons_of_mem w hw')) hrest
    · cases hfirst

theorem isVertexMap_iff_offsets (h : SplitsLids f vlabel maxInner maxOuter) {a : VertexArray T}
    (ha : a = { data := List.replicate (maxInner + maxOuter) value, innerSize := 0 })
    (hinner : ∀ v ∈ inner, ∃ o < maxInner, v = f.vidParser.generateId 0 vlabel o)
    (houter : ∀ v ∈ outer, ∃ ov < maxOuter, v = outerLidOf f.vidParser vlabel ov) :
    IsVertexMap f a value inner outer ↔ ∀ v ∈ inner, ∀ w ∈ outer, f.getOffset v ≠ f.getOffset w := by
  have hsize : a.innerSize = 0 := by rw [ha]
  have hslot : ∀ v, a.slot f v = f.getOffset v := slot_eq hsize
  have hkind : ∀ v ∈ inner ++ outer, f.isInnerVertex v = true ∨ f.isOuterVertex v = true := by
    intro v hv
    rcases List.mem_append.mp hv with hv | hv
    · obtain ⟨o, ho, rfl⟩ := hinner v hv
      exact Or.inl (h.inner ho).1
    · obtain ⟨ov, hov, rfl⟩ := houter v hv
      exact Or.inr (h.outer hov).2.1
  have hinside : ∀ v ∈ inner ++ outer, f.getOffset v < a.data.length := by
    intro v hv
    rw [ha, List.length_replicate]
    rcases List.mem_append.mp hv with hv | hv
    · obtain ⟨o, ho, rfl⟩ := hinner v hv
      rw [(h.inner ho).2.2]
      omega
    · obtain ⟨ov, hov, rfl⟩ := houter v hv
      rw [(h.outer hov).2.2]
      omega
  refine ⟨fun hmap v hv w hw => ?_, fun hapart => ?_⟩
  · rw [← hslot, ← hslot]
    exact hmap.apart v hv w hw
  · have hdistinct : ∀ v ∈ inner ++ outer, ∀ w ∈ inner ++ outer, f.getOffset v = f.getOffset w → v = w := by
      intro v hv w hw hsame
      rcases List.mem_append.mp hv with hv | hv <;> rcases List.mem_append.mp hw with hw | hw
      · obtain ⟨o, ho, rfl⟩ := hinner v hv
        obtain ⟨o', ho', rfl⟩ := hinner w hw
        rw [(h.inner ho).2.2, (h.inner ho').2.2] at hsame
        rw [hsame]
      · exact absurd hsame (hapart v hv w hw)
      · exact absurd hsame.symm (hapart w hw v hv)
      · obtain ⟨ov, hov, rfl⟩ := houter v hv
        obtain ⟨ov', hov', rfl⟩ := houter w hw
        rw [(h.outer hov).2.2, (h.outer hov').2.2] at hsame
        rw [hsame]
    have hvalue : ∀ v ∈ inner ++ outer, a.data[f.getOffset v]? = some value := by
      intro v hv
      have hlt := hinside v hv
      rw [ha] at hlt ⊢
      rw [List.getElem?_replicate, if_pos (by rwa [List.length_replicate] at hlt)]
    refine ⟨fun v hv => ?_, fun v hv w hw hsame => ?_, fun v hv w hw => ?_, fun writes hwrites => ?_⟩
    · rw [hslot]
      exact hinside v hv
    · rw [hslot, hslot] at hsame
      exact hdistinct v hv w hw hsame
    · rw [hslot, hslot]
      exact hapart v hv w hw
    · obtain ⟨data, hrun, -, hreads⟩ :=
        @writeAll_spec _ _ _ _ _ _ (writes.map fun w => (w.loc, w.value)) _ hinside hdistinct
        (fun w hw => by
          obtain ⟨w', hw', rfl⟩ := List.mem_map.mp hw
          exact hwrites w' hw') hvalue
      refine ⟨_, foldlM_write hsize (fun w hw => hkind w.loc (hwrites w hw)) hrun, fun v hv => ?_⟩
      unfold VertexArray.get
      rw [@slot_eq _ _ { a with data := data } hsize]
      dsimp only
      rw [hreads v hv]
      rfl

end slots

namespace LabelSnapshot

/-- An array that is initialised with the vertices of the label. -/
def vertexArray {T : Type} (x : LabelSnapshot) (value : T) : VertexArray T :=
  .init x.ranges x.vlabel (verticesAddrs (vtableMeta x.label) x.table.vtable.size) value

end LabelSnapshot

/-- A vertex array is a map exactly when no inner vertex of the range has the offset of an outer one. -/
theorem isVertexMap_iff {T : Type} (x : LabelSnapshot) (value : T) :
    ∃ inner outer, x.innerVertices = some inner ∧ x.outerVertices = some outer ∧ x.vertices = some (inner ++ outer) ∧
      (IsVertexMap x.ranges (x.vertexArray value) value inner outer ↔
        ∀ v ∈ inner, ∀ w ∈ outer, x.ranges.getOffset v ≠ x.ranges.getOffset w) := by
  obtain ⟨inner, outer, hinner, houter, hreads, hreads', hall⟩ := x.lists
  rw [← x.idParser] at hinner houter
  exact ⟨inner, outer, hreads, hreads', hall,
      isVertexMap_iff_offsets x.splits (vertexArray_init x.splits) hinner houter⟩

/-- The first inner and the first outer vertex share slot 0: what is written to the second is read for the first. -/
theorem vertexArray_shared : ∃ (x : LabelSnapshot) (inner outer : List Nat) (v w : Nat) (a : VertexArray Nat),
    x.innerVertices = some inner ∧ x.outerVertices = some outer ∧ x.vertices = some (inner ++ outer) ∧ v ∈ inner ∧
      w ∈ outer ∧ [⟨v, 1, true⟩, ⟨w, 2, true⟩].foldlM (VertexArray.write x.ranges) (x.vertexArray 0) = .ok a ∧
      a.get x.ranges v = .ok 2 ∧ ¬ IsVertexMap x.ranges (x.vertexArray 0) 0 inner outer := by
  have hruns : ((initGraphSchema oneRelation).toOption.bind fun sb =>
      ((tableLines metLog).foldlM GraphStore.applyRecord (GraphStore.create (ofTwo 0) sb)).toOption.bind fun s =>
      (s.labels[0]?).map fun l => (l.graph.vertexId, l.ovGraph.vertexId,
        vertices (vtableMeta l) l.vtable.table l.vtable.size, decide (l.tableView.use ≤ 8))) =
      some (2, 1, some [2, 0, 2 ^ 56 - 2], true) := by
    decide +kernel
  obtain ⟨x, hconfig, hvlabel, hmaxInner, hmaxOuter, hlids⟩ := exists_snapshot
    (@denseOffsets_one _ 0 0 _ (by decide) (by decide)) (by decide) hruns
  obtain ⟨inner, outer, hinner, houter, hreads, hreads', hall⟩ := x.lists
  have hparser : x.parser = IdParser.init 2 := by
    unfold LabelSnapshot.parser
    rw [hconfig]
    rfl
  have hsplits := x.splits
  rw [hmaxInner, hmaxOuter, hvlabel] at hsplits
  rw [hparser, hvlabel, hmaxInner] at hinner
  rw [hparser, hvlabel, hmaxOuter] at houter
  have hidParser := x.idParser
  rw [hparser] at hidParser
  have hlist : inner ++ outer = [2, 0, 2 ^ 56 - 2] := Option.some.inj (hall.symm.trans hlids)
  have hzero : (0 : Nat) ∈ inner := by
    have hmem : (0 : Nat) ∈ inner ++ outer := by
      rw [hlist]
      decide
    refine (List.mem_append.mp hmem).resolve_right fun hout => ?_
    obtain ⟨ov, hov, hlid⟩ := houter 0 hout
    rw [Nat.lt_one_iff.mp hov] at hlid
    revert hlid
    decide
  have hlast : 2 ^ 56 - 2 ∈ outer := by
    have hmem : 2 ^ 56 - 2 ∈ inner ++ outer := by
      rw [hlist]
      decide
    refine (List.mem_append.mp hmem).resolve_left fun hin => ?_
    obtain ⟨o, ho, hlid⟩ := hinner _ hin
    revert o
    decide
  have hfirst : x.ranges.isInnerVertex 0 = true ∧ x.ranges.isOuterVertex 0 = false ∧ x.ranges.getOffset 0 = 0 := by
    have hlid := hsplits.inner Nat.zero_lt_two
    rw [hidParser] at hlid
    exact hlid
  have hsecond : x.ranges.isInnerVertex (2 ^ 56 - 2) = false ∧ x.ranges.isOuterVertex (2 ^ 56 - 2) = true ∧
      x.ranges.getOffset (2 ^ 56 - 2) = 0 := by
    have hlid := hsplits.outer Nat.zero_lt_one
    rw [hidParser] at hlid
    exact hlid
  have harray : x.vertexArray 0 = { data := List.replicate 3 0, innerSize := 0 } := by
    have hinit := @vertexArray_init Nat _ _ _ _ (vtableMeta x.label) x.table.vtable.size 0 x.splits
    rw [hmaxInner, hmaxOuter] at hinit
    exact hinit
  have hwrite : ∀ v value, v = 0 ∨ v = 2 ^ 56 - 2 → ∀ data : List Nat,
      VertexArray.write x.ranges { data := data, innerSize := 0 } ⟨v, value, true⟩ =
        VertexArray.put { data := data, innerSize := 0 } 0 value := by
    rintro v value (rfl | rfl) data
    · rw [write_eq rfl (Or.inl hfirst.1), hfirst.2.2]
    · rw [write_eq rfl (Or.inr hsecond.2.1), hsecond.2.2]
  refine ⟨x, inner, outer, 0, 2 ^ 56 - 2, { data := [2, 0, 0], innerSize := 0 }, hreads, hreads', hall, hzero, hlast,
      ?_,
    ?_, fun hmap => ?_⟩
  · rw [harray, List.foldlM_cons, hwrite 0 1 (Or.inl rfl)]
    show List.foldlM (VertexArray.write x.ranges) { data := [1, 0, 0], innerSize := 0 } [⟨2 ^ 56 - 2, 2, true⟩] = _
    rw [List.foldlM_cons, hwrite _ 2 (Or.inr rfl)]
    rfl
  · unfold VertexArray.get
    rw [slot_eq rfl, hfirst.2.2]
    rfl
  · refine hmap.apart 0 hzero _ hlast ?_
    rw [harray, slot_eq rfl, slot_eq rfl, hfirst.2.2, hsecond.2.2]

end Gart.Fragment

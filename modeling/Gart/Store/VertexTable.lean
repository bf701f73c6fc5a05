import Gart.Fragment.IdParser
import Gart.Lib.MarkerLog
import Gart.Store.Buffers

/-!
# The vertex table

The local ids of a label in one array: inner vertices from its front on, outer vertices
from its end down. A deletion appends the position of the deleted vertex, with the top
bit set, to the same part.
-/

namespace Gart.Store
open Gart.Fragment

/-- `GraphStore::VTable` (`graph_store.h:77-85`) -/
structure VTable where
  table : Nat → Nat
  size : Nat
  maxInner : Nat := 0
  minOuter : Nat
  maxInnerLocation : Nat := 0
  minOuterLocation : Nat

def vertexDeleteFlag : Nat := 2 ^ 63

namespace VTable

/-- The table of `add_vgraph` over memory that holds `blank`. -/
def create (blank : Nat → Nat) (size : Nat) : VTable :=
  { table := blank, size := size, minOuter := size, minOuterLocation := size }

/-- `GraphStore::add_inner` (`graph_store.h:177-183`) -/
def addInner (t : VTable) (lid : Nat) : Except StoreFault VTable :=
  if t.maxInnerLocation = t.minOuterLocation then .error .tableFull
  else
    .ok { t with
      table := Function.update t.table t.maxInnerLocation lid
      maxInnerLocation := t.maxInnerLocation + 1
      maxInner := t.maxInner + 1 }

/-- `GraphStore::add_outer` (`graph_store.h:202-211`) -/
def addOuter (t : VTable) (lid : Nat) : Except StoreFault VTable :=
  if t.maxInnerLocation = t.minOuterLocation then .error .tableFull
  else
    .ok { t with
      table := Function.update t.table (t.minOuterLocation - 1) lid
      minOuter := t.minOuter - 1
      minOuterLocation := t.minOuterLocation - 1 }

/-- The first position of the inner part with a vertex at this offset. The source counts the positions with an `int`,
so this is its search in a table of at most 2^31 of them. -/
def findInner (t : VTable) (parser : IdParser) (offset : Nat) : Option Nat :=
  (List.range t.maxInnerLocation).find? fun i =>
    t.table i < vertexDeleteFlag ∧ parser.getOffset (t.table i) = offset

/-- `delete_inner` (`graph_store.h:185-200`); it does not look whether there is room. -/
def deleteInner (t : VTable) (parser : IdParser) (offset : Nat) : VTable :=
  match t.findInner parser offset with
  | none => t
  | some i =>
    { t with
      table := Function.update t.table t.maxInnerLocation (i ||| vertexDeleteFlag)
      maxInnerLocation := t.maxInnerLocation + 1 }

def findOuter (t : VTable) (lid : Nat) : Option Nat :=
  ((List.range (t.size - t.minOuterLocation)).map fun k => t.size - 1 - k).find? fun i =>
    t.table i < vertexDeleteFlag ∧ t.table i = lid

/-- `delete_outer` (`graph_store.h:213-229`) -/
def deleteOuter (t : VTable) (lid : Nat) : VTable :=
  match t.findOuter lid with
  | none => t
  | some i =>
    { t with
      table := Function.update t.table (t.minOuterLocation - 1) (i ||| vertexDeleteFlag)
      minOuterLocation := t.minOuterLocation - 1 }

end VTable

end Gart.Store

import Gart.Seggraph.GraphRun
import Gart.Store.GraphStore

/-!
# What the operations of the store change

The inversion of each operation on vertices: which parts of which label it replaces, and
by what. Later modules follow runs of operations with these and do not open the
operations again.
-/

namespace Gart.Store
open Gart.ByteMemory Gart.Outcome Gart.Fragment Gart.Seggraph

variable {s s' : GraphStore} {l l' : LabelStore} {recycle : Bool} {epoch gid vlabel : Nat}
  {externalId : Bytes} {vprop : List Bytes}

/-! ### Labels -/

theorem getLabel_eq (h : s.getLabel vlabel = .ok l) : s.labels[vlabel]? = some l := by
  unfold GraphStore.getLabel at h
  split at h
  · cases h
  · rename_i l' hl
    rw [hl, Except.ok.inj h]

theorem setLabel_labels (hl : s.labels[vlabel]? = some l) (i : Nat) :
    (s.setLabel vlabel l').labels[i]? = if i = vlabel then some l' else s.labels[i]? := by
  have hlt := (List.getElem?_eq_some_iff.mp hl).1
  unfold GraphStore.setLabel
  dsimp only
  rw [List.getElem?_set]
  by_cases hi : i = vlabel
  · rw [if_pos hi.symm, if_pos hi, if_pos hlt]
  · rw [if_neg fun h => hi h.symm, if_neg hi]

/-! ### Vertices -/

theorem mapExternalId_eq (h : l.mapExternalId externalId gid = .ok l') :
    ∃ map, l' = { l with vertexMap := map } := by
  unfold LabelStore.mapExternalId at h
  split at h
  · exact ⟨l.vertexMap, (Except.ok.inj h).symm⟩
  · obtain ⟨oid, -, h⟩ := bind_eq_ok h
    exact ⟨_, (Except.ok.inj h).symm⟩

theorem mapVertex_eq {globally : Bool} (h : s.mapVertex globally l externalId gid = .ok l') :
    ∃ map, l' = { l with vertexMap := map } := by
  unfold GraphStore.mapVertex at h
  split at h
  · exact mapExternalId_eq h
  · exact ⟨l.vertexMap, (Except.ok.inj h).symm⟩

/-- The label of an inserted vertex of the partition. -/
structure Inserted (s s' : GraphStore) (recycle : Bool) (epoch gid : Nat) (vprop : List Bytes)
    (l l' : LabelStore) : Prop where
  graph : l'.graph = (l.graph.createGraphWriter recycle epoch).newVertex
  ovGraph : l'.ovGraph = l.ovGraph
  layout : l'.layout = l.layout
  dtypes : l'.dtypes = l.dtypes
  vtable : l.vtable.addInner (s.idParser.generateId 0 (s.idParser.getLabelId gid) (s.idParser.getOffset gid)) =
    .ok l'.vtable
  keyLid : l'.keyLid = l.keyLid
  ovg2l : l'.ovg2l = l.ovg2l
  ovl2g : l'.ovl2g = l.ovl2g
  deletedInner : l'.deletedInner = l.deletedInner
  deletedOuter : l'.deletedOuter = l.deletedOuter
  property : ∃ externalId stored args, l.externalIdValue s.strings externalId = .ok stored ∧
    putStrings l.dtypes stored.2 vprop = .ok (args, s'.strings) ∧
    l.property.getNewOffset.2.insert s.regions l.layout l.dtypes l.graph.vertexId epoch args =
      .ok (l'.property, s'.regions)

structure SameStore (s s' : GraphStore) : Prop where
  idParser : s'.idParser = s.idParser
  localPid : s'.localPid = s.localPid
  edgeDtypes : s'.edgeDtypes = s.edgeDtypes
  globalVertexMap : s'.globalVertexMap = s.globalVertexMap
  assignOther : s'.assignOther = s.assignOther

theorem SameStore.refl (s : GraphStore) : SameStore s s := ⟨rfl, rfl, rfl, rfl, rfl⟩

theorem SameStore.trans {s'' : GraphStore} (h : SameStore s s') (h' : SameStore s' s'') : SameStore s s'' :=
  ⟨h'.idParser.trans h.idParser, h'.localPid.trans h.localPid, h'.edgeDtypes.trans h.edgeDtypes,
    h'.globalVertexMap.trans h.globalVertexMap, h'.assignOther.trans h.assignOther⟩

structure OneLabel (vlabel : Nat) (l l' : LabelStore) (s s' : GraphStore) : Prop where
  same : SameStore s s'
  before : s.labels[vlabel]? = some l
  after : ∀ i, s'.labels[i]? = if i = vlabel then some l' else s.labels[i]?

theorem OneLabel.length (h : OneLabel vlabel l l' s s') : s'.labels.length = s.labels.length := by
  have hlt := (List.getElem?_eq_some_iff.mp h.before).1
  apply Nat.le_antisymm
  · have hnone : s'.labels[s.labels.length]? = none := by
      rw [h.after, if_neg (by omega)]
      exact List.getElem?_eq_none (Nat.le_refl _)
    exact List.getElem?_eq_none_iff.mp hnone
  · have hnone : s'.labels[s'.labels.length]? = none := List.getElem?_eq_none (Nat.le_refl _)
    rw [h.after] at hnone
    split at hnone
    · cases hnone
    · exact List.getElem?_eq_none_iff.mp hnone

theorem oneLabel_setLabel (hl : s.labels[vlabel]? = some l) (strings : StringBuffer) (regions : RegionBuffer) :
    OneLabel vlabel l l' s { s.setLabel vlabel l' with strings := strings, regions := regions } :=
  ⟨⟨rfl, rfl, rfl, rfl, rfl⟩, hl, setLabel_labels hl⟩

theorem insertInnerVertex_cases (h : s.insertInnerVertex recycle epoch gid externalId vprop = .ok s') :
    ∃ l l', OneLabel (s.idParser.getLabelId gid) l l' s s' ∧
      (s.idParser.getFid gid ≠ s.localPid ∧ (∃ map, l' = { l with vertexMap := map }) ∧
          s'.strings = s.strings ∧ s'.regions = s.regions ∨
        s.idParser.getFid gid = s.localPid ∧ Inserted s s' recycle epoch gid vprop l l') := by
  unfold GraphStore.insertInnerVertex at h
  dsimp only at h
  obtain ⟨l, hl, h⟩ := bind_eq_ok h
  obtain ⟨l1, hl1, h⟩ := bind_eq_ok h
  have hl := getLabel_eq hl
  obtain ⟨map1, rfl⟩ := mapVertex_eq hl1
  split at h
  · rename_i hfid
    rw [← Except.ok.inj h]
    exact ⟨l, _, oneLabel_setLabel hl _ _, Or.inl ⟨hfid, ⟨map1, rfl⟩, rfl, rfl⟩⟩
  · rename_i hfid
    obtain ⟨l2, hl2, h⟩ := bind_eq_ok h
    obtain ⟨map2, rfl⟩ := mapVertex_eq hl2
    obtain ⟨vtable, hvtable, h⟩ := bind_eq_ok h
    obtain ⟨⟨value, strings⟩, hvalue, h⟩ := bind_eq_ok h
    obtain ⟨⟨args, strings'⟩, hargs, h⟩ := bind_eq_ok h
    obtain ⟨⟨property, regions⟩, hproperty, h⟩ := bind_eq_ok h
    have hv : (l.graph.createGraphWriter recycle epoch).vertexId = l.graph.vertexId :=
      (createGraphWriter_sameGraph l.graph recycle epoch).vertexId
    rw [← Except.ok.inj h]
    dsimp only at hproperty ⊢
    rw [hv] at hproperty
    refine ⟨l, _, oneLabel_setLabel hl _ _, Or.inr ⟨Decidable.not_not.mp hfid, ?_⟩⟩
    exact ⟨rfl, rfl, rfl, rfl, hvtable, rfl, rfl, rfl, rfl, rfl,
      ⟨externalId, _, args, hvalue, hargs, hproperty⟩⟩

/-- The label of an updated vertex of the partition. -/
structure Updated (s s' : GraphStore) (epoch gid : Nat) (vprop : List Bytes) (l l' : LabelStore) : Prop where
  rest : ∃ property, l' = { l with property := property }
  property : l.property.update s.regions s.strings l.layout l.dtypes (s.idParser.getOffset gid) epoch vprop =
    .ok (l'.property, s'.regions, s'.strings)

theorem updateInnerVertex_cases (h : s.updateInnerVertex epoch gid vprop = .ok s') :
    s.idParser.getFid gid ≠ s.localPid ∧ s' = s ∨
      s.idParser.getFid gid = s.localPid ∧ ∃ l l', OneLabel (s.idParser.getLabelId gid) l l' s s' ∧
        Updated s s' epoch gid vprop l l' := by
  unfold GraphStore.updateInnerVertex at h
  split at h
  · rename_i hfid
    exact Or.inl ⟨hfid, (Except.ok.inj h).symm⟩
  · rename_i hfid
    dsimp only at h
    obtain ⟨l, hl, h⟩ := bind_eq_ok h
    obtain ⟨⟨property, regions, strings⟩, hproperty, h⟩ := bind_eq_ok h
    rw [← Except.ok.inj h]
    exact Or.inr ⟨Decidable.not_not.mp hfid, l, _, oneLabel_setLabel (getLabel_eq hl) _ _, ⟨_, rfl⟩, hproperty⟩

end Gart.Store

import Gart.Store.GraphStore
import Gart.Store.PropertyRun

/-!
# Runs of vertex records

The store is set up from the schema. A run inserts vertices and updates their
properties; what every row holds for a reader of an epoch follows the calls.
-/

namespace Gart.Store
open Gart.ByteMemory Gart.Outcome Gart.Fragment Gart.Seggraph

/-! ### Setting up a store -/

/-- The sizes of a label and the type of its external ids. -/
structure LabelConfig where
  vertexCapacity : Nat
  blockSize : Nat
  ovVertexCapacity : Nat
  ovBlockSize : Nat
  externalIdIsString : Bool
  /-- what the memory of the vertex table holds at first -/
  blankTable : Nat → Nat

structure StoreConfig where
  totalPartitions : Nat
  localPid : Nat
  label : Nat → LabelConfig
  edgeIsUndirected : List Bool
  strings : StringBuffer
  regions : RegionBuffer
  globalVertexMap : Bool
  assignOther : PropertyDataType → Memory → Nat → Bytes → Memory

/-- `add_vgraph` and `add_vprop` (`graph_store.cc:245-301`) -/
def LabelStore.create (c : LabelConfig) (edgeIsUndirected : List Bool) (layout : VertexLayout)
    (dtypes : List PropertyDataType) : LabelStore :=
  { graph := SegGraph.create c.blockSize edgeIsUndirected
    ovGraph := SegGraph.create c.ovBlockSize edgeIsUndirected
    property := PropertyColPaged.create layout c.vertexCapacity
    layout := layout
    dtypes := dtypes
    vtable := VTable.create c.blankTable (c.vertexCapacity + c.ovVertexCapacity)
    externalIdIsString := c.externalIdIsString }

def SchemaBuild.dtypesOf (sb : SchemaBuild) (label : Nat) : List PropertyDataType :=
  ((sb.schema.props[label]?).getD []).map SchemaProp.dtype

def GraphStore.create (c : StoreConfig) (sb : SchemaBuild) : GraphStore :=
  { idParser := IdParser.init c.totalPartitions
    localPid := c.localPid
    labels := sb.layouts.zipIdx.map fun layout =>
      LabelStore.create (c.label layout.2) c.edgeIsUndirected layout.1 (sb.dtypesOf layout.2)
    edgeDtypes := (sb.schema.props.drop sb.layouts.length).map fun props => props.map SchemaProp.dtype
    strings := c.strings
    regions := c.regions
    globalVertexMap := c.globalVertexMap
    assignOther := c.assignOther }

/-! ### Keys in decimal -/

theorem textOf_decimalOf (n : Nat) : textOf (decimalOf n) = toString n := by
  have hchars : ∀ c ∈ (toString n).toList, Char.ofNat (UInt8.ofNat c.toNat).toNat = c := by
    intro c hc
    have hdigit : c.isDigit := by
      have hlist : (toString n).toList = Nat.toDigits 10 n := Nat.toList_repr
      rw [hlist] at hc
      exact Nat.isDigit_of_mem_toDigits (by decide) (by decide) hc
    have hlt : c.toNat < 256 := by
      simp only [Char.isDigit, Bool.and_eq_true, decide_eq_true_eq] at hdigit
      have hle : c.toNat ≤ 57 := hdigit.2
      omega
    rw [UInt8.toNat_ofNat_of_lt' hlt, Char.ofNat_toNat]
  unfold textOf decimalOf
  rw [List.map_map]
  have hmap := (List.map_congr_left hchars).trans (List.map_id _)
  exact (congrArg String.ofList hmap).trans (String.ofList_toList)

theorem readLong_decimalOf {key : Nat} (h : key < 2 ^ 63) : readLong (decimalOf key) = .ok key := by
  have hrange : Decimal.InRange 64 (key : Int) := by
    unfold Decimal.InRange
    omega
  have hread := Converter.stoll_toString hrange
  have hsame : toString (key : Int) = toString key := rfl
  unfold readLong
  rw [textOf_decimalOf, ← hsame, hread]
  rfl

/-! ### Strings of an inserted vertex -/

theorem Given.extends {strings strings' : StringBuffer} {dtype : PropertyDataType} {text arg : Bytes}
    (h : Given strings dtype text arg) (hext : strings.Extends strings') : Given strings' dtype text arg := by
  cases dtype with
  | string =>
    obtain ⟨key, hread, hholds⟩ := h
    exact ⟨key, hread, hholds.extends hext⟩
  | _ => exact h

/-- What holds after `k` properties. -/
structure PutStrings (strings : StringBuffer) (dtypes : List PropertyDataType) (texts : List Bytes) (k : Nat)
    (s : List Bytes × StringBuffer) : Prop where
  extended : strings.Extends s.2
  length : s.1.length = k
  given : ∀ (i : Nat) (dtype : PropertyDataType) (text arg : Bytes), dtypes[i]? = some dtype →
    texts[i]? = some text → s.1[i]? = some arg → Given s.2 dtype text arg

theorem putStrings_each {dtypes : List PropertyDataType} {strings strings' : StringBuffer}
    {texts args : List Bytes} (h : putStrings dtypes strings texts = .ok (args, strings')) :
    strings.Extends strings' ∧ args.length = texts.length ∧
      ∀ (i : Nat) (dtype : PropertyDataType) (text arg : Bytes), dtypes[i]? = some dtype → texts[i]? = some text →
        args[i]? = some arg → (dtype = .string → text.length < 2 ^ 16) → Given strings' dtype text arg := by
  let done (props : List (Bytes × Nat)) (s : List Bytes × StringBuffer) : Prop :=
    strings.Extends s.2 ∧ s.1.length = props.length ∧
      ∀ (i : Nat) (dtype : PropertyDataType) (text arg : Bytes), dtypes[i]? = some dtype → texts[i]? = some text →
        s.1[i]? = some arg → (dtype = .string → text.length < 2 ^ 16) → Given s.2 dtype text arg
  suffices hrun : Ensures (putStrings dtypes strings texts) (done ([] ++ texts.zipIdx)) fun _ => True by
    obtain ⟨hext, hlength, hgiven⟩ := hrun.of_ok h
    rw [List.nil_append, List.length_zipIdx] at hlength
    exact ⟨hext, hlength, hgiven⟩
  unfold putStrings
  refine foldlM_invariant ?_ ?_
  · exact ⟨.refl _, rfl, fun i dtype text arg _ _ harg => by cases harg⟩
  · rintro before x after s hsplit ⟨hold, hlength, hgiven⟩
    rw [List.nil_append] at hsplit
    obtain ⟨hx, htext⟩ := zipIdx_split hsplit
    have hnext : ∀ (arg : Bytes) (strings'' : StringBuffer), s.2.Extends strings'' →
        (∀ dtype, dtypes[before.length]? = some dtype → (dtype = .string → x.1.length < 2 ^ 16) →
          Given strings'' dtype x.1 arg) →
        strings.Extends strings'' ∧ (s.1 ++ [arg]).length = (before ++ [x]).length ∧
          ∀ (i : Nat) (dtype : PropertyDataType) (text arg' : Bytes), dtypes[i]? = some dtype →
            texts[i]? = some text → (s.1 ++ [arg])[i]? = some arg' → (dtype = .string → text.length < 2 ^ 16) →
            Given strings'' dtype text arg' := by
      intro arg strings'' hext hnew
      refine ⟨hold.trans hext, by simp [hlength], fun i dtype text arg' hdtype htext' harg hshort => ?_⟩
      rcases getElem?_concat_cases harg with hbefore | ⟨hi, hlast⟩
      · exact (hgiven i dtype text arg' hdtype htext' hbefore hshort).extends hext
      · rw [hlength] at hi
        rw [hi, htext] at htext'
        rw [hi] at hdtype
        rw [← Option.some.inj htext'] at hshort
        rw [hlast, ← Option.some.inj htext']
        exact hnew dtype hdtype hshort
    rw [hx]
    dsimp only
    rw [hx] at hnext
    cases hdtype : dtypes[before.length]? with
    | none => trivial
    | some dtype =>
      have hone : ∀ dtype', dtypes[before.length]? = some dtype' → dtype' = dtype := by
        intro dtype' h'
        rw [hdtype] at h'
        exact (Option.some.inj h').symm
      cases dtype with
      | string =>
        dsimp only
        cases hput : s.2.putCstring x.1 with
        | error e => trivial
        | ok r =>
          obtain ⟨key, strings''⟩ := r
          refine hnext _ _ (StringBuffer.putCstring_extends hput) fun dtype' h' hshort => ?_
          rw [hone dtype' h'] at hshort ⊢
          obtain ⟨-, hholds⟩ := StringBuffer.putCstring_spec (hshort rfl) hput
          exact ⟨key, readLong_decimalOf hholds.lt, hholds⟩
      | _ =>
        refine hnext _ _ (.refl _) fun dtype' h' _ => ?_
        rw [hone dtype' h']
        rfl

theorem putStrings_spec {dtypes : List PropertyDataType} {strings strings' : StringBuffer}
    {texts args : List Bytes} (hshort : ShortStrings dtypes texts)
    (h : putStrings dtypes strings texts = .ok (args, strings')) :
    PutStrings strings dtypes texts texts.length (args, strings') := by
  obtain ⟨hext, hlength, hgiven⟩ := putStrings_each h
  refine ⟨hext, hlength, fun i dtype text arg hdtype htext harg => hgiven i dtype text arg hdtype htext harg ?_⟩
  intro hstring
  rw [hstring] at hdtype
  exact hshort i text hdtype htext

end Gart.Store

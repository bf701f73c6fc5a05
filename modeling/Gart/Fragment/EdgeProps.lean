import Gart.Fragment.VertexProps

/-!
# The properties of edges

`construct_eprop` puts a null bitmap and the values of an edge into one byte string. The fragment
finds them with offsets that `GartFragment::Init` computes from the published schema.
-/

namespace Gart.Fragment
open Gart.ByteMemory Gart.BitArray Gart.Outcome Gart.Store Gart.Store.GraphStore

/-! ### The reader -/

/-- What the fragment keeps for the properties of an edge label. -/
structure EdgeLayout where
  propOffsets : List Nat
  bitmapSize : Nat
  deriving DecidableEq

namespace EdgeLayout

/-- The body of the loop over the properties of an edge label: an offset is where its property ends. -/
def addProp (propOffsets : List Nat) (d : PropDef) : Except SchemaFault (List Nat) :=
  let accumOffset := propOffsets.getLast?.getD 0
  match columnLength d.dtype.typeStr with
  | none => .error .typeError
  | some bytes => .ok (propOffsets ++ [accumOffset + bytes])

/-- The part of `Init` that reads the `propertyDefList` of an edge label (`gart_fragment.h:62-451`). -/
def init (defs : List PropDef) : Except SchemaFault EdgeLayout := do
  let propOffsets ← defs.foldlM addProp []
  return { propOffsets := propOffsets, bitmapSize := byteSize defs.length }

/-- `prop_bytes` -/
def propBytes (l : EdgeLayout) : Nat :=
  match l.propOffsets.getLast? with
  | none => 0
  | some last => last + l.bitmapSize

end EdgeLayout

/-- An `EdgeIterator` at an edge whose properties start at `data`. -/
structure EdgeReader where
  layout : EdgeLayout
  memory : Memory
  data : Nat
  stringBuffer : Memory

namespace EdgeReader

/-- `get_data_is_valid` (`iterator.h:310-316`) -/
def getDataIsValid (r : EdgeReader) (propId : Nat) : Bool :=
  getBit (fun x => r.memory (r.data + x)) propId == false

/-- The address that `get_data_impl` reads. -/
def dataAddr (r : EdgeReader) (propId : Nat) : Option Nat :=
  if propId = 0 then some (r.data + r.layout.bitmapSize)
  else (r.layout.propOffsets[propId - 1]?).map fun offset => r.data + r.layout.bitmapSize + offset

/-- `get_data<int>` -/
def getInt (r : EdgeReader) (propId : Nat) : Option Int := (r.dataAddr propId).map (loadInt 32 r.memory)

/-- `get_data<int64_t>` -/
def getLong (r : EdgeReader) (propId : Nat) : Option Int := (r.dataAddr propId).map (loadInt 64 r.memory)

/-- `get_data<std::string_view>` (`iterator.h:334-346`) -/
def getString (r : EdgeReader) (propId : Nat) : Option Bytes :=
  (r.getLong propId).map fun value =>
    read r.stringBuffer (value / 2 ^ 16).toNat (value % 2 ^ 16).toNat

/-- The reader gets the value that a text gives a property of this type; a text that is no number
gives none. -/
def GetsValue (r : EdgeReader) (propId : Nat) (dtype : PropertyDataType) (text : Bytes) : Prop :=
  match dtype with
  | .int | .date => ∀ n, readInt text = .ok n → r.getInt propId = some n
  | .long | .datetime | .time => ∀ n, readLong text = .ok n → r.getLong propId = some n
  | .string => r.getString propId = some text
  | _ => False

end EdgeReader

/-- The types with a number or a string that the store writes itself. -/
def codedTypes : List PropertyDataType := [.int, .long, .string, .date, .datetime, .time]

/-! ### The offsets -/

section offsets
variable {dtypes : List PropertyDataType} {dtype dtype' : PropertyDataType} {i j : Nat}

theorem edgePropBytes_append : edgePropBytes (dtypes ++ [dtype]) = edgePropBytes dtypes + dtype.size := by
  unfold edgePropBytes
  rw [List.map_append, List.sum_append, List.map_singleton, List.sum_singleton]

theorem edgePropBytes_take_succ (h : dtypes[i]? = some dtype) :
    edgePropBytes (dtypes.take (i + 1)) = edgePropBytes (dtypes.take i) + dtype.size := by
  rw [List.take_add_one, h]
  exact edgePropBytes_append

theorem edgePropBytes_take_le (hij : i ≤ j) : edgePropBytes (dtypes.take i) ≤ edgePropBytes (dtypes.take j) := by
  unfold edgePropBytes
  have hsub : ((dtypes.take i).map PropertyDataType.size).Sublist ((dtypes.take j).map PropertyDataType.size) :=
    (List.take_sublist_take_left hij).map _
  exact hsub.sum_le_sum fun n _ => Nat.zero_le n

def cellOf (dtypes : List PropertyDataType) (i : Nat) : Nat :=
  edgeBitmapSize dtypes + edgePropBytes (dtypes.take i)

theorem cell_end_le (hi : dtypes[i]? = some dtype) (hij : i < j) : cellOf dtypes i + dtype.size ≤ cellOf dtypes j := by
  have hle := @edgePropBytes_take_le dtypes _ _ (Nat.succ_le_of_lt hij)
  rw [Nat.succ_eq_add_one, edgePropBytes_take_succ hi] at hle
  unfold cellOf
  omega

theorem cell_end_le_size (hi : dtypes[i]? = some dtype) : cellOf dtypes i + dtype.size ≤ edgeDataSize dtypes := by
  have hle := cell_end_le hi (List.getElem?_eq_some_iff.mp hi).1
  unfold cellOf at hle ⊢
  rw [List.take_length] at hle
  unfold edgeDataSize
  omega

theorem bit_lt_bitmap (h : i < dtypes.length) : i / 8 < edgeBitmapSize dtypes := by
  unfold edgeBitmapSize byteSize
  omega

def endsOf (dtypes : List PropertyDataType) : List Nat :=
  (List.range dtypes.length).map fun i => edgePropBytes (dtypes.take (i + 1))

theorem endsOf_append : endsOf (dtypes ++ [dtype]) = endsOf dtypes ++ [edgePropBytes dtypes + dtype.size] := by
  have hall : (dtypes ++ [dtype]).take (dtypes.length + 1) = dtypes ++ [dtype] :=
    List.take_of_length_le (Nat.le_of_eq (by rw [List.length_append, List.length_singleton]))
  unfold endsOf
  rw [List.length_append, List.length_singleton, List.range_succ, List.map_append, List.map_singleton, hall,
    edgePropBytes_append]
  congr 1
  apply List.map_congr_left
  intro i hi
  rw [List.take_append_of_le_length (List.mem_range.mp hi)]

theorem getLast?_endsOf : (endsOf dtypes).getLast?.getD 0 = edgePropBytes dtypes := by
  induction dtypes using List.reverseRecOn with
  | nil => rfl
  | append_singleton dtypes dtype =>
    rw [endsOf_append, List.getLast?_concat, edgePropBytes_append]
    rfl

theorem getElem?_endsOf (h : i < dtypes.length) : (endsOf dtypes)[i]? = some (edgePropBytes (dtypes.take (i + 1))) := by
  unfold endsOf
  rw [List.getElem?_map, List.getElem?_range h]
  rfl

theorem edgeLayout_init (ds : List PropDef) : EdgeLayout.init ds =
    .ok { propOffsets := endsOf (ds.map PropDef.dtype), bitmapSize := byteSize ds.length } := by
  have hfold := @foldlM_invariant _ _ _ EdgeLayout.addProp
    (fun past offsets => offsets = endsOf (past.map PropDef.dtype)) Never [] ds [] rfl ?_
  · obtain ⟨offsets, hrun, heq⟩ := hfold.exists_ok
    rw [List.nil_append] at heq
    unfold EdgeLayout.init
    rw [hrun, heq]
    rfl
  · intro before d after offsets _ hoffsets
    unfold EdgeLayout.addProp
    rw [columnLength_typeStr, hoffsets, List.map_append, List.map_singleton, endsOf_append, getLast?_endsOf]
    rfl

theorem propBytes_eq {bitmap : Nat} (h : bitmap = edgeBitmapSize dtypes) :
    ({ propOffsets := endsOf dtypes, bitmapSize := bitmap } : EdgeLayout).propBytes = edgeDataSize dtypes := by
  rw [h]
  cases dtypes using List.reverseRecOn with
  | nil => rfl
  | append_singleton dtypes dtype =>
    unfold EdgeLayout.propBytes edgeDataSize
    dsimp only
    rw [endsOf_append, List.getLast?_concat, edgePropBytes_append]

end offsets

/-! ### The bytes of an edge -/

/-- The value at an address is the one that the text gives an edge property. -/
def EdgeValueAt (strings : StringBuffer) (dtype : PropertyDataType) (m : Memory) (a : Nat) (text : Bytes) : Prop :=
  match dtype with
  | .int | .date => ∀ n, readInt text = .ok n → loadInt 32 m a = n
  | .long | .datetime | .time => ∀ n, readLong text = .ok n → loadInt 64 m a = n
  | .string => strings.Holds (load m a 8) text
  | _ => False

/-- The string buffer takes the string properties among these values. -/
def stringBytes (values : List (PropertyDataType × Bytes)) : Nat :=
  (values.map fun value => if value.1 = .string then value.2.length + 1 else 0).sum

/-- What the loop of `construct_eprop` has done with the first `k` texts. -/
structure PropsBuilt (strings : StringBuffer) (dtypes : List PropertyDataType) (texts : List Bytes) (k : Nat)
    (st : Memory × StringBuffer) : Prop where
  extended : strings.Extends st.2
  capacity : st.2.capacity = strings.capacity
  size : st.2.size = strings.size + stringBytes ((dtypes.zip texts).take k)
  bits : ∀ i < dtypes.length, getBit st.1 i = decide (i < k ∧ texts[i]? = some [])
  values : ∀ (i : Nat) (dtype : PropertyDataType) (text : Bytes), i < k → dtypes[i]? = some dtype →
    texts[i]? = some text → text ≠ [] → EdgeValueAt st.2 dtype st.1 (cellOf dtypes i) text

section building
variable {s : GraphStore} {strings strings' : StringBuffer} {dtypes : List PropertyDataType}
  {dtype : PropertyDataType} {texts : List Bytes} {text : Bytes} {k i a a' : Nat} {m m' : Memory}
  {st : Memory × StringBuffer}

theorem EdgeValueAt.congr (h : EdgeValueAt strings dtype m a text)
    (hread : read m' a' dtype.size = read m a dtype.size) : EdgeValueAt strings dtype m' a' text := by
  have hint : dtype.size = 4 → loadInt 32 m' a' = loadInt 32 m a := by
    intro hsize
    rw [hsize] at hread
    exact congrArg (fun bs => Decimal.wrap 32 (ofBytes bs)) hread
  have hload : dtype.size = 8 → load m' a' 8 = load m a 8 := by
    intro hsize
    rw [hsize] at hread
    exact congrArg ofBytes hread
  have hlong : dtype.size = 8 → loadInt 64 m' a' = loadInt 64 m a := fun hsize =>
    congrArg (fun n : Nat => Decimal.wrap 64 n) (hload hsize)
  cases dtype with
  | int | date =>
    intro n hn
    rw [hint rfl]
    exact h n hn
  | long | datetime | time =>
    intro n hn
    rw [hlong rfl]
    exact h n hn
  | string =>
    show strings.Holds (load m' a' 8) text
    rw [hload rfl]
    exact h
  | _ => exact h.elim

theorem EdgeValueAt.extends (h : EdgeValueAt strings dtype m a text) (hext : strings.Extends strings') :
    EdgeValueAt strings' dtype m a text := by
  cases dtype with
  | string => exact StringBuffer.Holds.extends h hext
  | int | date => exact h
  | long | datetime | time => exact h
  | _ => exact h.elim

theorem getBit_setBit (m : Memory) (i j : Nat) : getBit (setBit m i) j = (decide (j = i) || getBit m j) := by
  have hput := @getBit_putBit m i j true
  unfold putBit at hput
  rw [if_pos rfl] at hput
  rw [hput]
  by_cases h : j = i
  · rw [if_pos h, decide_eq_true h, Bool.true_or]
  · rw [if_neg h, decide_eq_false h, Bool.false_or]

theorem stringBytes_take_succ (hdtype : dtypes[k]? = some dtype) (htext : texts[k]? = some text) :
    stringBytes ((dtypes.zip texts).take (k + 1)) =
      stringBytes ((dtypes.zip texts).take k) + if dtype = .string then text.length + 1 else 0 := by
  have hget : (dtypes.zip texts)[k]? = some (dtype, text) := List.getElem?_zip_eq_some.mpr ⟨hdtype, htext⟩
  rw [List.take_add_one, hget]
  unfold stringBytes
  rw [List.map_append, List.sum_append]
  rfl

theorem stringBytes_take_le (values : List (PropertyDataType × Bytes)) (k : Nat) :
    stringBytes (values.take k) ≤ stringBytes values := by
  unfold stringBytes
  exact ((List.take_sublist k values).map _).sum_le_sum fun n _ => Nat.zero_le n

theorem frame_below (hsame : ∀ x, x < cellOf dtypes k → m' x = m x) :
    (∀ i < dtypes.length, getBit m' i = getBit m i) ∧
      ∀ (i : Nat) (dtype' : PropertyDataType), i < k → dtypes[i]? = some dtype' →
        read m' (cellOf dtypes i) dtype'.size = read m (cellOf dtypes i) dtype'.size := by
  constructor
  · intro i hi
    apply getBit_congr
    apply hsame
    have hbit := bit_lt_bitmap hi
    unfold cellOf
    omega
  · intro i dtype' hi hdtype'
    apply read_congr
    intro x _ hx
    exact hsame x (Nat.lt_of_lt_of_le hx (cell_end_le hdtype' hi))

theorem PropsBuilt.put (h : PropsBuilt strings dtypes texts k st) (hk : dtypes[k]? = some dtype)
    (htext : texts[k]? = some text) (hne : text ≠ []) (hext : st.2.Extends strings')
    (hcapacity : strings'.capacity = st.2.capacity)
    (hsize : strings'.size = st.2.size + if dtype = .string then text.length + 1 else 0)
    (hsame : ∀ x, x < cellOf dtypes k → m x = st.1 x) (hvalue : EdgeValueAt strings' dtype m (cellOf dtypes k) text) :
    PropsBuilt strings dtypes texts (k + 1) (m, strings') := by
  obtain ⟨hbits, hcells⟩ := frame_below hsame
  constructor
  · exact h.extended.trans hext
  · exact hcapacity.trans h.capacity
  · show strings'.size = _
    rw [hsize, h.size, stringBytes_take_succ hk htext, Nat.add_assoc]
  · intro i hi
    rw [hbits i hi, h.bits i hi]
    by_cases hik : i = k
    · subst hik
      simp [htext, hne]
    · have hiff : i < k ↔ i < k + 1 := by omega
      simp only [hiff]
  · intro i dtype' text' hi hdtype' htext' hne'
    rcases Nat.lt_succ_iff_lt_or_eq.mp hi with hlt | rfl
    · exact ((h.values i dtype' text' hlt hdtype' htext' hne').extends hext).congr (hcells i dtype' hlt hdtype')
    · rw [hk] at hdtype'
      rw [htext] at htext'
      rw [← Option.some.inj hdtype', ← Option.some.inj htext']
      exact hvalue

theorem PropsBuilt.skip (h : PropsBuilt strings dtypes texts k st) (hk : dtypes[k]? = some dtype)
    (htext : texts[k]? = some []) (hext : st.2.Extends strings') (hcapacity : strings'.capacity = st.2.capacity)
    (hsize : strings'.size = st.2.size + if dtype = .string then 1 else 0) :
    PropsBuilt strings dtypes texts (k + 1) (setBit st.1 k, strings') := by
  have hlt := (List.getElem?_eq_some_iff.mp hk).1
  constructor
  · exact h.extended.trans hext
  · exact hcapacity.trans h.capacity
  · show strings'.size = _
    rw [hsize, h.size, stringBytes_take_succ hk htext, Nat.add_assoc]
    rfl
  · intro i hi
    rw [getBit_setBit, h.bits i hi]
    by_cases hik : i = k
    · subst hik
      simp [htext]
    · have hiff : i < k ↔ i < k + 1 := by omega
      simp [hik, hiff]
  · intro i dtype' text' hi hdtype' htext' hne'
    rcases Nat.lt_succ_iff_lt_or_eq.mp hi with hlow | rfl
    · refine ((h.values i dtype' text' hlow hdtype' htext' hne').extends hext).congr ?_
      apply read_congr
      intro x hx _
      have hbit := bit_lt_bitmap hlt
      have hcell : edgeBitmapSize dtypes ≤ cellOf dtypes i := Nat.le_add_right _ _
      exact if_neg (by omega)
    · rw [htext] at htext'
      exact absurd (Option.some.inj htext').symm hne'

theorem storeParsed_spec {ε : Type} {w : Nat} {out : Memory} {parse : Bytes → Except ε Int}
    (hbytes : 2 ^ w = 256 ^ (w / 8)) (hpos : 0 < w) (hrange : ∀ n, parse text = .ok n → Decimal.InRange w n)
    (hok : ∀ n, parse text = .ok n → out = storeInt w m a n) (herror : ∀ e, parse text = .error e → out = m) :
    (∀ x, x < a → out x = m x) ∧ ∀ n, parse text = .ok n → loadInt w out a = n := by
  cases hn : parse text with
  | ok n =>
    rw [hok n hn]
    refine ⟨fun x hx => store_outside (Or.inl hx), fun n' hn' => ?_⟩
    rw [← Except.ok.inj hn']
    exact loadInt_storeInt m a hbytes hpos (hrange n hn)
  | error e =>
    rw [herror e hn]
    exact ⟨fun _ _ => rfl, fun n hn' => by cases hn'⟩

theorem assignProp_spec (hcoded : dtype ∈ codedTypes) (hstring : dtype ≠ .string) :
    (∀ x, x < a → s.assignProp dtype m a text x = m x) ∧
        EdgeValueAt strings dtype (s.assignProp dtype m a text) a text := by
  cases dtype with
  | int | date =>
    refine storeParsed_spec (by decide) (by decide) (fun n => @inRange_readInt text n) ?_ ?_
    all_goals
      intro r hr
      unfold GraphStore.assignProp
      rw [hr]
  | long | datetime | time =>
    refine storeParsed_spec (by decide) (by decide) (fun n => @inRange_readLong text n) ?_ ?_
    all_goals
      intro r hr
      unfold GraphStore.assignProp
      rw [hr]
  | string => exact absurd rfl hstring
  | _ => simp [codedTypes] at hcoded

theorem putCstring_room (hshort : text.length < 2 ^ 16) : Ensures (strings.putCstring text)
    (fun r => strings.Extends r.2 ∧ r.2.Holds r.1 text ∧ r.2.capacity = strings.capacity ∧
      r.2.size = strings.size + (text.length + 1))
    (fun _ => strings.capacity ≤ strings.size + (text.length + 1)) := by
  cases hput : strings.putCstring text with
  | ok r =>
    obtain ⟨key, strings'⟩ := r
    obtain ⟨hext, hholds⟩ := StringBuffer.putCstring_spec hshort hput
    obtain ⟨-, -, rfl⟩ := StringBuffer.putCstring_eq hput
    exact ⟨hext, hholds, rfl, rfl⟩
  | error e =>
    unfold StringBuffer.putCstring StringBuffer.putBytes at hput
    dsimp only at hput
    by_cases hfull : strings.size + text.length + 1 ≥ strings.capacity
    · exact hfull
    · rw [if_neg hfull] at hput
      cases hput

theorem putEprop_spec (h : PropsBuilt strings dtypes texts k st) (hk : dtypes[k]? = some dtype)
    (htext : texts[k]? = some text) (hcoded : dtype ∈ codedTypes) (hshort : dtype = .string → text.length < 2 ^ 16) :
    Ensures (s.putEprop dtypes st (text, k)) (PropsBuilt strings dtypes texts (k + 1))
      (fun _ => strings.capacity ≤ strings.size + stringBytes (dtypes.zip texts)) := by
  unfold GraphStore.putEprop
  rw [hk]
  by_cases hstring : dtype = .string
  · subst hstring
    dsimp only
    refine Ensures.bind ((putCstring_room (hshort rfl)).mono (fun _ hr => hr) ?_) ?_
    · intro _ hfull
      have hle := stringBytes_take_le (dtypes.zip texts) (k + 1)
      rw [stringBytes_take_succ hk htext, if_pos rfl] at hle
      rw [h.capacity, h.size] at hfull
      omega
    · rintro ⟨key, strings'⟩ ⟨hext, hholds, hcapacity, hsize⟩
      by_cases hempty : text = []
      · subst hempty
        exact h.skip hk htext hext hcapacity hsize
      · show PropsBuilt strings dtypes texts (k + 1) (if text = [] then _ else _, strings')
        rw [if_neg hempty, if_neg hempty]
        refine h.put hk htext hempty hext hcapacity hsize (fun x hx => store_outside (Or.inl hx)) ?_
        show strings'.Holds (load (store st.1 (cellOf dtypes k) 8 key) (cellOf dtypes k) 8) text
        have hlt := hholds.lt
        rw [load_store_of_lt (Nat.lt_trans hlt (by decide))]
        exact hholds
  · have hbuilt : PropsBuilt strings dtypes texts (k + 1)
        (if text = [] then (if text = [] then setBit st.1 k else st.1)
          else s.assignProp dtype (if text = [] then setBit st.1 k else st.1) (cellOf dtypes k) text, st.2) := by
      by_cases hempty : text = []
      · rw [if_pos hempty, if_pos hempty]
        rw [hempty] at htext
        exact h.skip hk htext (StringBuffer.Extends.refl _) rfl (by rw [if_neg hstring]; rfl)
      · rw [if_neg hempty, if_neg hempty]
        obtain ⟨hsame, hvalue⟩ := @assignProp_spec s st.2 _ text (cellOf dtypes k) st.1 hcoded hstring
        exact h.put hk htext hempty (StringBuffer.Extends.refl _) rfl (by rw [if_neg hstring]; rfl) hsame hvalue
    cases dtype with
    | string => exact absurd rfl hstring
    | _ => exact hbuilt

theorem constructEprop_spec {elabel : Nat} (hdtypes : s.edgeDtypes[elabel]? = some dtypes)
    (hcoded : ∀ dtype ∈ dtypes, dtype ∈ codedTypes) (hlength : texts.length = dtypes.length)
    (hshort : ShortStrings dtypes texts) :
    Ensures (s.constructEprop elabel texts)
      (fun r => ∃ out, r.1 = read out 0 (edgeDataSize dtypes) ∧
        PropsBuilt s.strings dtypes texts dtypes.length (out, r.2))
      (fun _ => s.strings.capacity ≤ s.strings.size + stringBytes (dtypes.zip texts)) := by
  have hloop := @foldlM_invariant _ _ _ (s.putEprop dtypes)
    (fun past st => PropsBuilt s.strings dtypes texts past.length st)
    (fun _ => s.strings.capacity ≤ s.strings.size + stringBytes (dtypes.zip texts))
    [] texts.zipIdx (fun _ => 0, s.strings) ?_ ?_
  · rw [List.nil_append, List.length_zipIdx, hlength] at hloop
    unfold GraphStore.constructEprop
    rw [hdtypes]
    exact hloop.bind fun st hst => ⟨st.1, rfl, hst⟩
  · constructor
    · exact StringBuffer.Extends.refl _
    · rfl
    · rfl
    · intro i _
      have hzero : getBit (fun _ => 0) i = false := by
        unfold getBit
        rw [UInt8.zero_and]
        rfl
      rw [hzero]
      exact (decide_eq_false fun h => Nat.not_lt_zero i h.1).symm
    · intro i _ _ hi
      exact absurd hi (Nat.not_lt_zero i)
  · intro before prop after st hsplit hst
    obtain ⟨hprop, htext⟩ := zipIdx_split hsplit
    have hlt : before.length < dtypes.length := by
      rw [← hlength]
      exact (List.getElem?_eq_some_iff.mp htext).1
    have hdtype := List.getElem?_eq_getElem hlt
    rw [hprop, List.length_append, List.length_singleton]
    exact putEprop_spec hst hdtype htext (hcoded _ (List.getElem_mem hlt)) fun hstring =>
      hshort _ _ (by rw [hdtype, hstring]) htext

/-! ### Reading them -/

theorem dataAddr_eq {r : EdgeReader} (hlayout : r.layout = ⟨endsOf dtypes, edgeBitmapSize dtypes⟩)
    (hi : i < dtypes.length) : r.dataAddr i = some (r.data + cellOf dtypes i) := by
  unfold EdgeReader.dataAddr cellOf
  rw [hlayout]
  cases i with
  | zero => exact if_pos rfl
  | succ i =>
    rw [if_neg (Nat.succ_ne_zero i), Nat.add_sub_cancel, getElem?_endsOf (Nat.lt_of_succ_lt hi), Option.map_some,
      Nat.add_assoc]

theorem reads_built {r : EdgeReader} (hlayout : r.layout = ⟨endsOf dtypes, edgeBitmapSize dtypes⟩)
    (hbuilt : PropsBuilt strings dtypes texts dtypes.length st)
    (hdata : read r.memory r.data (edgeDataSize dtypes) = read st.1 0 (edgeDataSize dtypes))
    (hext : st.2.Extends strings') (hstrings : r.stringBuffer = strings'.content) (hdtype : dtypes[i]? = some dtype)
    (htext : texts[i]? = some text) :
    r.getDataIsValid i = decide (text ≠ []) ∧ (text ≠ [] → r.GetsValue i dtype text) := by
  have hi := (List.getElem?_eq_some_iff.mp hdtype).1
  have hbyte : ∀ x < edgeDataSize dtypes, r.memory (r.data + x) = st.1 x := by
    intro x hx
    have hget := congrArg (fun bs : Bytes => bs[x]?) hdata
    simp only [ByteMemory.read, List.getElem?_map, List.getElem?_range hx, Option.map_some, Nat.zero_add] at hget
    exact Option.some.inj hget
  have hcell := cell_end_le_size hdtype
  have haddr := dataAddr_eq hlayout hi
  constructor
  · have hbit : getBit (fun x => r.memory (r.data + x)) i = getBit st.1 i := by
      apply getBit_congr
      apply hbyte
      have hlt := bit_lt_bitmap hi
      have hle : edgeBitmapSize dtypes ≤ cellOf dtypes i := Nat.le_add_right _ _
      omega
    unfold EdgeReader.getDataIsValid
    rw [hbit, hbuilt.bits i hi, htext]
    by_cases hempty : text = []
    · simp [hempty, hi]
    · simp [hempty]
  · intro hne
    have hread : read r.memory (r.data + cellOf dtypes i) dtype.size = read st.1 (cellOf dtypes i) dtype.size := by
      unfold ByteMemory.read
      apply List.map_congr_left
      intro x hx
      rw [Nat.add_assoc]
      exact hbyte _ (by have := List.mem_range.mp hx; omega)
    have hvalue := ((hbuilt.values i dtype text hi hdtype htext hne).extends hext).congr hread
    have hlong : r.getLong i = some (loadInt 64 r.memory (r.data + cellOf dtypes i)) := by
      unfold EdgeReader.getLong
      rw [haddr]
      rfl
    have hint : r.getInt i = some (loadInt 32 r.memory (r.data + cellOf dtypes i)) := by
      unfold EdgeReader.getInt
      rw [haddr]
      rfl
    cases dtype with
    | int | date =>
      intro n hn
      rw [hint, hvalue n hn]
    | long | datetime | time =>
      intro n hn
      rw [hlong, hvalue n hn]
    | string =>
      have hholds : strings'.Holds (load r.memory (r.data + cellOf dtypes i) 8) text := hvalue
      rw [loadInt_of_lt hholds.lt] at hlong
      show r.getString i = some text
      unfold EdgeReader.getString
      rw [hlong, hstrings, Option.map_some, read_key hholds]
    | _ => exact hvalue.elim

end building

/-- For every label of a published schema the fragment gets each property of an edge from the bytes that the
store builds, also when the string buffer has grown since. The bytes are built whenever their strings have room. -/
theorem edgeProps_roundTrip {m : GraphMapping} {sb : SchemaBuild} {defs : List (List PropDef)} {c : StoreConfig}
    {s : GraphStore} {elabel : Nat} {ds : List PropDef} {dtypes : List PropertyDataType} {eprop : List Bytes}
    (hsb : initGraphSchema m = .ok sb) (hdefs : sb.schema.fillJson = .ok defs)
    (hds : defs[m.vertexTypes.length + elabel]? = some ds) (hstore : s.edgeDtypes = (GraphStore.create c sb).edgeDtypes)
    (hdtypes : sb.dtypesOf (m.vertexTypes.length + elabel) = dtypes) (hcoded : ∀ dtype ∈ dtypes, dtype ∈ codedTypes)
    (hlength : eprop.length = dtypes.length) (hshort : ShortStrings dtypes eprop) :
    ∃ layout, EdgeLayout.init ds = .ok layout ∧ layout.propBytes = edgeDataSize dtypes ∧
      (s.strings.size + stringBytes (dtypes.zip eprop) < s.strings.capacity →
        ∃ data strings, s.constructEprop elabel eprop = .ok (data, strings)) ∧
      ∀ data strings, s.constructEprop elabel eprop = .ok (data, strings) →
        ∀ (r : EdgeReader) (strings' : StringBuffer), r.layout = layout → read r.memory r.data data.length = data →
          strings.Extends strings' → r.stringBuffer = strings'.content →
            ∀ (i : Nat) (dtype : PropertyDataType) (text : Bytes), dtypes[i]? = some dtype → eprop[i]? = some text →
              r.getDataIsValid i = decide (text ≠ []) ∧ (text ≠ [] → r.GetsValue i dtype text) := by
  obtain ⟨⟨hlabelled, hlaid⟩, hoffset⟩ := (initGraphSchema_spec m).of_ok hsb
  have hnodup := nodup_of_fillJson hlabelled hdefs
  obtain ⟨defs', hdefs', hdefsLength, hpublished⟩ := fillJson_spec hlabelled hnodup.1 hnodup.2
  rw [hdefs] at hdefs'
  rw [← Except.ok.inj hdefs'] at hpublished hdefsLength
  have hin : m.vertexTypes.length + elabel < sb.schema.props.length := by
    have hlt := (List.getElem?_eq_some_iff.mp hds).1
    omega
  have hprops := List.getElem?_eq_getElem hin
  obtain ⟨ds', hds', hall⟩ := hpublished _ _ hprops
  rw [hds] at hds'
  rw [← Option.some.inj hds'] at hall
  have htypes : ds.map PropDef.dtype = dtypes := by
    rw [← hdtypes]
    unfold SchemaBuild.dtypesOf
    rw [hprops]
    show ds.map PropDef.dtype = (sb.schema.props[m.vertexTypes.length + elabel]).map SchemaProp.dtype
    have hsame : List.Forall₂ (· = ·) (ds.map PropDef.dtype)
        ((sb.schema.props[m.vertexTypes.length + elabel]).map SchemaProp.dtype) := by
      rw [List.forall₂_map_left_iff, List.forall₂_map_right_iff]
      exact hall.flip.imp fun _ _ h => h.dtype
    rw [List.forall₂_eq_eq_eq] at hsame
    exact hsame
  have hedge : s.edgeDtypes[elabel]? = some dtypes := by
    have hget : (sb.schema.props.drop sb.layouts.length)[elabel]? =
        sb.schema.props[m.vertexTypes.length + elabel]? := by
      rw [List.getElem?_drop, hlaid.length]
    rw [hstore]
    show ((sb.schema.props.drop sb.layouts.length).map fun props => props.map SchemaProp.dtype)[elabel]? = _
    rw [List.getElem?_map, hget, hprops, ← hdtypes]
    unfold SchemaBuild.dtypesOf
    rw [hprops]
    rfl
  have hbitmap : byteSize ds.length = edgeBitmapSize dtypes := by
    rw [← htypes]
    unfold edgeBitmapSize
    rw [List.length_map]
  have hbuild := constructEprop_spec hedge hcoded hlength hshort
  refine ⟨_, edgeLayout_init ds, ?_, ?_, ?_⟩
  · rw [htypes]
    exact propBytes_eq hbitmap
  · intro hroom
    obtain ⟨⟨data, strings⟩, hrun, -⟩ := (hbuild.mono (fun _ h => h) fun _ hfull =>
      absurd hroom (Nat.not_lt.mpr hfull)).exists_ok
    exact ⟨data, strings, hrun⟩
  · intro data strings hrun r strings' hlayout hmemory hext hstrings i dtype text hdtype htext
    obtain ⟨out, hout, hbuilt⟩ := hbuild.of_ok hrun
    rw [htypes, hbitmap] at hlayout
    dsimp only at hout hbuilt
    rw [hout, read_length] at hmemory
    exact reads_built hlayout hbuilt hmemory hext hstrings hdtype htext

def threeEdgeColumns : GraphMapping :=
  { vertexTypes := []
    edgeTypes := [{
      name := "knows"
      tableSchema := [("a", "int"), ("b", "date"), ("c", "text")]
      propInfo := [{ property := "A", dataField := "a", columnFamily := none },
        { property := "B", dataField := "b", columnFamily := none },
        { property := "C", dataField := "c", columnFamily := none }] }] }

/-- The values 5, null and "xy". -/
theorem edgeProps_roundTrip_three : ∃ layout data memory strings,
    (∃ s : GraphStore, s.constructEprop 0 [[53], [], [120, 121]] = .ok (data, strings)) ∧
      (EdgeReader.mk layout memory 0 strings.content).getInt 0 = some 5 ∧
      (EdgeReader.mk layout memory 0 strings.content).getDataIsValid 1 = false ∧
      (EdgeReader.mk layout memory 0 strings.content).getString 2 = some [120, 121] := by
  have hrun : ((initGraphSchema threeEdgeColumns).toOption.bind fun sb => sb.schema.fillJson.toOption.bind fun defs =>
      defs[0]?.map fun _ => (sb.dtypesOf 0, (GraphStore.create oneLabel sb).strings.capacity)) =
        some ([.int, .date, .string], 100) := by
    decide +kernel
  obtain ⟨sb, hsb, hrun⟩ := Option.bind_eq_some_iff.mp hrun
  obtain ⟨defs, hdefs, hrun⟩ := Option.bind_eq_some_iff.mp hrun
  obtain ⟨ds, hds, hrun⟩ := Option.map_eq_some_iff.mp hrun
  obtain ⟨hdtypes, -⟩ := Prod.mk.inj hrun
  have hshort : ShortStrings [.int, .date, .string] [[53], [], [120, 121]] := by
    intro i text _ htext
    have hlen : ∀ text ∈ ([[53], [], [120, 121]] : List Bytes), text.length < 2 ^ 16 := by decide
    exact hlen text (List.mem_of_getElem? htext)
  obtain ⟨layout, -, -, hroom, hreads⟩ := @edgeProps_roundTrip threeEdgeColumns sb defs oneLabel
    (GraphStore.create oneLabel sb) 0 ds _ [[53], [], [120, 121]] (ok_of_toOption hsb) (ok_of_toOption hdefs) hds rfl
    hdtypes (by decide) rfl hshort
  obtain ⟨data, strings, hdata⟩ := hroom (by show 0 + _ < 100; decide)
  have hread := hreads data strings hdata
    (EdgeReader.mk layout (write (fun _ => 0) 0 data) 0 strings.content) strings rfl
    (read_write_same _ _ _) (StringBuffer.Extends.refl _) rfl
  have hvalue : readInt [53] = .ok 5 := ok_of_toOption (by decide +kernel)
  refine ⟨layout, data, _, strings, ⟨_, hdata⟩, (hread 0 .int [53] rfl rfl).2 (by decide) 5 hvalue, ?_,
    (hread 2 .string [120, 121] rfl rfl).2 (by decide)⟩
  rw [(hread 1 .date [] rfl rfl).1]
  rfl

end Gart.Fragment

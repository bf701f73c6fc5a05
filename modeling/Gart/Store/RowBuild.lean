import Gart.Store.RowPages

/-!
# Building a row

The loops of `insert` and `update` over the properties put every value at its offset in
the buffer of its family and number the null flags of a family from 0.
-/

namespace Gart.Store
open Gart.ByteMemory Gart.BitArray Gart.Outcome Gart.Versions

variable {cols : List ColumnFamily} {layout : VertexLayout} {dtypes : List PropertyDataType}
  {strings strings' : StringBuffer} {texts : List Bytes} {k : Nat} {b b' : RowBuild}

/-- The flags of the first `k` properties. -/
structure Flagged (cols : List ColumnFamily) (layout : VertexLayout) (k : Nat) (b : RowBuild) : Prop where
  length : ∀ f, (b.isNull f).length = (layout.propColumnFamily.take k).count f
  fits : ∀ f col, cols[f]? = some col → (b.isNull f).length ≤ col.columnNum

/-- The values of the first `k` properties. -/
structure Built (strings : StringBuffer) (layout : VertexLayout) (dtypes : List PropertyDataType)
    (texts : List Bytes) (k : Nat) (b : RowBuild) : Prop where
  null : ∀ i < k, ∀ place dtype text, placeOf layout i = some place → dtypes[i]? = some dtype →
    texts[i]? = some text → (b.isNull place.family).getD place.nullBit false = decide (text = [])
  value : ∀ i < k, ∀ place dtype text, placeOf layout i = some place → dtypes[i]? = some dtype →
    texts[i]? = some text → text ≠ [] → ValueAt strings dtype (b.propBuffer place.family) place.offset text

theorem flagged_zero (m : Nat → Memory) : Flagged cols layout 0 { propBuffer := m } := by
  constructor
  · intro f
    rw [List.take_zero]
    rfl
  · intro f col _
    exact Nat.zero_le _

theorem built_zero (m : Nat → Memory) : Built strings layout dtypes texts 0 { propBuffer := m } := by
  constructor
  · intro i hi
    cases hi
  · intro i hi
    cases hi

/-- What one round of the loop does: a flag and, unless it is up, a value. -/
structure Round (layout : VertexLayout) (place : Place) (dtype : PropertyDataType) (b b' : RowBuild) : Prop where
  flag : ∃ null, b'.isNull = Function.update b.isNull place.family (b.isNull place.family ++ [null])
  buffer : ∀ f, (f ≠ place.family → b'.propBuffer f = b.propBuffer f) ∧
    ∀ x, x < place.offset ∨ place.offset + dtype.size ≤ x → b'.propBuffer f x = b.propBuffer f x

theorem round_pushNull (layout : VertexLayout) (place : Place) (dtype : PropertyDataType) (b : RowBuild) :
    Round layout place dtype b (b.pushNull place.family true) :=
  ⟨⟨true, rfl⟩, fun _ => ⟨fun _ => rfl, fun _ _ => rfl⟩⟩

section round
variable {place : Place} {dtype : PropertyDataType}

theorem placeOf_family {i : Nat} (h : placeOf layout i = some place) :
    layout.propColumnFamily[i]? = some place.family := by
  unfold placeOf at h
  split at h
  · rename_i family offset nullBit hf _ _
    rw [← Option.some.inj h]
    exact hf
  · cases h

theorem count_take_succ {i : Nat} (h : placeOf layout i = some place) (f : Nat) :
    (layout.propColumnFamily.take (i + 1)).count f =
      (layout.propColumnFamily.take i).count f + if place.family = f then 1 else 0 := by
  rw [List.take_add_one, placeOf_family h, List.count_append]
  show _ + [place.family].count f = _
  rw [List.count_singleton]
  simp

theorem Round.flagged (h : Round layout place dtype b b') (hlaid : WellLaid cols layout dtypes)
    (hplace : placeOf layout k = some place) (hdtype : dtypes[k]? = some dtype)
    (hb : Flagged cols layout k b) : Flagged cols layout (k + 1) b' := by
  obtain ⟨null, hflag⟩ := h.flag
  have hlength : ∀ f, (b'.isNull f).length = (layout.propColumnFamily.take (k + 1)).count f := by
    intro f
    rw [hflag, count_take_succ hplace]
    by_cases hf : place.family = f
    · subst hf
      rw [Function.update_self, List.length_append, hb.length, if_pos rfl]
      rfl
    · rw [Function.update_of_ne (Ne.symm hf), hb.length, if_neg hf]
      rfl
  refine ⟨hlength, fun f col hcol => ?_⟩
  rw [hlength, count_take_succ hplace]
  have hold := hb.fits f col hcol
  rw [hb.length] at hold
  by_cases hf : place.family = f
  · obtain ⟨place', col', hplace', hcol', -, hbit⟩ := hlaid.found k dtype hdtype
    rw [hplace] at hplace'
    rw [← Option.some.inj hplace'] at hcol' hbit
    rw [hf, hcol] at hcol'
    rw [← Option.some.inj hcol', hlaid.bit k dtype place hdtype hplace, hf] at hbit
    rw [if_pos hf]
    exact hbit
  · rw [if_neg hf]
    exact hold

theorem Round.built (h : Round layout place dtype b b') (hlaid : WellLaid cols layout dtypes)
    (hplace : placeOf layout k = some place) (hdtype : dtypes[k]? = some dtype)
    (hlength : ∀ f, (b.isNull f).length = (layout.propColumnFamily.take k).count f)
    (hext : strings.Extends strings') (hb : Built strings layout dtypes texts k b)
    {text : Bytes} (htext : texts[k]? = some text)
    (hnull : b'.isNull = Function.update b.isNull place.family (b.isNull place.family ++ [decide (text = [])]))
    (hvalue : text ≠ [] → ValueAt strings' dtype (b'.propBuffer place.family) place.offset text) :
    Built strings' layout dtypes texts (k + 1) b' := by
  have hrank := hlaid.bit k dtype place hdtype hplace
  constructor
  · intro i hi place' dtype' text' hplace' hdtype' htext'
    rcases Nat.lt_succ_iff_lt_or_eq.mp hi with hlt | rfl
    · rw [← hb.null i hlt place' dtype' text' hplace' hdtype' htext', hnull]
      by_cases hf : place'.family = place.family
      · have hbit := hlaid.bit i dtype' place' hdtype' hplace'
        have hle : (layout.propColumnFamily.take (i + 1)).count place.family ≤
            (layout.propColumnFamily.take k).count place.family :=
          (List.take_sublist_take_left hlt).count_le place.family
        rw [count_take_succ hplace', if_pos hf] at hle
        rw [hf, Function.update_self, List.getD_append _ _ _ _ (by rw [hlength, hbit, hf]; omega)]
      · rw [Function.update_of_ne hf]
    · rw [hplace] at hplace'
      rw [htext] at htext'
      rw [← Option.some.inj hplace', ← Option.some.inj htext', hnull, Function.update_self,
        List.getD_append_right _ _ _ _ (by rw [hlength, hrank]), hlength, hrank, Nat.sub_self]
      rfl
  · intro i hi place' dtype' text' hplace' hdtype' htext' hne
    rcases Nat.lt_succ_iff_lt_or_eq.mp hi with hlt | rfl
    · refine ((hb.value i hlt place' dtype' text' hplace' hdtype' htext' hne).extends hext).congr ?_
      obtain ⟨hother, hsame⟩ := h.buffer place'.family
      by_cases hf : place'.family = place.family
      · obtain ⟨hapart, -⟩ := hlaid.apart i k dtype' dtype place' place (Nat.ne_of_lt hlt) hdtype' hdtype
          hplace' hplace hf
        refine read_congr fun x hlo hhi => hsame x ?_
        omega
      · rw [hother hf]
    · rw [hplace] at hplace'
      rw [hdtype] at hdtype'
      rw [htext] at htext'
      rw [← Option.some.inj htext'] at hne ⊢
      rw [← Option.some.inj hplace', ← Option.some.inj hdtype']
      exact hvalue hne

end round

/-! ### insert -/

/-- The text that `insert` gets for a property: of a string its key. -/
def Given (strings : StringBuffer) (dtype : PropertyDataType) (text arg : Bytes) : Prop :=
  match dtype with
  | .string => ∃ key : Nat, readLong arg = .ok key ∧ strings.Holds key text
  | _ => arg = text

theorem store_outside_buffer (b : RowBuild) (place : Place) (null : Bool) (m : Memory)
    {n : Nat} (h : ∀ x, x < place.offset ∨ place.offset + n ≤ x → m x = b.propBuffer place.family x) (f : Nat) :
    (f ≠ place.family → ((b.pushNull place.family null).setBuffer place.family m).propBuffer f = b.propBuffer f) ∧
    ∀ x, x < place.offset ∨ place.offset + n ≤ x →
      ((b.pushNull place.family null).setBuffer place.family m).propBuffer f x = b.propBuffer f x := by
  unfold RowBuild.setBuffer RowBuild.pushNull
  dsimp only
  constructor
  · intro hf
    rw [Function.update_of_ne hf]
  · intro x hx
    by_cases hf : f = place.family
    · rw [hf, Function.update_self]
      exact h x hx
    · rw [Function.update_of_ne hf]

theorem holds_key_eq_zero {key : Nat} {text : Bytes} (h : strings.Holds key text) :
    key % 2 ^ 16 = 0 ↔ text = [] := by
  have hlength := h.length
  have hmod : key &&& 0xffff = key % 2 ^ 16 := Nat.and_two_pow_sub_one_eq_mod key 16
  rw [hmod] at hlength
  rw [hlength, List.length_eq_zero_iff]

theorem insertProp_round {p : PropertyColPaged} {place : Place} {dtype : PropertyDataType} {text arg : Bytes}
    (hplace : placeOf layout k = some place) (hdtype : dtypes[k]? = some dtype)
    (hgiven : Given strings dtype text arg) (h : p.insertProp layout dtypes b (arg, k) = .ok b') :
    Round layout place dtype b b' ∧
      b'.isNull = Function.update b.isNull place.family (b.isNull place.family ++ [decide (text = [])]) ∧
      (text ≠ [] → ValueAt strings dtype (b'.propBuffer place.family) place.offset text) := by
  have hnone : text = [] → Round layout place dtype b (b.pushNull place.family true) ∧
      (b.pushNull place.family true).isNull =
        Function.update b.isNull place.family (b.isNull place.family ++ [decide (text = [])]) ∧
      (text ≠ [] → ValueAt strings dtype ((b.pushNull place.family true).propBuffer place.family)
        place.offset text) := by
    intro hempty
    refine ⟨round_pushNull _ _ _ _, ?_, fun hne => absurd hempty hne⟩
    rw [decide_eq_true hempty]
    rfl
  unfold PropertyColPaged.insertProp at h
  rw [hplace, hdtype] at h
  dsimp only at h
  by_cases hfamily : p.cols.length ≤ place.family
  · rw [if_pos hfamily] at h
    cases h
  rw [if_neg hfamily] at h
  cases dtype with
  | int =>
    have harg : arg = text := hgiven
    subst harg
    dsimp only at h
    by_cases hempty : arg = []
    · rw [if_pos hempty] at h
      rw [← Except.ok.inj h]
      exact hnone hempty
    · rw [if_neg hempty] at h
      cases hread : readInt arg with
      | error e =>
        rw [hread] at h
        cases h
      | ok n =>
        rw [hread] at h
        rw [← Except.ok.inj h]
        refine ⟨⟨⟨false, rfl⟩, store_outside_buffer b place false _ fun x hx => store_outside hx⟩, ?_, fun _ => ?_⟩
        · rw [decide_eq_false hempty]
          rfl
        · show readInt arg = .ok (loadInt 32 (Function.update b.propBuffer place.family _ place.family) _)
          rw [Function.update_self, loadInt_storeInt _ _ (by decide) (by decide) (inRange_readInt hread), hread]
  | long =>
    have harg : arg = text := hgiven
    subst harg
    dsimp only at h
    by_cases hempty : arg = []
    · rw [if_pos hempty] at h
      rw [← Except.ok.inj h]
      exact hnone hempty
    · rw [if_neg hempty] at h
      cases hread : readLong arg with
      | error e =>
        rw [hread] at h
        cases h
      | ok n =>
        rw [hread] at h
        rw [← Except.ok.inj h]
        refine ⟨⟨⟨false, rfl⟩, store_outside_buffer b place false _ fun x hx => store_outside hx⟩, ?_, fun _ => ?_⟩
        · rw [decide_eq_false hempty]
          rfl
        · show readLong arg = .ok (loadInt 64 (Function.update b.propBuffer place.family _ place.family) _)
          rw [Function.update_self, loadInt_storeInt _ _ (by decide) (by decide) (inRange_readLong hread), hread]
  | string =>
    obtain ⟨key, hread, hholds⟩ := hgiven
    dsimp only at h
    rw [hread] at h
    dsimp only [bind, Except.bind] at h
    have hzero : (key : Int) % 2 ^ 16 = 0 ↔ text = [] := by
      rw [← holds_key_eq_zero hholds]
      omega
    by_cases hempty : text = []
    · rw [if_pos (hzero.mpr hempty)] at h
      rw [← Except.ok.inj h]
      exact hnone hempty
    · rw [if_neg fun hz => hempty (hzero.mp hz)] at h
      rw [← Except.ok.inj h]
      refine ⟨⟨⟨false, rfl⟩, store_outside_buffer b place false _ fun x hx => store_outside hx⟩, ?_, fun _ => ?_⟩
      · rw [decide_eq_false hempty]
        rfl
      · show strings.Holds (load (Function.update b.propBuffer place.family _ place.family) _ 8) text
        have hlt := hholds.lt
        have hnat : ((key : Int) % 2 ^ 64).toNat = key := by omega
        unfold storeInt
        rw [Function.update_self, hnat, load_store_of_lt (by omega)]
        exact hholds
  | _ => cases h

theorem insertProp_spec {p : PropertyColPaged} (hlaid : WellLaid p.cols layout dtypes)
    (hb : Flagged p.cols layout k b) (hbuilt : Built strings layout dtypes texts k b)
    {dtype : PropertyDataType} {text arg : Bytes} (hdtype : dtypes[k]? = some dtype)
    (htext : texts[k]? = some text) (hgiven : Given strings dtype text arg)
    (h : p.insertProp layout dtypes b (arg, k) = .ok b') :
    Flagged p.cols layout (k + 1) b' ∧ Built strings layout dtypes texts (k + 1) b' := by
  obtain ⟨place, col, hplace, hcol, -, -⟩ := hlaid.found k dtype hdtype
  obtain ⟨hround, hnull, hvalue⟩ := insertProp_round hplace hdtype hgiven h
  exact ⟨hround.flagged hlaid hplace hdtype hb,
    hround.built hlaid hplace hdtype hb.length (.refl _) hbuilt htext hnull hvalue⟩

/-! ### update -/

theorem mark_isNull (b : RowBuild) (family : Nat) (changed : Bool) :
    (b.mark family changed).isNull = b.isNull := by
  cases changed <;> rfl

theorem mark_propBuffer (b : RowBuild) (family : Nat) (changed : Bool) :
    (b.mark family changed).propBuffer = b.propBuffer := by
  cases changed <;> rfl

theorem mark_updated {family f : Nat} {changed : Bool} (h : (b.mark family changed).updated f = false) :
    b.updated f = false ∧ (f = family → changed = false) := by
  cases changed with
  | false => exact ⟨h, fun _ => rfl⟩
  | true =>
    have h : Function.update b.updated family true f = false := h
    by_cases hf : f = family
    · rw [hf, Function.update_self] at h
      cases h
    · rw [Function.update_of_ne hf] at h
      exact ⟨h, fun heq => absurd heq hf⟩

theorem Round.mark {place : Place} {dtype : PropertyDataType} (h : Round layout place dtype b b')
    (family : Nat) (changed : Bool) : Round layout place dtype b (b'.mark family changed) := by
  cases changed with
  | false => exact h
  | true => exact ⟨h.flag, h.buffer⟩

def Newest (p : PropertyColPaged) (off family : Nat) (col : ColumnFamily) (page : Page) : Prop :=
  ∃ older, p.pages family (off / col.pageSize) = page :: older

/-- The texts of the first `k` properties are in the newest pages where no family is marked. -/
def Kept (strings : StringBuffer) (p : PropertyColPaged) (layout : VertexLayout)
    (dtypes : List PropertyDataType) (off : Nat) (texts : List Bytes) (k : Nat) (b : RowBuild) : Prop :=
  ∀ i < k, ∀ place dtype text col page, placeOf layout i = some place → dtypes[i]? = some dtype →
    texts[i]? = some text → p.cols[place.family]? = some col → Newest p off place.family col page →
      b.updated place.family = false →
      Encodes strings dtype (getBit page.content (col.nullBit (off % col.pageSize) place.nullBit)) page.content
        (col.cell (off % col.pageSize) place.offset) text

/-- A round of `update` for `text`: `null` and `dst` are the null bit and the cell of the property in
the newest version of the page. A string is compared with the old one, so that has to be there. -/
structure UpdateRound (strings strings' : StringBuffer) (layout : VertexLayout) (place : Place)
    (dtype : PropertyDataType) (text : Bytes) (null : Bool) (m : Memory) (dst : Nat) (b b' : RowBuild) :
    Prop where
  extended : strings.Extends strings'
  round : Round layout place dtype b b'
  flag : b'.isNull = Function.update b.isNull place.family (b.isNull place.family ++ [decide (text = [])])
  value : ∃ changed, (∀ f, b'.updated f = false → b.updated f = false ∧ (f = place.family → changed = false)) ∧
    ∀ old, Encodes strings dtype null m dst old →
      (text ≠ [] → ValueAt strings' dtype (b'.propBuffer place.family) place.offset text) ∧
      (changed = false → Encodes strings' dtype null m dst text)

section updating
variable {place : Place} {dtype : PropertyDataType} {text : Bytes} {null : Bool} {m : Memory} {dst w : Nat}
  {n : Int}

theorem updateRound_null (hempty : text = []) : UpdateRound strings strings layout place dtype text null m
    dst b ((b.pushNull place.family true).mark place.family !null) where
  extended := .refl _
  round := (round_pushNull layout place dtype b).mark _ _
  flag := by
    rw [mark_isNull, decide_eq_true hempty]
    rfl
  value := by
    refine ⟨!null, fun f hf => (mark_updated hf :), fun old _ =>
      ⟨fun hne => absurd hempty hne, fun hsame => ⟨?_, fun hne => absurd hempty hne⟩⟩⟩
    rw [decide_eq_true hempty]
    simpa using hsame

theorem updateRound_number (hsize : dtype.size = w / 8) (hne : text ≠ [])
    (hstore : ∀ m a, ValueAt strings dtype (storeInt w m a n) a text)
    (hsame : n = loadInt w m dst → ValueAt strings dtype m dst text) :
    UpdateRound strings strings layout place dtype text null m dst b
      (((b.pushNull place.family false).setBuffer place.family
        (storeInt w (b.propBuffer place.family) place.offset n)).mark place.family
          (null || n != loadInt w m dst)) where
  extended := .refl _
  round := by
    refine Round.mark ⟨⟨false, rfl⟩, store_outside_buffer b place false _ fun x hx => store_outside ?_⟩ _ _
    rw [← hsize]
    exact hx
  flag := by
    rw [mark_isNull, decide_eq_false hne]
    rfl
  value := by
    refine ⟨_, fun f hf => (mark_updated hf :), fun old _ => ⟨fun _ => ?_, fun hchanged => ?_⟩⟩
    · rw [mark_propBuffer]
      show ValueAt strings dtype (Function.update b.propBuffer place.family _ place.family) _ text
      rw [Function.update_self]
      exact hstore _ _
    · obtain ⟨hnull, hvalue⟩ := Bool.or_eq_false_iff.mp hchanged
      rw [hnull]
      exact ⟨(decide_eq_false hne).symm, fun _ => hsame (bne_eq_false_iff_eq.mp hvalue)⟩

theorem updateRound_key {key : Nat} {changed : Bool} (hne : text ≠ []) (hext : strings.Extends strings')
    (hholds : ∀ old, Encodes strings .string null m dst old → strings'.Holds key text)
    (hsame : ∀ old, Encodes strings .string null m dst old → changed = false →
      Encodes strings' .string null m dst text) :
    UpdateRound strings strings' layout place .string text null m dst b
      (((b.pushNull place.family false).setBuffer place.family
        (store (b.propBuffer place.family) place.offset 8 key)).mark place.family changed) where
  extended := hext
  round := Round.mark ⟨⟨false, rfl⟩, store_outside_buffer b place false _ fun x hx => store_outside hx⟩ _ _
  flag := by
    rw [mark_isNull, decide_eq_false hne]
    rfl
  value := by
    refine ⟨changed, fun f hf => (mark_updated hf :), fun old henc => ⟨fun _ => ?_, hsame old henc⟩⟩
    have hkey := hholds old henc
    have hlt := hkey.lt
    rw [mark_propBuffer]
    show strings'.Holds (load (Function.update b.propBuffer place.family _ place.family) _ 8) text
    rw [Function.update_self, load_store_of_lt (by omega)]
    exact hkey

theorem updateProp_round {p : PropertyColPaged} {off : Nat} {col : ColumnFamily}
    (hplace : placeOf layout k = some place) (hdtype : dtypes[k]? = some dtype)
    (hcol : p.cols[place.family]? = some col) (hshort : dtype = .string → text.length < 2 ^ 16)
    (h : p.updateProp layout dtypes off (b, strings) (text, k) = .ok (b', strings')) :
    ∃ page, Newest p off place.family col page ∧
      UpdateRound strings strings' layout place dtype text
        (getBit page.content (col.nullBit (off % col.pageSize) place.nullBit)) page.content
        (col.cell (off % col.pageSize) place.offset) b b' := by
  unfold PropertyColPaged.updateProp at h
  rw [hplace, hdtype] at h
  dsimp only at h
  rw [hcol] at h
  dsimp only at h
  cases hchain : p.pages place.family (off / col.pageSize) with
  | nil =>
    rw [hchain] at h
    cases h
  | cons page older =>
    rw [hchain] at h
    dsimp only at h
    refine ⟨page, ⟨older, hchain⟩, ?_⟩
    generalize getBit page.content (col.nullBit (off % col.pageSize) place.nullBit) = null at h ⊢
    generalize col.cell (off % col.pageSize) place.offset = dst at h ⊢
    by_cases hempty : text = []
    · rw [if_pos hempty] at h
      obtain ⟨hb, hstrings⟩ := Prod.mk.inj (Except.ok.inj h)
      rw [← hb, ← hstrings]
      exact updateRound_null hempty
    · rw [if_neg hempty] at h
      cases dtype with
      | int =>
        cases hread : readInt text with
        | error e =>
          rw [hread] at h
          cases h
        | ok n =>
          rw [hread] at h
          obtain ⟨hb, hstrings⟩ := Prod.mk.inj (Except.ok.inj h)
          rw [← hb, ← hstrings]
          refine updateRound_number rfl hempty (fun m a => ?_) (fun hsame => ?_)
          · exact hread.trans (congrArg Except.ok
              (loadInt_storeInt m a (by decide) (by decide) (inRange_readInt hread)).symm)
          · exact hread.trans (congrArg Except.ok hsame)
      | long =>
        cases hread : readLong text with
        | error e =>
          rw [hread] at h
          cases h
        | ok n =>
          rw [hread] at h
          obtain ⟨hb, hstrings⟩ := Prod.mk.inj (Except.ok.inj h)
          rw [← hb, ← hstrings]
          refine updateRound_number rfl hempty (fun m a => ?_) (fun hsame => ?_)
          · exact hread.trans (congrArg Except.ok
              (loadInt_storeInt m a (by decide) (by decide) (inRange_readLong hread)).symm)
          · exact hread.trans (congrArg Except.ok hsame)
      | string =>
        dsimp only at h
        by_cases hchanged : (null || strings.getString (load page.content dst 8) != text) = true
        · rw [if_pos hchanged] at h
          cases hput : strings.putCstring text with
          | error e =>
            rw [hput] at h
            cases h
          | ok r =>
            obtain ⟨key, strings''⟩ := r
            rw [hput] at h
            obtain ⟨hb, hstrings⟩ := Prod.mk.inj (Except.ok.inj h)
            obtain ⟨hext, hholds⟩ := StringBuffer.putCstring_spec (hshort rfl) hput
            rw [← hb, ← hstrings]
            exact updateRound_key hempty hext (fun _ _ => hholds) (fun _ _ hsame => by cases hsame)
        · rw [if_neg hchanged] at h
          obtain ⟨hb, hstrings⟩ := Prod.mk.inj (Except.ok.inj h)
          obtain ⟨hnull, hvalue⟩ := Bool.or_eq_false_iff.mp (Bool.eq_false_iff.mpr hchanged)
          have hsame : strings.getString (load page.content dst 8) = text := bne_eq_false_iff_eq.mp hvalue
          rw [← hb, ← hstrings, hnull]
          have hholds : ∀ old, Encodes strings .string false page.content dst old →
              strings.Holds (load page.content dst 8) text := by
            intro old henc
            have hold : strings.Holds (load page.content dst 8) old :=
              henc.value (of_decide_eq_false henc.null.symm)
            rw [hold.getString] at hsame
            rw [hsame] at hold
            exact hold
          exact @updateRound_key layout strings strings b place text false page.content dst _ false hempty
            (.refl _) hholds (fun old henc _ => ⟨(decide_eq_false hempty).symm, fun _ => hholds old henc⟩)
      | _ => cases h

end updating

end Gart.Store

import Gart.Store.RowBuild

/-!
# Versions of rows

A write of a row opens a version of the pages of its families. The rows that readers of
earlier epochs take stay as they are, and so do the other rows of the pages.
-/

namespace Gart.Store
open Gart.ByteMemory Gart.BitArray Gart.Outcome Gart.Versions

theorem update_apply₂ {α : Type} (f : Nat → Nat → α) (i pg : Nat) (x : α) (j pg' : Nat) :
    Function.update f i (Function.update (f i) pg x) j pg' = if (j, pg') = (i, pg) then x else f j pg' := by
  by_cases hj : j = i
  · by_cases hpg : pg' = pg <;> simp [hj, hpg]
  · simp [hj]

/-- The texts of a row that a reader at an epoch takes, where the row has been inserted. -/
abbrev Rows := Nat → Nat → Option (List Bytes)

/-- The pages of a family have the rows for every reader. -/
structure FamilyInv (strings : StringBuffer) (layout : VertexLayout) (dtypes : List PropertyDataType)
    (family : Nat) (col : ColumnFamily) (chains : Nat → List Page) (cur : Rows) (w : Nat) : Prop where
  upTo : ∀ pg, UpTo Page.ver w (chains pg)
  holds : ∀ off e texts, cur off e = some texts → ∃ page,
    visible Page.ver e (chains (off / col.pageSize)) = some page ∧
      RowHolds strings layout dtypes family col page.content (off % col.pageSize) texts

structure PropInv (strings : StringBuffer) (layout : VertexLayout) (dtypes : List PropertyDataType)
    (p : PropertyColPaged) (cur : Rows) (w : Nat) : Prop where
  laid : WellLaid p.cols layout dtypes
  length : ∀ off e texts, cur off e = some texts → texts.length = dtypes.length
  family : ∀ f col, p.cols[f]? = some col → FamilyInv strings layout dtypes f col (p.pages f) cur w

/-- From `w` on, readers take `texts` if they take anything for the row `off`. -/
structure Write (off w : Nat) (texts : List Bytes) (cur cur' : Rows) : Prop where
  other : ∀ off' e, off' ≠ off → cur' off' e = cur off' e
  old : ∀ e < w, cur' off e = cur off e
  new : ∀ e t, w ≤ e → cur' off e = some t → t = texts

/-- The strings among the texts fit into the 16 bits that a key has for a length. -/
def ShortStrings (dtypes : List PropertyDataType) (texts : List Bytes) : Prop :=
  ∀ (i : Nat) (text : Bytes), dtypes[i]? = some .string → texts[i]? = some text → text.length < 2 ^ 16

variable {strings strings' : StringBuffer} {layout : VertexLayout} {dtypes : List PropertyDataType}
  {cur cur' : Rows} {texts args : List Bytes} {off w w' family : Nat} {col : ColumnFamily}
  {chains : Nat → List Page} {p p' : PropertyColPaged} {buf buf' : RegionBuffer} {b : RowBuild}

theorem FamilyInv.extends (h : FamilyInv strings layout dtypes family col chains cur w)
    (hext : strings.Extends strings') : FamilyInv strings' layout dtypes family col chains cur w where
  upTo := h.upTo
  holds off e texts hcur := by
    obtain ⟨page, hpage, hrow⟩ := h.holds off e texts hcur
    exact ⟨page, hpage, hrow.extends hext⟩

theorem PropInv.extends (h : PropInv strings layout dtypes p cur w) (hext : strings.Extends strings') :
    PropInv strings' layout dtypes p cur w :=
  ⟨h.laid, h.length, fun f col hcol => (h.family f col hcol).extends hext⟩

theorem propInv_create (hlaid : WellLaid p.cols layout dtypes) (hpages : p.pages = fun _ _ => []) :
    PropInv strings layout dtypes p (fun _ _ => none) 0 := by
  refine ⟨hlaid, fun off e texts hcur => absurd hcur (by simp), fun f col _ =>
    ⟨fun pg x hx => ?_, fun off e texts hcur => absurd hcur (by simp)⟩⟩
  rw [hpages] at hx
  cases hx

/-! ### Opening a version -/

theorem getNewPage_spec {prev : Option Page} {page : Page} (h : getNewPage col w prev buf = .ok (page, buf')) :
    page.ver = w ∧ ∀ page', prev = some page' → col.pageSize ≠ 1 → page.content = page'.content := by
  unfold getNewPage RegionBuffer.getRegion at h
  dsimp only at h
  split at h
  · cases h
  · dsimp only [bind, Except.bind] at h
    split at h
    · cases h
    · obtain ⟨hpage, -⟩ := Prod.mk.inj (Except.ok.inj h)
      rw [← hpage]
      refine ⟨rfl, fun page' hprev hne => ?_⟩
      subst hprev
      exact if_pos hne

theorem findWithInsertPage_spec {chain chain' : List Page} (hup : UpTo Page.ver w' chain) (hle : w' ≤ w)
    (h : findWithInsertPage col w chain buf = .ok (chain', buf')) :
    ∃ page, Opened Page.ver w chain chain' page ∧
      ∀ old older, chain = old :: older → col.pageSize ≠ 1 → page.content = old.content := by
  unfold findWithInsertPage at h
  cases chain with
  | nil =>
    dsimp only at h
    cases hnew : getNewPage col w none buf with
    | error e =>
      rw [hnew] at h
      cases h
    | ok r =>
      rw [hnew] at h
      obtain ⟨hchain, -⟩ := Prod.mk.inj (Except.ok.inj h)
      obtain ⟨hver, -⟩ := getNewPage_spec hnew
      rw [← hchain]
      exact ⟨r.1, opened_cons hver (fun x hx => by cases hx), fun _ _ hold => by cases hold⟩
  | cons page older =>
    dsimp only at h
    by_cases hlt : page.ver < w
    · rw [if_pos hlt] at h
      cases hnew : getNewPage col w (some page) buf with
      | error e =>
        rw [hnew] at h
        cases h
      | ok r =>
        rw [hnew] at h
        obtain ⟨hchain, -⟩ := Prod.mk.inj (Except.ok.inj h)
        obtain ⟨hver, hcopy⟩ := getNewPage_spec hnew
        rw [← hchain]
        refine ⟨r.1, opened_cons hver (hup.mono hle), fun old _ hold hne => ?_⟩
        rw [← (List.cons.inj hold).1]
        exact hcopy page rfl hne
    · rw [if_neg hlt] at h
      obtain ⟨hchain, -⟩ := Prod.mk.inj (Except.ok.inj h)
      have hver : page.ver = w := Nat.le_antisymm (Nat.le_trans (hup page List.mem_cons_self) hle) (by omega)
      rw [← hchain]
      refine ⟨page, opened_same hver (hup.mono hle), fun old _ hold _ => ?_⟩
      rw [← (List.cons.inj hold).1]

/-! ### Writing a row of a family -/

theorem putRow_holds (hlaid : WellLaid p.cols layout dtypes) (hcol : p.cols[family]? = some col)
    (hflagged : Flagged p.cols layout dtypes.length b)
    (hbuilt : Built strings layout dtypes texts dtypes.length b) {row : Nat} (hrow : row < col.pageSize)
    (page : Page) :
    RowHolds strings layout dtypes family col
      (page.putRow col row (read (b.propBuffer family) 0 col.vlen) (b.isNull family)).content row texts := by
  intro i place dtype text hplace hfamily hdtype htext
  subst hfamily
  have hi := (List.getElem?_eq_some_iff.mp hdtype).1
  obtain ⟨place', col', hplace', hcol', hin, -⟩ := hlaid.found i dtype hdtype
  rw [hplace] at hplace'
  rw [← Option.some.inj hplace'] at hcol' hin
  rw [hcol] at hcol'
  rw [← Option.some.inj hcol'] at hin
  obtain ⟨hbits, hcells⟩ := @putRow_same col row (read (b.propBuffer place.family) 0 col.vlen)
    (b.isNull place.family) page (b.propBuffer place.family) hrow (hflagged.fits _ _ hcol)
  have hbit : place.nullBit < (b.isNull place.family).length := by
    have hle : (layout.propColumnFamily.take (i + 1)).count place.family ≤
        (layout.propColumnFamily.take dtypes.length).count place.family :=
      (List.take_sublist_take_left hi).count_le place.family
    rw [count_take_succ hplace, if_pos rfl] at hle
    rw [hflagged.length, hlaid.bit i dtype place hdtype hplace]
    omega
  refine ⟨?_, fun hne => ?_⟩
  · rw [hbits _ hbit]
    exact hbuilt.null i hi place dtype text hplace hdtype htext
  · exact (hbuilt.value i hi place dtype text hplace hdtype htext hne).congr (hcells _ _ hin)

theorem RowHolds.putRow (hlaid : WellLaid p.cols layout dtypes) (hcol : p.cols[family]? = some col)
    (hfits : (b.isNull family).length ≤ col.columnNum) {row row' : Nat} {page page' : Page}
    (hrow : row < col.pageSize) (hrow' : row' < col.pageSize) (hne : row' ≠ row)
    (hcontent : page.content = page'.content)
    (h : RowHolds strings layout dtypes family col page'.content row' texts) :
    RowHolds strings layout dtypes family col
      (page.putRow col row (read (b.propBuffer family) 0 col.vlen) (b.isNull family)).content row' texts := by
  intro i place dtype text hplace hfamily hdtype htext
  obtain ⟨place', col', hplace', hcol', hin, hbit⟩ := hlaid.found i dtype hdtype
  rw [hplace] at hplace'
  rw [← Option.some.inj hplace', hfamily, hcol] at hcol'
  rw [← Option.some.inj hplace', ← Option.some.inj hcol'] at hin hbit
  obtain ⟨hbits, hcells⟩ := @putRow_other col row row' (read (b.propBuffer family) 0 col.vlen)
    (b.isNull family) page hrow hrow' hne (read_length _ _ _) hfits
  rw [hcontent] at hbits hcells
  exact (h i place dtype text hplace hfamily hdtype htext).congr (hbits _ hbit) (hcells _ _ hin)

/-- What `putFamily` changes. -/
structure OnlyFamily (family : Nat) (p p' : PropertyColPaged) : Prop where
  cols : p'.cols = p.cols
  header : p'.header = p.header
  other : ∀ f, f ≠ family → p'.pages f = p.pages f

theorem putFamily_chain (hcol : p.cols[family]? = some col)
    (hup : UpTo Page.ver w' (p.pages family (off / col.pageSize))) (hle : w' ≤ w)
    (hput : PropertyColPaged.putFamily b off w family (p, buf) = .ok (p', buf')) :
    OnlyFamily family p p' ∧ ∃ chain' page, Opened Page.ver w (p.pages family (off / col.pageSize)) chain' page ∧
      (∀ old older, p.pages family (off / col.pageSize) = old :: older → col.pageSize ≠ 1 →
        page.content = old.content) ∧
      p'.pages family = Function.update (p.pages family) (off / col.pageSize)
        (chain'.modifyHead (Page.putRow col (off % col.pageSize) (read (b.propBuffer family) 0 col.vlen)
          (b.isNull family))) := by
  unfold PropertyColPaged.putFamily at hput
  dsimp only at hput
  rw [hcol] at hput
  dsimp only at hput
  cases hfind : findWithInsertPage col w (p.pages family (off / col.pageSize)) buf with
  | error e =>
    rw [hfind] at hput
    cases hput
  | ok r =>
    obtain ⟨chain', buf''⟩ := r
    rw [hfind] at hput
    obtain ⟨hp, -⟩ := Prod.mk.inj (Except.ok.inj hput)
    obtain ⟨page, hopened, hcopy⟩ := findWithInsertPage_spec hup hle hfind
    rw [← hp]
    exact ⟨⟨rfl, rfl, fun f hf => Function.update_of_ne hf _ _⟩, chain', page, hopened, hcopy,
      Function.update_self _ _ _⟩

theorem putFamily_spec (hlaid : WellLaid p.cols layout dtypes) (hcol : p.cols[family]? = some col)
    (hinv : FamilyInv strings layout dtypes family col (p.pages family) cur w') (hle : w' ≤ w)
    (hflagged : Flagged p.cols layout dtypes.length b)
    (hwrite : Write off w texts cur cur')
    (hbuilt : ∀ e, w ≤ e → cur' off e ≠ none → Built strings layout dtypes texts dtypes.length b)
    (hput : PropertyColPaged.putFamily b off w family (p, buf) = .ok (p', buf')) :
    OnlyFamily family p p' ∧ FamilyInv strings layout dtypes family col (p'.pages family) cur' w := by
  have hpos : 0 < col.pageSize := hlaid.rows col (List.mem_of_getElem? hcol)
  have hrow : off % col.pageSize < col.pageSize := Nat.mod_lt _ hpos
  obtain ⟨honly, chain', page, hopened, hcopy, hpages⟩ := putFamily_chain hcol (hinv.upTo _) hle hput
  generalize hputRow : Page.putRow col (off % col.pageSize) (read (b.propBuffer family) 0 col.vlen)
    (b.isNull family) = putRow at hpages
  have hver : (putRow page).ver = w := by
    rw [← hputRow]
    exact hopened.version
  obtain ⟨hup, hold, hnew⟩ := hopened.visible_write hver
  refine ⟨honly, ?_, ?_⟩
  · intro pg
    rw [hpages]
    by_cases hpg : pg = off / col.pageSize
    · rw [hpg, Function.update_self]
      exact hup
    · rw [Function.update_of_ne hpg]
      exact (hinv.upTo pg).mono hle
  · intro off' e texts' hcur'
    rw [hpages]
    by_cases hpg : off' / col.pageSize = off / col.pageSize
    · rw [hpg, Function.update_self]
      rcases Nat.lt_or_ge e w with hlt | hge
      · have hsame : cur' off' e = cur off' e := by
          by_cases hoff : off' = off
          · rw [hoff]
            exact hwrite.old e hlt
          · exact hwrite.other off' e hoff
        rw [hsame] at hcur'
        obtain ⟨old, hvisible, hholds⟩ := hinv.holds off' e texts' hcur'
        rw [hpg] at hvisible
        exact ⟨old, (hold e hlt).trans hvisible, hholds⟩
      · refine ⟨putRow page, hnew e hge, ?_⟩
        by_cases hoff : off' = off
        · subst hoff
          rw [hwrite.new e texts' hge hcur', ← hputRow]
          exact putRow_holds hlaid hcol hflagged (hbuilt e hge (by rw [hcur']; simp)) hrow page
        · rw [hwrite.other off' e hoff] at hcur'
          obtain ⟨old, hvisible, hholds⟩ := hinv.holds off' e texts' hcur'
          rw [hpg] at hvisible
          have hne : off' % col.pageSize ≠ off % col.pageSize := by
            intro hmod
            have h1 := Nat.div_add_mod off' col.pageSize
            have h2 := Nat.div_add_mod off col.pageSize
            rw [hpg, hmod] at h1
            omega
          rw [← hputRow]
          cases hchain : p.pages family (off / col.pageSize) with
          | nil =>
            rw [hchain] at hvisible
            cases hvisible
          | cons newest older =>
            have hup' := hinv.upTo (off / col.pageSize)
            rw [hchain] at hup' hvisible
            rw [visible_of_upTo hup' (Nat.le_trans hle hge)] at hvisible
            have hsize : col.pageSize ≠ 1 := by
              intro hone
              rw [hone, Nat.mod_one, Nat.mod_one] at hne
              exact hne rfl
            rw [← Option.some.inj hvisible] at hholds
            exact hholds.putRow hlaid hcol (hflagged.fits _ _ hcol) hrow (Nat.mod_lt _ hpos) hne
              (hcopy newest older hchain hsize)
    · rw [Function.update_of_ne hpg]
      have hoff : off' ≠ off := fun hsame => hpg (by rw [hsame])
      rw [hwrite.other off' e hoff] at hcur'
      exact hinv.holds off' e texts' hcur'

/-! ### insert and update -/

theorem zipIdx_split {α : Type} {xs : List α} {before after : List (α × Nat)} {x : α × Nat}
    (h : before ++ x :: after = xs.zipIdx) : x = (x.1, before.length) ∧ xs[before.length]? = some x.1 := by
  have hget : (xs.zipIdx)[before.length]? = some x := by
    rw [← h]
    simp
  rw [List.getElem?_zipIdx] at hget
  obtain ⟨y, hy, hx⟩ := Option.map_eq_some_iff.mp hget
  rw [← hx, Nat.zero_add]
  exact ⟨rfl, hy⟩

theorem range_split {n : Nat} {before after : List Nat} {f : Nat} (h : before ++ f :: after = List.range n) :
    f ∉ before ∧ f < n := by
  have hnodup : (before ++ f :: after).Nodup := by
    rw [h]
    exact List.nodup_range
  constructor
  · intro hmem
    exact (List.nodup_append.mp hnodup).2.2 f hmem f List.mem_cons_self rfl
  · have hmem : f ∈ List.range n := by
      rw [← h]
      exact List.mem_append_right _ List.mem_cons_self
    exact List.mem_range.mp hmem

/-- What holds after the families `done` have their rows. -/
structure PutInv (strings : StringBuffer) (layout : VertexLayout) (dtypes : List PropertyDataType)
    (p : PropertyColPaged) (cur' : Rows) (w : Nat) (done : List Nat)
    (s : PropertyColPaged × RegionBuffer) : Prop where
  cols : s.1.cols = p.cols
  header : s.1.header = p.header
  rest : ∀ f, f ∉ done → s.1.pages f = p.pages f
  put : ∀ f ∈ done, ∀ col, p.cols[f]? = some col →
    FamilyInv strings layout dtypes f col (s.1.pages f) cur' w

theorem Write.length (hwrite : Write off w texts cur cur') (htexts : texts.length = dtypes.length)
    (h : ∀ off e texts, cur off e = some texts → texts.length = dtypes.length) :
    ∀ off e texts, cur' off e = some texts → texts.length = dtypes.length := by
  intro off' e t ht
  by_cases hoff : off' = off
  · subst hoff
    rcases Nat.lt_or_ge e w with hlt | hge
    · rw [hwrite.old e hlt] at ht
      exact h _ e t ht
    · rw [hwrite.new e t hge ht]
      exact htexts
  · rw [hwrite.other off' e hoff] at ht
    exact h off' e t ht

theorem PutInv.finish (h : PutInv strings layout dtypes p cur' w (List.range p.cols.length) (p', buf'))
    (hlaid : WellLaid p.cols layout dtypes)
    (hlength : ∀ off e texts, cur' off e = some texts → texts.length = dtypes.length) :
    PropInv strings layout dtypes p' cur' w ∧ p'.cols = p.cols ∧ p'.header = p.header := by
  have hcols : p'.cols = p.cols := h.cols
  refine ⟨⟨by rw [hcols]; exact hlaid, hlength, fun f col hcol => ?_⟩, hcols, h.header⟩
  rw [hcols] at hcol
  exact h.put f (List.mem_range.mpr (List.getElem?_eq_some_iff.mp hcol).1) col hcol

theorem PutInv.next {done : List Nat} {s : PropertyColPaged × RegionBuffer} {f : Nat}
    (h : PutInv strings layout dtypes p cur' w done s) (hf : f ∉ done)
    {s' : PropertyColPaged × RegionBuffer} (honly : OnlyFamily f s.1 s'.1)
    (hfamily : ∀ col, p.cols[f]? = some col → FamilyInv strings layout dtypes f col (s'.1.pages f) cur' w) :
    PutInv strings layout dtypes p cur' w (done ++ [f]) s' where
  cols := honly.cols.trans h.cols
  header := honly.header.trans h.header
  rest g hg := by
    rw [List.mem_append, List.mem_singleton, not_or] at hg
    rw [honly.other g hg.2]
    exact h.rest g hg.1
  put g hg col hcol := by
    rcases List.mem_append.mp hg with hold | hnew
    · have hne : g ≠ f := by
        rintro rfl
        exact hf hold
      rw [honly.other g hne]
      exact h.put g hold col hcol
    · rw [List.mem_singleton.mp hnew] at hcol ⊢
      exact hfamily col hcol

theorem PutInv.putRows (h : PropInv strings layout dtypes p cur w') (hle : w' ≤ w)
    (hflagged : Flagged p.cols layout dtypes.length b) (hwrite : Write off w texts cur cur')
    (hbuilt : ∀ e, w ≤ e → cur' off e ≠ none → Built strings layout dtypes texts dtypes.length b)
    {done : List Nat} {s s' : PropertyColPaged × RegionBuffer} {f : Nat}
    (hs : PutInv strings layout dtypes p cur' w done s) (hf : f ∉ done) (hlt : f < p.cols.length)
    (hput : PropertyColPaged.putFamily b off w f s = .ok s') :
    PutInv strings layout dtypes p cur' w (done ++ [f]) s' := by
  obtain ⟨q, buf⟩ := s
  have hcols : q.cols = p.cols := hs.cols
  have hpages : q.pages f = p.pages f := hs.rest f hf
  obtain ⟨col, hcol⟩ : ∃ col, p.cols[f]? = some col := ⟨_, List.getElem?_eq_getElem hlt⟩
  have hinv := h.family f col hcol
  have hlaid := h.laid
  rw [← hpages] at hinv
  rw [← hcols] at hflagged hcol hlaid
  obtain ⟨honly, hfamily⟩ := putFamily_spec hlaid hcol hinv hle hflagged hwrite hbuilt hput
  refine hs.next hf honly fun col' hcol' => ?_
  rw [← hcols, hcol] at hcol'
  rw [← Option.some.inj hcol']
  exact hfamily

theorem insert_spec (h : PropInv strings layout dtypes p cur w') (hle : w' ≤ w)
    (hwrite : Write off w texts cur cur') (hlength : args.length = dtypes.length)
    (htexts : texts.length = dtypes.length)
    (hgiven : ∀ (i : Nat) (dtype : PropertyDataType) (text arg : Bytes), dtypes[i]? = some dtype →
        texts[i]? = some text → args[i]? = some arg →
      Given strings dtype text arg)
    (hput : p.insert buf layout dtypes off w args = .ok (p', buf')) :
    PropInv strings layout dtypes p' cur' w ∧ p'.cols = p.cols ∧ p'.header = p.header := by
  unfold PropertyColPaged.insert at hput
  split at hput
  · cases hput
  · cases hbuild : args.zipIdx.foldlM (p.insertProp layout dtypes) { propBuffer := fun _ => buf.blank } with
    | error e =>
      rw [hbuild] at hput
      cases hput
    | ok b =>
      rw [hbuild] at hput
      have hrow := @foldlM_invariant _ _ _ (p.insertProp layout dtypes)
        (fun done b => Flagged p.cols layout done.length b ∧
          Built strings layout dtypes texts done.length b)
        (fun _ => True) [] args.zipIdx { propBuffer := fun _ => buf.blank }
        ⟨flagged_zero _, built_zero _⟩ ?_
      · obtain ⟨hflagged, hbuilt⟩ := hrow.of_ok hbuild
        rw [List.nil_append, List.length_zipIdx, hlength] at hflagged hbuilt
        have hloop := @foldlM_invariant _ _ _
          (fun s family => PropertyColPaged.putFamily b off w family s)
          (PutInv strings layout dtypes p cur' w) (fun _ => True) [] (List.range p.cols.length) (p, buf)
          ⟨rfl, rfl, fun _ _ => rfl, fun f hf => by cases hf⟩ ?_
        · exact (hloop.of_ok hput).finish h.laid (hwrite.length htexts h.length)
        · intro before f after s hsplit hs
          rw [List.nil_append] at hsplit
          obtain ⟨hf, hlt⟩ := range_split hsplit
          cases hone : PropertyColPaged.putFamily b off w f s with
          | error e => trivial
          | ok s' => exact PutInv.putRows h hle hflagged hwrite (fun _ _ _ => hbuilt) hs hf hlt hone
      · intro before x after b hsplit hb
        rw [List.nil_append] at hsplit
        obtain ⟨hx, harg⟩ := zipIdx_split hsplit
        cases hone : p.insertProp layout dtypes b x with
        | error e => trivial
        | ok b' =>
          have hi : before.length < dtypes.length := by
            rw [← hlength]
            exact (List.getElem?_eq_some_iff.mp harg).1
          rw [hx] at hone
          rw [List.length_append, List.length_singleton]
          exact insertProp_spec h.laid hb.1 hb.2 (List.getElem?_eq_getElem hi)
            (List.getElem?_eq_getElem (by rw [htexts]; exact hi))
            (hgiven _ _ _ _ (List.getElem?_eq_getElem hi)
              (List.getElem?_eq_getElem (by rw [htexts]; exact hi)) harg) hone

def OldRow (strings : StringBuffer) (p : PropertyColPaged) (layout : VertexLayout)
    (dtypes : List PropertyDataType) (off : Nat) (old : List Bytes) : Prop :=
  old.length = dtypes.length ∧ ∀ f col, p.cols[f]? = some col → ∃ page, Newest p off f col page ∧
    RowHolds strings layout dtypes f col page.content (off % col.pageSize) old

theorem PropInv.oldRow (h : PropInv strings layout dtypes p cur w') {e : Nat} {old : List Bytes}
    (hle : w' ≤ e) (hcur : cur off e = some old) : OldRow strings p layout dtypes off old := by
  refine ⟨h.length off e old hcur, fun f col hcol => ?_⟩
  have hinv := h.family f col hcol
  obtain ⟨page, hvisible, hholds⟩ := hinv.holds off e old hcur
  refine ⟨page, ?_, hholds⟩
  unfold Newest
  cases hchain : p.pages f (off / col.pageSize) with
  | nil =>
    rw [hchain] at hvisible
    cases hvisible
  | cons newest older =>
    have hup := hinv.upTo (off / col.pageSize)
    rw [hchain] at hup hvisible
    rw [visible_of_upTo hup hle] at hvisible
    rw [Option.some.inj hvisible]
    exact ⟨older, rfl⟩

theorem Newest.eq {page page' : Page} (h : Newest p off family col page)
    (h' : Newest p off family col page') : page = page' := by
  obtain ⟨older, hchain⟩ := h
  obtain ⟨older', hchain'⟩ := h'
  rw [hchain] at hchain'
  exact (List.cons.inj hchain').1

/-- What holds in the first loop of `update` after `k` properties. -/
structure UpdateInv (strings : StringBuffer) (p : PropertyColPaged) (layout : VertexLayout)
    (dtypes : List PropertyDataType) (off : Nat) (texts : List Bytes) (k : Nat)
    (s : RowBuild × StringBuffer) : Prop where
  flagged : Flagged p.cols layout k s.1
  extended : strings.Extends s.2
  built : ∀ old, OldRow strings p layout dtypes off old →
    Built s.2 layout dtypes texts k s.1 ∧ Kept s.2 p layout dtypes off texts k s.1

theorem updateProp_spec (hlaid : WellLaid p.cols layout dtypes) {k : Nat} {text : Bytes}
    {s s' : RowBuild × StringBuffer} (h : UpdateInv strings p layout dtypes off texts k s)
    (hk : k < dtypes.length) (htext : texts[k]? = some text)
    (hshort : dtypes[k]? = some .string → text.length < 2 ^ 16)
    (hround : p.updateProp layout dtypes off s (text, k) = .ok s') :
    UpdateInv strings p layout dtypes off texts (k + 1) s' := by
  obtain ⟨b, strings''⟩ := s
  obtain ⟨b', strings'⟩ := s'
  have hdtype : dtypes[k]? = some dtypes[k] := List.getElem?_eq_getElem hk
  obtain ⟨place, col, hplace, hcol, -, -⟩ := hlaid.found k _ hdtype
  obtain ⟨page, hnewest, hupdate⟩ := updateProp_round hplace hdtype hcol
    (fun hstring => hshort (hdtype.trans (congrArg some hstring))) hround
  refine ⟨hupdate.round.flagged hlaid hplace hdtype h.flagged, h.extended.trans hupdate.extended,
    fun old hold => ?_⟩
  obtain ⟨hbuilt, hkept⟩ := h.built old hold
  obtain ⟨changed, hmark, hvalue⟩ := hupdate.value
  have henc : ∃ oldText, Encodes strings'' dtypes[k]
      (getBit page.content (col.nullBit (off % col.pageSize) place.nullBit)) page.content
      (col.cell (off % col.pageSize) place.offset) oldText := by
    obtain ⟨hlength, hrows⟩ := hold
    obtain ⟨page', hnewest', hrow⟩ := hrows place.family col hcol
    rw [← hnewest.eq hnewest'] at hrow
    have hget : old[k]? = some old[k] := List.getElem?_eq_getElem (by rw [hlength]; exact hk)
    exact ⟨_, (hrow k place _ _ hplace rfl hdtype hget).extends h.extended⟩
  obtain ⟨oldText, henc⟩ := henc
  obtain ⟨hnew, hsame⟩ := hvalue oldText henc
  refine ⟨hupdate.round.built hlaid hplace hdtype h.flagged.length hupdate.extended hbuilt htext
    hupdate.flag hnew, ?_⟩
  intro i hi place' dtype' text' col' page' hplace' hdtype' htext' hcol' hnewest' hclear
  obtain ⟨hclear, hunchanged⟩ := hmark _ hclear
  rcases Nat.lt_succ_iff_lt_or_eq.mp hi with hlt | rfl
  · exact (hkept i hlt place' dtype' text' col' page' hplace' hdtype' htext' hcol' hnewest' hclear).extends
      hupdate.extended
  · rw [hplace] at hplace'
    rw [hdtype] at hdtype'
    rw [htext] at htext'
    rw [← Option.some.inj hplace'] at hunchanged hcol' hnewest' ⊢
    rw [hcol] at hcol'
    rw [← Option.some.inj hcol'] at hnewest' ⊢
    rw [← Option.some.inj hdtype', ← Option.some.inj htext', ← hnewest.eq hnewest']
    exact hsame (hunchanged rfl)

theorem familyInv_of_kept (h : PropInv strings layout dtypes p cur w') (hle : w' ≤ w)
    (hwrite : Write off w texts cur cur') {f : Nat} (hcol : p.cols[f]? = some col)
    (hclear : b.updated f = false)
    (hkept : ∀ e, w ≤ e → cur' off e ≠ none → Kept strings p layout dtypes off texts dtypes.length b)
    (hcur : ∀ e, w ≤ e → cur' off e ≠ none → cur off e ≠ none) :
    FamilyInv strings layout dtypes f col (p.pages f) cur' w := by
  have hinv := h.family f col hcol
  refine ⟨fun pg => (hinv.upTo pg).mono hle, fun off' e t ht => ?_⟩
  by_cases hoff : off' = off
  · subst hoff
    rcases Nat.lt_or_ge e w with hlt | hge
    · rw [hwrite.old e hlt] at ht
      exact hinv.holds _ e t ht
    · have hsome : cur' off' e ≠ none := by
        rw [ht]
        simp
      obtain ⟨old, hold⟩ := Option.ne_none_iff_exists'.mp (hcur e hge hsome)
      obtain ⟨page, hvisible, -⟩ := hinv.holds _ e old hold
      obtain ⟨-, hrows⟩ := h.oldRow (Nat.le_trans hle hge) hold
      obtain ⟨page', hnewest, -⟩ := hrows f col hcol
      have hpage : page' = page := by
        obtain ⟨older, hchain⟩ := hnewest
        have hup := hinv.upTo (off' / col.pageSize)
        rw [hchain] at hup hvisible
        rw [visible_of_upTo hup (Nat.le_trans hle hge)] at hvisible
        exact Option.some.inj hvisible
      rw [hpage] at hnewest
      refine ⟨page, hvisible, ?_⟩
      rw [hwrite.new e t hge ht]
      intro i place dtype text hplace hfamily hdtype htext
      subst hfamily
      exact hkept e hge hsome i (List.getElem?_eq_some_iff.mp hdtype).1 place dtype text col page hplace hdtype
        htext hcol hnewest hclear
  · rw [hwrite.other off' e hoff] at ht
    exact hinv.holds off' e t ht

theorem update_spec (h : PropInv strings layout dtypes p cur w') (hle : w' ≤ w)
    (hwrite : Write off w texts cur cur') (hcur : ∀ e, w ≤ e → cur' off e ≠ none → cur off e ≠ none)
    (htexts : texts.length = dtypes.length) (hshort : ShortStrings dtypes texts)
    (hput : p.update buf strings layout dtypes off w texts = .ok (p', buf', strings')) :
    strings.Extends strings' ∧ PropInv strings' layout dtypes p' cur' w ∧ p'.cols = p.cols ∧
      p'.header = p.header := by
  unfold PropertyColPaged.update at hput
  cases hbuild : texts.zipIdx.foldlM (p.updateProp layout dtypes off)
      ({ propBuffer := fun _ => buf.blank }, strings) with
  | error e =>
    rw [hbuild] at hput
    cases hput
  | ok r =>
    obtain ⟨b, strings''⟩ := r
    rw [hbuild] at hput
    dsimp only [bind, Except.bind] at hput
    have hrow := @foldlM_invariant _ _ _ (p.updateProp layout dtypes off)
      (fun done s => UpdateInv strings p layout dtypes off texts done.length s)
      (fun _ => True) [] texts.zipIdx ({ propBuffer := fun _ => buf.blank }, strings) ?_ ?_
    · have hinv := hrow.of_ok hbuild
      rw [List.nil_append, List.length_zipIdx, htexts] at hinv
      have hold : ∀ e, w ≤ e → cur' off e ≠ none →
          Built strings'' layout dtypes texts dtypes.length b ∧
            Kept strings'' p layout dtypes off texts dtypes.length b := by
        intro e he hsome
        obtain ⟨old, hold⟩ := Option.ne_none_iff_exists'.mp (hcur e he hsome)
        exact hinv.built old (h.oldRow (Nat.le_trans hle he) hold)
      have hnext := h.extends hinv.extended
      cases hloop : (List.range p.cols.length).foldlM (fun s family =>
          if b.updated family then PropertyColPaged.putFamily b off w family s else .ok s) (p, buf) with
      | error e =>
        rw [hloop] at hput
        cases hput
      | ok r =>
        obtain ⟨q, buf''⟩ := r
        rw [hloop] at hput
        obtain ⟨hq, hrest⟩ := Prod.mk.inj (Except.ok.inj hput)
        obtain ⟨-, hstrings⟩ := Prod.mk.inj hrest
        rw [← hq, ← hstrings]
        have hrun := @foldlM_invariant _ _ _ (fun s family =>
            if b.updated family then PropertyColPaged.putFamily b off w family s else .ok s)
          (PutInv strings'' layout dtypes p cur' w) (fun _ => True) [] (List.range p.cols.length) (p, buf)
          ⟨rfl, rfl, fun _ _ => rfl, fun f hf => by cases hf⟩ ?_
        · exact ⟨hinv.extended, (hrun.of_ok hloop).finish h.laid (hwrite.length htexts h.length)⟩
        · intro before f after s hsplit hs
          rw [List.nil_append] at hsplit
          obtain ⟨hf, hlt⟩ := range_split hsplit
          by_cases hmark : b.updated f = true
          · rw [if_pos hmark]
            cases hone : PropertyColPaged.putFamily b off w f s with
            | error e => trivial
            | ok s' =>
              exact PutInv.putRows hnext hle hinv.flagged hwrite (fun e he hsome => (hold e he hsome).1) hs hf
                hlt hone
          · rw [if_neg hmark]
            refine hs.next hf ⟨rfl, rfl, fun _ _ => rfl⟩ fun col hcol => ?_
            rw [hs.rest f hf]
            exact familyInv_of_kept hnext hle hwrite hcol (Bool.eq_false_iff.mpr hmark)
              (fun e he hsome => (hold e he hsome).2) hcur
    · refine ⟨flagged_zero _, .refl _, fun old _ => ⟨built_zero _, fun i hi => ?_⟩⟩
      cases hi
    · intro before x after s hsplit hs
      rw [List.nil_append] at hsplit
      obtain ⟨hx, htext⟩ := zipIdx_split hsplit
      cases hone : p.updateProp layout dtypes off s x with
      | error e => trivial
      | ok s' =>
        rw [hx] at hone
        rw [List.length_append, List.length_singleton]
        have hk : before.length < dtypes.length := by
          rw [← htexts]
          exact (List.getElem?_eq_some_iff.mp htext).1
        exact updateProp_spec h.laid hs hk htext (fun hstring => hshort _ _ hstring htext) hone

end Gart.Store

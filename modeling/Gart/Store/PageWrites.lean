import Gart.Store.PageHeap

/-!
# Writing to the pages of the property store

A write opens the newest version of a page. The chain of the page keeps its versions, with the opened one in front.
-/

namespace Gart.Store
open Gart.ByteMemory Gart.Outcome Gart.Versions

/-- The pages of a store by family and number, with the version that was written last. -/
structure PageInv (s : PageStore) (w : Nat) (chains : Nat → Nat → List (Nat × Nat)) : Prop where
  chain : ∀ i pg, PageChain s.heap s.fresh w (chains i pg)
  newest : ∀ i pg, s.pages i pg = ptrAt (chains i pg) 0
  oldest : ∀ i pg, s.oldPages i pg = ptrAt (chains i pg) ((chains i pg).length - 1)
  apart : ∀ i pg i' pg', (i, pg) ≠ (i', pg') → ∀ x ∈ chains i pg, ∀ y ∈ chains i' pg', x.1 ≠ y.1
  fresh : 0 < s.fresh
  unused : ∀ p, s.fresh ≤ p → s.heap p = none
  null : s.heap 0 = none
  inBuffer : ∀ p page, s.heap p = some page → page.v6dOffset < s.buf.capacity

def setChain (chains : Nat → Nat → List (Nat × Nat)) (i pg : Nat) (chain : List (Nat × Nat)) :
    Nat → Nat → List (Nat × Nat) :=
  Function.update chains i (Function.update (chains i) pg chain)

theorem setChain_apply (chains : Nat → Nat → List (Nat × Nat)) (i pg : Nat) (chain : List (Nat × Nat)) (j pg' : Nat) :
    setChain chains i pg chain j pg' = if (j, pg') = (i, pg) then chain else chains j pg' := by
  unfold setChain
  by_cases hj : j = i
  · by_cases hpg : pg' = pg <;> simp [hj, hpg]
  · simp [hj]

section writes
variable {s s' : PageStore} {w version i pg p q : Nat} {chains : Nat → Nat → List (Nat × Nat)}
  {chain : List (Nat × Nat)} {col : ColumnFamily} {page : HeapPage}

theorem pageInv_create {layout : VertexLayout} {maxItems : Nat} {buf : RegionBuffer} :
    PageInv (.create layout maxItems buf) 0 fun _ _ => [] where
  chain i pg := pageChain_nil
  newest i pg := rfl
  oldest i pg := rfl
  apart i pg i' pg' _ x hx := by cases hx
  fresh := Nat.one_pos
  unused p _ := rfl
  null := rfl
  inBuffer p page hpage := by cases hpage

theorem PageChain.nodup {heap : Nat → Option HeapPage} {fresh : Nat} (h : PageChain heap fresh w chain) :
    (chain.map Prod.fst).Nodup := by
  refine List.pairwise_iff_getElem.mpr fun k j hk hj hlt heq => ?_
  rw [List.getElem_map, List.getElem_map] at heq
  rw [List.length_map] at hk hj
  have hkget : chain[k]? = some (chain[j].1, chain[k].2) := by
    rw [List.getElem?_eq_getElem hk, ← heq]
  have hjget : chain[j]? = some (chain[j].1, chain[j].2) := List.getElem?_eq_getElem hj
  have hsame := h.index_inj hkget hjget
  omega

theorem PageChain.length_lt {heap : Nat → Option HeapPage} {fresh : Nat} (h : PageChain heap fresh w chain)
    (hfresh : 0 < fresh) : chain.length < fresh := by
  have hsub : chain.map Prod.fst ⊆ List.range' 1 (fresh - 1) := by
    intro p hp
    obtain ⟨x, hx, rfl⟩ := List.mem_map.mp hp
    obtain ⟨hpos, hlt⟩ := h.ptr x hx
    exact List.mem_range'_1.mpr (by omega)
  have hle := (List.subperm_of_subset h.nodup hsub).length_le
  rw [List.length_map, List.length_range'] at hle
  omega

theorem PageInv.findPage (h : PageInv s w chains) (i pg version : Nat) :
    s.findPage i pg version = .ok (foundPage version (chains i pg)) :=
  PageStore.findPage_spec (h.chain i pg) (h.newest i pg) ((h.chain i pg).length_lt h.fresh)

/-- The page of a family and a number changes, and the heap only at its pages and at unused addresses. -/
theorem PageInv.replace (h : PageInv s w chains) (hw : w ≤ version)
    (hchain : PageChain s'.heap s'.fresh version chain)
    (hpages : ∀ j pg', s'.pages j pg' = if (j, pg') = (i, pg) then ptrAt chain 0 else s.pages j pg')
    (hold : ∀ j pg',
        s'.oldPages j pg' = if (j, pg') = (i, pg) then ptrAt chain (chain.length - 1) else s.oldPages j pg')
    (hheap : ∀ p, (∀ x ∈ chains i pg, x.1 ≠ p) → p < s.fresh → s'.heap p = s.heap p)
    (hptr : ∀ x ∈ chain, (∃ y ∈ chains i pg, y.1 = x.1) ∨ s.fresh ≤ x.1)
    (hfresh : s.fresh ≤ s'.fresh) (hunused : ∀ p, s'.fresh ≤ p → s'.heap p = none)
    (hbuffer : ∀ p page, s'.heap p = some page → page.v6dOffset < s'.buf.capacity) :
    PageInv s' version (setChain chains i pg chain) where
  chain j pg' := by
    rw [setChain_apply]
    by_cases hsame : (j, pg') = (i, pg)
    · rw [if_pos hsame]
      exact hchain
    · rw [if_neg hsame]
      refine (h.chain j pg').congr (fun x hx => hheap x.1 (fun y hy heq => ?_) ((h.chain j pg').ptr x hx).2) hfresh hw
      exact h.apart i pg j pg' (Ne.symm hsame) y hy x hx heq
  newest j pg' := by
    rw [setChain_apply, hpages]
    by_cases hsame : (j, pg') = (i, pg)
    · rw [if_pos hsame, if_pos hsame]
    · rw [if_neg hsame, if_neg hsame]
      exact h.newest j pg'
  oldest j pg' := by
    rw [setChain_apply, hold]
    by_cases hsame : (j, pg') = (i, pg)
    · rw [if_pos hsame, if_pos hsame]
    · rw [if_neg hsame, if_neg hsame]
      exact h.oldest j pg'
  apart := by
    have hnew : ∀ j pg', (j, pg') ≠ (i, pg) → ∀ x ∈ chain, ∀ y ∈ chains j pg', x.1 ≠ y.1 := by
      intro j pg' hne x hx y hy heq
      rcases hptr x hx with ⟨z, hz, hzx⟩ | hle
      · exact h.apart i pg j pg' (Ne.symm hne) z hz y hy (hzx.trans heq)
      · have hlt := ((h.chain j pg').ptr y hy).2
        omega
    intro j pg1 j' pg1' hne x hx y hy
    rw [setChain_apply] at hx hy
    by_cases h1 : (j, pg1) = (i, pg)
    · rw [if_pos h1] at hx
      rw [if_neg fun h2 => hne (h1.trans h2.symm)] at hy
      exact hnew j' pg1' (fun h2 => hne (h1.trans h2.symm)) x hx y hy
    · rw [if_neg h1] at hx
      by_cases h2 : (j', pg1') = (i, pg)
      · rw [if_pos h2] at hy
        exact (hnew j pg1 h1 y hy x hx).symm
      · rw [if_neg h2] at hy
        exact h.apart j pg1 j' pg1' hne x hx y hy
  fresh := Nat.lt_of_lt_of_le h.fresh hfresh
  unused := hunused
  null := by
    rw [hheap 0 (fun x hx heq => ?_) h.fresh]
    · exact h.null
    · have hpos := ((h.chain i pg).ptr x hx).1
      omega
  inBuffer := hbuffer

/-! ### Opening a version -/

theorem region_inBuffer {prev : Option Page} {new : Page} {buf buf' : RegionBuffer}
    (h : Store.getNewPage col version prev buf = .ok (new, buf')) : buf.size < buf'.capacity ∧
        buf'.capacity = buf.capacity := by
  unfold Store.getNewPage at h
  obtain ⟨⟨offset, buf₁⟩, hregion, h⟩ := bind_eq_ok h
  unfold RegionBuffer.getRegion at hregion
  dsimp only at hregion
  split at hregion
  · cases hregion
  · rename_i hroom
    obtain ⟨-, rfl⟩ := Prod.mk.inj (Except.ok.inj hregion)
    dsimp only at h
    split at h
    · cases h
    · obtain ⟨-, rfl⟩ := Prod.mk.inj (Except.ok.inj h)
      exact ⟨by dsimp only; omega, rfl⟩

theorem getNewPage_first (h : s.getNewPage col version none = .ok (p, s')) : p = s.fresh ∧ ∃ page buf,
    page.ver = version ∧ s.buf.size < buf.capacity ∧ buf.capacity = s.buf.capacity ∧ s' = { s with
      buf := buf
      fresh := s.fresh + 1
      heap := Function.update s.heap s.fresh
        (some { toPage := page, v6dOffset := s.buf.size, minVer := version, prev := 0, next := 0 }) } := by
  unfold PageStore.getNewPage at h
  obtain ⟨⟨page, buf⟩, hnew, h⟩ := bind_eq_ok h
  obtain ⟨rfl, rfl⟩ := Prod.mk.inj (Except.ok.inj h)
  obtain ⟨hroom, hcapacity⟩ := region_inBuffer hnew
  exact ⟨rfl, page, buf, (getNewPage_spec hnew).1, hroom, hcapacity, rfl⟩

theorem getNewPage_next (h : s.getNewPage col version (some (q, page)) = .ok (p, s')) : p = s.fresh ∧ ∃ new buf,
    new.ver = version ∧ s.buf.size < buf.capacity ∧ buf.capacity = s.buf.capacity ∧ s' = { s with
      buf := buf
      fresh := s.fresh + 1
      heap := Function.update (Function.update s.heap q (some { page with next := s.fresh })) s.fresh
        (some { toPage := new, v6dOffset := s.buf.size, minVer := page.minVer, prev := q, next := 0 }) } := by
  unfold PageStore.getNewPage at h
  obtain ⟨⟨new, buf⟩, hnew, h⟩ := bind_eq_ok h
  obtain ⟨rfl, rfl⟩ := Prod.mk.inj (Except.ok.inj h)
  obtain ⟨hroom, hcapacity⟩ := region_inBuffer hnew
  exact ⟨rfl, new, buf, (getNewPage_spec hnew).1, hroom, hcapacity, rfl⟩

theorem pageChain_single {heap : Nat → Option HeapPage} {fresh : Nat} (hpage : heap p = some page)
    (hver : page.ver = version) (hmin : page.minVer = version) (hprev : page.prev = 0) (hnext : page.next = 0)
    (hversion : version < noVersion) (hptr : 0 < p ∧ p < fresh) : PageChain heap fresh version [(p, version)] where
  node k p' v hk := by
    cases k with
    | zero =>
      obtain ⟨rfl, rfl⟩ := Prod.mk.inj (Option.some.inj hk)
      refine ⟨page, hpage, hver, hprev, hnext, fun x hx => ?_⟩
      rw [List.mem_singleton.mp hx]
      exact Nat.le_of_eq hmin
    | succ k => cases hk
  sorted := List.pairwise_singleton _ _
  upTo x hx := by rw [List.mem_singleton.mp hx]
  version x hx := by rw [List.mem_singleton.mp hx]; exact hversion
  ptr x hx := by rw [List.mem_singleton.mp hx]; exact hptr

theorem PageChain.cons {heap heap' : Nat → Option HeapPage} {fresh v : Nat} {older : List (Nat × Nat)} {new : HeapPage}
    (h : PageChain heap fresh w ((q, v) :: older)) (hpage : heap q = some page) (hlt : v < version)
    (hversion : version < noVersion) (hwv : w ≤ version) (hfresh : 0 < fresh)
    (hnew : heap' fresh = some new) (hver : new.ver = version) (hmin : new.minVer = page.minVer) (hprev : new.prev = q)
    (hnext : new.next = 0) (hhead : heap' q = some { page with next := fresh })
    (hheap : ∀ x ∈ older, heap' x.1 = heap x.1) :
    PageChain heap' (fresh + 1) version ((fresh, version) :: (q, v) :: older) := by
  obtain ⟨page', hpage', hpver, hpprev, hpnext, hpmin⟩ := h.node 0 q v rfl
  rw [hpage] at hpage'
  obtain rfl := Option.some.inj hpage'
  have hminLe : ∀ x ∈ (fresh, version) :: (q, v) :: older, page.minVer ≤ x.2 := by
    intro x hx
    rcases List.mem_cons.mp hx with rfl | hx
    · have hle := hpmin (q, v) List.mem_cons_self
      dsimp only at hle ⊢
      omega
    · exact hpmin x hx
  constructor
  · intro k p v' hk
    match k, hk with
    | 0, hk =>
      obtain ⟨rfl, rfl⟩ := Prod.mk.inj (Option.some.inj hk)
      exact ⟨new, hnew, hver, hprev, hnext, by rw [hmin]; exact hminLe⟩
    | 1, hk =>
      obtain ⟨rfl, rfl⟩ := Prod.mk.inj (Option.some.inj hk)
      exact ⟨_, hhead, hpver, hpprev, rfl, hminLe⟩
    | k + 2, hk =>
      have hmem : (p, v') ∈ older := List.mem_of_getElem? hk
      obtain ⟨page', hpage', hver', hprev', hnext', hmin'⟩ := h.node (k + 1) p v' hk
      refine ⟨page', (hheap (p, v') hmem).trans hpage', hver', hprev', ?_, fun x hx => ?_⟩
      · rw [hnext']
        rfl
      · rcases List.mem_cons.mp hx with rfl | hx
        · have hle := hmin' (q, v) List.mem_cons_self
          dsimp only at hle ⊢
          omega
        · exact hmin' x hx
  · refine List.pairwise_cons.mpr ⟨fun x hx => ?_, h.sorted⟩
    rcases List.mem_cons.mp hx with rfl | hx
    · exact hlt
    · exact Nat.lt_trans (List.rel_of_pairwise_cons h.sorted hx) hlt
  · exact (h.upTo.mono hwv).cons (Nat.le_refl _)
  · intro x hx
    rcases List.mem_cons.mp hx with rfl | hx
    · exact hversion
    · exact h.version x hx
  · intro x hx
    rcases List.mem_cons.mp hx with rfl | hx
    · exact ⟨hfresh, Nat.lt_succ_self _⟩
    · exact ⟨(h.ptr x hx).1, Nat.lt_succ_of_lt (h.ptr x hx).2⟩

/-! ### findWithInsertPage_ -/

theorem PageInv.oldPages_eq_zero (h : PageInv s w chains) : s.oldPages i pg = 0 ↔ chains i pg = [] := by
  rw [h.oldest]
  cases hchain : chains i pg with
  | nil => exact ⟨fun _ => rfl, fun _ => rfl⟩
  | cons x older =>
    have hget : (x :: older)[older.length]? = some ((x :: older)[older.length]) :=
      List.getElem?_eq_getElem (Nat.lt_succ_self _)
    have hmem : (x :: older)[older.length] ∈ chains i pg := by
      rw [hchain]
      exact List.getElem_mem _
    have hpos := ((h.chain i pg).ptr _ hmem).1
    have hptr : ptrAt (x :: older) ((x :: older).length - 1) = ((x :: older)[older.length]).1 := ptrAt_of_some hget
    rw [hptr]
    exact ⟨fun hzero => by omega, fun hnil => by cases hnil⟩

def openChain (fresh version : Nat) : List (Nat × Nat) → List (Nat × Nat)
  | [] => [(fresh, version)]
  | x :: older => if x.2 < version then (fresh, version) :: x :: older else x :: older

theorem setChain_self (chains : Nat → Nat → List (Nat × Nat)) (i pg : Nat) :
    setChain chains i pg (chains i pg) = chains := by
  funext j pg'
  rw [setChain_apply]
  by_cases hsame : (j, pg') = (i, pg)
  · obtain ⟨rfl, rfl⟩ := Prod.mk.inj hsame
    rw [if_pos rfl]
  · rw [if_neg hsame]

theorem PageInv.mono (h : PageInv s w chains) (hw : w ≤ version) : PageInv s version chains :=
  { h with chain := fun i pg => (h.chain i pg).congr (fun _ _ => rfl) (Nat.le_refl _) hw }

/-- What a call leaves of a store, apart from its pages. -/
structure SameRows (s s' : PageStore) : Prop where
  cols : s'.cols = s.cols
  maxItems : s'.maxItems = s.maxItems
  header : s'.header = s.header
  stableHeader : s'.stableHeader = s.stableHeader

theorem SameRows.refl (s : PageStore) : SameRows s s := ⟨rfl, rfl, rfl, rfl⟩

theorem SameRows.trans {s'' : PageStore} (h : SameRows s s') (h' : SameRows s' s'') : SameRows s s'' :=
  ⟨h'.cols.trans h.cols, h'.maxItems.trans h.maxItems, h'.header.trans h.header,
    h'.stableHeader.trans h.stableHeader⟩

theorem ne_of_lt_fresh {chain : List (Nat × Nat)} {heap : Nat → Option HeapPage} {fresh : Nat}
    (h : PageChain heap fresh w chain) : ∀ x ∈ chain, x.1 ≠ fresh :=
  fun x hx => Nat.ne_of_lt (h.ptr x hx).2

theorem PageInv.firstPage_cons {v : Nat} {older : List (Nat × Nat)} (h : PageInv s w chains)
    (hchain : chains i pg = (q, v) :: older) : s.firstPage i col pg = .ok (q, s) := by
  have hne : s.oldPages i pg ≠ 0 := by
    intro hzero
    have hnil := h.oldPages_eq_zero.mp hzero
    rw [hchain] at hnil
    cases hnil
  have hpages : s.pages i pg = q := by
    rw [h.newest, hchain]
    rfl
  unfold PageStore.firstPage
  rw [if_neg hne, hpages]

theorem PageInv.head {v : Nat} {older : List (Nat × Nat)} (h : PageInv s w chains)
    (hchain : chains i pg = (q, v) :: older) :
    ∃ head, s.heap q = some head ∧ s.deref q = .ok head ∧ head.ver = v ∧ v < noVersion := by
  have hc := h.chain i pg
  rw [hchain] at hc
  obtain ⟨head, hhead, hver, -⟩ := hc.node 0 q v rfl
  refine ⟨head, hhead, ?_, hver, hc.version (q, v) List.mem_cons_self⟩
  unfold PageStore.deref
  rw [hhead]

/-- The first page of a number is allocated and takes the version at once. -/
theorem PageInv.openFirst (h : PageInv s w chains) (hw : w ≤ version) (hversion : version < noVersion)
    (hchain : chains i pg = []) (hok : s.findWithInsertPage i col pg version = .ok (p, s')) :
    PageInv s' version (setChain chains i pg [(s.fresh, version)]) ∧ p = s.fresh ∧ SameRows s s' := by
  unfold PageStore.findWithInsertPage at hok
  obtain ⟨⟨p₁, s₁⟩, hfirst, hok⟩ := bind_eq_ok hok
  obtain ⟨page, hderef, hok⟩ := bind_eq_ok hok
  unfold PageStore.firstPage at hfirst
  rw [if_pos (h.oldPages_eq_zero.mpr hchain)] at hfirst
  obtain ⟨⟨p₂, s₂⟩, hnew, hfirst⟩ := bind_eq_ok hfirst
  obtain ⟨rfl, first, buf, hver, hroom, hcapacity, rfl⟩ := getNewPage_first hnew
  obtain ⟨rfl, rfl⟩ := Prod.mk.inj (Except.ok.inj hfirst)
  have hpage : page =
      { toPage := first, v6dOffset := s.buf.size, minVer := noVersion, prev := 0, next := 0 } := by
    unfold PageStore.deref PageStore.setOldPages at hderef
    simp only [Function.update_self] at hderef
    exact (Except.ok.inj hderef).symm
  rw [hpage] at hok
  dsimp only at hok
  rw [if_pos hver] at hok
  obtain ⟨rfl, rfl⟩ := Prod.mk.inj (Except.ok.inj hok)
  have hrest : ∀ p, p ≠ s.fresh → ∀ x y : Option HeapPage,
      Function.update (Function.update s.heap s.fresh x) s.fresh y p = s.heap p := by
    intro p hp x y
    rw [Function.update_of_ne hp, Function.update_of_ne hp]
  refine ⟨h.replace hw (pageChain_single (Function.update_self _ _ _) rfl rfl rfl rfl hversion
    ⟨h.fresh, Nat.lt_succ_self _⟩) ?_ ?_ ?_ ?_ (Nat.le_succ _) ?_ ?_, rfl, rfl, rfl, rfl, rfl⟩
  · exact update_apply₂ s.pages i pg s.fresh
  · exact update_apply₂ s.oldPages i pg s.fresh
  · exact fun p _ hp => hrest p (Nat.ne_of_lt hp) _ _
  · intro x hx
    rw [List.mem_singleton.mp hx]
    exact .inr (Nat.le_refl _)
  · exact fun p hp => (hrest p (Nat.ne_of_gt hp) _ _).trans (h.unused p (Nat.le_of_lt hp))
  · intro p page hpage
    show page.v6dOffset < buf.capacity
    by_cases hp : p = s.fresh
    · rw [hp] at hpage
      have hpage := (Function.update_self _ _ _).symm.trans hpage
      rw [← Option.some.inj hpage]
      exact hroom
    · rw [hcapacity]
      exact h.inBuffer p page ((hrest p hp _ _).symm.trans hpage)

/-- A later version gets a page in front of the newest one. -/
theorem PageInv.openNext {v : Nat} {older : List (Nat × Nat)} (h : PageInv s w chains) (hw : w ≤ version)
    (hversion : version < noVersion) (hchain : chains i pg = (q, v) :: older) (hlt : v < version)
    (hok : s.findWithInsertPage i col pg version = .ok (p, s')) :
    PageInv s' version (setChain chains i pg ((s.fresh, version) :: (q, v) :: older)) ∧ p = s.fresh ∧
      SameRows s s' := by
  unfold PageStore.findWithInsertPage at hok
  rw [h.firstPage_cons hchain] at hok
  obtain ⟨head, hhead, hderef, hver, hfits⟩ := h.head hchain
  have hc := h.chain i pg
  rw [hchain] at hc
  dsimp only [bind, Except.bind] at hok
  rw [hderef] at hok
  dsimp only at hok
  rw [if_neg (by omega), if_pos (by omega)] at hok
  obtain ⟨⟨p₂, s₂⟩, hnewPage, hok⟩ := bind_eq_ok hok
  obtain ⟨rfl, new, buf, hnewVer, hroom, hcapacity, rfl⟩ := getNewPage_next hnewPage
  obtain ⟨rfl, rfl⟩ := Prod.mk.inj (Except.ok.inj hok)
  have hqfresh : q ≠ s.fresh := ne_of_lt_fresh hc (q, v) List.mem_cons_self
  have hrest : ∀ p, p ≠ q → p ≠ s.fresh → ∀ x y : Option HeapPage,
      Function.update (Function.update s.heap q x) s.fresh y p = s.heap p := by
    intro p hpq hpf x y
    rw [Function.update_of_ne hpf, Function.update_of_ne hpq]
  refine ⟨h.replace hw (hc.cons hhead hlt hversion hw h.fresh (Function.update_self _ _ _) hnewVer rfl rfl rfl
    ?_ ?_) ?_ ?_ ?_ ?_ (Nat.le_succ _) ?_ ?_, rfl, rfl, rfl, rfl, rfl⟩
  · exact (Function.update_of_ne hqfresh _ _).trans (Function.update_self _ _ _)
  · intro x hx
    refine hrest x.1 (fun heq => ?_) (ne_of_lt_fresh hc x (List.mem_cons_of_mem _ hx)) _ _
    have hnodup := hc.nodup
    rw [List.map_cons, List.nodup_cons] at hnodup
    exact hnodup.1 (List.mem_map.mpr ⟨x, hx, heq⟩)
  · exact update_apply₂ s.pages i pg s.fresh
  · intro j pg'
    by_cases hsame : (j, pg') = (i, pg)
    · obtain ⟨rfl, rfl⟩ := Prod.mk.inj hsame
      rw [if_pos rfl]
      have hold := h.oldest j pg'
      rw [hchain] at hold
      exact hold
    · exact (if_neg hsame).symm
  · intro p hp hlt'
    refine hrest p (fun heq => ?_) (Nat.ne_of_lt hlt') _ _
    exact hp (q, v) (by rw [hchain]; exact List.mem_cons_self) heq.symm
  · intro x hx
    rcases List.mem_cons.mp hx with rfl | hx
    · exact .inr (Nat.le_refl _)
    · exact .inl ⟨x, by rw [hchain]; exact hx, rfl⟩
  · intro p hp
    have hpfresh : s.fresh < p := hp
    have hq := (hc.ptr (q, v) List.mem_cons_self).2
    dsimp only at hq
    exact (hrest p (by omega) (by omega) _ _).trans (h.unused p (by omega))
  · intro p page hpage
    show page.v6dOffset < buf.capacity
    by_cases hp : p = s.fresh
    · rw [hp] at hpage
      have hpage := (Function.update_self _ _ _).symm.trans hpage
      rw [← Option.some.inj hpage]
      exact hroom
    · rw [hcapacity]
      by_cases hq : p = q
      · rw [hq] at hpage
        have hpage := ((Function.update_of_ne hqfresh _ _).trans (Function.update_self _ _ _)).symm.trans hpage
        rw [← Option.some.inj hpage]
        exact h.inBuffer q head hhead
      · exact h.inBuffer p page ((hrest p hq hp _ _).symm.trans hpage)

/-- The page is there when its newest version is the one that is written. -/
theorem PageInv.openSame {v : Nat} {older : List (Nat × Nat)} (h : PageInv s w chains)
    (hchain : chains i pg = (q, v) :: older) (hle : ¬ v < version)
    (hok : s.findWithInsertPage i col pg version = .ok (p, s')) : p = q ∧ s' = s := by
  unfold PageStore.findWithInsertPage at hok
  rw [h.firstPage_cons hchain] at hok
  obtain ⟨head, -, hderef, hver, hfits⟩ := h.head hchain
  dsimp only [bind, Except.bind] at hok
  rw [hderef] at hok
  dsimp only at hok
  rw [if_neg (by omega), if_neg (by omega)] at hok
  obtain ⟨rfl, rfl⟩ := Prod.mk.inj (Except.ok.inj hok)
  exact ⟨rfl, rfl⟩

/-- `findWithInsertPage_` opens a version of the page: the new pointer is that of the first version of the chain. -/
theorem PageInv.findWithInsertPage (h : PageInv s w chains) (hw : w ≤ version) (hversion : version < noVersion)
    (hok : s.findWithInsertPage i col pg version = .ok (p, s')) :
    PageInv s' version (setChain chains i pg (openChain s.fresh version (chains i pg))) ∧
      p = ptrAt (openChain s.fresh version (chains i pg)) 0 ∧ SameRows s s' := by
  cases hchain : chains i pg with
  | nil => exact h.openFirst hw hversion hchain hok
  | cons x older =>
    obtain ⟨q, v⟩ := x
    unfold openChain
    dsimp only
    by_cases hnew : v < version
    · rw [if_pos hnew]
      exact h.openNext hw hversion hchain hnew hok
    · obtain ⟨rfl, rfl⟩ := h.openSame hchain hnew hok
      rw [if_neg hnew, ← hchain, setChain_self]
      refine ⟨h.mono hw, ?_, .refl s'⟩
      rw [hchain]
      rfl

/-! ### Writing a row -/

theorem PageInv.setContent (h : PageInv s w chains) (hpage : s.heap p = some page) (m : Memory) :
    PageInv (s.setPage p { page with content := m }) w chains where
  chain i pg := by
    have hc := h.chain i pg
    refine ⟨fun k q v hk => ?_, hc.sorted, hc.upTo, hc.version, hc.ptr⟩
    obtain ⟨old, hold, hver, hprev, hnext, hmin⟩ := hc.node k q v hk
    by_cases hq : q = p
    · rw [hq, hpage] at hold
      obtain rfl := Option.some.inj hold
      refine ⟨{ page with content := m }, ?_, hver, hprev, hnext, hmin⟩
      rw [hq]
      exact Function.update_self _ _ _
    · exact ⟨old, (Function.update_of_ne hq _ _).trans hold, hver, hprev, hnext, hmin⟩
  newest := h.newest
  oldest := h.oldest
  apart := h.apart
  fresh := h.fresh
  unused q hq := by
    have hnone := h.unused q hq
    have hne : q ≠ p := fun heq => by rw [heq, hpage] at hnone; cases hnone
    exact (Function.update_of_ne hne _ _).trans hnone
  null := by
    have hne : 0 ≠ p := fun heq => by
      have hnone := h.null
      rw [heq, hpage] at hnone
      cases hnone
    exact (Function.update_of_ne hne _ _).trans h.null
  inBuffer q page' hpage' := by
    by_cases hq : q = p
    · rw [hq] at hpage'
      have hpage' := (Function.update_self _ _ _).symm.trans hpage'
      rw [← Option.some.inj hpage']
      exact h.inBuffer p page hpage
    · exact h.inBuffer q page' ((Function.update_of_ne hq _ _).symm.trans hpage')

theorem PageInv.writePage {off : Nat} {change : Nat → Memory → Memory} (h : PageInv s w chains) (hw : w ≤ version)
    (hversion : version < noVersion) (hok : s.writePage off version change i = .ok s') :
    ∃ col, s.cols[i]? = some col ∧ off / col.pageSize < s.numPages col ∧
      PageInv s' version (setChain chains i (off / col.pageSize)
        (openChain s.fresh version (chains i (off / col.pageSize)))) ∧ SameRows s s' := by
  unfold PageStore.writePage at hok
  cases hcol : s.cols[i]? with
  | none =>
    rw [hcol] at hok
    cases hok
  | some col =>
    rw [hcol] at hok
    dsimp only at hok
    by_cases hin : s.numPages col ≤ off / col.pageSize
    · rw [if_pos hin] at hok
      cases hok
    · rw [if_neg hin] at hok
      obtain ⟨⟨p, s₁⟩, hfind, hok⟩ := bind_eq_ok hok
      obtain ⟨page, hderef, hok⟩ := bind_eq_ok hok
      obtain rfl := Except.ok.inj hok
      obtain ⟨hinv, -, hrows⟩ := h.findWithInsertPage hw hversion hfind
      have hpage : s₁.heap p = some page := by
        unfold PageStore.deref at hderef
        cases hheap : s₁.heap p with
        | none =>
          rw [hheap] at hderef
          cases hderef
        | some page' =>
          rw [hheap] at hderef
          rw [Except.ok.inj hderef]
      exact ⟨col, rfl, Nat.not_le.mp hin, hinv.setContent hpage _, hrows.trans ⟨rfl, rfl, rfl, rfl⟩⟩

end writes

end Gart.Store

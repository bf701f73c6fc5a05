import Gart.Store.PropertyRun

/-!
# The pages of the property store and their pointers (property_col_paged.cc)

The versions of a page are linked in both directions. `pages` has the newest of them and `old_pages` the oldest. Every
page lies in a region of the buffer.
-/

namespace Gart.Store
open Gart.ByteMemory Gart.Outcome Gart.Versions

/-- `PropertyColPaged::Page` with its pointers; 0 is the null pointer. -/
structure HeapPage extends Page where
  /-- `v6d_offset`, its place in the buffer -/
  v6dOffset : Nat
  minVer : Nat
  prev : Nat
  next : Nat

/-- `uint64_t(-1)`, for a page without a version -/
def noVersion : Nat := 2 ^ 64 - 1

/-- `PropertyColPaged` with the pages by their addresses. -/
structure PageStore where
  cols : List ColumnFamily
  maxItems : Nat
  header : Nat := 0
  stableHeader : Nat := 0
  buf : RegionBuffer
  /-- the pages that are allocated and not released -/
  heap : Nat → Option HeapPage := fun _ => none
  fresh : Nat := 1
  pages : Nat → Nat → Nat := fun _ _ => 0
  oldPages : Nat → Nat → Nat := fun _ _ => 0

namespace PageStore

/-- The constructor. -/
def create (layout : VertexLayout) (maxItems : Nat) (buf : RegionBuffer) : PageStore :=
  { cols := layout.colFamilies.map (ColumnFamily.settle maxItems), maxItems := maxItems, buf := buf }

/-- `page_num` (`property_col_paged.cc:89`) -/
def numPages (s : PageStore) (col : ColumnFamily) : Nat := (s.maxItems + col.pageSize - 1) / col.pageSize

def deref (s : PageStore) (p : Nat) : Except StoreFault HeapPage :=
  match s.heap p with
  | none => .error .nullPointer
  | some page => .ok page

def setPage (s : PageStore) (p : Nat) (page : HeapPage) : PageStore :=
  { s with heap := Function.update s.heap p (some page) }

def setPages (s : PageStore) (i pgNum p : Nat) : PageStore :=
  { s with pages := Function.update s.pages i (Function.update (s.pages i) pgNum p) }

def setOldPages (s : PageStore) (i pgNum p : Nat) : PageStore :=
  { s with oldPages := Function.update s.oldPages i (Function.update (s.oldPages i) pgNum p) }

/-! ### Writing -/

/-- `getNewPage_` and the constructor of `Page` (`property_col_paged.cc:140-168`) -/
def getNewPage (s : PageStore) (col : ColumnFamily) (ver : Nat) (prev : Option (Nat × HeapPage)) :
    Except StoreFault (Nat × PageStore) := do
  let (page, buf) ← Store.getNewPage col ver (prev.map fun q => q.2.toPage) s.buf
  let p := s.fresh
  let offset := s.buf.size
  let s := { s with buf := buf, fresh := p + 1 }
  match prev with
  | none => return (p, s.setPage p { toPage := page, v6dOffset := offset, minVer := ver, prev := 0, next := 0 })
  | some (q, old) =>
    let s := s.setPage q { old with next := p }
    return (p, s.setPage p { toPage := page, v6dOffset := offset, minVer := old.minVer, prev := q, next := 0 })

/-- The page that `findWithInsertPage_` starts with: the first one is allocated lazily. -/
def firstPage (s : PageStore) (i : Nat) (col : ColumnFamily) (pgNum : Nat) : Except StoreFault (Nat × PageStore) :=
  if s.oldPages i pgNum = 0 then do
    let (p, s) ← s.getNewPage col noVersion none
    return (p, s.setOldPages i pgNum p)
  else .ok (s.pages i pgNum, s)

/-- `findWithInsertPage_` (`property_col_paged.cc:170-209`) -/
def findWithInsertPage (s : PageStore) (i : Nat) (col : ColumnFamily) (pgNum version : Nat) :
    Except StoreFault (Nat × PageStore) := do
  let (p, s) ← s.firstPage i col pgNum
  let page ← s.deref p
  if page.ver = noVersion then
    return (p, (s.setPage p { page with ver := version, minVer := version }).setPages i pgNum p)
  else if version > page.ver then do
    let (q, s) ← s.getNewPage col version (some (p, page))
    return (q, s.setPages i pgNum q)
  else return (p, s)

def writePage (s : PageStore) (off version : Nat) (change : Nat → Memory → Memory) (i : Nat) :
    Except StoreFault PageStore :=
  match s.cols[i]? with
  | none => .error .outOfBounds
  | some col =>
    let pgNum := off / col.pageSize
    if s.numPages col ≤ pgNum then .error .outOfBounds
    else do
      let (p, s) ← s.findWithInsertPage i col pgNum version
      let page ← s.deref p
      return s.setPage p { page with content := change i page.content }

/-! ### findPage -/

/-- The loop along `prev`; no chain has as many pages as were ever allocated. -/
def walk (s : PageStore) (version : Nat) : Nat → Nat → Except StoreFault Nat
  | 0, _ => .error .outOfBounds
  | fuel + 1, p =>
    if p = 0 then .ok 0
    else do
      let page ← s.deref p
      if page.ver ≤ version then .ok p else walk s version fuel page.prev

/-- `findPage` (`property_col_paged.cc:211-239`) -/
def findPage (s : PageStore) (i pgNum version : Nat) : Except StoreFault Nat :=
  let p := s.pages i pgNum
  if p = 0 then .ok 0
  else do
    let page ← s.deref p
    if page.minVer > version then .ok 0 else s.walk version s.fresh p

end PageStore

/-! ### Chains

A chain has the addresses of the versions of a page with the versions, newest first. -/

def ptrAt (chain : List (Nat × Nat)) (k : Nat) : Nat := (chain[k]?.map Prod.fst).getD 0

def nextAt (chain : List (Nat × Nat)) (k : Nat) : Nat := if k = 0 then 0 else ptrAt chain (k - 1)

/-- The heap has the pages of a chain, linked to their neighbors. -/
structure PageChain (heap : Nat → Option HeapPage) (fresh w : Nat) (chain : List (Nat × Nat)) : Prop where
  node : ∀ (k p v : Nat), chain[k]? = some (p, v) → ∃ page, heap p = some page ∧ page.ver = v ∧
    page.prev = ptrAt chain (k + 1) ∧ page.next = nextAt chain k ∧ ∀ x ∈ chain, page.minVer ≤ x.2
  sorted : chain.Pairwise fun x y => y.2 < x.2
  upTo : UpTo Prod.snd w chain
  version : ∀ x ∈ chain, x.2 < noVersion
  ptr : ∀ x ∈ chain, 0 < x.1 ∧ x.1 < fresh

section chain
variable {heap heap' : Nat → Option HeapPage} {fresh fresh' w w' k j p v version : Nat} {chain older : List (Nat × Nat)}

theorem ptrAt_of_some (h : chain[k]? = some (p, v)) : ptrAt chain k = p := by
  unfold ptrAt
  rw [h]
  rfl

theorem nextAt_succ : nextAt chain (k + 1) = ptrAt chain k := rfl

theorem pageChain_nil : PageChain heap fresh w [] :=
  ⟨fun k p v h => (by cases h), .nil, fun x hx => (by cases hx), fun x hx => (by cases hx), fun x hx => (by cases hx)⟩

theorem PageChain.index_inj (h : PageChain heap fresh w chain) {v' : Nat} (hk : chain[k]? = some (p, v))
    (hj : chain[j]? = some (p, v')) : k = j := by
  obtain ⟨page, hpage, rfl, -⟩ := h.node k p v hk
  obtain ⟨page', hpage', rfl, -⟩ := h.node j p v' hj
  rw [hpage] at hpage'
  obtain rfl := Option.some.inj hpage'
  obtain ⟨hk', hkeq⟩ := List.getElem?_eq_some_iff.mp hk
  obtain ⟨hj', hjeq⟩ := List.getElem?_eq_some_iff.mp hj
  rcases Nat.lt_trichotomy k j with hlt | heq | hgt
  · have hver := List.pairwise_iff_getElem.mp h.sorted k j hk' hj' hlt
    rw [hkeq, hjeq] at hver
    exact absurd hver (Nat.lt_irrefl _)
  · exact heq
  · have hver := List.pairwise_iff_getElem.mp h.sorted j k hj' hk' hgt
    rw [hkeq, hjeq] at hver
    exact absurd hver (Nat.lt_irrefl _)

theorem PageChain.congr (h : PageChain heap fresh w chain) (hheap : ∀ x ∈ chain, heap' x.1 = heap x.1)
    (hfresh : fresh ≤ fresh') (hw : w ≤ w') : PageChain heap' fresh' w' chain where
  node k p v hk := by
    rw [hheap (p, v) (List.mem_of_getElem? hk)]
    exact h.node k p v hk
  sorted := h.sorted
  upTo := h.upTo.mono hw
  version := h.version
  ptr x hx := ⟨(h.ptr x hx).1, Nat.lt_of_lt_of_le (h.ptr x hx).2 hfresh⟩

/-- What `findPage` comes to: the version of the chain that a reader may see. -/
def foundPage (version : Nat) (chain : List (Nat × Nat)) : Nat := ((visible Prod.snd version chain).map Prod.fst).getD 0

end chain

namespace PageStore

section find
variable {s : PageStore} {w k i pgNum version fuel : Nat} {chain : List (Nat × Nat)}

theorem walk_spec (h : PageChain s.heap s.fresh w chain) (hfuel : chain.length - k < fuel) :
    s.walk version fuel (ptrAt chain k) = .ok (foundPage version (chain.drop k)) := by
  induction fuel generalizing k with
  | zero => omega
  | succ fuel ih =>
    unfold walk
    cases hk : chain[k]? with
    | none =>
      have hnull : ptrAt chain k = 0 := by
        unfold ptrAt
        rw [hk]
        rfl
      rw [hnull, if_pos rfl, List.drop_eq_nil_of_le (List.getElem?_eq_none_iff.mp hk)]
      rfl
    | some x =>
      obtain ⟨p, v⟩ := x
      obtain ⟨page, hpage, hver, hprev, -, -⟩ := h.node k p v hk
      have hpos := (h.ptr (p, v) (List.mem_of_getElem? hk)).1
      obtain ⟨hlt, hget⟩ := List.getElem?_eq_some_iff.mp hk
      rw [ptrAt_of_some hk, if_neg (by omega), List.drop_eq_getElem_cons hlt, hget]
      unfold deref
      rw [hpage]
      show (if page.ver ≤ version then (.ok p : Except StoreFault Nat) else s.walk version fuel page.prev) = _
      rw [hver]
      by_cases hle : v ≤ version
      · rw [if_pos hle]
        unfold foundPage
        rw [visible_cons_of_le hle]
        rfl
      · rw [if_neg hle, hprev, ih (by omega)]
        unfold foundPage
        rw [visible_cons_of_lt (by omega)]

theorem findPage_spec (h : PageChain s.heap s.fresh w chain) (hnewest : s.pages i pgNum = ptrAt chain 0)
    (hlength : chain.length < s.fresh) : s.findPage i pgNum version = .ok (foundPage version chain) := by
  unfold findPage
  dsimp only
  rw [hnewest]
  cases chain with
  | nil => rfl
  | cons x older =>
    obtain ⟨p, v⟩ := x
    obtain ⟨page, hpage, hver, -, -, hmin⟩ := h.node 0 p v rfl
    have hpos := (h.ptr (p, v) List.mem_cons_self).1
    have hptr : ptrAt ((p, v) :: older) 0 = p := rfl
    rw [hptr, if_neg (by omega)]
    unfold deref
    rw [hpage]
    show (if page.minVer > version then (.ok 0 : Except StoreFault Nat) else s.walk version s.fresh p) = _
    by_cases hlate : page.minVer > version
    · -- every version is later
      rw [if_pos hlate]
      have hnone : visible Prod.snd version ((p, v) :: older) = none := by
        refine List.find?_eq_none.mpr fun x hx => ?_
        have hle := hmin x hx
        simp only [decide_eq_true_eq]
        omega
      unfold foundPage
      rw [hnone]
      rfl
    · rw [if_neg hlate, ← hptr]
      exact walk_spec h (by omega)

end find

end PageStore

end Gart.Store

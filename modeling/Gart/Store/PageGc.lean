import Gart.Store.PageWrites

/-!
# Releasing old pages (property_col_paged.cc)

`gc` starts at the oldest version of a page and goes on to release versions while the next one is old enough for every
reader from `ver` on. It hands them to `free`, though `v6d_malloc` took them from the buffer.
-/

namespace Gart.Store
open Gart.Outcome Gart.Versions

namespace PageStore

/-- `free` (`property_col_paged.cc:564`): an address inside the buffer does not come from `malloc`. -/
def release (s : PageStore) (p : Nat) : Except StoreFault PageStore := do
  let page ← s.deref p
  if page.v6dOffset < s.buf.capacity then .error .badFree
  else return { s with heap := Function.update s.heap p none }

/-- The inner loop of `gc`; it returns the page that it stops at. -/
def gcPage (ver : Nat) : Nat → Nat → PageStore → Except StoreFault (Nat × PageStore)
  | 0, _, _ => .error .outOfBounds
  | fuel + 1, p, s => do
    let page ← s.deref p
    if page.ver < ver ∧ page.next ≠ 0 then do
      let next ← s.deref page.next
      if next.ver ≤ ver then do
        let s ← (s.setPage page.next { next with prev := 0 }).release p
        gcPage ver fuel page.next s
      else return (p, s)
    else return (p, s)

def gcAt (ver i : Nat) (s : PageStore) (pi : Nat) : Except StoreFault PageStore := do
  let p := s.oldPages i pi
  let page ← s.deref p
  if page.ver ≥ ver then return s
  else do
    let (p, s) ← gcPage ver s.fresh p s
    return s.setOldPages i pi p

/-- `used_page` (`property_col_paged.cc:554`) -/
def usedPage (s : PageStore) (col : ColumnFamily) : Nat := (s.stableHeader + col.pageSize - 1) / col.pageSize

def gcFamily (ver : Nat) (s : PageStore) (family : ColumnFamily × Nat) : Except StoreFault PageStore :=
  (List.range (s.usedPage family.1)).foldlM (gcAt ver family.2) s

/-- `gc` (`property_col_paged.cc:539-578`) -/
def gc (s : PageStore) (ver : Nat) : Except StoreFault PageStore :=
  if ver = 0 then .ok s
  else s.cols.zipIdx.foldlM (gcFamily ver) s

end PageStore

/-- At most one version of a page is as old as `ver`, so that there is none to release. -/
def NoneOld (ver : Nat) (chain : List (Nat × Nat)) : Prop :=
  ∀ x ∈ chain, ∀ y ∈ chain, x.2 ≤ ver → y.2 ≤ ver → x.2 = y.2

section gc
variable {s : PageStore} {w ver i pg p : Nat} {chains : Nat → Nat → List (Nat × Nat)} {front : List (Nat × Nat)}
  {x y : Nat × Nat}

theorem noneOld_singleton : NoneOld ver [x] := by
  intro y hy z hz _ _
  rw [List.mem_singleton.mp hy, List.mem_singleton.mp hz]

theorem noneOld_concat (h : (front ++ [y] ++ [x]).Pairwise fun x y => y.2 < x.2) :
    NoneOld ver (front ++ [y] ++ [x]) ↔ ver < y.2 := by
  obtain ⟨hinit, -, hlast⟩ := List.pairwise_append.mp h
  have hxy : x.2 < y.2 := hlast y (by simp) x List.mem_cons_self
  constructor
  · intro hnone
    by_contra hle
    have heq := hnone x (by simp) y (by simp) (by omega) (by omega)
    omega
  · intro hlate
    have hold : ∀ z ∈ front ++ [y] ++ [x], z.2 ≤ ver → z = x := by
      intro z hz hle
      rcases List.mem_append.mp hz with hz | hz
      · rcases List.mem_append.mp hz with hz | hz
        · have hzy := (List.pairwise_append.mp hinit).2.2 z hz y List.mem_cons_self
          omega
        · rw [List.mem_singleton.mp hz] at hle
          omega
      · exact List.mem_singleton.mp hz
    intro z hz z' hz' hle hle'
    rw [hold z hz hle, hold z' hz' hle']

theorem deref_of_some {page : HeapPage} (h : s.heap p = some page) : s.deref p = .ok page := by
  unfold PageStore.deref
  rw [h]

theorem release_error {page next : HeapPage} {q : Nat} (h : PageInv s w chains) (hpage : s.heap p = some page)
    (hne : p ≠ q) : (s.setPage q next).release p = .error .badFree := by
  have hpage' : (s.setPage q next).heap p = some page := (Function.update_of_ne hne _ _).trans hpage
  unfold PageStore.release
  rw [deref_of_some hpage']
  exact if_pos (h.inBuffer p page hpage)

theorem gcPage_spec {fuel : Nat} (h : PageInv s w chains) (hchain : chains i pg = front ++ [x]) :
    (NoneOld ver (chains i pg) → PageStore.gcPage ver (fuel + 1) x.1 s = .ok (x.1, s)) ∧
      (¬ NoneOld ver (chains i pg) → PageStore.gcPage ver (fuel + 1) x.1 s = .error .badFree) := by
  have hc := h.chain i pg
  rw [hchain] at hc
  rw [hchain]
  have hget : (front ++ [x])[front.length]? = some (x.1, x.2) := List.getElem?_concat_length
  obtain ⟨page, hpage, hver, -, hnext, -⟩ := hc.node _ x.1 x.2 hget
  rw [PageStore.gcPage, deref_of_some hpage]
  rcases List.eq_nil_or_concat' front with rfl | ⟨init, y, rfl⟩
  · have hnull : page.next = 0 := hnext
    refine ⟨fun _ => ?_, fun hold => absurd noneOld_singleton hold⟩
    exact if_neg fun hgo => hgo.2 hnull
  · have hyget : (init ++ [y] ++ [x])[init.length]? = some (y.1, y.2) := by
      rw [List.getElem?_append_left (by simp)]
      exact List.getElem?_concat_length
    obtain ⟨next, hlast, hnextVer, -⟩ := hc.node _ y.1 y.2 hyget
    have hptr : page.next = y.1 := by
      rw [hnext, List.length_append, List.length_singleton, nextAt_succ]
      exact ptrAt_of_some hyget
    have hpos := (hc.ptr y (by simp)).1
    have hxy : x.2 < y.2 := (List.pairwise_append.mp hc.sorted).2.2 y (by simp) x List.mem_cons_self
    rw [noneOld_concat hc.sorted]
    by_cases hlate : ver < y.2
    · refine ⟨fun _ => ?_, fun hold => absurd hlate hold⟩
      by_cases hgo : page.ver < ver ∧ page.next ≠ 0
      · refine (if_pos hgo).trans ?_
        rw [hptr, deref_of_some hlast]
        exact if_neg (by omega)
      · exact if_neg hgo
    · refine ⟨fun hold => absurd hold hlate, fun _ => ?_⟩
      have hne : x.1 ≠ y.1 := fun heq => by
        have hxget : (init ++ [y] ++ [x])[(init ++ [y]).length]? = some (y.1, x.2) := by
          rw [← heq]
          exact hget
        have hsame := hc.index_inj hyget hxget
        rw [List.length_append, List.length_singleton] at hsame
        omega
      refine (if_pos ⟨by omega, by omega⟩).trans ?_
      rw [hptr, deref_of_some hlast]
      refine (if_pos (by omega)).trans ?_
      rw [release_error h hpage hne]
      rfl

theorem gcAt_spec (h : PageInv s w chains) (hne : chains i pg ≠ []) :
    (NoneOld ver (chains i pg) → PageStore.gcAt ver i s pg = .ok s) ∧
      (¬ NoneOld ver (chains i pg) → PageStore.gcAt ver i s pg = .error .badFree) := by
  have hself : s.setOldPages i pg (s.oldPages i pg) = s := by
    unfold PageStore.setOldPages
    rw [Function.update_eq_self, Function.update_eq_self]
  obtain ⟨front, x, hchain⟩ := (List.eq_nil_or_concat' (chains i pg)).resolve_left hne
  have hc := h.chain i pg
  rw [hchain] at hc
  have hget : (front ++ [x])[front.length]? = some (x.1, x.2) := List.getElem?_concat_length
  obtain ⟨page, hpage, hver, -⟩ := hc.node _ x.1 x.2 hget
  have hold : s.oldPages i pg = x.1 := by
    rw [h.oldest, hchain, List.length_append, List.length_singleton, Nat.add_sub_cancel]
    exact ptrAt_of_some hget
  rw [hold] at hself
  have hfresh := h.fresh
  obtain ⟨hsame, hfree⟩ := @gcPage_spec s w ver i pg chains front x (s.fresh - 1) h hchain
  rw [Nat.sub_add_cancel hfresh] at hsame hfree
  unfold PageStore.gcAt
  dsimp only
  rw [hold, deref_of_some hpage]
  constructor
  · intro hnone
    by_cases hlate : page.ver ≥ ver
    · exact if_pos hlate
    · refine (if_neg hlate).trans ?_
      rw [hsame hnone]
      exact congrArg Except.ok hself
  · intro hsome
    have hlate : ¬ page.ver ≥ ver := by
      rcases List.eq_nil_or_concat' front with rfl | ⟨init, y, rfl⟩
      · rw [hchain] at hsome
        exact absurd noneOld_singleton hsome
      · have hxy : x.2 < y.2 := (List.pairwise_append.mp hc.sorted).2.2 y (by simp) x List.mem_cons_self
        rw [hchain, noneOld_concat hc.sorted] at hsome
        omega
    refine (if_neg hlate).trans ?_
    rw [hfree hsome]
    rfl

/-- `gc` changes nothing if no page of the stable rows has two versions as old as `ver`, and frees a page of the buffer
otherwise. -/
theorem PageInv.gc (h : PageInv s w chains)
    (hne : ∀ i col pi, s.cols[i]? = some col → pi < s.usedPage col → chains i pi ≠ []) :
    ((∀ i col pi, s.cols[i]? = some col → pi < s.usedPage col → NoneOld ver (chains i pi)) → s.gc ver = .ok s) ∧
      (¬ (∀ i col pi, s.cols[i]? = some col → pi < s.usedPage col → NoneOld ver (chains i pi)) →
        s.gc ver = .error .badFree) := by
  have hfamily : ∀ family ∈ s.cols.zipIdx,
      ((∀ pi ∈ List.range (s.usedPage family.1), NoneOld ver (chains family.2 pi)) →
        PageStore.gcFamily ver s family = .ok s) ∧
      (¬ (∀ pi ∈ List.range (s.usedPage family.1), NoneOld ver (chains family.2 pi)) →
        PageStore.gcFamily ver s family = .error .badFree) := fun family hmem =>
    foldlM_same fun pi hpi => gcAt_spec h (hne family.2 family.1 pi (List.mem_zipIdx_iff_getElem?.mp hmem)
      (List.mem_range.mp hpi))
  have hall : (∀ family ∈ s.cols.zipIdx, ∀ pi ∈ List.range (s.usedPage family.1), NoneOld ver (chains family.2 pi)) ↔
      ∀ i col pi, s.cols[i]? = some col → pi < s.usedPage col → NoneOld ver (chains i pi) :=
    ⟨fun hall i col pi hcol hpi => hall (col, i) (List.mem_zipIdx_iff_getElem?.mpr hcol) pi (List.mem_range.mpr hpi),
      fun hall family hmem pi hpi => hall family.2 family.1 pi (List.mem_zipIdx_iff_getElem?.mp hmem)
        (List.mem_range.mp hpi)⟩
  unfold PageStore.gc
  by_cases hzero : ver = 0
  · rw [if_pos hzero]
    refine ⟨fun _ => rfl, fun hsome => absurd (fun i col pi _ _ x _ y _ hx hy => ?_) hsome⟩
    omega
  · rw [if_neg hzero, ← hall]
    exact foldlM_same hfamily

end gc

end Gart.Store

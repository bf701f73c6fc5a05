import Gart.Store.PageGc

/-!
# Runs of the property store

A row is written with a version that is not older than the ones before it, and `gc` may be called in between. A reader
from `ver` on finds after `gc(ver)` what it found before, and no page is released twice.
-/

namespace Gart.Store
open Gart.ByteMemory Gart.Outcome Gart.Versions

namespace PageStore

/-- Some families of a row are written, in this order (`property_col_paged.cc:241-269`). -/
def writeRow (s : PageStore) (off version : Nat) (families : List Nat) (change : Nat → Memory → Memory) :
    Except StoreFault PageStore :=
  families.foldlM (fun s i => s.writePage off version change i) s

/-- A call to the property store. The functions that write differ in the families that they write and in what they do
to the content of a page. -/
inductive Call where
  /-- `getNewOffset` and the `insert` of the row, into every family -/
  | newRow (version : Nat) (change : Nat → Memory → Memory)
  /-- an `insert` or `update` of a row -/
  | write (off version : Nat) (families : List Nat) (change : Nat → Memory → Memory)
  | updateHeader
  | gc (ver : Nat)

def Call.version : Call → Option Nat
  | .newRow version _ => some version
  | .write _ version _ _ => some version
  | .updateHeader => none
  | .gc _ => none

def runCall (s : PageStore) : Call → Except StoreFault PageStore
  | .newRow version change =>
    let off := s.header
    { s with header := s.header + 1 }.writeRow off version (List.range s.cols.length) change
  | .write off version families change => s.writeRow off version families change
  | .updateHeader => .ok { s with stableHeader := s.header }
  | .gc ver => s.gc ver

def runCalls (s : PageStore) (calls : List Call) : Except StoreFault PageStore := calls.foldlM runCall s

/-! ### What calls write -/

def onPage (cols : List ColumnFamily) (i pg off : Nat) : Bool :=
  (cols[i]?).any fun col => decide (off / col.pageSize = pg)

/-- The version that a call writes to the page; `row` is what `getNewOffset` returns. -/
def Call.writes (cols : List ColumnFamily) (i pg row : Nat) : Call → List Nat
  | .newRow version _ => if onPage cols i pg row then [version] else []
  | .write off version families _ => if i ∈ families ∧ onPage cols i pg off then [version] else []
  | .updateHeader => []
  | .gc _ => []

def Call.rows : Call → Nat
  | .newRow _ _ => 1
  | .write _ _ _ _ => 0
  | .updateHeader => 0
  | .gc _ => 0

/-- The versions that calls write to the page, in their order, from the row on that `getNewOffset` returns next. -/
def pageWrites (cols : List ColumnFamily) (i pg : Nat) : Nat → List Call → List Nat
  | _, [] => []
  | row, call :: rest => call.writes cols i pg row ++ pageWrites cols i pg (row + call.rows) rest

section writes
variable {cols : List ColumnFamily} {i pg row : Nat}

theorem pageWrites_append (calls rest : List Call) :
    pageWrites cols i pg row (calls ++ rest) =
      pageWrites cols i pg row calls ++ pageWrites cols i pg (row + (calls.map Call.rows).sum) rest := by
  induction calls generalizing row with
  | nil => rfl
  | cons call calls ih =>
    rw [List.cons_append, pageWrites, pageWrites, ih, List.append_assoc, List.map_cons, List.sum_cons, Nat.add_assoc]

theorem mem_pageWrites {calls : List Call} {v : Nat} (h : v ∈ pageWrites cols i pg row calls) :
    ∃ call ∈ calls, call.version = some v := by
  induction calls generalizing row with
  | nil => cases h
  | cons call calls ih =>
    rcases List.mem_append.mp h with hhere | hlater
    · refine ⟨call, List.mem_cons_self, ?_⟩
      cases call with
      | newRow version change =>
        have hhere : v ∈ (if onPage cols i pg row = true then [version] else []) := hhere
        split at hhere
        · exact congrArg some (List.mem_singleton.mp hhere).symm
        · cases hhere
      | write off version families change =>
        have hhere : v ∈ (if i ∈ families ∧ onPage cols i pg off = true then [version] else []) := hhere
        split at hhere
        · exact congrArg some (List.mem_singleton.mp hhere).symm
        · cases hhere
      | updateHeader => cases hhere
      | gc ver => cases hhere
    · obtain ⟨call', hmem, hversion⟩ := ih hlater
      exact ⟨call', List.mem_cons_of_mem _ hmem, hversion⟩

end writes

end PageStore

/-- The versions do not decrease, and none is the one for a page without a version. -/
structure VersionsFrom (w : Nat) (versions : List Nat) : Prop where
  sorted : (w :: versions).Pairwise (· ≤ ·)
  lt : ∀ v ∈ versions, v < noVersion

instance (w : Nat) (versions : List Nat) : Decidable (VersionsFrom w versions) :=
  decidable_of_iff ((w :: versions).Pairwise (· ≤ ·) ∧ ∀ v ∈ versions, v < noVersion)
    ⟨fun h => ⟨h.1, h.2⟩, fun h => ⟨h.sorted, h.lt⟩⟩

section versions
variable {w v : Nat} {versions : List Nat}

theorem VersionsFrom.head (h : VersionsFrom w (v :: versions)) : w ≤ v ∧ v < noVersion :=
  ⟨List.rel_of_pairwise_cons h.sorted List.mem_cons_self, h.lt v List.mem_cons_self⟩

theorem VersionsFrom.tail (h : VersionsFrom w (v :: versions)) : VersionsFrom v versions :=
  ⟨(List.pairwise_cons.mp h.sorted).2, fun x hx => h.lt x (List.mem_cons_of_mem _ hx)⟩

end versions

/-! ### One call -/

section calls
variable {s s' : PageStore} {w version off : Nat} {chains chains' : Nat → Nat → List (Nat × Nat)}
  {families : List Nat} {change : Nat → Memory → Memory}

def ChainGrown (version : Nat) (chain chain' : List (Nat × Nat)) : Prop :=
  chain' = chain ∨ ∃ p, chain' = (p, version) :: chain

theorem ChainGrown.openChain {chain chain' : List (Nat × Nat)} (h : ChainGrown version chain chain') (fresh : Nat) :
    ChainGrown version chain (openChain fresh version chain') := by
  rcases h with rfl | ⟨p, rfl⟩
  · cases chain' with
    | nil => exact .inr ⟨fresh, rfl⟩
    | cons x older =>
      by_cases hlt : x.2 < version
      · exact .inr ⟨fresh, if_pos hlt⟩
      · exact .inl (if_neg hlt)
  · exact .inr ⟨p, if_neg (Nat.lt_irrefl version)⟩

theorem ChainGrown.ne_nil {chain chain' : List (Nat × Nat)} (h : ChainGrown version chain chain') (hne : chain ≠ []) :
    chain' ≠ [] := by
  rcases h with rfl | ⟨p, rfl⟩
  · exact hne
  · exact List.cons_ne_nil _ _

theorem mem_openChain {chain : List (Nat × Nat)} (hup : UpTo Prod.snd version chain) (fresh v : Nat) :
    v ∈ (openChain fresh version chain).map Prod.snd ↔ v ∈ chain.map Prod.snd ∨ v = version := by
  cases chain with
  | nil => simp [openChain]
  | cons x older =>
    unfold openChain
    by_cases hlt : x.2 < version
    · simp only [if_pos hlt, List.map_cons, List.mem_cons]
      tauto
    · have heq : x.2 = version := Nat.le_antisymm (hup x List.mem_cons_self) (Nat.not_lt.mp hlt)
      simp only [if_neg hlt, List.map_cons, List.mem_cons]
      constructor
      · exact Or.inl
      · rintro (hold | rfl)
        · exact hold
        · exact Or.inl heq.symm

structure RowWritten (version off : Nat) (families : List Nat) (s : PageStore) (chains : Nat → Nat → List (Nat × Nat))
    (s' : PageStore) (chains' : Nat → Nat → List (Nat × Nat)) : Prop where
  inv : PageInv s' version chains'
  same : SameRows s s'
  grown : ∀ i pg, ChainGrown version (chains i pg) (chains' i pg)
  versions : ∀ i pg v, v ∈ (chains' i pg).map Prod.snd ↔
    v ∈ (chains i pg).map Prod.snd ∨ (i ∈ families ∧ PageStore.onPage s.cols i pg off = true) ∧ v = version

theorem onPage_iff {cols : List ColumnFamily} {i pg : Nat} {col : ColumnFamily} (hcol : cols[i]? = some col) :
    PageStore.onPage cols i pg off = true ↔ off / col.pageSize = pg := by
  unfold PageStore.onPage
  rw [hcol]
  exact decide_eq_true_iff

theorem RowWritten.writePage {s₁ : PageStore} {chains₁ : Nat → Nat → List (Nat × Nat)} {i : Nat}
    (h : RowWritten version off families s chains s₁ chains₁) (hversion : version < noVersion)
    (hok : s₁.writePage off version change i = .ok s') :
    ∃ chains', RowWritten version off (families ++ [i]) s chains s' chains' := by
  obtain ⟨col, hcol, -, hinv, hsame⟩ := h.inv.writePage (Nat.le_refl _) hversion hok
  rw [h.same.cols] at hcol
  refine ⟨_, hinv, h.same.trans hsame, fun j pg => ?_, fun j pg v => ?_⟩
  · rw [setChain_apply]
    by_cases hhere : (j, pg) = (i, off / col.pageSize)
    · obtain ⟨rfl, rfl⟩ := Prod.mk.inj hhere
      rw [if_pos rfl]
      exact (h.grown _ _).openChain _
    · rw [if_neg hhere]
      exact h.grown j pg
  · rw [setChain_apply, List.mem_append, List.mem_singleton]
    by_cases hhere : (j, pg) = (i, off / col.pageSize)
    · obtain ⟨rfl, rfl⟩ := Prod.mk.inj hhere
      rw [if_pos rfl, mem_openChain (h.inv.chain _ _).upTo, h.versions, onPage_iff hcol]
      tauto
    · rw [if_neg hhere, h.versions]
      have hother : j = i → ¬ PageStore.onPage s.cols j pg off = true := by
        rintro rfl hpage
        rw [onPage_iff hcol] at hpage
        exact hhere (Prod.ext rfl hpage.symm)
      tauto

theorem PageInv.writeRow (h : PageInv s w chains) (hw : w ≤ version) (hversion : version < noVersion)
    (hok : s.writeRow off version families change = .ok s') :
    ∃ chains', RowWritten version off families s chains s' chains' := by
  have hrun : ∀ (rest done : List Nat) (s₁ : PageStore) (chains₁ : Nat → Nat → List (Nat × Nat)),
      RowWritten version off done s chains s₁ chains₁ →
      rest.foldlM (fun s i => s.writePage off version change i) s₁ = .ok s' →
      ∃ chains', RowWritten version off (done ++ rest) s chains s' chains' := by
    intro rest
    induction rest with
    | nil =>
      intro done s₁ chains₁ hdone hok
      obtain rfl := Except.ok.inj hok
      rw [List.append_nil]
      exact ⟨chains₁, hdone⟩
    | cons i rest ih =>
      intro done s₁ chains₁ hdone hok
      rw [List.foldlM_cons] at hok
      obtain ⟨s₂, hwrite, hok⟩ := bind_eq_ok hok
      obtain ⟨chains₂, hdone'⟩ := hdone.writePage hversion hwrite
      rw [List.append_cons]
      exact ih (done ++ [i]) s₂ chains₂ hdone' hok
  exact hrun families [] s chains ⟨h.mono hw, .refl s, fun _ _ => .inl rfl, fun _ _ _ => by simp⟩ hok

/-! ### The pages of the rows -/

/-- Every row has its page in every family, and the versions of a page are those that were written to it. -/
structure PagedRows (s : PageStore) (w : Nat) (chains : Nat → Nat → List (Nat × Nat))
    (written : Nat → Nat → List Nat) : Prop extends PageInv s w chains where
  rows : ∀ off < s.header, ∀ (i : Nat) (col : ColumnFamily), s.cols[i]? = some col → chains i (off / col.pageSize) ≠ []
  stable : s.stableHeader ≤ s.header
  pageSize : ∀ col ∈ s.cols, 0 < col.pageSize
  versions : ∀ i pg v, v ∈ (chains i pg).map Prod.snd ↔ v ∈ written i pg

variable {written : Nat → Nat → List Nat}

theorem pagedRows_create {layout : VertexLayout} {maxItems : Nat} {buf : RegionBuffer} :
    PagedRows (.create layout maxItems buf) 0 (fun _ _ => []) fun _ _ => [] where
  toPageInv := pageInv_create
  rows off hoff := absurd hoff (Nat.not_lt_zero off)
  stable := Nat.le_refl _
  pageSize col hcol := by
    obtain ⟨family, -, rfl⟩ := List.mem_map.mp hcol
    exact ColumnFamily.settle_pageSize_pos maxItems family
  versions _ _ _ := Iff.rfl

theorem PagedRows.used (h : PagedRows s w chains written) (i : Nat) (col : ColumnFamily) (pi : Nat)
    (hcol : s.cols[i]? = some col) (hpi : pi < s.usedPage col) : chains i pi ≠ [] := by
  have hpos := h.pageSize col (List.mem_of_getElem? hcol)
  have hstable := h.stable
  have hfirst : pi * col.pageSize < s.header := by
    unfold PageStore.usedPage at hpi
    have hle := (Nat.le_div_iff_mul_le hpos).mp hpi
    rw [Nat.succ_mul] at hle
    omega
  have hne := h.rows (pi * col.pageSize) hfirst i col hcol
  rw [Nat.mul_div_cancel _ hpos] at hne
  exact hne

theorem PagedRows.writeRow {s₀ : PageStore} (h : PagedRows s w chains written)
    (hrow : RowWritten version off families s₀ chains s' chains') (hcols : s₀.cols = s.cols)
    (hstable : s₀.stableHeader = s.stableHeader) (hheader : s.header ≤ s₀.header)
    (hnew : ∀ off' < s₀.header, s.header ≤ off' → off' = off ∧ ∀ i < s.cols.length, i ∈ families)
    {more : Nat → Nat → List Nat}
    (hmore : ∀ i pg v, v ∈ more i pg ↔ (i ∈ families ∧ PageStore.onPage s.cols i pg off = true) ∧ v = version) :
    PagedRows s' version chains' fun i pg => written i pg ++ more i pg where
  toPageInv := hrow.inv
  rows off' hoff i col hcol := by
    rw [hrow.same.header] at hoff
    rw [hrow.same.cols, hcols] at hcol
    rcases Nat.lt_or_ge off' s.header with hold | hge
    · exact (hrow.grown _ _).ne_nil (h.rows off' hold i col hcol)
    · obtain ⟨rfl, hall⟩ := hnew off' hoff hge
      have hi := hall i (List.getElem?_eq_some_iff.mp hcol).1
      have hmem := (hrow.versions i (off' / col.pageSize) version).mpr
        (.inr ⟨⟨hi, by rw [hcols, onPage_iff hcol]⟩, rfl⟩)
      intro hnil
      rw [hnil] at hmem
      cases hmem
  stable := by
    rw [hrow.same.header, hrow.same.stableHeader, hstable]
    exact Nat.le_trans h.stable hheader
  pageSize := by
    rw [hrow.same.cols, hcols]
    exact h.pageSize
  versions i pg v := by
    rw [hrow.versions, h.versions, hcols, List.mem_append, hmore]

theorem PagedRows.gc {ver : Nat} (h : PagedRows s w chains written) :
    ((∀ i col pi, s.cols[i]? = some col → pi < s.usedPage col → NoneOld ver (chains i pi)) → s.gc ver = .ok s) ∧
      (¬ (∀ i col pi, s.cols[i]? = some col → pi < s.usedPage col → NoneOld ver (chains i pi)) →
        s.gc ver = .error .badFree) :=
  h.toPageInv.gc h.used

structure CallDone (s : PageStore) (call : PageStore.Call) (s' : PageStore) : Prop where
  cols : s'.cols = s.cols
  maxItems : s'.maxItems = s.maxItems
  header : s'.header = s.header + call.rows

theorem PagedRows.runCall {call : PageStore.Call} (h : PagedRows s w chains written)
    (hversion : ∀ v ∈ call.version, w ≤ v ∧ v < noVersion) (hok : s.runCall call = .ok s') :
    ∃ chains', PagedRows s' (call.version.getD w) chains'
        (fun i pg => written i pg ++ call.writes s.cols i pg s.header) ∧
      CallDone s call s' ∧ ∀ i pg, ∀ x ∈ chains i pg, x ∈ chains' i pg := by
  have hkept : ∀ {version : Nat} {chain chain' : List (Nat × Nat)}, ChainGrown version chain chain' →
      ∀ x ∈ chain, x ∈ chain' := by
    intro version chain chain' hgrown x hx
    rcases hgrown with rfl | ⟨p, rfl⟩
    · exact hx
    · exact List.mem_cons_of_mem _ hx
  cases call with
  | newRow version change =>
    obtain ⟨hw, hlt⟩ := hversion version rfl
    have hinv : PageInv { s with header := s.header + 1 } w chains := { h.toPageInv with }
    obtain ⟨chains', hrow⟩ := hinv.writeRow hw hlt hok
    refine ⟨chains', h.writeRow hrow rfl rfl (Nat.le_succ _) (fun off' hoff hge => ⟨?_, fun i hi =>
      List.mem_range.mpr hi⟩) fun i pg v => ?_, ⟨hrow.same.cols, hrow.same.maxItems, hrow.same.header⟩,
      fun i pg => hkept (hrow.grown i pg)⟩
    · have hoff : off' < s.header + 1 := hoff
      omega
    · have hin : PageStore.onPage s.cols i pg s.header = true → i ∈ List.range s.cols.length := by
        intro hpage
        rw [List.mem_range]
        by_contra hout
        unfold PageStore.onPage at hpage
        rw [List.getElem?_eq_none (Nat.not_lt.mp hout)] at hpage
        cases hpage
      show v ∈ (if PageStore.onPage s.cols i pg s.header then [version] else []) ↔ _
      by_cases hpage : PageStore.onPage s.cols i pg s.header = true
      · rw [if_pos hpage, List.mem_singleton]
        exact ⟨fun heq => ⟨⟨hin hpage, hpage⟩, heq⟩, fun hnew => hnew.2⟩
      · rw [if_neg hpage]
        exact ⟨fun hmem => absurd hmem List.not_mem_nil, fun hnew => absurd hnew.1.2 hpage⟩
  | write off version families change =>
    obtain ⟨hw, hlt⟩ := hversion version rfl
    obtain ⟨chains', hrow⟩ := h.toPageInv.writeRow hw hlt hok
    refine ⟨chains', h.writeRow hrow rfl rfl (Nat.le_refl _) (fun off' hoff hge => absurd hoff (by omega))
      fun i pg v => ?_, ⟨hrow.same.cols, hrow.same.maxItems, hrow.same.header⟩,
      fun i pg => hkept (hrow.grown i pg)⟩
    show v ∈ (if i ∈ families ∧ PageStore.onPage s.cols i pg off = true then [version] else []) ↔ _
    by_cases hpage : i ∈ families ∧ PageStore.onPage s.cols i pg off = true
    · rw [if_pos hpage, List.mem_singleton]
      exact ⟨fun heq => ⟨hpage, heq⟩, fun hnew => hnew.2⟩
    · rw [if_neg hpage]
      exact ⟨fun hmem => absurd hmem List.not_mem_nil, fun hnew => absurd hnew.1 hpage⟩
  | updateHeader =>
    obtain rfl := Except.ok.inj hok
    refine ⟨chains, ⟨{ h.toPageInv with }, h.rows, Nat.le_refl _, h.pageSize, fun i pg v => ?_⟩, ⟨rfl, rfl, rfl⟩,
      fun _ _ _ hx => hx⟩
    rw [h.versions]
    exact (congrArg (v ∈ ·) (List.append_nil _)).to_iff.symm
  | gc ver =>
    obtain ⟨hsame, hfree⟩ := @PagedRows.gc s w chains written ver h
    have hok : s.gc ver = .ok s' := hok
    by_cases hnone : ∀ i col pi, s.cols[i]? = some col → pi < s.usedPage col → NoneOld ver (chains i pi)
    · rw [hsame hnone] at hok
      obtain rfl := Except.ok.inj hok
      refine ⟨chains, ⟨h.toPageInv, h.rows, h.stable, h.pageSize, fun i pg v => ?_⟩, ⟨rfl, rfl, rfl⟩,
        fun _ _ _ hx => hx⟩
      rw [h.versions]
      exact (congrArg (v ∈ ·) (List.append_nil _)).to_iff.symm
    · rw [hfree hnone] at hok
      cases hok

theorem PagedRows.runCalls {calls : List PageStore.Call} (h : PagedRows s w chains written)
    (hversions : VersionsFrom w (calls.filterMap PageStore.Call.version)) (hok : s.runCalls calls = .ok s') :
    ∃ w' chains', PagedRows s' w' chains'
        (fun i pg => written i pg ++ PageStore.pageWrites s.cols i pg s.header calls) ∧ s'.cols = s.cols := by
  induction calls generalizing s w chains written with
  | nil =>
    obtain rfl := Except.ok.inj hok
    refine ⟨w, chains, ?_, rfl⟩
    simp only [PageStore.pageWrites, List.append_nil]
    exact h
  | cons call rest ih =>
    unfold PageStore.runCalls at hok
    rw [List.foldlM_cons] at hok
    obtain ⟨s₁, hcall, hok⟩ := bind_eq_ok hok
    have hnext : ∃ chains₁, PagedRows s₁ (call.version.getD w) chains₁
        (fun i pg => written i pg ++ call.writes s.cols i pg s.header) ∧ CallDone s call s₁ ∧
        VersionsFrom (call.version.getD w) (rest.filterMap PageStore.Call.version) := by
      cases hversion : call.version with
      | none =>
        rw [List.filterMap_cons_none hversion] at hversions
        obtain ⟨chains₁, h₁, hdone, -⟩ := h.runCall (by rw [hversion]; simp) hcall
        rw [hversion] at h₁
        exact ⟨chains₁, h₁, hdone, hversions⟩
      | some v =>
        rw [List.filterMap_cons_some hversion] at hversions
        obtain ⟨chains₁, h₁, hdone, -⟩ := h.runCall (by
          rw [hversion]
          intro v' hv'
          rw [← Option.some.inj hv']
          exact hversions.head) hcall
        rw [hversion] at h₁
        exact ⟨chains₁, h₁, hdone, hversions.tail⟩
    obtain ⟨chains₁, h₁, hdone, hversions₁⟩ := hnext
    obtain ⟨w', chains', h', hcols⟩ := ih h₁ hversions₁ hok
    refine ⟨w', chains', ?_, hcols.trans hdone.cols⟩
    rw [hdone.cols, hdone.header] at h'
    simp only [PageStore.pageWrites]
    simp only [List.append_assoc] at h'
    exact h'

/-- `gc` returns, and every reader from `ver` on finds the page that it found before, with the same content. -/
def GcInvisible (s : PageStore) (ver : Nat) : Prop :=
  ∃ s', s.gc ver = .ok s' ∧ ∀ i pg version, ver ≤ version → ∃ p, s.findPage i pg version = .ok p ∧
    s'.findPage i pg version = .ok p ∧ (s'.heap p).map HeapPage.toPage = (s.heap p).map HeapPage.toPage

/-- In every state reached, `gc(ver)` returns and is not noticed if and only if no page of the stable rows was written
with two versions up to `ver`, so that there is nothing to release. -/
theorem gc_invisible_iff (layout : VertexLayout) (maxItems : Nat) (buf : RegionBuffer) (calls : List PageStore.Call)
    (hversions : VersionsFrom 0 (calls.filterMap PageStore.Call.version))
    (hrun : (PageStore.create layout maxItems buf).runCalls calls = .ok s) (ver : Nat) :
    GcInvisible s ver ↔ ∀ i col pg, s.cols[i]? = some col → pg < s.usedPage col →
      ∀ u ∈ PageStore.pageWrites s.cols i pg 0 calls, ∀ v ∈ PageStore.pageWrites s.cols i pg 0 calls,
        u ≤ ver → v ≤ ver → u = v := by
  obtain ⟨w, chains, hinv, hcols⟩ := pagedRows_create.runCalls hversions hrun
  have hnone : ∀ i pg, NoneOld ver (chains i pg) ↔ ∀ u ∈ PageStore.pageWrites s.cols i pg 0 calls,
      ∀ v ∈ PageStore.pageWrites s.cols i pg 0 calls, u ≤ ver → v ≤ ver → u = v := by
    intro i pg
    have hmem : ∀ v, v ∈ (chains i pg).map Prod.snd ↔ v ∈ PageStore.pageWrites s.cols i pg 0 calls := by
      rw [hcols]
      exact hinv.versions i pg
    constructor
    · intro hnone u hu v hv
      obtain ⟨x, hx, rfl⟩ := List.mem_map.mp ((hmem u).mpr hu)
      obtain ⟨y, hy, rfl⟩ := List.mem_map.mp ((hmem v).mpr hv)
      exact hnone x hx y hy
    · intro hsame x hx y hy
      exact hsame x.2 ((hmem _).mp (List.mem_map_of_mem hx)) y.2 ((hmem _).mp (List.mem_map_of_mem hy))
  obtain ⟨hsame, hfree⟩ := @PagedRows.gc s w chains _ ver hinv
  simp only [← hnone]
  constructor
  · rintro ⟨s', hgc, -⟩
    by_contra hold
    rw [hfree hold] at hgc
    cases hgc
  · intro hall
    exact ⟨s, hsame hall, fun i pg version _ => ⟨_, hinv.toPageInv.findPage i pg version,
      hinv.toPageInv.findPage i pg version, rfl⟩⟩

end calls

def twoRows : VertexLayout := { colFamilies := [{ vlen := 4, pageSize := 2, columnNum := 1 }] }

def threeVersions : List PageStore.Call :=
  [.newRow 1 fun _ m => m, .newRow 1 fun _ m => m, .updateHeader, .write 0 3 [0] fun _ m => m,
    .write 1 5 [0] fun _ m => m]

def afterThreeVersions : Except StoreFault PageStore :=
  (PageStore.create twoRows 4 { capacity := 1000, blank := fun _ => 0 }).runCalls threeVersions

/-- Only one version is as old as 2. -/
theorem gc_invisible_iff_threeVersions : ∃ s, afterThreeVersions = .ok s ∧ GcInvisible s 2 := by
  have hsome : (afterThreeVersions.toOption.map fun s => (s.cols, s.stableHeader)) =
      some ([{ vlen := 4, pageSize := 2, columnNum := 1 }], 2) := by decide +kernel
  obtain ⟨s, hs, hshape⟩ := Option.map_eq_some_iff.mp hsome
  obtain ⟨hcols, hstable⟩ := Prod.mk.inj hshape
  refine ⟨s, ok_of_toOption hs, (gc_invisible_iff twoRows 4 { capacity := 1000, blank := fun _ => 0 } threeVersions
    (by decide) (ok_of_toOption hs) 2).mpr ?_⟩
  intro i col pg hcol hpg u hu v hv hule hvle
  have hwritten : ∀ v ∈ PageStore.pageWrites s.cols i pg 0 threeVersions, v ≤ 2 → v = 1 := by
    rw [hcols] at hcol ⊢
    cases i with
    | zero =>
      unfold PageStore.usedPage at hpg
      obtain rfl := Option.some.inj hcol
      rw [hstable] at hpg
      have hpg : pg < (2 + 2 - 1) / 2 := hpg
      obtain rfl : pg = 0 := by omega
      decide
    | succ i => cases hcol
  rw [hwritten u hu hule, hwritten v hv hvle]

/-- `gc(5)` has the versions 1 and 3 to release. -/
theorem gc_frees_threeVersions : ∃ s, afterThreeVersions = .ok s ∧
    VersionsFrom 0 (threeVersions.filterMap PageStore.Call.version) ∧ ¬ GcInvisible s 5 := by
  have hfails : (afterThreeVersions.toOption.map fun s => (s.gc 5).toOption.isSome) = some false := by decide +kernel
  obtain ⟨s, hs, hgc⟩ := Option.map_eq_some_iff.mp hfails
  refine ⟨s, ok_of_toOption hs, by decide, ?_⟩
  rintro ⟨s', hok, -⟩
  rw [hok] at hgc
  cases hgc

end Gart.Store

import Gart.Store.PageRun

/-!
# The cached pages of a reader (property_col_paged.cc)

`getByOffset` keeps the last page of every column family of a table. The version that the pages were looked up with is
kept once for the table, and nothing is forgotten when a page gets a new version.
-/

namespace Gart.Store
open Gart.ByteMemory Gart.Outcome Gart.Versions

/-- `MAX_CACHED_TABLES` (`property_col_paged.cc:44`) -/
def maxCachedTables : Nat := 128

/-- `MAX_CACHED_COLS` (`property_col_paged.cc:45`) -/
def maxCachedCols : Nat := 128

/-- What a thread has cached of a table: `cached_ver`, and `cached_page` and `cached_page_num` of its columns. -/
structure PageCache where
  ver : Nat := 0
  page : Nat → Nat := fun _ => 0
  pageNum : Nat → Nat := fun _ => 0

namespace PageStore

/-- The page that `getByOffset` uses (`property_col_paged.cc:580-618`). Only one of the bounds being met, it is
looked for behind the end of an array. -/
def cachedPage (s : PageStore) (tableId : Nat) (c : PageCache) (colId pgNum version : Nat) :
    Except StoreFault (Nat × PageCache) :=
  if tableId ≥ maxCachedTables ∧ colId ≥ maxCachedCols then do
    let p ← s.findPage colId pgNum version
    return (p, c)
  else if tableId ≥ maxCachedTables ∨ colId ≥ maxCachedCols then .error .outOfBounds
  else if c.page colId ≠ 0 ∧ c.ver = version ∧ c.pageNum colId = pgNum then .ok (c.page colId, c)
  else do
    let p ← s.findPage colId pgNum version
    return (p, { c with
      ver := version
      page := Function.update c.page colId p
      pageNum := Function.update c.pageNum colId (pgNum % 2 ^ 32) })

/-- `getByOffset` (`property_col_paged.cc:580-618`): the page of the value and the place in its content. -/
def getByOffset (s : PageStore) (tableId : Nat) (c : PageCache) (offset colId version : Nat) :
    Except StoreFault (Option (Nat × Nat) × PageCache) :=
  match s.cols[colId]? with
  | none => .error .outOfBounds
  | some col =>
    let pgNum := offset / col.pageSize
    if s.numPages col ≤ pgNum then .error .outOfBounds
    else do
      let (p, c) ← s.cachedPage tableId c colId pgNum version
      if p = 0 then return (none, c) else return (some (p, offset % col.pageSize * col.vlen), c)

inductive CachedCall where
  | newRow (version : Nat) (change : Nat → Memory → Memory)
  | write (off version : Nat) (families : List Nat) (change : Nat → Memory → Memory)
  | read (off colId version : Nat)

namespace CachedCall

def toCall : CachedCall → Option Call
  | .newRow version change => some (.newRow version change)
  | .write off version families change => some (.write off version families change)
  | .read _ _ _ => none

def version (call : CachedCall) : Option Nat := call.toCall.bind Call.version

def readVersion : CachedCall → Option Nat
  | .newRow _ _ => none
  | .write _ _ _ _ => none
  | .read _ _ version => some version

def Reads (colId : Nat) : CachedCall → Prop
  | .newRow _ _ => False
  | .write _ _ _ _ => False
  | .read _ colId' _ => colId' = colId

end CachedCall

def runCached (tableId : Nat) (s : PageStore × PageCache) (call : CachedCall) :
    Except StoreFault (PageStore × PageCache) :=
  match call with
  | .newRow version change => do
    let store ← s.1.runCall (.newRow version change)
    return (store, s.2)
  | .write off version families change => do
    let store ← s.1.runCall (.write off version families change)
    return (store, s.2)
  | .read off colId version => do
    let (_, c) ← s.1.getByOffset tableId s.2 off colId version
    return (s.1, c)

/-! ### When a read may take the cached page -/

def writesTo (cols : List ColumnFamily) (calls : List CachedCall) (i pg : Nat) : List Nat :=
  pageWrites cols i pg 0 (calls.filterMap CachedCall.toCall)

/-- The newest version up to `version` that the calls write to a page. -/
def newestWrite (cols : List ColumnFamily) (calls : List CachedCall) (i pg version : Nat) : Option Nat :=
  ((writesTo cols calls i pg).filter fun v => decide (v ≤ version)).max?

def lastRead (calls : List CachedCall) : Option Nat := (calls.filterMap CachedCall.readVersion).getLast?

end PageStore

/-- The read uses the page that `findPage` returns. -/
def Transparent (s : PageStore) (tableId : Nat) (c : PageCache) (colId pgNum version : Nat) : Prop :=
  ∃ p c', s.cachedPage tableId c colId pgNum version = .ok (p, c') ∧ s.findPage colId pgNum version = .ok p

/-- A read of a page after `calls` may go through the cache: table and column are both cached or both not, and if the
last read of the column was one of the same page and the last read of the table one of the same version, nothing that
this read sees was written to the page that the last read of the column did not see. -/
structure MayCache (cols : List ColumnFamily) (tableId : Nat) (calls : List PageStore.CachedCall)
    (colId pgNum version : Nat) : Prop where
  bounds : tableId < maxCachedTables ↔ colId < maxCachedCols
  unchanged : tableId < maxCachedTables → ∀ before off v between,
    calls = before ++ .read off colId v :: between → (∀ call ∈ between, ¬ call.Reads colId) →
    PageStore.onPage cols colId pgNum off = true → PageStore.lastRead calls = some version →
    ∀ u, PageStore.newestWrite cols before colId pgNum v = some u →
      PageStore.newestWrite cols calls colId pgNum version = some u

/-- A read of an existing page that a run gets to. -/
structure ReadReached (tableId : Nat) (start : PageStore × PageCache) (calls before : List PageStore.CachedCall)
    (colId pgNum version : Nat) (s : PageStore × PageCache) : Prop where
  split : ∃ off after, calls = before ++ .read off colId version :: after ∧
    PageStore.onPage s.1.cols colId pgNum off = true
  run : before.foldlM (PageStore.runCached tableId) start = .ok s
  exists_page : ∃ col, s.1.cols[colId]? = some col ∧ pgNum < s.1.numPages col

def PageCache.Hits (c : PageCache) (colId pgNum version : Nat) : Prop :=
  c.page colId ≠ 0 ∧ c.ver = version ∧ c.pageNum colId = pgNum

instance (c : PageCache) (colId pgNum version : Nat) : Decidable (c.Hits colId pgNum version) :=
  inferInstanceAs (Decidable (_ ∧ _ ∧ _))

section cache
variable {s s' : PageStore} {c c' : PageCache} {w p version tableId colId pgNum : Nat}
  {chains : Nat → Nat → List (Nat × Nat)} {chain : List (Nat × Nat)} {cols : List ColumnFamily}
  {done : List PageStore.CachedCall}

/-! ### What is found -/

theorem visible_newest {ws : List Nat} (hsorted : chain.Pairwise fun x y => y.2 < x.2)
    (hws : ∀ v, v ∈ chain.map Prod.snd ↔ v ∈ ws) (version : Nat) :
    (visible Prod.snd version chain).map Prod.snd = (ws.filter fun v => decide (v ≤ version)).max? := by
  cases hvisible : visible Prod.snd version chain with
  | none =>
    have hlate := List.find?_eq_none.mp hvisible
    have hempty : ws.filter (fun v => decide (v ≤ version)) = [] := by
      refine List.filter_eq_nil_iff.mpr fun v hv => ?_
      obtain ⟨x, hx, rfl⟩ := List.mem_map.mp ((hws v).mpr hv)
      exact hlate x hx
    rw [hempty]
    rfl
  | some x =>
    obtain ⟨hle, k, hk, hget, hearlier⟩ := List.find?_eq_some_iff_getElem.mp hvisible
    symm
    rw [Option.map_some, List.max?_eq_some_iff]
    refine ⟨List.mem_filter.mpr ⟨(hws x.2).mp (List.mem_map_of_mem (List.mem_of_find?_eq_some hvisible)), hle⟩, ?_⟩
    intro v hv
    obtain ⟨hmem, hvle⟩ := List.mem_filter.mp hv
    obtain ⟨y, hy, rfl⟩ := List.mem_map.mp ((hws v).mpr hmem)
    obtain ⟨j, hj, hjget⟩ := List.getElem_of_mem hy
    rcases Nat.lt_trichotomy j k with hlt | rfl | hgt
    · have hlate := hearlier j hlt
      rw [hjget] at hlate
      simp only [Bool.not_eq_true', decide_eq_false_iff_not] at hlate
      exact absurd (of_decide_eq_true hvle) hlate
    · rw [← hjget, hget]
    · have hless := List.pairwise_iff_getElem.mp hsorted k j hk hj hgt
      rw [hget, hjget] at hless
      exact Nat.le_of_lt hless

/-- A page of a chain is the one that is found if and only if its version is the one that is seen. -/
theorem PageChain.foundPage_eq {heap : Nat → Option HeapPage} {fresh u : Nat} (h : PageChain heap fresh w chain)
    (hmem : (p, u) ∈ chain) :
    foundPage version chain = p ↔ (visible Prod.snd version chain).map Prod.snd = some u := by
  have hpos := (h.ptr (p, u) hmem).1
  unfold foundPage
  cases hvisible : visible Prod.snd version chain with
  | none => exact ⟨fun hzero => absurd hzero (Nat.ne_of_lt hpos), fun hnone => by cases hnone⟩
  | some x =>
    have hx : x ∈ chain := List.mem_of_find?_eq_some hvisible
    obtain ⟨k, hk, hkget⟩ := List.getElem_of_mem hx
    obtain ⟨j, hj, hjget⟩ := List.getElem_of_mem hmem
    have hkx : chain[k]? = some (x.1, x.2) := by rw [List.getElem?_eq_getElem hk, hkget]
    have hjp : chain[j]? = some (p, u) := by rw [List.getElem?_eq_getElem hj, hjget]
    show x.1 = p ↔ some x.2 = some u
    constructor
    · intro heq
      have hsame := h.index_inj (heq ▸ hkx) hjp
      rw [hsame, hjp] at hkx
      exact congrArg some (Prod.mk.inj (Option.some.inj hkx)).2.symm
    · intro heq
      have hver : x.2 = u := Option.some.inj heq
      rcases Nat.lt_trichotomy k j with hlt | rfl | hgt
      · have hless := List.pairwise_iff_getElem.mp h.sorted k j hk hj hlt
        rw [hkget, hjget] at hless
        exact absurd hver (Nat.ne_of_gt hless)
      · rw [hkget] at hjget
        exact congrArg Prod.fst hjget
      · have hless := List.pairwise_iff_getElem.mp h.sorted j k hj hk hgt
        rw [hkget, hjget] at hless
        exact absurd hver (Nat.ne_of_lt hless)

/-! ### The branches -/

theorem cachedPage_bypass (htable : maxCachedTables ≤ tableId) (hcol : maxCachedCols ≤ colId) :
    s.cachedPage tableId c colId pgNum version = (s.findPage colId pgNum version).map fun p => (p, c) := by
  unfold PageStore.cachedPage
  rw [if_pos ⟨htable, hcol⟩]
  cases s.findPage colId pgNum version <;> rfl

theorem cachedPage_outOfBounds (h : ¬ (tableId < maxCachedTables ↔ colId < maxCachedCols)) :
    s.cachedPage tableId c colId pgNum version = .error .outOfBounds := by
  unfold PageStore.cachedPage
  rw [if_neg (by omega), if_pos (by omega)]

theorem cachedPage_hit (htable : tableId < maxCachedTables) (hcol : colId < maxCachedCols)
    (hhit : c.Hits colId pgNum version) : s.cachedPage tableId c colId pgNum version = .ok (c.page colId, c) := by
  unfold PageStore.cachedPage
  rw [if_neg (by omega), if_neg (by omega)]
  exact if_pos hhit

theorem cachedPage_miss (htable : tableId < maxCachedTables) (hcol : colId < maxCachedCols)
    (hmiss : ¬ c.Hits colId pgNum version) (hfind : s.findPage colId pgNum version = .ok p) :
    s.cachedPage tableId c colId pgNum version = .ok (p, {
      ver := version
      page := Function.update c.page colId p
      pageNum := Function.update c.pageNum colId (pgNum % 2 ^ 32) }) := by
  unfold PageStore.cachedPage
  rw [if_neg (by omega), if_neg (by omega), hfind]
  exact if_neg hmiss

/-- After a read the cache has its version, its page and the number of the page, hit or miss. -/
theorem cache_after (htable : tableId < maxCachedTables) (hcol : colId < maxCachedCols) (hpg : pgNum < 2 ^ 32)
    (hfind : ∃ p, s.findPage colId pgNum version = .ok p)
    (hok : s.cachedPage tableId c colId pgNum version = .ok (p, c')) :
    c'.ver = version ∧ c'.page = Function.update c.page colId p ∧
        c'.pageNum = Function.update c.pageNum colId pgNum := by
  by_cases hhit : c.Hits colId pgNum version
  · rw [cachedPage_hit htable hcol hhit] at hok
    obtain ⟨rfl, rfl⟩ := Prod.mk.inj (Except.ok.inj hok)
    refine ⟨hhit.2.1, (Function.update_eq_self _ _).symm, ?_⟩
    rw [← hhit.2.2]
    exact (Function.update_eq_self _ _).symm
  · obtain ⟨q, hq⟩ := hfind
    rw [cachedPage_miss htable hcol hhit hq] at hok
    obtain ⟨rfl, rfl⟩ := Prod.mk.inj (Except.ok.inj hok)
    exact ⟨rfl, rfl, by rw [Nat.mod_eq_of_lt hpg]⟩

/-! ### What the cache holds -/

/-- The cache after some calls whose reads were all right: the version of the last read, and for every column the page
that its last read found. -/
structure CacheTracks (cols : List ColumnFamily) (done : List PageStore.CachedCall) (c : PageCache)
    (chains : Nat → Nat → List (Nat × Nat)) : Prop where
  ver : ∀ v, PageStore.lastRead done = some v → c.ver = v
  cached : ∀ colId, c.page colId ≠ 0 → ∃ before off v between pgNum, done = before ++ .read off colId v :: between ∧
    (∀ call ∈ between, ¬ call.Reads colId) ∧ PageStore.onPage cols colId pgNum off = true
  page : ∀ colId before off v between pgNum, done = before ++ .read off colId v :: between →
    (∀ call ∈ between, ¬ call.Reads colId) → PageStore.onPage cols colId pgNum off = true →
    c.pageNum colId = pgNum ∧ ((PageStore.newestWrite cols before colId pgNum v = none ∧ c.page colId = 0) ∨
      ∃ u, PageStore.newestWrite cols before colId pgNum v = some u ∧ (c.page colId, u) ∈ chains colId pgNum)

theorem exists_lastRead {before between : List PageStore.CachedCall} {off v : Nat}
    (h : done = before ++ .read off colId v :: between) : ∃ v', PageStore.lastRead done = some v' := by
  unfold PageStore.lastRead
  cases hlast : (done.filterMap PageStore.CachedCall.readVersion).getLast? with
  | some v' => exact ⟨v', rfl⟩
  | none =>
    rw [List.getLast?_eq_none_iff, h, List.filterMap_append] at hlast
    have hmem : v ∈ before.filterMap PageStore.CachedCall.readVersion ++
        (PageStore.CachedCall.read off colId v :: between).filterMap PageStore.CachedCall.readVersion := by
      rw [List.mem_append]
      exact .inr (List.mem_filterMap.mpr ⟨_, List.mem_cons_self, rfl⟩)
    rw [hlast] at hmem
    cases hmem

theorem split_concat {α : Type} {xs before after : List α} {x y : α} (h : xs ++ [x] = before ++ y :: after) :
    (after = [] ∧ before = xs ∧ y = x) ∨ ∃ after', after = after' ++ [x] ∧ xs = before ++ y :: after' := by
  rcases List.eq_nil_or_concat' after with rfl | ⟨after', z, rfl⟩
  · obtain ⟨hbefore, hlast⟩ := List.append_inj' h rfl
    exact .inl ⟨rfl, hbefore.symm, (List.singleton_inj.mp hlast).symm⟩
  · rw [← List.cons_append, ← List.append_assoc] at h
    obtain ⟨hxs, hlast⟩ := List.append_inj' h rfl
    rw [List.singleton_inj.mp hlast]
    exact .inr ⟨after', rfl, hxs⟩

theorem cacheTracks_nil : CacheTracks cols [] {} chains where
  ver _ h := by cases h
  cached _ h := absurd rfl h
  page _ _ _ _ _ _ h := by simp at h

theorem CacheTracks.write {chains' : Nat → Nat → List (Nat × Nat)} {call : PageStore.CachedCall}
    (h : CacheTracks cols done c chains) (hread : call.readVersion = none)
    (hgrown : ∀ i pg, ∀ x ∈ chains i pg, x ∈ chains' i pg) : CacheTracks cols (done ++ [call]) c chains' where
  ver v hv := by
    unfold PageStore.lastRead at hv
    rw [List.filterMap_append, List.filterMap_cons_none hread, List.filterMap_nil, List.append_nil] at hv
    exact h.ver v hv
  cached colId hpage := by
    obtain ⟨before, off, v, between, pgNum, rfl, hbetween, hon⟩ := h.cached colId hpage
    refine ⟨before, off, v, between ++ [call], pgNum, by simp, fun call' hmem => ?_, hon⟩
    rcases List.mem_append.mp hmem with hold | hnew
    · exact hbetween call' hold
    · rw [List.mem_singleton.mp hnew]
      cases call with
      | newRow version change => exact id
      | write off version families change => exact id
      | read off colId' version => cases hread
  page colId before off v between pgNum hsplit hbetween hpage := by
    rcases split_concat hsplit with ⟨-, -, hcall⟩ | ⟨between', rfl, hdone⟩
    · rw [← hcall] at hread
      cases hread
    · obtain ⟨hnum, hfound⟩ := h.page colId before off v between' pgNum hdone
        (fun call' hmem => hbetween call' (List.mem_append_left _ hmem)) hpage
      refine ⟨hnum, hfound.imp id ?_⟩
      rintro ⟨u, hu, hmem⟩
      exact ⟨u, hu, hgrown _ _ _ hmem⟩

theorem CacheTracks.read {off : Nat} (h : CacheTracks cols done c chains)
    (hpage : PageStore.onPage cols colId pgNum off = true) (hver : c'.ver = version)
    (hpages : c'.page = Function.update c.page colId (foundPage version (chains colId pgNum)))
    (hnums : c'.pageNum = Function.update c.pageNum colId pgNum)
    (hseen : (visible Prod.snd version (chains colId pgNum)).map Prod.snd =
      PageStore.newestWrite cols done colId pgNum version) :
    CacheTracks cols (done ++ [.read off colId version]) c' chains where
  ver v hv := by
    unfold PageStore.lastRead at hv
    rw [List.filterMap_append] at hv
    have hlast : (done.filterMap PageStore.CachedCall.readVersion ++ [version]).getLast? = some v := hv
    rw [List.getLast?_concat] at hlast
    rw [hver]
    exact Option.some.inj hlast
  cached j hne := by
    by_cases hj : j = colId
    · subst hj
      exact ⟨done, off, version, [], pgNum, rfl, fun call' hmem => absurd hmem List.not_mem_nil, hpage⟩
    · rw [hpages, Function.update_of_ne hj] at hne
      obtain ⟨before, off', v, between, pg, rfl, hbetween, hon⟩ := h.cached j hne
      refine ⟨before, off', v, between ++ [.read off colId version], pg, by simp, fun call' hmem => ?_, hon⟩
      rcases List.mem_append.mp hmem with hold | hnew
      · exact hbetween call' hold
      · rw [List.mem_singleton.mp hnew]
        exact fun heq => hj heq.symm
  page j before off' v between pg hsplit hbetween hon := by
    rcases split_concat hsplit with ⟨-, rfl, hcall⟩ | ⟨between', rfl, hdone⟩
    · obtain ⟨rfl, rfl, rfl⟩ := PageStore.CachedCall.read.inj hcall
      have hsame : pg = pgNum := by
        unfold PageStore.onPage at hon hpage
        cases hcol : cols[j]? with
        | none =>
          rw [hcol] at hon
          cases hon
        | some col =>
          rw [hcol] at hon hpage
          exact (of_decide_eq_true hon).symm.trans (of_decide_eq_true hpage)
      subst hsame
      rw [hpages, hnums, Function.update_self, Function.update_self, ← hseen]
      refine ⟨rfl, ?_⟩
      unfold foundPage
      cases hvisible : visible Prod.snd v (chains j pg) with
      | none => exact .inl ⟨rfl, rfl⟩
      | some x => exact .inr ⟨x.2, rfl, List.mem_of_find?_eq_some hvisible⟩
    · have hj : j ≠ colId := fun heq => hbetween (.read off colId version) (by simp) heq.symm
      rw [hpages, hnums, Function.update_of_ne hj, Function.update_of_ne hj]
      exact h.page j before off' v between' pg hdone
        (fun call' hmem => hbetween call' (List.mem_append_left _ hmem)) hon

/-! ### One read -/

/-- The store and the cache after some calls whose reads were all right. -/
structure CachedInv (tableId : Nat) (start : PageStore) (done : List PageStore.CachedCall) (s : PageStore × PageCache)
    (w : Nat) (chains : Nat → Nat → List (Nat × Nat)) : Prop where
  pages : PagedRows s.1 w chains (PageStore.writesTo start.cols done)
  cols : s.1.cols = start.cols
  maxItems : s.1.maxItems = start.maxItems
  header : s.1.header = ((done.filterMap PageStore.CachedCall.toCall).map PageStore.Call.rows).sum
  last : w ∈ 0 :: done.filterMap PageStore.CachedCall.version
  cache : tableId < maxCachedTables → CacheTracks start.cols done s.2 chains

section read
variable {start : PageStore} {st st' : PageStore × PageCache}

theorem CachedInv.seen (h : CachedInv tableId start done st w chains) (colId pgNum version : Nat) :
    (visible Prod.snd version (chains colId pgNum)).map Prod.snd =
      PageStore.newestWrite start.cols done colId pgNum version :=
  visible_newest (h.pages.chain colId pgNum).sorted (h.pages.versions colId pgNum) version

theorem CachedInv.transparent_iff (h : CachedInv tableId start done st w chains) :
    Transparent st.1 tableId st.2 colId pgNum version ↔ MayCache start.cols tableId done colId pgNum version := by
  have hfind := h.pages.toPageInv.findPage colId pgNum version
  by_cases hbounds : tableId < maxCachedTables ↔ colId < maxCachedCols
  · by_cases htable : tableId < maxCachedTables
    · have hcache := h.cache htable
      by_cases hhit : st.2.Hits colId pgNum version
      · have hpage := cachedPage_hit (s := st.1) htable (hbounds.mp htable) hhit
        obtain ⟨before, off, v, between, pg, hsplit, hbetween, hon⟩ := hcache.cached colId hhit.1
        obtain ⟨hnum, hfound⟩ := hcache.page colId before off v between pg hsplit hbetween hon
        obtain rfl : pg = pgNum := hnum.symm.trans hhit.2.2
        obtain ⟨v', hv'⟩ := exists_lastRead hsplit
        have hlast : PageStore.lastRead done = some version := by
          rw [hv', ← hcache.ver v' hv', hhit.2.1]
        constructor
        · rintro ⟨p, c', hok, hp⟩
          rw [hpage] at hok
          obtain ⟨rfl, -⟩ := Prod.mk.inj (Except.ok.inj hok)
          rw [hfind] at hp
          refine ⟨hbounds, fun _ before' off' v₁ between' hsplit' hbetween' hon' _ u hu => ?_⟩
          obtain ⟨-, ⟨hnone, -⟩ | ⟨u', hu', hmem⟩⟩ :=
            hcache.page colId before' off' v₁ between' pg hsplit' hbetween' hon'
          · rw [hnone] at hu
            cases hu
          · rw [hu] at hu'
            obtain rfl := Option.some.inj hu'
            rw [← h.seen]
            exact ((h.pages.chain colId pg).foundPage_eq hmem).mp (Except.ok.inj hp)
        · intro hmay
          rcases hfound with ⟨-, hzero⟩ | ⟨u, hu, hmem⟩
          · exact absurd hzero hhit.1
          · have hseen := hmay.unchanged htable before off v between hsplit hbetween hon hlast u hu
            rw [← h.seen] at hseen
            exact ⟨_, _, hpage, by rw [hfind, ((h.pages.chain colId pg).foundPage_eq hmem).mpr hseen]⟩
      · have hpage := cachedPage_miss htable (hbounds.mp htable) hhit hfind
        refine ⟨fun _ => ⟨hbounds, fun _ before off v between hsplit hbetween hon hlast u hu => ?_⟩,
          fun _ => ⟨_, _, hpage, hfind⟩⟩
        obtain ⟨hnum, ⟨hnone, -⟩ | ⟨u', -, hmem⟩⟩ := hcache.page colId before off v between pgNum hsplit hbetween hon
        · rw [hnone] at hu
          cases hu
        · have hpos := ((h.pages.chain colId pgNum).ptr _ hmem).1
          exact absurd ⟨Nat.ne_of_gt hpos, hcache.ver version hlast, hnum⟩ hhit
    · have hpage := @cachedPage_bypass st.1 st.2 version tableId colId pgNum (by omega) (by omega)
      rw [hfind] at hpage
      exact ⟨fun _ => ⟨hbounds, fun h => absurd h htable⟩, fun _ => ⟨_, _, hpage, hfind⟩⟩
  · constructor
    · rintro ⟨p, c', hok, -⟩
      rw [cachedPage_outOfBounds hbounds] at hok
      cases hok
    · exact fun h => absurd h.bounds hbounds

/-- A write leaves the cache as it is. -/
theorem CachedInv.runWrite {call : PageStore.CachedCall} {storeCall : PageStore.Call} {store : PageStore}
    (h : CachedInv tableId start done st w chains) (hcall : call.toCall = some storeCall)
    (hread : call.readVersion = none) (hversion : ∀ v ∈ call.version, w ≤ v ∧ v < noVersion)
    (hrun : st.1.runCall storeCall = .ok store) :
    ∃ w' chains', CachedInv tableId start (done ++ [call]) (store, st.2) w' chains' := by
  have hv : call.version = storeCall.version := by
    unfold PageStore.CachedCall.version
    rw [hcall]
    rfl
  obtain ⟨chains', hpages, hdone, hgrown⟩ := h.pages.runCall (by rw [← hv]; exact hversion) hrun
  refine ⟨storeCall.version.getD w, chains', ⟨?_, hdone.cols.trans h.cols, hdone.maxItems.trans h.maxItems, ?_, ?_,
    fun htable => (h.cache htable).write hread hgrown⟩⟩
  · have hwritten : PageStore.writesTo start.cols (done ++ [call]) = fun i pg =>
        PageStore.writesTo start.cols done i pg ++ storeCall.writes st.1.cols i pg st.1.header := by
      funext i pg
      unfold PageStore.writesTo
      rw [List.filterMap_append, PageStore.pageWrites_append, List.filterMap_cons_some hcall, List.filterMap_nil,
        h.cols, h.header, Nat.zero_add]
      simp only [PageStore.pageWrites, List.append_nil]
    rw [hwritten]
    exact hpages
  · rw [hdone.header, h.header, List.filterMap_append, List.filterMap_cons_some hcall]
    simp
  · rw [List.filterMap_append]
    cases hversion' : storeCall.version with
    | none =>
      rcases List.mem_cons.mp h.last with hzero | hmem
      · exact List.mem_cons.mpr (.inl hzero)
      · exact List.mem_cons_of_mem _ (List.mem_append_left _ hmem)
    | some v =>
      refine List.mem_cons_of_mem _ (List.mem_append_right _ ?_)
      rw [List.filterMap_cons_some (hv.trans hversion')]
      exact List.mem_cons_self

theorem getByOffset_ok {off colId version : Nat} {value : Option (Nat × Nat)}
    (h : s.getByOffset tableId c off colId version = .ok (value, c')) :
    ∃ col, s.cols[colId]? = some col ∧ off / col.pageSize < s.numPages col ∧
      ∃ p, s.cachedPage tableId c colId (off / col.pageSize) version = .ok (p, c') := by
  unfold PageStore.getByOffset at h
  cases hcol : s.cols[colId]? with
  | none =>
    rw [hcol] at h
    cases h
  | some col =>
    rw [hcol] at h
    dsimp only at h
    by_cases hin : s.numPages col ≤ off / col.pageSize
    · rw [if_pos hin] at h
      cases h
    · rw [if_neg hin] at h
      obtain ⟨⟨p, c₁⟩, hpage, h⟩ := bind_eq_ok h
      have hsame : c₁ = c' := by
        dsimp only at h
        by_cases hzero : p = 0
        · rw [if_pos hzero] at h
          exact (Prod.mk.inj (Except.ok.inj h)).2
        · rw [if_neg hzero] at h
          exact (Prod.mk.inj (Except.ok.inj h)).2
      rw [hsame] at hpage
      exact ⟨col, rfl, Nat.not_le.mp hin, p, hpage⟩

/-- A read that is right leaves the store as it is, and the page in the cache. -/
theorem CachedInv.runRead {off colId version : Nat} {value : Option (Nat × Nat)}
    (h : CachedInv tableId start done st w chains)
    (hnum : ∀ col ∈ start.cols, start.numPages col ≤ 2 ^ 32)
    (hright : ∀ pgNum, PageStore.onPage st.1.cols colId pgNum off = true →
      (∃ col, st.1.cols[colId]? = some col ∧ pgNum < st.1.numPages col) →
      Transparent st.1 tableId st.2 colId pgNum version)
    (hok : st.1.getByOffset tableId st.2 off colId version = .ok (value, c')) :
    CachedInv tableId start (done ++ [.read off colId version]) (st.1, c') w chains := by
  obtain ⟨col, hcol, hin, p, hpage⟩ := getByOffset_ok hok
  have hon : PageStore.onPage st.1.cols colId (off / col.pageSize) off = true := (onPage_iff hcol).mpr rfl
  obtain ⟨q, c₂, hcached, hfind⟩ := hright _ hon ⟨col, hcol, hin⟩
  rw [hpage] at hcached
  obtain ⟨rfl, -⟩ := Prod.mk.inj (Except.ok.inj hcached)
  have hp : p = foundPage version (chains colId (off / col.pageSize)) := by
    rw [h.pages.toPageInv.findPage] at hfind
    exact (Except.ok.inj hfind).symm
  have hnumPages : st.1.numPages col ≤ 2 ^ 32 := by
    unfold PageStore.numPages
    rw [h.maxItems]
    exact hnum col (h.cols ▸ List.mem_of_getElem? hcol)
  have hkept : PageStore.writesTo start.cols (done ++ [.read off colId version]) =
      PageStore.writesTo start.cols done := by
    funext i pg
    unfold PageStore.writesTo
    rw [List.filterMap_append]
    exact congrArg (PageStore.pageWrites start.cols i pg 0) (List.append_nil _)
  refine ⟨by rw [hkept]; exact h.pages, h.cols, h.maxItems, ?_, ?_, fun htable => ?_⟩
  · rw [List.filterMap_append]
    exact h.header.trans (congrArg (fun calls => (List.map PageStore.Call.rows calls).sum)
      (List.append_nil _).symm)
  · rw [List.filterMap_append]
    exact (congrArg (fun vs => w ∈ 0 :: vs) (List.append_nil _)).mpr h.last
  · have hcolId : colId < maxCachedCols := by
      by_contra hout
      rw [cachedPage_outOfBounds fun hboth => hout (hboth.mp htable)] at hpage
      cases hpage
    obtain ⟨hver, hpages, hnums⟩ := cache_after htable hcolId (by omega)
      ⟨_, h.pages.toPageInv.findPage colId (off / col.pageSize) version⟩ hpage
    rw [hp] at hpages
    exact (h.cache htable).read (by rw [← h.cols]; exact hon) hver hpages hnums (h.seen _ _ _)

theorem CachedInv.runCached {call : PageStore.CachedCall} (h : CachedInv tableId start done st w chains)
    (hnum : ∀ col ∈ start.cols, start.numPages col ≤ 2 ^ 32)
    (hversion : ∀ v ∈ call.version, w ≤ v ∧ v < noVersion)
    (hright : ∀ off colId version pgNum, call = .read off colId version →
        PageStore.onPage st.1.cols colId pgNum off = true →
      (∃ col, st.1.cols[colId]? = some col ∧ pgNum < st.1.numPages col) →
      Transparent st.1 tableId st.2 colId pgNum version)
    (hok : PageStore.runCached tableId st call = .ok st') :
    ∃ w' chains', CachedInv tableId start (done ++ [call]) st' w' chains' := by
  cases call with
  | newRow version change =>
    obtain ⟨store, hrun, hok⟩ := bind_eq_ok hok
    obtain rfl := Except.ok.inj hok
    exact h.runWrite rfl rfl hversion hrun
  | write off version families change =>
    obtain ⟨store, hrun, hok⟩ := bind_eq_ok hok
    obtain rfl := Except.ok.inj hok
    exact h.runWrite rfl rfl hversion hrun
  | read off colId version =>
    obtain ⟨⟨value, c'⟩, hread, hok⟩ := bind_eq_ok hok
    obtain rfl := Except.ok.inj hok
    exact ⟨w, chains, h.runRead hnum (fun pgNum => hright off colId version pgNum rfl) hread⟩

theorem cachedInv_run {layout : VertexLayout} {maxItems : Nat} {buf : RegionBuffer}
    (hnum : ∀ col ∈ (PageStore.create layout maxItems buf).cols,
      (PageStore.create layout maxItems buf).numPages col < 2 ^ 31)
    (hversions : VersionsFrom 0 (done.filterMap PageStore.CachedCall.version))
    (hright : ∀ before colId pgNum version s, ReadReached tableId (.create layout maxItems buf, {}) done before colId
      pgNum version s → Transparent s.1 tableId s.2 colId pgNum version)
    (hok : done.foldlM (PageStore.runCached tableId) (.create layout maxItems buf, {}) = .ok st) :
    ∃ w chains, CachedInv tableId (.create layout maxItems buf) done st w chains := by
  induction done using List.reverseRecOn generalizing st with
  | nil =>
    obtain rfl := Except.ok.inj hok
    exact ⟨0, _, ⟨pagedRows_create, rfl, rfl, rfl, List.mem_cons_self, fun _ => cacheTracks_nil⟩⟩
  | append_singleton done call ih =>
    rw [List.foldlM_append] at hok
    obtain ⟨st₁, hdone, hok⟩ := bind_eq_ok hok
    have hcall : PageStore.runCached tableId st₁ call = .ok st := by
      simpa only [List.foldlM_cons, List.foldlM_nil, bind_pure] using hok
    rw [List.filterMap_append] at hversions
    have hsorted := List.pairwise_append.mp (List.pairwise_cons.mp hversions.sorted).2
    obtain ⟨w, chains, hinv⟩ := ih
      ⟨List.pairwise_cons.mpr ⟨fun v _ => Nat.zero_le v, hsorted.1⟩,
        fun v hv => hversions.lt v (List.mem_append_left _ hv)⟩
      (fun before colId pgNum version s hreached => by
        obtain ⟨⟨off, after, hsplit, hon⟩, hrun, hpage⟩ := hreached
        exact hright before colId pgNum version s
          ⟨⟨off, after ++ [call], by rw [hsplit]; simp, hon⟩, hrun, hpage⟩)
      hdone
    refine hinv.runCached (fun col hcol => by have hlt := hnum col hcol; omega) (fun v hv => ?_)
      (fun off colId version pgNum hread hon hpage => ?_) hcall
    · have hmem : v ∈ [call].filterMap PageStore.CachedCall.version := by
        rw [List.mem_filterMap]
        exact ⟨call, List.mem_cons_self, hv⟩
      refine ⟨?_, hversions.lt v (List.mem_append_right _ hmem)⟩
      rcases List.mem_cons.mp hinv.last with hzero | hold
      · omega
      · exact hsorted.2.2 w hold v hmem
    · exact hright done colId pgNum version st₁ ⟨⟨off, [], by rw [hread], hon⟩, hdone, hpage⟩

/-- Every read of a run uses the page that `findPage` returns if and only if every read may go through the cache. The
pages of a family are counted by an `int`. -/
theorem getByOffset_transparent_iff (layout : VertexLayout) (maxItems : Nat) (buf : RegionBuffer) (tableId : Nat)
    (calls : List PageStore.CachedCall)
    (hpages : ∀ col ∈ (PageStore.create layout maxItems buf).cols,
      (PageStore.create layout maxItems buf).numPages col < 2 ^ 31)
    (hversions : VersionsFrom 0 (calls.filterMap PageStore.CachedCall.version)) :
    (∀ before colId pgNum version s, ReadReached tableId (.create layout maxItems buf, {}) calls before colId pgNum
      version s → Transparent s.1 tableId s.2 colId pgNum version) ↔
    ∀ before colId pgNum version s, ReadReached tableId (.create layout maxItems buf, {}) calls before colId pgNum
      version s → MayCache (PageStore.create layout maxItems buf).cols tableId before colId pgNum version := by
  have hat : ∀ before colId pgNum version s,
      ReadReached tableId (.create layout maxItems buf, {}) calls before colId pgNum version s →
      (∀ before' colId' pgNum' version' s', ReadReached tableId (.create layout maxItems buf, {}) before before' colId'
        pgNum' version' s' → Transparent s'.1 tableId s'.2 colId' pgNum' version') →
      (Transparent s.1 tableId s.2 colId pgNum version ↔
        MayCache (PageStore.create layout maxItems buf).cols tableId before colId pgNum version) := by
    rintro before colId pgNum version s ⟨⟨off, after, hsplit, -⟩, hrun, -⟩ hright
    have hbefore : VersionsFrom 0 (before.filterMap PageStore.CachedCall.version) := by
      rw [hsplit, List.filterMap_append] at hversions
      exact ⟨List.pairwise_cons.mpr ⟨fun v _ => Nat.zero_le v,
        (List.pairwise_append.mp (List.pairwise_cons.mp hversions.sorted).2).1⟩,
        fun v hv => hversions.lt v (List.mem_append_left _ hv)⟩
    obtain ⟨w, chains, hinv⟩ := cachedInv_run hpages hbefore hright hrun
    exact hinv.transparent_iff
  -- what a part of the run gets to, the run gets to
  have hpart : ∀ before colId pgNum version s,
      ReadReached tableId (.create layout maxItems buf, {}) calls before colId pgNum version s →
      ∀ before' colId' pgNum' version' s',
        ReadReached tableId (.create layout maxItems buf, {}) before before' colId' pgNum' version' s' →
        ReadReached tableId (.create layout maxItems buf, {}) calls before' colId' pgNum' version' s' ∧
          before'.length < before.length := by
    rintro before colId pgNum version s ⟨⟨off, after, hsplit, -⟩, -, -⟩ before' colId' pgNum' version' s'
      ⟨⟨off', after', hsplit', hon'⟩, hrun', hpage'⟩
    subst hsplit'
    refine ⟨⟨⟨off', after' ++ .read off colId version :: after, by rw [hsplit]; simp, hon'⟩, hrun', hpage'⟩, ?_⟩
    rw [List.length_append, List.length_cons]
    omega
  constructor
  · intro hall before colId pgNum version s hreached
    refine (hat before colId pgNum version s hreached ?_).mp (hall before colId pgNum version s hreached)
    intro before' colId' pgNum' version' s' hreached'
    exact hall _ _ _ _ _ (hpart _ _ _ _ _ hreached _ _ _ _ _ hreached').1
  · intro hmay before
    induction hlen : before.length using Nat.strongRecOn generalizing before with
    | ind n ih =>
      intro colId pgNum version s hreached
      refine (hat before colId pgNum version s hreached ?_).mpr (hmay before colId pgNum version s hreached)
      intro before' colId' pgNum' version' s' hreached'
      obtain ⟨hall, hlt⟩ := hpart _ _ _ _ _ hreached _ _ _ _ _ hreached'
      exact ih before'.length (by omega) before' rfl colId' pgNum' version' s' hall

/-- Reading a table at one version is right as long as only later versions are written after the first read. -/
theorem mayCache_of_oneVersion {calls before : List PageStore.CachedCall} {e : Nat}
    (hbounds : tableId < maxCachedTables ↔ colId < maxCachedCols) (hbefore : before <+: calls)
    (hreads : ∀ v ∈ calls.filterMap PageStore.CachedCall.readVersion, v = e)
    (hwrites : calls.Pairwise fun call later => call.readVersion.isSome → ∀ u ∈ later.version, e < u) :
    MayCache cols tableId before colId pgNum e := by
  refine ⟨hbounds, fun _ first off v between hsplit _ _ _ u hu => ?_⟩
  obtain ⟨after, hafter⟩ := hbefore
  have hcalls : calls = first ++ .read off colId v :: (between ++ after) := by
    rw [← hafter, hsplit]
    simp
  obtain rfl : v = e := hreads v (by
    rw [hcalls, List.filterMap_append]
    exact List.mem_append_right _ (List.mem_filterMap.mpr ⟨_, List.mem_cons_self, rfl⟩))
  -- whatever was written in between is too late for the read
  have hlate : (PageStore.pageWrites cols colId pgNum
      (0 + ((first.filterMap PageStore.CachedCall.toCall).map PageStore.Call.rows).sum)
      (between.filterMap PageStore.CachedCall.toCall)).filter (fun x => decide (x ≤ v)) = [] := by
    refine List.filter_eq_nil_iff.mpr fun x hx hle => ?_
    obtain ⟨call, hmem, hversion⟩ := PageStore.mem_pageWrites hx
    obtain ⟨cached, hcached, hcall⟩ := List.mem_filterMap.mp hmem
    rw [hcalls] at hwrites
    have hlt := List.rel_of_pairwise_cons (List.pairwise_append.mp hwrites).2.1 (List.mem_append_left _ hcached) rfl x
      (by unfold PageStore.CachedCall.version; rw [hcall]; exact hversion)
    exact absurd (of_decide_eq_true hle) (Nat.not_le.mpr hlt)
  have hsame : PageStore.newestWrite cols before colId pgNum v = PageStore.newestWrite cols first colId pgNum v := by
    unfold PageStore.newestWrite PageStore.writesTo
    rw [hsplit, List.filterMap_append, List.filterMap_cons_none (by rfl), PageStore.pageWrites_append,
      List.filter_append, hlate, List.append_nil]
  rw [hsame]
  exact hu

end read

end cache

/-- A row of two families; the first one gets a new version, and the reader goes on to it with the second one. -/
def secondColumn : List PageStore.CachedCall :=
  [.newRow 1 fun _ m => m, .write 0 3 [0] fun _ m => m, .read 0 0 1, .read 0 1 3, .read 0 0 3]

def twoFamilies : VertexLayout :=
  { colFamilies := [{ vlen := 4, pageSize := 2, columnNum := 1 }, { vlen := 4, pageSize := 2, columnNum := 1 }] }

def freshThread : PageStore × PageCache := (.create twoFamilies 4 { capacity := 1000, blank := fun _ => 0 }, {})

/-- Both columns are read at version 3, before and after version 5 is written. -/
def sameVersion : List PageStore.CachedCall :=
  [.newRow 1 fun _ m => m, .write 0 3 [0] fun _ m => m, .read 0 0 3, .read 0 1 3, .write 0 5 [0, 1] fun _ m => m,
    .read 0 0 3]

theorem reached_of_run {calls before after : List PageStore.CachedCall} {version : Nat} {s : PageStore × PageCache}
    (hsplit : calls = before ++ .read 0 0 version :: after)
    (hrun : before.foldlM (PageStore.runCached 0) freshThread = .ok s)
    (hshape : s.1.cols = freshThread.1.cols ∧ s.1.maxItems = 4) :
    ReadReached 0 freshThread calls before 0 0 version s := by
  refine ⟨⟨0, after, hsplit, ?_⟩, hrun, { vlen := 4, pageSize := 2, columnNum := 1 }, ?_, ?_⟩
  · rw [hshape.1]
    rfl
  · rw [hshape.1]
    rfl
  · unfold PageStore.numPages
    rw [hshape.2]
    decide

/-- The last read takes the page that is cached from before the write of version 5. -/
theorem transparent_iff_sameVersion : ∃ s, ReadReached 0 freshThread sameVersion (sameVersion.take 5) 0 0 3 s ∧
    s.2.Hits 0 0 3 ∧ Transparent s.1 0 s.2 0 0 3 := by
  have hrun : (((sameVersion.take 5).foldlM (PageStore.runCached 0) freshThread).toOption.map fun s =>
      (decide (s.2.Hits 0 0 3), s.1.cols, s.1.maxItems)) = some (true, freshThread.1.cols, 4) := by decide +kernel
  obtain ⟨s, hs, hshape⟩ := Option.map_eq_some_iff.mp hrun
  obtain ⟨hhit, hshape⟩ := Prod.mk.inj hshape
  have hreached := @reached_of_run sameVersion _ [] _ _ rfl (ok_of_toOption hs) (Prod.mk.inj hshape)
  refine ⟨s, hreached, of_decide_eq_true hhit, ?_⟩
  refine (getByOffset_transparent_iff twoFamilies 4 { capacity := 1000, blank := fun _ => 0 } 0 sameVersion (by decide)
    (by decide)).mpr ?_ _ 0 0 3 s hreached
  intro before colId pgNum version s ⟨⟨off, after, hsplit, hon⟩, hrun, col, hcol, hlt⟩
  have hread : PageStore.CachedCall.read off colId version ∈ sameVersion := by
    rw [hsplit]
    simp
  simp only [sameVersion, List.mem_cons, PageStore.CachedCall.read.injEq, reduceCtorEq, List.not_mem_nil,
    false_or, or_false] at hread
  obtain rfl : version = 3 := by omega
  refine mayCache_of_oneVersion ?_ ⟨_, hsplit.symm⟩ (by decide) (by decide)
  have hcolId : colId < 2 := by omega
  unfold maxCachedTables maxCachedCols
  omega

/-- The page of version 1 is taken for version 3. -/
theorem stale_secondColumn : VersionsFrom 0 (secondColumn.filterMap PageStore.CachedCall.version) ∧
    ∃ s, ReadReached 0 freshThread secondColumn (secondColumn.take 4) 0 0 3 s ∧ ¬ Transparent s.1 0 s.2 0 0 3 := by
  have hpages : (((secondColumn.take 4).foldlM (PageStore.runCached 0) freshThread).toOption.bind fun s =>
      (s.1.cachedPage 0 s.2 0 0 3).toOption.bind fun q =>
        (s.1.findPage 0 0 3).toOption.map fun p => (decide (q.1 = p), s.1.cols, s.1.maxItems)) =
      some (false, freshThread.1.cols, 4) := by decide +kernel
  obtain ⟨s, hs, hpages⟩ := Option.bind_eq_some_iff.mp hpages
  obtain ⟨q, hq, hpages⟩ := Option.bind_eq_some_iff.mp hpages
  obtain ⟨p, hp, hshape⟩ := Option.map_eq_some_iff.mp hpages
  obtain ⟨hne, hshape⟩ := Prod.mk.inj hshape
  have hreached := @reached_of_run secondColumn _ [] _ _ rfl (ok_of_toOption hs) (Prod.mk.inj hshape)
  refine ⟨by decide, s, hreached, ?_⟩
  rintro ⟨p', c', hcached, hfind⟩
  rw [ok_of_toOption hq] at hcached
  rw [ok_of_toOption hp] at hfind
  obtain rfl := Except.ok.inj hcached
  exact of_decide_eq_false hne (Except.ok.inj hfind).symm

end Gart.Store

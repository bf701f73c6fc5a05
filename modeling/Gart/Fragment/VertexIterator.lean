import Gart.Lib.CellLog
import Gart.Store.VertexTable

/-!
# Reading a vertex table (interfaces/fragment/iterator.h, gart_fragment.h)

A range of the table is read from its newest entry on, down to the front for inner vertices and up to the end for outer
ones. The cursor is kept as the number of entries of the range still ahead.
-/

namespace Gart.Fragment
open Gart.MarkerLog Gart.Store

/-- `VTableMeta` (`graph_store.cc:344-361`): the bounds of a vertex table in a blob schema -/
structure VTableMeta where
  max : Nat
  maxInner : Nat
  minOuter : Nat
  maxInnerLocation : Nat
  minOuterLocation : Nat
  deriving DecidableEq, Repr

/-- A pair of addresses in `addrs_` with its flag. -/
structure TableRange where
  highToLow : Bool
  remaining : Nat
  deriving DecidableEq, Repr

/-- `VertexIterator` (`iterator.h:29-212`) -/
structure VertexIterator where
  table : Nat → Nat
  /-- `vertex_table_lens_` -/
  len : Nat
  addrs : List TableRange
  loc : Nat
  cur : TableRange
  /-- the largest first -/
  innerDeleteOffset : List Nat
  /-- the smallest first -/
  outerDeleteOffset : List Nat

/-- Insert into a queue that is kept with its smallest element in front. -/
def pushSmallest (x : Nat) (queue : List Nat) : List Nat := queue.orderedInsert (· ≤ ·) x

namespace VertexIterator

def outerSlot (len r : Nat) : Nat := len - 1 - r

/-- The loop of `find_next_valid_cursor`, in a direction and with the queue of the direction. -/
def scan (table slot : Nat → Nat) (insert : Nat → List Nat → List Nat) : Nat → List Nat → Nat × List Nat
  | 0, offsets => (0, offsets)
  | r + 1, offsets =>
    let v := table (slot r)
    if v ≥ vertexDeleteFlag then scan table slot insert r (insert (v - vertexDeleteFlag) offsets)
    else
      match offsets with
      | [] => (r + 1, [])
      | top :: rest => if slot r ≠ top then (r + 1, top :: rest) else scan table slot insert r rest

/-- `VertexIterator::find_next_valid_cursor` (`iterator.h:135-180`) -/
def findNextValidCursor (it : VertexIterator) : VertexIterator :=
  if it.cur.highToLow then
    let found := scan it.table id push it.cur.remaining it.innerDeleteOffset
    { it with cur := ⟨true, found.1⟩, innerDeleteOffset := found.2 }
  else
    let found := scan it.table (outerSlot it.len) pushSmallest it.cur.remaining it.outerDeleteOffset
    { it with cur := ⟨false, found.1⟩, outerDeleteOffset := found.2 }

/-- The constructor -/
def create (table : Nat → Nat) (len : Nat) (addrs : List TableRange) : VertexIterator :=
  findNextValidCursor
    { table := table, len := len, addrs := addrs, loc := 0, cur := addrs.headD ⟨true, 0⟩
      innerDeleteOffset := [], outerDeleteOffset := [] }

/-- `VertexIterator::switch_next_range` (`iterator.h:115-133`) -/
def switchNextRange (it : VertexIterator) : Bool × VertexIterator :=
  if ¬ (it.loc = 0 ∧ it.addrs.length = 2) then (false, it)
  else
    let it := { it with loc := it.loc + 1, cur := it.addrs.getD (it.loc + 1) ⟨true, 0⟩ }.findNextValidCursor
    (it.cur.remaining ≠ 0, it)

def valid (it : VertexIterator) : Bool × VertexIterator :=
  if it.cur.remaining = 0 then it.switchNextRange else (true, it)

/-- `VertexIterator::next` (`iterator.h:67-113`) -/
def next (it : VertexIterator) : VertexIterator :=
  { it with cur := { it.cur with remaining := it.cur.remaining - 1 } }.findNextValidCursor

/-- `VertexIterator::vertex` (`iterator.h:182-186`) -/
def vertex (it : VertexIterator) : Nat :=
  let r := it.cur.remaining - 1
  it.table (if it.cur.highToLow then r else outerSlot it.len r)

/-- `while (it.valid()) { visit; it.next(); }` -/
def toList : Nat → VertexIterator → Option (List Nat)
  | 0, _ => none
  | fuel + 1, it =>
    match it.valid with
    | (false, _) => some []
    | (true, it) => (toList fuel it.next).map (it.vertex :: ·)

end VertexIterator

/-! ### GartFragment

A fragment keeps the bounds of its schema and reads the table itself. No list has more entries than the table. -/

section fragment
variable (vmeta : VTableMeta) (table : Nat → Nat) (len : Nat)

def innerRange : TableRange := ⟨true, vmeta.maxInnerLocation⟩

def outerRange : TableRange := ⟨false, len - vmeta.minOuterLocation⟩

/-- `InnerVertices` (`gart_fragment.h:515-531`) -/
def innerVertices : Option (List Nat) := (VertexIterator.create table len [innerRange vmeta]).toList (len + 1)

/-- `OuterVertices` (`gart_fragment.h:533-549`) -/
def outerVertices : Option (List Nat) := (VertexIterator.create table len [outerRange vmeta len]).toList (len + 1)

/-- `Vertices` (`gart_fragment.h:483-513`) -/
def vertices : Option (List Nat) :=
  (VertexIterator.create table len [innerRange vmeta, outerRange vmeta len]).toList (len + 1)

end fragment

/-! ### What a range holds -/

/-- The cells of a range as they lie in the table. -/
structure RangeOk (table slot : Nat → Nat) (lid : Nat → Nat) (cells : List (Cell Nat)) : Prop where
  data : ∀ p gid, cells[p]? = some (.data gid) → table (slot p) = lid gid
  marker : ∀ p t, cells[p]? = some (.marker t) → table (slot p) = slot t + vertexDeleteFlag
  small : ∀ gid, lid gid < vertexDeleteFlag
  marked : WellMarked (cellMarks cells) cells.length

/-- The queue of a direction keeps the order of the positions behind its slots. -/
structure Direction (slot : Nat → Nat) (insert : Nat → List Nat → List Nat) (n : Nat) : Prop where
  inj : ∀ a < n, ∀ b < n, slot a = slot b → a = b
  insert : ∀ t < n, ∀ queue : List Nat, (∀ q ∈ queue, q < n) →
    insert (slot t) (queue.map slot) = (push t queue).map slot

theorem direction_inner (n : Nat) : Direction id push n :=
  ⟨fun _ _ _ _ h => h, fun t _ queue _ => by simp⟩

theorem direction_outer (len : Nat) : Direction (VertexIterator.outerSlot len) pushSmallest len := by
  constructor
  · intro a ha b hb h
    unfold VertexIterator.outerSlot at h
    omega
  · intro t ht queue hqueue
    induction queue with
    | nil => rfl
    | cons q queue ih =>
      have hq := hqueue q List.mem_cons_self
      have hiff : VertexIterator.outerSlot len t ≤ VertexIterator.outerSlot len q ↔ t ≥ q := by
        unfold VertexIterator.outerSlot
        omega
      unfold pushSmallest push at ih ⊢
      rw [List.map_cons, List.orderedInsert_cons, List.orderedInsert_cons]
      by_cases hge : t ≥ q
      · rw [if_pos (hiff.mpr hge), if_pos hge]
        rfl
      · rw [if_neg (fun h => hge (hiff.mp h)), if_neg hge, ih fun x hx => hqueue x (List.mem_cons_of_mem _ hx)]
        rfl

section scanning
variable {table slot lid : Nat → Nat} {insert : Nat → List Nat → List Nat} {cells : List (Cell Nat)} {n k : Nat}
  {queue : List Nat}

theorem RangeOk.entry (h : RangeOk table slot lid cells) (hk : k < cells.length) :
    (∃ t, cellMarks cells k = some t ∧ table (slot k) = slot t + vertexDeleteFlag ∧ t < k) ∨
      ∃ gid, cellMarks cells k = none ∧ valueAt cells k = some gid ∧ table (slot k) = lid gid := by
  have hget := List.getElem?_eq_getElem hk
  cases hcell : cells[k] with
  | data gid =>
    rw [hcell] at hget
    have hvalue : valueAt cells k = some gid := by
      unfold valueAt
      rw [hget]
      rfl
    exact Or.inr ⟨gid, cellMarks_of_valueAt hvalue, hvalue, h.data k gid hget⟩
  | marker t =>
    rw [hcell] at hget
    have hmark : cellMarks cells k = some t := by
      unfold cellMarks
      rw [hget]
      rfl
    exact Or.inl ⟨t, hmark, h.marker k t hget, h.marked.older k t hk hmark⟩

theorem scan_eq_seek (h : RangeOk table slot lid cells) (hd : Direction slot insert n) (hn : cells.length ≤ n)
    (hk : k ≤ cells.length) (hqueue : ∀ q ∈ queue, q < n) :
    VertexIterator.scan table slot insert k (queue.map slot) =
      ((seek (cellMarks cells) k queue).1, (seek (cellMarks cells) k queue).2.map slot) := by
  induction k generalizing queue with
  | zero => rfl
  | succ k ih =>
    unfold VertexIterator.scan seek
    dsimp only
    rcases h.entry hk with ⟨t, hmark, htable, ht⟩ | ⟨gid, hmark, -, htable⟩
    · rw [htable, if_pos (Nat.le_add_left _ _), Nat.add_sub_cancel, hmark, hd.insert t (by omega) queue hqueue]
      refine ih (Nat.le_of_lt hk) fun q hq => ?_
      rcases mem_push.mp hq with rfl | hq
      · omega
      · exact hqueue q hq
    · rw [htable, if_neg (Nat.not_le.mpr (h.small gid)), hmark]
      cases queue with
      | nil => rfl
      | cons top rest =>
        have htop := hqueue top List.mem_cons_self
        have hrest := fun q hq => hqueue q (List.mem_cons_of_mem top hq)
        show (if slot k ≠ slot top then (k + 1, slot top :: rest.map slot)
          else VertexIterator.scan table slot insert k (rest.map slot)) = _
        dsimp only
        by_cases heq : top = k
        · rw [if_neg (fun hne => hne (congrArg slot heq.symm)), if_pos heq]
          exact ih (Nat.le_of_lt hk) hrest
        · rw [if_pos (fun hslot => heq (hd.inj k (by omega) top htop hslot).symm), if_neg heq]
          rfl

theorem seek_queue_lt {marks : Nat → Option Nat} (hmarks : ∀ j < k, ∀ t, marks j = some t → t < n)
    (hqueue : ∀ q ∈ queue, q < n) : ∀ q ∈ (seek marks k queue).2, q < n := by
  induction k generalizing queue with
  | zero => exact hqueue
  | succ k ih =>
    have hless := fun j hj => hmarks j (Nat.lt_succ_of_lt hj)
    unfold seek
    cases hmark : marks k with
    | some t =>
      refine ih hless fun q hq => ?_
      rcases mem_push.mp hq with rfl | hq
      · exact hmarks k (Nat.lt_succ_self k) q hmark
      · exact hqueue q hq
    | none =>
      cases queue with
      | nil => exact hqueue
      | cons top rest =>
        dsimp only
        split
        · exact ih hless fun q hq => hqueue q (List.mem_cons_of_mem _ hq)
        · exact hqueue

end scanning

namespace VertexIterator

/-- The iterator in a direction, with this many entries ahead and this queue. -/
def moveTo (it : VertexIterator) (highToLow : Bool) (k : Nat) (queue : List Nat) : VertexIterator :=
  if highToLow then { it with cur := ⟨true, k⟩, innerDeleteOffset := queue }
  else { it with cur := ⟨false, k⟩, outerDeleteOffset := queue }

def slotOf (highToLow : Bool) (len : Nat) : Nat → Nat := if highToLow then id else outerSlot len

def insertOf (highToLow : Bool) : Nat → List Nat → List Nat := if highToLow then push else pushSmallest

variable {it : VertexIterator} {highToLow : Bool} {lid : Nat → Nat} {cells : List (Cell Nat)} {k n : Nat}
  {queue : List Nat}

theorem direction (highToLow : Bool) (len : Nat) : Direction (slotOf highToLow len) (insertOf highToLow) len := by
  cases highToLow with
  | true => exact direction_inner len
  | false => exact direction_outer len

theorem findNext_moveTo : (it.moveTo highToLow k queue).findNextValidCursor =
    it.moveTo highToLow (scan it.table (slotOf highToLow it.len) (insertOf highToLow) k queue).1
      (scan it.table (slotOf highToLow it.len) (insertOf highToLow) k queue).2 := by
  cases highToLow <;> rfl

theorem next_moveTo : (it.moveTo highToLow (k + 1) queue).next = (it.moveTo highToLow k queue).findNextValidCursor := by
  cases highToLow <;> rfl

theorem vertex_moveTo : (it.moveTo highToLow (k + 1) queue).vertex = it.table (slotOf highToLow it.len k) := by
  cases highToLow <;> rfl

theorem valid_moveTo : (it.moveTo highToLow (k + 1) queue).valid = (true, it.moveTo highToLow (k + 1) queue) := by
  cases highToLow <;> rfl

theorem toList_range (h : RangeOk it.table (slotOf highToLow it.len) lid cells) (hn : cells.length ≤ it.len)
    (hk : k ≤ cells.length) (hqueue : ∀ q ∈ queue, q < it.len) :
    ∃ rest, ∀ m, ((it.moveTo highToLow k (queue.map (slotOf highToLow it.len))).findNextValidCursor).toList
        (m + (yields (cellMarks cells) k queue).length) =
      ((it.moveTo highToLow 0 rest).toList m).map
        ((yields (cellMarks cells) k queue).map (fun p => it.table (slotOf highToLow it.len p)) ++ ·) := by
  induction k using Nat.strong_induction_on generalizing queue with
  | _ k ih =>
    have hscan := scan_eq_seek h (direction highToLow it.len) hn hk hqueue
    have hrest := seek_queue_lt (n := it.len) (fun j hj t ht => Nat.lt_of_lt_of_le
      (Nat.lt_trans (h.marked.older j t (Nat.lt_of_lt_of_le hj hk) ht) (Nat.lt_of_lt_of_le hj hk)) hn) hqueue
    have hle := seek_le (cellMarks cells) k queue
    rw [findNext_moveTo, hscan, yields_eq_seek]
    dsimp only
    generalize seek (cellMarks cells) k queue = found at hrest hle ⊢
    obtain ⟨stop, left⟩ := found
    cases stop with
    | zero => exact ⟨left.map (slotOf highToLow it.len), fun m => by simp⟩
    | succ p =>
      obtain ⟨rest, hlist⟩ := ih p hle (Nat.le_trans (Nat.le_of_succ_le hle) hk) hrest
      refine ⟨rest, fun m => ?_⟩
      dsimp only
      rw [List.length_cons, ← Nat.add_assoc, toList, valid_moveTo]
      dsimp only
      rw [next_moveTo, vertex_moveTo, hlist m, Option.map_map]
      rfl

theorem toList_end {rest : List Nat} {m : Nat} (h : ¬ (it.loc = 0 ∧ it.addrs.length = 2)) :
    (it.moveTo highToLow 0 rest).toList (m + 1) = some [] := by
  have hvalid : (it.moveTo highToLow 0 rest).valid = (false, it.moveTo highToLow 0 rest) := by
    cases highToLow <;> exact if_pos h
  rw [toList, hvalid]

theorem toList_switch {m : Nat} {first second : TableRange} (hloc : it.loc = 0)
    (haddrs : it.addrs = [first, second]) (hcur : it.cur.remaining = 0) :
    it.toList (m + 1) = ({ it with loc := 1, cur := second }.findNextValidCursor).toList (m + 1) := by
  have hvalid : it.valid = (decide (({ it with loc := 1, cur := second }.findNextValidCursor).cur.remaining ≠ 0),
      { it with loc := 1, cur := second }.findNextValidCursor) := by
    unfold valid switchNextRange
    rw [if_pos hcur, if_neg (fun h => h ⟨hloc, by rw [haddrs]; rfl⟩), hloc, haddrs]
    rfl
  have hloc' : ({ it with loc := 1, cur := second }.findNextValidCursor).loc = 1 := by
    unfold findNextValidCursor
    split <;> rfl
  rw [toList, toList, hvalid]
  generalize { it with loc := 1, cur := second }.findNextValidCursor = it' at hloc'
  by_cases hzero : it'.cur.remaining = 0
  · have hend : it'.valid = (false, it') := by
      unfold valid switchNextRange
      rw [if_pos hzero, if_pos (fun h => by rw [hloc'] at h; cases h.1)]
    rw [hend]
    simp [hzero]
  · have hgo : it'.valid = (true, it') := by
      unfold valid
      rw [if_neg hzero]
    rw [hgo]
    simp [hzero]

end VertexIterator

section reading
variable {table slot lid : Nat → Nat} {cells inner outer : List (Cell Nat)} {len : Nat} {vmeta : VTableMeta}

theorem RangeOk.map_liveDown (h : RangeOk table slot lid cells) :
    (yields (cellMarks cells) cells.length []).map (fun p => table (slot p)) = (content cells).map lid := by
  rw [yields_eq_liveDown h.marked]
  unfold content
  have hmem : ∀ p ∈ liveDown (cellMarks cells) cells.length cells.length,
      ∃ gid, valueAt cells p = some gid ∧ table (slot p) = lid gid := by
    intro p hp
    obtain ⟨hlt, hlive⟩ := mem_liveDown.mp hp
    rcases h.entry hlt with ⟨t, hmark, -, -⟩ | ⟨gid, -, hvalue, htable⟩
    · rw [hlive.1] at hmark
      cases hmark
    · exact ⟨gid, hvalue, htable⟩
  generalize liveDown (cellMarks cells) cells.length cells.length = positions at hmem
  induction positions with
  | nil => rfl
  | cons p positions ih =>
    obtain ⟨gid, hvalue, htable⟩ := hmem p List.mem_cons_self
    rw [List.map_cons, List.filterMap_cons, hvalue, List.map_cons, htable,
      ih fun q hq => hmem q (List.mem_cons_of_mem _ hq)]

theorem RangeOk.length_yields (h : RangeOk table slot lid cells) :
    (yields (cellMarks cells) cells.length []).length = (content cells).length := by
  rw [← List.length_map fun p => table (slot p), h.map_liveDown, List.length_map]

theorem length_content_le : (content cells).length ≤ cells.length := by
  refine Nat.le_trans (List.length_filterMap_le _ _) ?_
  unfold liveDown
  rw [List.length_reverse]
  exact Nat.le_trans (List.length_filter_le _ _) (Nat.le_of_eq List.length_range)

theorem toList_single {highToLow : Bool} (h : RangeOk table (VertexIterator.slotOf highToLow len) lid cells)
    (hn : cells.length ≤ len) :
    (VertexIterator.create table len [⟨highToLow, cells.length⟩]).toList (len + 1) =
      some ((content cells).map lid) := by
  have hle := @length_content_le cells
  let it : VertexIterator :=
    { table := table, len := len, addrs := [⟨highToLow, cells.length⟩], loc := 0, cur := ⟨highToLow, cells.length⟩
      innerDeleteOffset := [], outerDeleteOffset := [] }
  obtain ⟨rest, hlist⟩ := @VertexIterator.toList_range it highToLow lid cells cells.length [] h hn (Nat.le_refl _)
    fun q hq => by cases hq
  have hstart : VertexIterator.create table len [⟨highToLow, cells.length⟩] =
      (it.moveTo highToLow cells.length []).findNextValidCursor := by
    cases highToLow <;> rfl
  have hfuel : len + 1 = len - (content cells).length + 1 + (yields (cellMarks cells) cells.length []).length := by
    rw [h.length_yields]
    omega
  rw [hstart, hfuel]
  refine (hlist _).trans ?_
  rw [VertexIterator.toList_end (fun hc => by cases hc.2)]
  show some (List.map (fun p => table (VertexIterator.slotOf highToLow len p)) _ ++ []) = _
  rw [h.map_liveDown, List.append_nil]

theorem innerVertices_spec (h : RangeOk table id lid inner) (hn : inner.length ≤ len)
    (hmeta : vmeta.maxInnerLocation = inner.length) :
    innerVertices vmeta table len = some ((content inner).map lid) := by
  unfold innerVertices innerRange
  rw [hmeta]
  exact @toList_single table lid inner len true h hn

theorem outerRange_eq (hmeta : vmeta.minOuterLocation + outer.length = len) :
    outerRange vmeta len = ⟨false, outer.length⟩ := by
  have hsub : len - vmeta.minOuterLocation = outer.length := by omega
  unfold outerRange
  rw [hsub]

theorem outerVertices_spec (h : RangeOk table (VertexIterator.outerSlot len) lid outer)
    (hmeta : vmeta.minOuterLocation + outer.length = len) :
    outerVertices vmeta table len = some ((content outer).map lid) := by
  unfold outerVertices
  rw [outerRange_eq hmeta]
  exact @toList_single table lid outer len false h (by omega)

theorem allVertices_spec {lid' : Nat → Nat} (h : RangeOk table id lid inner)
    (h' : RangeOk table (VertexIterator.outerSlot len) lid' outer) (hroom : inner.length + outer.length ≤ len)
    (hinner : vmeta.maxInnerLocation = inner.length) (houter : vmeta.minOuterLocation + outer.length = len) :
    vertices vmeta table len = some ((content inner).map lid ++ (content outer).map lid') := by
  have hle := @length_content_le inner
  have hle' := @length_content_le outer
  let it : VertexIterator :=
    { table := table, len := len, addrs := [⟨true, inner.length⟩, ⟨false, outer.length⟩], loc := 0
      cur := ⟨true, inner.length⟩, innerDeleteOffset := [], outerDeleteOffset := [] }
  obtain ⟨rest, hlist⟩ := @VertexIterator.toList_range it true lid inner inner.length [] h
    (Nat.le_trans (Nat.le_add_right _ _) hroom) (Nat.le_refl _) fun q hq => by cases hq
  let it' : VertexIterator := { it with loc := 1, cur := ⟨false, outer.length⟩, innerDeleteOffset := rest }
  obtain ⟨rest', hlist'⟩ := @VertexIterator.toList_range it' false lid' outer outer.length [] h'
    (Nat.le_trans (Nat.le_add_left _ _) hroom) (Nat.le_refl _) fun q hq => by cases hq
  have hfuel : len + 1 = len - (content inner).length - (content outer).length + 1 +
      (yields (cellMarks outer) outer.length []).length + (yields (cellMarks inner) inner.length []).length := by
    rw [h.length_yields, h'.length_yields]
    omega
  have hmore : len - (content inner).length - (content outer).length + 1 +
      (yields (cellMarks outer) outer.length []).length = len - (content inner).length - (content outer).length +
      (yields (cellMarks outer) outer.length []).length + 1 := by
    omega
  have hswitch := @VertexIterator.toList_switch (it.moveTo true 0 rest)
    (len - (content inner).length - (content outer).length + (yields (cellMarks outer) outer.length []).length)
    ⟨true, inner.length⟩ ⟨false, outer.length⟩ rfl rfl rfl
  unfold vertices innerRange
  rw [outerRange_eq houter, hinner, hfuel]
  refine (hlist _).trans ?_
  rw [hmore, hswitch, ← hmore]
  have hsecond := (hlist' (len - (content inner).length - (content outer).length + 1)).trans
    (congrArg _ (VertexIterator.toList_end (fun hc => by cases hc.1)))
  refine (congrArg _ hsecond).trans ?_
  show some (List.map (fun p => table (id p)) _ ++
    (List.map (fun p => table (VertexIterator.outerSlot len p)) _ ++ [])) = _
  rw [h.map_liveDown, h'.map_liveDown, List.append_nil]

end reading

/-! ### Any words

Whatever the words of a range are, what an iterator stops at is no delete marker. -/

section words
variable {table slot : Nat → Nat} {insert : Nat → List Nat → List Nat} {Q Q' : Nat → Prop} {len k : Nat}
  {queue : List Nat} {vmeta : VTableMeta}

theorem scan_spec (table slot : Nat → Nat) (insert : Nat → List Nat → List Nat) (k : Nat) (queue : List Nat) :
    (VertexIterator.scan table slot insert k queue).1 ≤ k ∧
      ∀ p, (VertexIterator.scan table slot insert k queue).1 = p + 1 → table (slot p) < vertexDeleteFlag := by
  induction k generalizing queue with
  | zero => exact ⟨Nat.le_refl 0, fun p hp => by cases hp⟩
  | succ k ih =>
    have hstop : ∀ rest, ¬ table (slot k) ≥ vertexDeleteFlag → (k + 1, rest).1 ≤ k + 1 ∧
        ∀ p, ((k + 1, rest) : Nat × List Nat).1 = p + 1 → table (slot p) < vertexDeleteFlag := by
      intro rest hdata
      refine ⟨Nat.le_refl _, fun p hp => ?_⟩
      rw [← Nat.succ.inj hp]
      exact Nat.lt_of_not_le hdata
    have hgo : ∀ queue, (VertexIterator.scan table slot insert k queue).1 ≤ k + 1 ∧
        ∀ p, (VertexIterator.scan table slot insert k queue).1 = p + 1 → table (slot p) < vertexDeleteFlag :=
      fun queue => ⟨Nat.le_succ_of_le (ih queue).1, (ih queue).2⟩
    unfold VertexIterator.scan
    dsimp only
    split
    · exact hgo _
    · rename_i hdata
      split
      · exact hstop _ hdata
      · split
        · exact hstop _ hdata
        · exact hgo _

theorem toList_words {highToLow : Bool} (hwords : ∀ p < k, vertexDeleteFlag ≤
      table (VertexIterator.slotOf highToLow len p) ∨ Q (table (VertexIterator.slotOf highToLow len p))) :
    ∃ xs rest, (∀ x ∈ xs, Q x) ∧ xs.length ≤ k ∧ ∀ it : VertexIterator, it.table = table → it.len = len →
      ∀ m, ((it.moveTo highToLow k queue).findNextValidCursor).toList (m + xs.length) =
        ((it.moveTo highToLow 0 rest).toList m).map (xs ++ ·) := by
  induction k using Nat.strong_induction_on generalizing queue with
  | _ k ih =>
    obtain ⟨hle, hdata⟩ :=
      scan_spec table (VertexIterator.slotOf highToLow len) (VertexIterator.insertOf highToLow) k queue
    generalize hfound : VertexIterator.scan table (VertexIterator.slotOf highToLow len)
      (VertexIterator.insertOf highToLow) k queue = found at hle hdata
    obtain ⟨stop, left⟩ := found
    cases stop with
    | zero =>
      refine ⟨[], left, fun x hx => (by cases hx), Nat.zero_le k, fun it htable hlen m => ?_⟩
      rw [VertexIterator.findNext_moveTo, htable, hlen, hfound]
      simp
    | succ p =>
      obtain ⟨xs, rest, hxs, hlength, hlist⟩ := @ih p hle left fun q hq => hwords q (Nat.lt_trans hq hle)
      refine ⟨table (VertexIterator.slotOf highToLow len p) :: xs, rest, ?_,
          Nat.le_trans (Nat.succ_le_succ hlength) hle,
        fun it htable hlen m => ?_⟩
      · intro x hx
        rcases List.mem_cons.mp hx with rfl | hx
        · exact (hwords p hle).resolve_left (Nat.not_le.mpr (hdata p rfl))
        · exact hxs x hx
      · rw [VertexIterator.findNext_moveTo, htable, hlen, hfound]
        dsimp only
        rw [List.length_cons, ← Nat.add_assoc, VertexIterator.toList, VertexIterator.valid_moveTo]
        dsimp only
        rw [VertexIterator.next_moveTo, VertexIterator.vertex_moveTo, hlist it htable hlen m, Option.map_map, htable,
            hlen]
        rfl

/-- The three lists of a label, from a table whose parts hold certain words between their delete markers. -/
theorem reads_words (hroom : vmeta.maxInnerLocation + (len - vmeta.minOuterLocation) ≤ len)
    (hinner : ∀ p < vmeta.maxInnerLocation, vertexDeleteFlag ≤ table p ∨ Q (table p))
    (houter : ∀ p < len - vmeta.minOuterLocation, vertexDeleteFlag ≤ table (VertexIterator.outerSlot len p) ∨
      Q' (table (VertexIterator.outerSlot len p))) :
    ∃ inner outer, (∀ x ∈ inner, Q x) ∧ (∀ x ∈ outer, Q' x) ∧ innerVertices vmeta table len = some inner ∧
      outerVertices vmeta table len = some outer ∧ vertices vmeta table len = some (inner ++ outer) := by
  obtain ⟨inner, rest, hQ, hlength, hlist⟩ := @toList_words table Q len vmeta.maxInnerLocation [] true hinner
  obtain ⟨outer, rest', hQ', hlength', hlist'⟩ :=
    @toList_words table Q' len (len - vmeta.minOuterLocation) [] false houter
  let first : TableRange := innerRange vmeta
  let second : TableRange := outerRange vmeta len
  let it (addrs : List TableRange) : VertexIterator :=
    { table := table, len := len, addrs := addrs, loc := 0, cur := first, innerDeleteOffset := []
      outerDeleteOffset := [] }
  have hend : ∀ it : VertexIterator, ¬ (it.loc = 0 ∧ it.addrs.length = 2) → it.table = table → it.len = len →
      ∀ m, ((it.moveTo false (len - vmeta.minOuterLocation) []).findNextValidCursor).toList (m + 1 + outer.length) =
        some outer := by
    intro it hlast htable hlen m
    rw [hlist' it htable hlen, VertexIterator.toList_end hlast]
    simp
  refine ⟨inner, outer, hQ, hQ', ?_, ?_, ?_⟩
  · have hfuel : len + 1 = len - inner.length + 1 + inner.length := by omega
    unfold innerVertices
    rw [hfuel]
    refine (hlist (it [first]) rfl rfl _).trans ?_
    rw [VertexIterator.toList_end (fun hc => by cases hc.2)]
    simp
  · have hfuel : len + 1 = len - outer.length + 1 + outer.length := by omega
    unfold outerVertices
    rw [hfuel]
    exact hend { it [second] with cur := second } (fun hc => by cases hc.2) rfl rfl _
  · have hfuel : len + 1 = len - inner.length - outer.length + 1 + outer.length + inner.length := by omega
    have hmore : len - inner.length - outer.length + 1 + outer.length =
        len - inner.length - outer.length + outer.length + 1 := by omega
    unfold vertices
    rw [hfuel]
    refine (hlist (it [first, second]) rfl rfl _).trans ?_
    rw [hmore, @VertexIterator.toList_switch ((it [first, second]).moveTo true 0 rest) _ first second rfl rfl rfl,
        ← hmore]
    exact congrArg (Option.map (inner ++ ·)) (hend
      { it [first, second] with
        loc := 1
        cur := second
        innerDeleteOffset := rest } (fun hc => by cases hc.1) rfl rfl _)

/-! ### Entries that no marker names -/

theorem mem_insertOf {highToLow : Bool} {x y : Nat} (h : y ∈ VertexIterator.insertOf highToLow x queue) :
    y = x ∨ y ∈ queue := by
  cases highToLow with
  | true => exact mem_push.mp h
  | false => exact (List.mem_orderedInsert (· ≤ ·)).mp h

variable {p : Nat}

theorem scan_keeps {highToLow : Bool} (hdata : table (slot p) < vertexDeleteFlag) (hp : p < k)
    (hmarks : ∀ q < k, vertexDeleteFlag ≤ table (slot q) → table (slot q) - vertexDeleteFlag ≠ slot p)
    (hqueue : slot p ∉ queue) :
    p < (VertexIterator.scan table slot (VertexIterator.insertOf highToLow) k queue).1 ∧
      slot p ∉ (VertexIterator.scan table slot (VertexIterator.insertOf highToLow) k queue).2 := by
  induction k generalizing queue with
  | zero => exact absurd hp (Nat.not_lt_zero p)
  | succ k ih =>
    have hless := fun q hq => hmarks q (Nat.lt_succ_of_lt hq)
    unfold VertexIterator.scan
    dsimp only
    split
    · rename_i hmark
      have hne : p ≠ k := fun heq => Nat.not_le.mpr hdata (heq ▸ hmark)
      refine ih (by omega) hless fun hmem => ?_
      rcases mem_insertOf hmem with hsame | hold
      · exact hmarks k (Nat.lt_succ_self k) hmark hsame.symm
      · exact hqueue hold
    · split
      · exact ⟨hp, hqueue⟩
      · rename_i top rest
        split
        · exact ⟨hp, hqueue⟩
        · rename_i heq
          have hne : p ≠ k := fun hsame => hqueue (by
            rw [hsame, Decidable.not_not.mp heq]
            exact List.mem_cons_self)
          exact ih (by omega) hless fun hmem => hqueue (List.mem_cons_of_mem _ hmem)

theorem toList_keeps {highToLow : Bool} {it : VertexIterator} {m : Nat} {xs : List Nat}
    (hdata : it.table (VertexIterator.slotOf highToLow it.len p) < vertexDeleteFlag) (hp : p < k)
    (hmarks : ∀ q < k, vertexDeleteFlag ≤ it.table (VertexIterator.slotOf highToLow it.len q) →
      it.table (VertexIterator.slotOf highToLow it.len q) - vertexDeleteFlag ≠ VertexIterator.slotOf highToLow it.len p)
    (hqueue : VertexIterator.slotOf highToLow it.len p ∉ queue)
    (hlist : ((it.moveTo highToLow k queue).findNextValidCursor).toList m = some xs) :
    it.table (VertexIterator.slotOf highToLow it.len p) ∈ xs := by
  induction k using Nat.strong_induction_on generalizing queue m xs with
  | _ k ih =>
    obtain ⟨hstop, hleft⟩ := @scan_keeps it.table (VertexIterator.slotOf highToLow it.len) k queue p highToLow hdata hp
      hmarks hqueue
    obtain ⟨hle, -⟩ := scan_spec it.table (VertexIterator.slotOf highToLow it.len) (VertexIterator.insertOf highToLow) k
      queue
    rw [VertexIterator.findNext_moveTo] at hlist
    generalize VertexIterator.scan it.table (VertexIterator.slotOf highToLow it.len)
      (VertexIterator.insertOf highToLow) k queue = found at hstop hleft hle hlist
    obtain ⟨stop, left⟩ := found
    dsimp only at hstop hleft hle hlist
    obtain ⟨r, rfl⟩ : ∃ r, stop = r + 1 := ⟨stop - 1, by omega⟩
    cases m with
    | zero => cases hlist
    | succ m =>
      rw [VertexIterator.toList, VertexIterator.valid_moveTo] at hlist
      dsimp only at hlist
      rw [VertexIterator.next_moveTo, VertexIterator.vertex_moveTo] at hlist
      obtain ⟨ys, hys, rfl⟩ := Option.map_eq_some_iff.mp hlist
      by_cases hlast : p = r
      · rw [hlast]
        exact List.mem_cons_self
      · exact List.mem_cons_of_mem _ (ih r hle (by omega) (fun q hq => hmarks q (by omega)) hleft hys)

theorem innerVertices_keeps {xs : List Nat} (hdata : table p < vertexDeleteFlag) (hp : p < vmeta.maxInnerLocation)
    (hmarks : ∀ q < vmeta.maxInnerLocation, vertexDeleteFlag ≤ table q → table q - vertexDeleteFlag ≠ p)
    (hlist : innerVertices vmeta table len = some xs) : table p ∈ xs :=
  @toList_keeps vmeta.maxInnerLocation [] p true
    { table := table, len := len, addrs := [innerRange vmeta], loc := 0, cur := innerRange vmeta
      innerDeleteOffset := [], outerDeleteOffset := [] } (len + 1) xs hdata hp hmarks (List.not_mem_nil) hlist

theorem outerVertices_keeps {xs : List Nat} (hdata : table (VertexIterator.outerSlot len p) < vertexDeleteFlag)
    (hp : p < len - vmeta.minOuterLocation)
    (hmarks : ∀ q < len - vmeta.minOuterLocation, vertexDeleteFlag ≤ table (VertexIterator.outerSlot len q) →
      table (VertexIterator.outerSlot len q) - vertexDeleteFlag ≠ VertexIterator.outerSlot len p)
    (hlist : outerVertices vmeta table len = some xs) : table (VertexIterator.outerSlot len p) ∈ xs :=
  @toList_keeps (len - vmeta.minOuterLocation) [] p false
    { table := table, len := len, addrs := [outerRange vmeta len], loc := 0, cur := outerRange vmeta len
      innerDeleteOffset := [], outerDeleteOffset := [] } (len + 1) xs hdata hp hmarks (List.not_mem_nil) hlist

end words

end Gart.Fragment

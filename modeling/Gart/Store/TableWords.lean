import Gart.Store.TableLog
import Gart.Store.TableSnapshot

/-!
# The words of a vertex table

Whatever order the vertices are inserted, met and deleted in, and however often they are deleted, a part of a table
holds delete markers and the local ids of its vertices.
-/

namespace Gart.Store
open Gart.Outcome Gart.Fragment

/-- A part of a table with the local ids of `n` vertices between its delete markers. -/
structure PartWords (table slot lid : Nat → Nat) (n length : Nat) : Prop where
  word : ∀ p < length, vertexDeleteFlag ≤ table (slot p) ∨ ∃ i < n, table (slot p) = lid i
  present : ∀ i < n, ∃ p < length, table (slot p) = lid i

section part
variable {table slot lid : Nat → Nat} {n length value : Nat}

theorem partWords_nil : PartWords table slot lid 0 0 :=
  ⟨fun p hp => absurd hp (Nat.not_lt_zero p), fun i hi => absurd hi (Nat.not_lt_zero i)⟩

theorem PartWords.frame (table' : Nat → Nat) (h : PartWords table slot lid n length)
    (hsame : ∀ p < length, table' (slot p) = table (slot p)) : PartWords table' slot lid n length := by
  constructor
  · intro p hp
    rw [hsame p hp]
    exact h.word p hp
  · intro i hi
    obtain ⟨p, hp, hword⟩ := h.present i hi
    exact ⟨p, hp, (hsame p hp).trans hword⟩

theorem PartWords.push {m : Nat} (h : PartWords table slot lid n length) (hother : ∀ p < length, slot p ≠ slot length)
    (hvalue : value = lid n ∧ m = n + 1 ∨ vertexDeleteFlag ≤ value ∧ m = n) :
    PartWords (Function.update table (slot length) value) slot lid m (length + 1) := by
  have hold := h.frame (Function.update table (slot length) value)
    fun p hp => Function.update_of_ne (hother p hp) _ _
  have hle : n ≤ m := by omega
  constructor
  · intro p hp
    rcases Nat.lt_succ_iff_lt_or_eq.mp hp with hp | rfl
    · rcases hold.word p hp with hmark | ⟨i, hi, hword⟩
      · exact Or.inl hmark
      · exact Or.inr ⟨i, Nat.lt_of_lt_of_le hi hle, hword⟩
    · rw [Function.update_self]
      rcases hvalue with ⟨rfl, rfl⟩ | ⟨hmark, -⟩
      · exact Or.inr ⟨n, Nat.lt_succ_self n, rfl⟩
      · exact Or.inl hmark
  · intro i hi
    by_cases hi' : i < n
    · obtain ⟨p, hp, hword⟩ := hold.present i hi'
      exact ⟨p, Nat.lt_succ_of_lt hp, hword⟩
    · rcases hvalue with ⟨rfl, rfl⟩ | ⟨-, rfl⟩
      · have hlast : i = n := by omega
        exact ⟨length, Nat.lt_succ_self length, by rw [hlast, Function.update_self]⟩
      · exact absurd hi hi'

end part

structure TableWords (parser : IdParser) (vlabel size : Nat) (t : TableView) : Prop where
  sameSize : t.vtable.size = size
  innerLocation : t.vtable.maxInnerLocation = t.inner + t.deletedInner
  outerLocation : t.vtable.minOuterLocation + (t.outer + t.deletedOuter) = size
  room : t.use ≤ size
  inner : PartWords t.vtable.table id (parser.generateId 0 vlabel) t.inner (t.inner + t.deletedInner)
  outer : PartWords t.vtable.table (VertexIterator.outerSlot size) (outerLidOf parser vlabel) t.outer
    (t.outer + t.deletedOuter)
  known : ∀ gid ov, t.keyLid gid = some ov → ov < t.outer

/-- The parts of a table are beginnings of the parts of a later one. -/
structure PartsGrow (size : Nat) (t t' : TableView) : Prop where
  innerLength : t.inner + t.deletedInner ≤ t'.inner + t'.deletedInner
  outerLength : t.outer + t.deletedOuter ≤ t'.outer + t'.deletedOuter
  inner : ∀ p < t.inner + t.deletedInner, t'.vtable.table p = t.vtable.table p
  outer : ∀ p < t.outer + t.deletedOuter,
    t'.vtable.table (VertexIterator.outerSlot size p) = t.vtable.table (VertexIterator.outerSlot size p)

theorem PartsGrow.refl (size : Nat) (t : TableView) : PartsGrow size t t :=
  ⟨Nat.le_refl _, Nat.le_refl _, fun _ _ => rfl, fun _ _ => rfl⟩

theorem PartsGrow.trans {size : Nat} {t t' t'' : TableView} (h : PartsGrow size t t') (h' : PartsGrow size t' t'') :
    PartsGrow size t t'' :=
  ⟨Nat.le_trans h.innerLength h'.innerLength, Nat.le_trans h.outerLength h'.outerLength,
    fun p hp => (h'.inner p (Nat.lt_of_lt_of_le hp h.innerLength)).trans (h.inner p hp),
    fun p hp => (h'.outer p (Nat.lt_of_lt_of_le hp h.outerLength)).trans (h.outer p hp)⟩

section steps
variable {parser : IdParser} {pid vlabel size gid : Nat} {log after : List Record} {t t' : TableView}

theorem TableWords.pushInner {t' : TableView} {value : Nat} (h : TableWords parser vlabel size t)
    (hfits : t'.use ≤ size)
    (hvtable : t'.vtable.size = t.vtable.size ∧ t'.vtable.minOuterLocation = t.vtable.minOuterLocation ∧
      t'.vtable.maxInnerLocation = t.vtable.maxInnerLocation + 1 ∧
      t'.vtable.table = Function.update t.vtable.table t.vtable.maxInnerLocation value)
    (houter : t'.outer = t.outer ∧ t'.deletedOuter = t.deletedOuter ∧ t'.keyLid = t.keyLid)
    (hinner : value = parser.generateId 0 vlabel t.inner ∧ t'.inner = t.inner + 1 ∧ t'.deletedInner = t.deletedInner ∨
      vertexDeleteFlag ≤ value ∧ t'.inner = t.inner ∧ t'.deletedInner = t.deletedInner + 1) :
    TableWords parser vlabel size t' ∧ PartsGrow size t t' := by
  obtain ⟨hsize, hmin, hmax, htable⟩ := hvtable
  obtain ⟨hcount, hdeleted, hkey⟩ := houter
  have hold := h.innerLocation
  have hlength : t'.inner + t'.deletedInner = t.inner + t.deletedInner + 1 := by omega
  have hfits' : t'.inner + t'.deletedInner + (t'.outer + t'.deletedOuter) ≤ size := hfits
  have hsameInner : ∀ p < t.inner + t.deletedInner, t'.vtable.table p = t.vtable.table p := fun p hp => by
    rw [htable]
    exact Function.update_of_ne (by omega) _ _
  have hsameOuter : ∀ p < t.outer + t.deletedOuter,
      t'.vtable.table (VertexIterator.outerSlot size p) = t.vtable.table (VertexIterator.outerSlot size p) :=
    fun p hp => by
      rw [htable]
      refine Function.update_of_ne ?_ _ _
      unfold VertexIterator.outerSlot
      omega
  constructor
  · constructor
    · exact hsize.trans h.sameSize
    · omega
    · rw [hmin, hcount, hdeleted]
      exact h.outerLocation
    · exact hfits
    · rw [htable, hold, hlength]
      refine h.inner.push (fun p hp => Nat.ne_of_lt hp) ?_
      rcases hinner with ⟨hvalue, hin, -⟩ | ⟨hvalue, hin, -⟩
      · exact Or.inl ⟨hvalue, hin⟩
      · exact Or.inr ⟨hvalue, hin⟩
    · rw [hcount, hdeleted]
      exact h.outer.frame _ hsameOuter
    · rw [hcount, hkey]
      exact h.known
  · exact ⟨by omega, by omega, hsameInner, hsameOuter⟩

theorem TableWords.pushOuter {t' : TableView} {value : Nat} (h : TableWords parser vlabel size t)
    (hfits : t'.use ≤ size)
    (hvtable : t'.vtable.size = t.vtable.size ∧ t'.vtable.maxInnerLocation = t.vtable.maxInnerLocation ∧
      t'.vtable.minOuterLocation = t.vtable.minOuterLocation - 1 ∧
      t'.vtable.table = Function.update t.vtable.table (t.vtable.minOuterLocation - 1) value)
    (hinner : t'.inner = t.inner ∧ t'.deletedInner = t.deletedInner)
    (houter : value = outerLidOf parser vlabel t.outer ∧ t'.outer = t.outer + 1 ∧ t'.deletedOuter = t.deletedOuter ∨
      vertexDeleteFlag ≤ value ∧ t'.outer = t.outer ∧ t'.deletedOuter = t.deletedOuter + 1)
    (hknown : ∀ gid ov, t'.keyLid gid = some ov → ov < t'.outer) :
    TableWords parser vlabel size t' ∧ PartsGrow size t t' := by
  obtain ⟨hsize, hmax, hmin, htable⟩ := hvtable
  obtain ⟨hcount, hdeleted⟩ := hinner
  have hold := h.outerLocation
  have hlength : t'.outer + t'.deletedOuter = t.outer + t.deletedOuter + 1 := by omega
  have hfits' : t'.inner + t'.deletedInner + (t'.outer + t'.deletedOuter) ≤ size := hfits
  have hslot : t.vtable.minOuterLocation - 1 = VertexIterator.outerSlot size (t.outer + t.deletedOuter) := by
    unfold VertexIterator.outerSlot
    omega
  rw [hslot] at htable
  have hother : ∀ p < t.outer + t.deletedOuter,
      VertexIterator.outerSlot size p ≠ VertexIterator.outerSlot size (t.outer + t.deletedOuter) :=
    fun p hp => outerSlot_ne (by omega) (by omega) (Nat.ne_of_lt hp)
  have hsameInner : ∀ p < t.inner + t.deletedInner, t'.vtable.table p = t.vtable.table p := fun p hp => by
    rw [htable]
    refine Function.update_of_ne ?_ _ _
    unfold VertexIterator.outerSlot
    omega
  constructor
  · constructor
    · exact hsize.trans h.sameSize
    · rw [hmax, hcount, hdeleted]
      exact h.innerLocation
    · omega
    · exact hfits
    · rw [hcount, hdeleted]
      exact h.inner.frame _ hsameInner
    · rw [htable, hlength]
      refine h.outer.push hother ?_
      rcases houter with ⟨hvalue, hout, -⟩ | ⟨hvalue, hout, -⟩
      · exact Or.inl ⟨hvalue, hout⟩
      · exact Or.inr ⟨hvalue, hout⟩
    · exact hknown
  · refine ⟨by omega, by omega, hsameInner, fun p hp => ?_⟩
    rw [htable]
    exact Function.update_of_ne (hother p hp) _ _

theorem flag_le_marker (i : Nat) : vertexDeleteFlag ≤ i ||| vertexDeleteFlag := Nat.right_le_or

theorem TableWords.insert (h : TableWords parser vlabel size t) (hoffset : parser.getOffset gid = t.inner)
    (hstep : t.insert parser vlabel gid = .ok t') (hfits : t'.use ≤ size) :
    TableWords parser vlabel size t' ∧ PartsGrow size t t' := by
  unfold TableView.insert at hstep
  obtain ⟨vtable, hadd, hstep⟩ := bind_eq_ok hstep
  have ht := (Except.ok.inj hstep).symm
  unfold VTable.addInner at hadd
  split at hadd
  · cases hadd
  · rw [← Except.ok.inj hadd, hoffset] at ht
    subst ht
    exact h.pushInner hfits ⟨rfl, rfl, rfl, rfl⟩ ⟨rfl, rfl, rfl⟩ (Or.inl ⟨rfl, rfl, rfl⟩)

theorem TableWords.meet (h : TableWords parser vlabel size t) (hstep : t.meet parser vlabel gid = .ok t')
    (hfits : t'.use ≤ size) : TableWords parser vlabel size t' ∧ PartsGrow size t t' := by
  unfold TableView.meet at hstep
  split at hstep
  · rw [← Except.ok.inj hstep]
    exact ⟨h, .refl size t⟩
  · dsimp only at hstep
    obtain ⟨vtable, hadd, hstep⟩ := bind_eq_ok hstep
    have ht := (Except.ok.inj hstep).symm
    unfold VTable.addOuter at hadd
    split at hadd
    · cases hadd
    · rw [← Except.ok.inj hadd] at ht
      subst ht
      refine h.pushOuter hfits ⟨rfl, rfl, rfl, rfl⟩ ⟨rfl, rfl⟩ (Or.inl ⟨rfl, rfl, rfl⟩) fun gid' ov hov => ?_
      dsimp only at hov ⊢
      by_cases hsame : gid' = gid
      · rw [hsame, Function.update_self] at hov
        rw [← Option.some.inj hov]
        exact Nat.lt_succ_self _
      · rw [Function.update_of_ne hsame] at hov
        exact Nat.lt_succ_of_lt (h.known gid' ov hov)

theorem TableWords.foundInner (hlids : LidsOk parser vlabel size) (h : TableWords parser vlabel size t)
    (hoffset : parser.getOffset gid < t.inner) :
    ∃ i < t.inner + t.deletedInner, t.vtable.table i < vertexDeleteFlag ∧
      parser.getOffset (t.vtable.table i) = parser.getOffset gid ∧
      (t.deleteInner parser gid).vtable = { t.vtable with
        table := Function.update t.vtable.table t.vtable.maxInnerLocation (i ||| vertexDeleteFlag)
        maxInnerLocation := t.vtable.maxInnerLocation + 1 } := by
  obtain ⟨p, hp, hword⟩ := h.inner.present _ hoffset
  have hword' : t.vtable.table p = parser.generateId 0 vlabel (parser.getOffset gid) := hword
  obtain ⟨i, hfind⟩ : ∃ i, t.vtable.findInner parser (parser.getOffset gid) = some i := by
    cases hfind : t.vtable.findInner parser (parser.getOffset gid) with
    | some i => exact ⟨i, rfl⟩
    | none =>
      refine absurd ⟨p, ?_, ?_⟩ (findInner_eq_none.mp hfind)
      · rw [h.innerLocation]
        exact hp
      · rw [hword']
        exact ⟨hlids.small _, hlids.offset gid⟩
  have hfound := hfind
  unfold VTable.findInner at hfound
  have hlt := List.mem_range.mp (List.mem_of_find?_eq_some hfound)
  have hpred := List.find?_some hfound
  rw [decide_eq_true_iff] at hpred
  rw [h.innerLocation] at hlt
  refine ⟨i, hlt, hpred.1, hpred.2, ?_⟩
  unfold TableView.deleteInner VTable.deleteInner
  dsimp only
  rw [hfind]

theorem TableWords.deleteInner (hlids : LidsOk parser vlabel size) (h : TableWords parser vlabel size t)
    (hoffset : parser.getOffset gid < t.inner) (hfits : (t.deleteInner parser gid).use ≤ size) :
    TableWords parser vlabel size (t.deleteInner parser gid) ∧ PartsGrow size t (t.deleteInner parser gid) := by
  obtain ⟨i, -, -, -, hvtable⟩ := h.foundInner hlids hoffset
  refine h.pushInner hfits ?_ ⟨rfl, rfl, rfl⟩ (Or.inr ⟨flag_le_marker i, rfl, rfl⟩)
  rw [hvtable]
  exact ⟨rfl, rfl, rfl, rfl⟩

theorem TableWords.foundOuter {ov : Nat} (hlids : LidsOk parser vlabel size) (h : TableWords parser vlabel size t)
    (hknown : t.keyLid gid = some ov) :
    ∃ q < t.outer + t.deletedOuter,
      t.vtable.table (VertexIterator.outerSlot size q) = outerLidOf parser vlabel ov ∧
      (t.deleteOuter parser vlabel gid) = { t with
        vtable := { t.vtable with
          table := Function.update t.vtable.table (t.vtable.minOuterLocation - 1)
            (VertexIterator.outerSlot size q ||| vertexDeleteFlag)
          minOuterLocation := t.vtable.minOuterLocation - 1 }
        deletedOuter := t.deletedOuter + 1 } := by
  have houter := h.outerLocation
  have hslots : t.vtable.size - t.vtable.minOuterLocation = t.outer + t.deletedOuter := by
    rw [h.sameSize]
    omega
  obtain ⟨p, hp, hword⟩ := h.outer.present ov (h.known gid ov hknown)
  obtain ⟨i, hfind⟩ : ∃ i, t.vtable.findOuter (outerLidOf parser vlabel ov) = some i := by
    cases hfind : t.vtable.findOuter (outerLidOf parser vlabel ov) with
    | some i => exact ⟨i, rfl⟩
    | none =>
      have hmem : VertexIterator.outerSlot size p ∈
          (List.range (t.vtable.size - t.vtable.minOuterLocation)).map fun k => t.vtable.size - 1 - k := by
        rw [hslots, h.sameSize]
        exact List.mem_map.mpr ⟨p, List.mem_range.mpr hp, rfl⟩
      refine absurd (decide_eq_true ?_) (List.find?_eq_none.mp hfind _ hmem)
      rw [hword]
      exact ⟨hlids.small _, rfl⟩
  have hfound := hfind
  unfold VTable.findOuter at hfound
  obtain ⟨q, hq, hslot⟩ := List.mem_map.mp (List.mem_of_find?_eq_some hfound)
  have hpred := List.find?_some hfound
  rw [decide_eq_true_iff] at hpred
  rw [List.mem_range, hslots] at hq
  rw [h.sameSize] at hslot
  have hi : i = VertexIterator.outerSlot size q := hslot.symm
  refine ⟨q, hq, ?_, ?_⟩
  · rw [← hi]
    exact hpred.2
  · unfold TableView.deleteOuter VTable.deleteOuter
    rw [hknown]
    dsimp only
    rw [hfind, hi]

theorem TableWords.deleteOuter (hlids : LidsOk parser vlabel size) (h : TableWords parser vlabel size t)
    (hfits : (t.deleteOuter parser vlabel gid).use ≤ size) :
    TableWords parser vlabel size (t.deleteOuter parser vlabel gid) ∧
      PartsGrow size t (t.deleteOuter parser vlabel gid) := by
  cases hknown : t.keyLid gid with
  | none =>
    have hsame : t.deleteOuter parser vlabel gid = t := by
      unfold TableView.deleteOuter
      rw [hknown]
    rw [hsame]
    exact ⟨h, .refl size t⟩
  | some ov =>
    obtain ⟨q, -, -, hdeleted⟩ := h.foundOuter hlids hknown
    rw [hdeleted] at hfits ⊢
    exact h.pushOuter hfits ⟨rfl, rfl, rfl, rfl⟩ ⟨rfl, rfl⟩ (Or.inr ⟨flag_le_marker _, rfl, rfl⟩) h.known

/-! ### Runs -/

/-- The vertices of a partition are deleted behind their insertion. -/
def DeletesInserted (parser : IdParser) (pid : Nat) (log : List Record) : Prop :=
  ∀ before cmd after, log = before ++ .deleteVertex cmd :: after → parser.getFid cmd.vid = pid →
    cmd.vid ∈ gidsOf before

def CountsArriving (parser : IdParser) (pid vlabel : Nat) (log : List Record) (t : TableView) : Prop :=
  t.inner = (arriving parser pid vlabel (gidsOf log)).length

theorem DenseOffsets.of_append {gids more : List Nat} (h : DenseOffsets parser (gids ++ more)) :
    DenseOffsets parser gids := by
  intro pid label
  have hdense := congrArg (List.take (arriving parser pid label gids).length) (h pid label)
  rw [arriving_append, List.map_append, List.take_left' (by simp)] at hdense
  rw [hdense, List.take_range, List.length_append, Nat.min_eq_left (Nat.le_add_right _ _)]

theorem DenseOffsets.lt {gids : List Nat} (h : DenseOffsets parser gids)
    (hgid : gid ∈ arriving parser pid vlabel gids) :
    parser.getOffset gid < (arriving parser pid vlabel gids).length := by
  have hmem := @List.mem_map_of_mem _ _ _ _ parser.getOffset hgid
  rw [h pid vlabel] at hmem
  exact List.mem_range.mp hmem

theorem TableWords.step {r : Record} (hlids : LidsOk parser vlabel size)
    (hdense : DenseOffsets parser (gidsOf (log ++ r :: after)))
    (hdeletes : DeletesInserted parser pid (log ++ r :: after))
    (h : TableWords parser vlabel size t) (hcount : CountsArriving parser pid vlabel log t)
    (hstep : t.apply parser pid vlabel r = .ok t') (hfits : t'.use ≤ size) :
    TableWords parser vlabel size t' ∧ PartsGrow size t t' ∧ CountsArriving parser pid vlabel (log ++ [r]) t' := by
  unfold CountsArriving at hcount ⊢
  have hsame : arriving parser pid vlabel (gidsOf [r]) = [] → (.ok t : Except StoreFault TableView) = .ok t' →
      TableWords parser vlabel size t' ∧ PartsGrow size t t' ∧
        t'.inner = (arriving parser pid vlabel (gidsOf (log ++ [r]))).length := by
    intro hgids heq
    rw [← Except.ok.inj heq, gidsOf_append, arriving_append, hgids, List.append_nil]
    exact ⟨h, .refl size t, hcount⟩
  cases r with
  | addVertex cmd =>
    have hgids : gidsOf (log ++ .addVertex cmd :: after) = gidsOf log ++ cmd.vid :: gidsOf after := gidsOf_append _ _
    rw [hgids] at hdense
    unfold TableView.apply at hstep
    dsimp only at hstep
    split at hstep
    · rename_i hmine
      have hoffset : parser.getOffset cmd.vid = t.inner := by
        rw [hdense.offset, hmine.1, hmine.2, hcount]
      obtain ⟨hwords, hgrow⟩ := h.insert hoffset hstep hfits
      refine ⟨hwords, hgrow, ?_⟩
      unfold TableView.insert at hstep
      obtain ⟨vtable, -, hstep⟩ := bind_eq_ok hstep
      rw [← Except.ok.inj hstep, gidsOf_append, arriving_append]
      show t.inner + 1 = (_ ++ arriving parser pid vlabel [cmd.vid]).length
      rw [arriving_singleton, if_pos hmine, List.length_append, ← hcount]
      rfl
    · rename_i hnot
      refine hsame ?_ hstep
      show arriving parser pid vlabel [cmd.vid] = []
      rw [arriving_singleton, if_neg hnot]
  | addEdge cmd =>
    have hgids : gidsOf (log ++ [.addEdge cmd]) = gidsOf log := by
      rw [gidsOf_append]
      exact List.append_nil _
    unfold TableView.apply at hstep
    dsimp only at hstep
    split at hstep
    · split at hstep
      · obtain ⟨hwords, hgrow⟩ := h.meet hstep hfits
        refine ⟨hwords, hgrow, ?_⟩
        rw [hgids, ← hcount]
        unfold TableView.meet at hstep
        split at hstep
        · rw [← Except.ok.inj hstep]
        · dsimp only at hstep
          obtain ⟨vtable, -, hstep⟩ := bind_eq_ok hstep
          rw [← Except.ok.inj hstep]
      · exact hsame rfl hstep
    · exact hsame rfl hstep
  | deleteVertex cmd =>
    unfold TableView.apply at hstep
    dsimp only at hstep
    split at hstep
    · rename_i hlabel
      split at hstep
      · rename_i hmine
        have ht := (Except.ok.inj hstep).symm
        subst ht
        have hmem : cmd.vid ∈ arriving parser pid vlabel (gidsOf log) :=
          mem_arriving.mpr ⟨hdeletes log cmd after rfl hmine, hmine, hlabel⟩
        have hoffset : parser.getOffset cmd.vid < t.inner := by
          rw [hcount]
          rw [gidsOf_append] at hdense
          exact hdense.of_append.lt hmem
        obtain ⟨hwords, hgrow⟩ := h.deleteInner hlids hoffset hfits
        refine ⟨hwords, hgrow, ?_⟩
        rw [gidsOf_delete]
        exact hcount
      · have ht := (Except.ok.inj hstep).symm
        subst ht
        obtain ⟨hwords, hgrow⟩ := h.deleteOuter hlids hfits
        refine ⟨hwords, hgrow, ?_⟩
        rw [gidsOf_delete]
        unfold TableView.deleteOuter
        split <;> exact hcount
    · exact hsame rfl hstep
  | updateVertex cmd => exact hsame rfl hstep
  | deleteEdge cmd => exact hsame rfl hstep
  | bulkloadEnd epoch => exact hsame rfl hstep
  | unsupported op => exact hsame rfl hstep

theorem TableWords.run {records : List Record} (hlids : LidsOk parser vlabel size)
    (hdense : DenseOffsets parser (gidsOf (log ++ records))) (hdeletes : DeletesInserted parser pid (log ++ records))
    (h : TableWords parser vlabel size t) (hcount : CountsArriving parser pid vlabel log t)
    (hrun : records.foldlM (TableView.apply parser pid vlabel) t = .ok t') (hfits : t'.use ≤ size) :
    TableWords parser vlabel size t' ∧ PartsGrow size t t' ∧ CountsArriving parser pid vlabel (log ++ records) t' := by
  induction records generalizing t log with
  | nil =>
    rw [← Except.ok.inj hrun, List.append_nil]
    exact ⟨h, .refl size t, hcount⟩
  | cons r records ih =>
    rw [List.foldlM_cons] at hrun
    obtain ⟨t1, hfirst, hrest⟩ := bind_eq_ok hrun
    obtain ⟨h1, hgrow1, hcount1⟩ :=
      h.step hlids hdense hdeletes hcount hfirst (Nat.le_trans (use_le_run hrest) hfits)
    have hsplit : log ++ r :: records = log ++ [r] ++ records := by simp
    rw [hsplit] at hdense hdeletes ⊢
    obtain ⟨h2, hgrow2, hcount2⟩ := ih hdense hdeletes h1 hcount1 hrest
    exact ⟨h2, hgrow1.trans hgrow2, hcount2⟩

theorem tableWords_create (blank : Nat → Nat) (ht : t = {
      vtable := VTable.create blank size, keyLid := fun _ => none, ovg2l := fun _ => none, ovl2g := fun _ => 0
      deletedInner := 0, deletedOuter := 0, inner := 0, outer := 0 }) :
    TableWords parser vlabel size t ∧ CountsArriving parser pid vlabel [] t := by
  rw [ht]
  exact ⟨⟨rfl, rfl, rfl, Nat.zero_le _, partWords_nil, partWords_nil, fun gid ov hov => by cases hov⟩, rfl⟩

end steps

end Gart.Store

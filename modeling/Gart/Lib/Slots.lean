import Mathlib.Data.List.Nodup
import Mathlib.Logic.Function.Basic

/-!
# Maps in arrays

Keys that have slots of their own in an array keep what is written last for each of them.
-/

namespace Gart.Slots

section slots
variable {K T : Type} [DecidableEq K]

def write (slot : K → Nat) (data : List T) (w : K × T) : Option (List T) :=
  if slot w.1 < data.length then some (data.set (slot w.1) w.2) else none

def writeAll (slot : K → Nat) (data : List T) (writes : List (K × T)) : Option (List T) :=
  writes.foldlM (write slot) data

def lastWritten (k : K) (value : T) (writes : List (K × T)) : T :=
  writes.foldl (fun v w => if w.1 = k then w.2 else v) value

variable {slot : K → Nat} {keys : List K} {data : List T} {writes : List (K × T)} {value : K → T}

theorem getElem?_write {w : K × T} (hinside : ∀ k ∈ keys, slot k < data.length)
    (hdistinct : ∀ k ∈ keys, ∀ k' ∈ keys, slot k = slot k' → k = k') (hw : w.1 ∈ keys)
    (hvalue : ∀ k ∈ keys, data[slot k]? = some (value k)) :
    ∀ k ∈ keys, (data.set (slot w.1) w.2)[slot k]? = some (if w.1 = k then w.2 else value k) := by
  intro k hk
  by_cases hkey : w.1 = k
  · rw [if_pos hkey, ← hkey, List.getElem?_set_self (hinside w.1 hw)]
  · rw [if_neg hkey, List.getElem?_set_ne fun hslot => hkey (hdistinct w.1 hw k hk hslot)]
    exact hvalue k hk

theorem writeAll_spec (hinside : ∀ k ∈ keys, slot k < data.length)
    (hdistinct : ∀ k ∈ keys, ∀ k' ∈ keys, slot k = slot k' → k = k') (hwrites : ∀ w ∈ writes, w.1 ∈ keys)
    (hvalue : ∀ k ∈ keys, data[slot k]? = some (value k)) :
    ∃ data', writeAll slot data writes = some data' ∧ data'.length = data.length ∧
      ∀ k ∈ keys, data'[slot k]? = some (lastWritten k (value k) writes) := by
  induction writes generalizing data value with
  | nil => exact ⟨data, rfl, rfl, hvalue⟩
  | cons w writes ih =>
    have hw := hwrites w List.mem_cons_self
    obtain ⟨data', hrun, hlength, hreads⟩ := @ih (data.set (slot w.1) w.2) (fun k => if w.1 = k then w.2 else value k)
      (fun k hk => by rw [List.length_set]; exact hinside k hk) (fun w' hw' => hwrites w' (List.mem_cons_of_mem w hw'))
      (getElem?_write hinside hdistinct hw hvalue)
    refine ⟨data', ?_, hlength.trans List.length_set, hreads⟩
    unfold writeAll at hrun ⊢
    rw [List.foldlM_cons]
    unfold write at hrun ⊢
    rw [if_pos (hinside w.1 hw)]
    exact hrun

end slots

/-! ### Arrays as functions -/

section arrays
variable {K S T : Type} [DecidableEq S] {slot : K → S} {keys : List K} {a : S → T} {k : K} {s : S}

/-- Every key gets its value. -/
def fill (slot : K → S) (value : K → T) (keys : List K) (a : S → T) : S → T :=
  keys.foldl (fun a k => Function.update a (slot k) (value k)) a

theorem fill_other {value : K → T} (hs : s ∉ keys.map slot) : fill slot value keys a s = a s := by
  induction keys generalizing a with
  | nil => rfl
  | cons k keys ih =>
    rw [List.map_cons, List.mem_cons, not_or] at hs
    exact (ih hs.2).trans (Function.update_of_ne hs.1 _ _)

theorem fill_key {value : K → T} (hkeys : (keys.map slot).Nodup) (hk : k ∈ keys) :
    fill slot value keys a (slot k) = value k := by
  induction keys generalizing a with
  | nil => cases hk
  | cons k' keys ih =>
    obtain ⟨hnew, hrest⟩ := List.nodup_cons.mp hkeys
    rcases List.mem_cons.mp hk with rfl | hk
    · exact (fill_other hnew).trans (Function.update_self _ _ _)
    · exact ih hrest hk

theorem fill_congr {value value' : K → T} (h : ∀ k ∈ keys, value k = value' k) :
    fill slot value keys a = fill slot value' keys a := by
  unfold fill
  refine List.foldl_ext _ _ _ fun b k hk => ?_
  rw [h k hk]

/-- Every key's value is taken, and `zero` left in its place. -/
def drain (slot : K → S) (zero : T) (keys : List K) (a : S → T) : List (K × T) × (S → T) :=
  keys.foldl (fun st k => (st.1 ++ [(k, st.2 (slot k))], Function.update st.2 (slot k) zero)) ([], a)

theorem drain_spec {zero : T} (hkeys : (keys.map slot).Nodup) : drain slot zero keys a =
    (keys.map fun k => (k, a (slot k)), fun s => if s ∈ keys.map slot then zero else a s) := by
  have hall : ∀ (taken : List (K × T)) (a : S → T), keys.foldl (fun (st : List (K × T) × (S → T)) k =>
      (st.1 ++ [(k, st.2 (slot k))], Function.update st.2 (slot k) zero)) (taken, a) =
      (taken ++ keys.map fun k => (k, a (slot k)), fun s => if s ∈ keys.map slot then zero else a s) := by
    induction keys with
    | nil => simp
    | cons k keys ih =>
      intro taken a
      obtain ⟨hnew, hrest⟩ := List.nodup_cons.mp hkeys
      have hsame : ∀ k' ∈ keys, Function.update a (slot k) zero (slot k') = a (slot k') := fun k' hk' =>
        Function.update_of_ne (fun heq => hnew (List.mem_map.mpr ⟨k', hk', heq⟩)) _ _
      rw [List.foldl_cons, ih hrest]
      refine Prod.ext ?_ (funext fun s => ?_)
      · simp only [List.map_cons, List.append_assoc, List.singleton_append]
        rw [List.map_congr_left fun k' hk' => by rw [hsame k' hk']]
      · by_cases hs : s = slot k
        · simp [hs]
        · simp [hs, Function.update_of_ne]
  exact hall [] a

end arrays

end Gart.Slots

import Gart.Lib.NewestDelete
import Gart.Seggraph.EntrySearch

/-!
# The content of an adjacency list

The entries of a list are the cells of a log: an entry with the delete flag is a marker for an older position. A reader
yields the content of the log up to its epoch, and a deletion finds the newest cell of a vertex.
-/

namespace Gart.Fragment
open Gart.ByteMemory Gart.Outcome Gart.Seggraph Gart.MarkerLog

def entryCell (dst : Nat) : Cell Nat := if dst ≥ deleteFlag then .marker (dst - deleteFlag) else .data dst

def cellsOf (log : List LogEntry) : List (Cell Nat) := log.map fun entry => entryCell entry.edge.dst

section cells
variable {log : List LogEntry} {entry : LogEntry} {x k n p : Nat} {key : Nat → Nat}

theorem entryCell_data (h : x < deleteFlag) : entryCell x = .data x := if_neg (Nat.not_le.mpr h)

theorem entryCell_marker (h : p < deleteFlag) : entryCell (p ||| deleteFlag) = .marker p := by
  have hor : p ||| deleteFlag = deleteFlag + p := by
    rw [Nat.or_comm]
    exact (Nat.two_pow_add_eq_or_of_lt h 1).symm
  rw [hor]
  unfold entryCell
  rw [if_pos (Nat.le_add_right _ _), Nat.add_sub_cancel_left]

theorem cellsOf_append : cellsOf (log ++ [entry]) = cellsOf log ++ [entryCell entry.edge.dst] := List.map_append

theorem length_cellsOf : (cellsOf log).length = log.length := List.length_map _

theorem marksOf_log (j : Nat) : marksOf (log.map LogEntry.edge) j = cellMarks (cellsOf log) j := by
  unfold marksOf cellMarks cellsOf
  rw [List.getElem?_map, List.getElem?_map]
  cases log[j]? with
  | none => rfl
  | some entry =>
    show (if entry.edge.dst ≥ deleteFlag then some (entry.edge.dst - deleteFlag) else none) =
      (entryCell entry.edge.dst).mark
    unfold entryCell
    split <;> rfl

theorem valueAt_log {edge : Edge} (hedge : (log.map LogEntry.edge)[p]? = some edge)
    (hmark : cellMarks (cellsOf log) p = none) : valueAt (cellsOf log) p = some edge.dst := by
  rw [List.getElem?_map] at hedge
  obtain ⟨entry, hentry, rfl⟩ := Option.map_eq_some_iff.mp hedge
  unfold cellMarks cellsOf at hmark
  unfold valueAt cellsOf
  rw [List.getElem?_map, hentry] at hmark ⊢
  change (entryCell entry.edge.dst).mark = none at hmark
  show (entryCell entry.edge.dst).value = some entry.edge.dst
  unfold entryCell at hmark ⊢
  split
  · rename_i hflag
    rw [if_pos hflag] at hmark
    cases hmark
  · rfl

theorem newest_eq_newestAt {searched : Nat → Bool} (hsearched : ∀ x, searched x = true ↔ key x = k ∧ x < deleteFlag) :
    newest searched (log.map LogEntry.edge) n = newestAt key k (cellsOf log) n := by
  induction n with
  | zero => rfl
  | succ n ih =>
    unfold newest newestAt
    rw [ih]
    unfold valueAt
    rw [show (cellsOf log)[n]? = log[n]?.map fun entry => entryCell entry.edge.dst from List.getElem?_map,
      List.getElem?_map]
    cases log[n]? with
    | none => rfl
    | some entry =>
      dsimp only [Option.map_some, Option.bind_some]
      by_cases hflag : entry.edge.dst < deleteFlag
      · rw [entryCell_data hflag]
        show _ = if key entry.edge.dst = k then some n else newestAt key k (cellsOf log) n
        by_cases hkey : key entry.edge.dst = k
        · rw [if_pos ((hsearched _).mpr ⟨hkey, hflag⟩), if_pos hkey]
        · rw [if_neg fun hfound => hkey ((hsearched _).mp hfound).1, if_neg hkey]
      · have hmarker : entryCell entry.edge.dst = .marker (entry.edge.dst - deleteFlag) :=
          if_pos (Nat.not_lt.mp hflag)
        rw [hmarker, if_neg fun hfound => hflag ((hsearched _).mp hfound).2]
        rfl

theorem reads_values {tracked : Prop} {edges : List Edge} {cells : List (Cell Nat)} {positions : List Nat}
    {values : List (Nat × Bytes)} (h : List.Forall₂ (Reads tracked edges) positions values)
    (hvalue : ∀ p ∈ positions, ∀ edge, edges[p]? = some edge → valueAt cells p = some edge.dst) :
    values.map Prod.fst = positions.filterMap (valueAt cells) := by
  induction h with
  | nil => rfl
  | cons hread _ ih =>
    obtain ⟨edge, hedge, hdst, -⟩ := hread
    rw [List.map_cons, List.filterMap_cons_some (hvalue _ List.mem_cons_self edge hedge), hdst,
      ih fun p hp => hvalue p (List.mem_cons_of_mem _ hp)]

end cells

theorem readAdjList_content {tracked : Nat → Prop} {stride : Nat → Nat} {g : SegGraph} {own : Nat → Option Owner}
    {log : Log} (h : GraphInv tracked stride g own log fun _ _ _ => False) (v l : Nat) (d : Dir) {edgePropSize : Nat}
    (hwidth : edgePropSize ≤ stride l) (htrack : tracked l → edgePropSize = stride l) {readEpoch : Nat}
    (hsorted : (log v l d).Pairwise fun a b => a.epoch ≤ b.epoch)
    (hmarked : WellMarked (cellMarks (cellsOf (upToEpoch readEpoch (log v l d))))
      (upToEpoch readEpoch (log v l d)).length) :
    Ensures (readAdjList g v l d edgePropSize readEpoch)
      (fun values => values.map Prod.fst = content (cellsOf (upToEpoch readEpoch (log v l d)))) Never := by
  refine (readAdjList_spec h v l d hwidth htrack readEpoch).imp fun values hvalues => ?_
  have htake := upToEpoch_eq_take (e := readEpoch) hsorted
  generalize log v l d = entries at hsorted hmarked hvalues htake ⊢
  generalize hlen : (upToEpoch readEpoch entries).length = n at hmarked hvalues htake
  have hcells : cellsOf (upToEpoch readEpoch entries) = (cellsOf entries).take n := by
    rw [htake]
    exact List.map_take
  have hbelow : ∀ p < n, (cellsOf (upToEpoch readEpoch entries))[p]? = (cellsOf entries)[p]? := by
    intro p hp
    rw [hcells, List.getElem?_take, if_pos hp]
  have hmarks : ∀ p < n,
      marksOf (entries.map LogEntry.edge) p = cellMarks (cellsOf (upToEpoch readEpoch entries)) p := by
    intro p hp
    rw [marksOf_log]
    unfold cellMarks
    rw [hbelow p hp]
  rw [yields_eq_liveDown (hmarked.congr hmarks), liveDown_congr hmarks (Nat.le_refl n)] at hvalues
  have hread := @reads_values _ _ (cellsOf (upToEpoch readEpoch entries)) _ _ hvalues ?_
  · rw [hread]
    unfold content
    rw [length_cellsOf, hlen]
  · intro p hp edge hedge
    obtain ⟨hlt, hlive⟩ := mem_liveDown.mp hp
    have hmark : cellMarks (cellsOf entries) p = none := by
      rw [← marksOf_log, hmarks p hlt]
      exact hlive.1
    have hvalue := valueAt_log hedge hmark
    unfold valueAt at hvalue ⊢
    rw [hbelow p hlt]
    exact hvalue

end Gart.Fragment

import Gart.Converter.Stream

/-!
# Lines of the unified log

`LogEntry::to_string`: the fields of an entry and its offset, joined by a
delimiter that nothing escapes. The offset of the last line is where a converter
that starts again goes on.
-/

namespace Gart.Converter
open Gart.Decimal

/-- `append_str` (`parser.cc:42-48`) -/
def appendStr (delimiter : Char) (base append : String) : String :=
  if base = "" then append else base ++ String.singleton delimiter ++ append

def opText : OpType → String
  | .insert => "add"
  | .update => "update"
  | .delete => "delete"
  | _ => "unknown"

def entityText : EntityType → String
  | .vertex => "vertex"
  | .edge => "edge"

namespace LogEntry

/-- The ids in the order of the line; a gid that was never set reads as `unset`. -/
def idTexts (unset : Int) (e : LogEntry) : List String :=
  match e.entityType with
  | .vertex => [toString (toUInt64 (e.vertexGid.getD unset)), e.externalId]
  | .edge =>
    [toString e.elabel, toString (e.srcGid.getD unset), toString (e.dstGid.getD unset),
      e.srcExternalId, e.dstExternalId]

/-- `LogEntry::to_string` (`parser.cc:100-142`) -/
def toText (unset : Int) (e : LogEntry) (binlogOffset : Int) : String :=
  if e.opType = .bulkloadEnd then
    appendStr '|' (appendStr '|' "bulkload_end" (toString e.epoch)) (toString binlogOffset)
  else
    let base := appendStr '_' (opText e.opType) (entityText e.entityType)
    let base := appendStr '|' base (toString e.epoch)
    let base := (e.idTexts unset).foldl (appendStr '|') base
    let base := e.properties.foldl (appendStr '|') base
    appendStr '|' base (toString binlogOffset)

def opName (e : LogEntry) : String :=
  if e.opType = .bulkloadEnd then "bulkload_end"
  else appendStr '_' (opText e.opType) (entityText e.entityType)

def bodyTexts (unset : Int) (e : LogEntry) : List String :=
  if e.opType = .bulkloadEnd then [] else e.idTexts unset ++ e.properties

end LogEntry

/-- What follows the last delimiter of a line, or all of a line without one. -/
def lastField (line : String) : String := String.ofList ((line.toList.splitOn '|').getLastD [])

/-! ### The fields of a line -/

section fields
variable {unset offset : Int} {e : LogEntry} {base : String} {texts : List String}

theorem toList_appendStr {d : Char} (h : base ≠ "") (text : String) :
    (appendStr d base text).toList = base.toList ++ d :: text.toList := by
  unfold appendStr
  rw [if_neg h]
  simp

theorem appendStr_ne {d : Char} (h : base ≠ "") (text : String) : appendStr d base text ≠ "" := by
  intro hempty
  have hlist := toList_appendStr (d := d) h text
  rw [hempty] at hlist
  simp at hlist

theorem splitOn_foldl (h : base ≠ "") :
    (texts.foldl (appendStr '|') base).toList.splitOn '|' =
      base.toList.splitOn '|' ++ texts.flatMap fun text => text.toList.splitOn '|' := by
  induction texts generalizing base with
  | nil => simp
  | cons text rest ih =>
    rw [List.foldl_cons, ih (appendStr_ne h text), toList_appendStr h, List.splitOn_append_cons_self,
      List.flatMap_cons, List.append_assoc]

theorem opName_ne : e.opName ≠ "" := by
  unfold LogEntry.opName
  cases e.opType <;> cases e.entityType <;> decide

theorem toText_eq : e.toText unset offset =
    (toString e.epoch :: (e.bodyTexts unset ++ [toString offset])).foldl (appendStr '|') e.opName := by
  unfold LogEntry.toText LogEntry.bodyTexts LogEntry.opName
  split
  · rfl
  · simp only [List.foldl_cons, List.foldl_append, List.foldl_nil]

theorem splitOn_opName : e.opName.toList.splitOn '|' = [e.opName.toList] := by
  unfold LogEntry.opName
  cases e.opType <;> cases e.entityType <;> decide +kernel

theorem splitOn_int (n : Int) : (toString n).toList.splitOn '|' = [(toString n).toList] := by
  apply List.splitOn_eq_singleton
  rw [Int.toString_eq_repr, Int.repr_eq_if]
  have hdigits : ∀ m : Nat, '|' ∉ m.repr.toList := by
    intro m hmem
    rw [Nat.toList_repr] at hmem
    have hdigit := Nat.isDigit_of_mem_toDigits (by decide) (by decide) hmem
    exact absurd hdigit (by decide)
  split
  · exact hdigits _
  · simp only [String.toList_append, List.mem_append, not_or]
    exact ⟨by decide, hdigits _⟩

theorem splitOn_nat (n : Nat) : (toString n).toList.splitOn '|' = [(toString n).toList] := by
  have hsame : toString n = toString (n : Int) := rfl
  rw [hsame]
  exact splitOn_int n

theorem splitOn_toText : (e.toText unset offset).toList.splitOn '|' =
    e.opName.toList :: (toString e.epoch).toList ::
      ((e.bodyTexts unset).flatMap (fun text => text.toList.splitOn '|') ++
        [(toString offset).toList]) := by
  rw [toText_eq, splitOn_foldl opName_ne, splitOn_opName, List.flatMap_cons, List.flatMap_append,
    List.flatMap_singleton, splitOn_int, splitOn_int]
  rfl

theorem lastField_toText : lastField (e.toText unset offset) = toString offset := by
  unfold lastField
  rw [splitOn_toText, ← List.cons_append, ← List.cons_append, List.getLastD_concat]
  exact String.ofList_toList

end fields

end Gart.Converter

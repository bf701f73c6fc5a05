import Gart.Lib.Decimal

/-!
# JSON rows and number conversions

The accessors of `vineyard::json` that the converter uses, and the standard
library's conversions between numbers and texts. An exception that nothing
catches ends the process.
-/

namespace Gart.Converter
open Gart.Decimal

inductive Fault
  | parseJsonError
  | operationError
  | typeError
  | invalidArgument
  | outOfRange
  | divisionByZero
  | undefined
  deriving DecidableEq

inductive Json
  | null
  | boolean (b : Bool)
  | integer (n : Int)
  /-- A number with the text `std::to_string` prints for it as a `float` and its whole part. -/
  | float (printed : String) (whole : Int)
  | string (s : String)
  | array (items : List Json)
  | object (members : List (String × Json))

namespace Json

/-- `operator[]`, which adds a missing member as null. -/
def index (key : String) : Json → Except Fault Json
  | object members => .ok ((members.lookup key).getD null)
  | null => .ok null
  | _ => .error .typeError

/-- `operator[]` on a const value. -/
def constIndex (key : String) : Json → Except Fault Json
  | object members =>
    match members.lookup key with
    | some value => .ok value
    | none => .error .undefined
  | _ => .error .typeError

/-- `get<string>()` -/
def getString : Json → Except Fault String
  | string s => .ok s
  | _ => .error .typeError

/-- `get<int>()` -/
def getInt : Json → Except Fault Int
  | integer n => .ok (wrap 32 n)
  | float _ whole => .ok (wrap 32 whole)
  | boolean b => .ok (if b then 1 else 0)
  | _ => .error .typeError

/-- `value(key, other)` for an `int` -/
def valueInt (key : String) (other : Int) : Json → Except Fault Int
  | object members =>
    match members.lookup key with
    | some value => value.getInt
    | none => .ok other
  | _ => .error .typeError

def isNull : Json → Bool
  | null => true
  | _ => false

end Json

/-- `std::stoi` -/
def stoi (s : String) : Except Fault Int :=
  match strtol s with
  | none => .error .invalidArgument
  | some n => if InRange 32 n then .ok n else .error .outOfRange

/-- `std::stoll` -/
def stoll (s : String) : Except Fault Int :=
  match strtol s with
  | none => .error .invalidArgument
  | some n => if InRange 64 n then .ok n else .error .outOfRange

theorem inRange_wrap (n : Int) : InRange 64 (wrap 64 n) := by
  have hle : -2 ^ 63 ≤ Int.bmod n (2 ^ 64) := Int.le_bmod (by decide)
  have hlt : Int.bmod n (2 ^ 64) < 2 ^ 63 := Int.bmod_lt (by decide)
  exact ⟨hle, hlt⟩

theorem stoll_toString {n : Int} (h : InRange 64 n) : stoll (toString n) = .ok n := by
  unfold stoll
  rw [strtol_repr]
  exact if_pos h

theorem stoi_toString {n : Int} (h : InRange 32 n) : stoi (toString n) = .ok n := by
  unfold stoi
  rw [strtol_repr]
  exact if_pos h

/-! ### Transaction numbers -/

def afterLastColon : List Char → Option (List Char)
  | [] => none
  | c :: cs =>
    match afterLastColon cs with
    | some rest => some rest
    | none => if c = ':' then some cs else none

/-- `extract_tx_id`, for a GTID `source_id:transaction_id` (`parser.cc:69-85`). -/
def extractTxId (gtid : String) : Int :=
  match afterLastColon gtid.toList with
  | none => -1
  | some rest =>
    match stoi (String.ofList rest) with
    | .ok n => n
    | .error _ => -1

example : extractTxId "3e11fa47:23" = 23 := by decide +kernel
example : extractTxId "3e11fa47" = -1 := by decide +kernel

end Gart.Converter

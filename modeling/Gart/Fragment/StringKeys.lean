import Gart.Fragment.EdgeProps
import Gart.Fragment.VertexProps
import Gart.Store.StringRoom

/-!
# The keys of strings

The store packs offset and length of a string into a key, and the fragment and the iterators of edges take them apart
again. The length has sixteen bits.
-/

namespace Gart.Fragment
open Gart.ByteMemory Gart.Outcome Gart.Store

/-- Some calls of `put_cstring`, with the keys that they return. -/
def putAll : StringBuffer → List Bytes → Except StoreFault (List Nat × StringBuffer)
  | b, [] => .ok ([], b)
  | b, text :: texts => do
    let (key, b) ← b.putCstring text
    let (keys, b) ← putAll b texts
    return (key :: keys, b)

/-- `get_string`, `GetData` and `get_data` give the text for its key. -/
structure Decodes (b : StringBuffer) (key : Nat) (text : Bytes) : Prop where
  store : b.getString key = text
  vertex : ∀ (r : VertexReader) (vOffset propId : Nat) (m : Memory) (addr : Nat), r.stringBuffer = b.content →
    r.dataAddr vOffset propId = some (m, addr) → load m addr 8 = key → r.getString vOffset propId = some text
  edge : ∀ (r : EdgeReader) (propId addr : Nat), r.stringBuffer = b.content →
    r.dataAddr propId = some addr → load r.memory addr 8 = key → r.getString propId = some text

section keys
variable {b b' b'' : StringBuffer} {key : Nat} {text : Bytes} {texts : List Bytes} {keys : List Nat}

theorem decodes_of_holds (h : b.Holds key text) : Decodes b key text where
  store := h.getString
  vertex r vOffset propId m addr hbuffer haddr hload := by
    have hlong : r.getLong vOffset propId = some (key : Int) := by
      have hvalue := loadInt_of_lt (hload ▸ h.lt)
      rw [hload] at hvalue
      rw [← hvalue]
      exact congrArg (Option.map fun p : Memory × Nat => loadInt 64 p.1 p.2) haddr
    unfold VertexReader.getString
    rw [hlong, hbuffer]
    exact congrArg some (read_key h)
  edge r propId addr hbuffer haddr hload := by
    have hlong : r.getLong propId = some (key : Int) := by
      have hvalue := loadInt_of_lt (hload ▸ h.lt)
      rw [hload] at hvalue
      rw [← hvalue]
      exact congrArg (Option.map (loadInt 64 r.memory)) haddr
    unfold EdgeReader.getString
    rw [hlong, hbuffer]
    exact congrArg some (read_key h)

theorem getString_length (h : b.putCstring text = .ok (key, b')) :
    (b''.getString key).length = text.length % 2 ^ 16 := by
  obtain ⟨-, hkey, -⟩ := StringBuffer.putCstring_eq h
  have hmask : ∀ x : Nat, x &&& 0xffff = x % 2 ^ 16 := fun x => Nat.and_two_pow_sub_one_eq_mod x 16
  have hzero : (b.size <<< 16) % 2 ^ 16 = 0 := by
    rw [Nat.shiftLeft_eq]
    exact Nat.mul_mod_left _ _
  unfold StringBuffer.getString
  rw [read_length, hmask, hkey, Nat.mod_mod_of_dvd _ (by decide : 2 ^ 16 ∣ 2 ^ 64), Nat.or_mod_two_pow, hzero,
      Nat.zero_or]

theorem not_decodes_of_long (h : b.putCstring text = .ok (key, b')) (hlong : ¬ text.length < 2 ^ 16) :
    ¬ Decodes b'' key text := by
  intro hdecodes
  have hlength := @getString_length b b' b'' key text h
  rw [hdecodes.store] at hlength
  omega

theorem putAll_extends (h : putAll b texts = .ok (keys, b')) : b.Extends b' := by
  induction texts generalizing b keys with
  | nil =>
    obtain ⟨-, rfl⟩ := Prod.mk.inj (Except.ok.inj h)
    exact StringBuffer.Extends.refl b
  | cons text texts ih =>
    obtain ⟨⟨key, b1⟩, hput, h⟩ := bind_eq_ok h
    obtain ⟨⟨rest, b2⟩, hrest, h⟩ := bind_eq_ok h
    obtain ⟨-, rfl⟩ := Prod.mk.inj (Except.ok.inj h)
    exact (StringBuffer.putCstring_extends hput).trans (ih hrest)

/-- Behind any calls, each key decodes to its string if and only if the length of the string has sixteen bits. -/
theorem keys_decode_iff (b b' : StringBuffer) (texts : List Bytes) (keys : List Nat)
    (h : putAll b texts = .ok (keys, b')) :
    List.Forall₂ (fun text key => Decodes b' key text ↔ text.length < 2 ^ 16) texts keys := by
  induction texts generalizing b keys with
  | nil =>
    obtain ⟨rfl, -⟩ := Prod.mk.inj (Except.ok.inj h)
    exact .nil
  | cons text texts ih =>
    obtain ⟨⟨key, b1⟩, hput, h⟩ := bind_eq_ok h
    obtain ⟨⟨rest, b2⟩, hrest, h⟩ := bind_eq_ok h
    obtain ⟨rfl, rfl⟩ := Prod.mk.inj (Except.ok.inj h)
    refine .cons ⟨fun hdecodes => ?_, fun hshort => ?_⟩ (ih b1 rest hrest)
    · by_contra hlong
      exact not_decodes_of_long hput hlong hdecodes
    · exact decodes_of_holds ((StringBuffer.putCstring_spec hshort hput).2.extends (putAll_extends hrest))

end keys

/-- A buffer of `2 ^ 17` bytes. -/
def roomyBuffer : StringBuffer := { capacity := 2 ^ 17, content := fun _ => 0, capacity_le := by decide }

theorem keys_decode_iff_roomyBuffer : ∃ keys b', putAll roomyBuffer [[71, 65], [], [82]] = .ok (keys, b') ∧
    List.Forall₂ (fun text key => Decodes b' key text ↔ text.length < 2 ^ 16) [[71, 65], [], [82]] keys := by
  refine ⟨_, _, rfl, ?_⟩
  exact keys_decode_iff roomyBuffer _ [[71, 65], [], [82]] _ rfl

/-- A string of 65536 characters has the key of an empty one. -/
theorem longString_not_decoded : ¬ ∀ (b b' : StringBuffer) (text : Bytes) (key : Nat),
    b.putCstring text = .ok (key, b') → b'.getString key = text := by
  intro h
  obtain ⟨text, htext⟩ : ∃ text : Bytes, text.length = 2 ^ 16 := ⟨List.replicate (2 ^ 16) 97, List.length_replicate⟩
  have hput := @StringBuffer.storePut_of_room roomyBuffer text (by omega) (by decide) (by
    unfold StringBuffer.NoRoom StringBuffer.newSize
    rw [htext]
    decide)
  have hlength := congrArg List.length (h _ _ _ _ hput)
  rw [getString_length hput, htext] at hlength
  exact absurd hlength (by decide)

end Gart.Fragment

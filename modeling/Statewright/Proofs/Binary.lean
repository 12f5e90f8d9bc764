import Mathlib
import Statewright.Proofs.Instant
import Statewright.Proofs.Utf8
import Statewright.Snapshot.Binary

/-!
# Binary snapshots: reading what was written

The readers of numbers, texts and characters take exactly what their writers put and leave the bytes
after it. The only condition is that lengths fit the eight bytes that they are written in.
-/

open Statewright.Fallible

namespace Statewright.Snapshot.Binary

/-- What the bytes that `put` writes for a value are read as, whatever follows them. -/
def Reads {α : Type} (get : Read α) (put : α → List UInt8) (a : α) : Prop :=
  ∀ rest, get (put a ++ rest) = .ok (a, rest)

/-! ## Numbers -/

theorem length_littleEndian (width n : Nat) : (littleEndian width n).length = width := by
  induction width generalizing n with
  | zero => rfl
  | succ width ih => rw [littleEndian, List.length_cons, ih]

theorem ofLittleEndian_littleEndian (width n : Nat) :
    ofLittleEndian (littleEndian width n) = n % 256 ^ width := by
  induction width generalizing n with
  | zero => rw [littleEndian, ofLittleEndian, Nat.pow_zero, Nat.mod_one]
  | succ width ih =>
    have hbyte : n % 256 < 256 := Nat.mod_lt _ (by decide)
    rw [littleEndian, ofLittleEndian, Text.Utf8.toNat_byte hbyte, ih, Nat.pow_succ,
      Nat.mul_comm (256 ^ width), Nat.mod_mul]

theorem getNumber_littleEndian {width n : Nat} (h : n < 256 ^ width) (rest : List UInt8) :
    getNumber width (littleEndian width n ++ rest) = .ok (n, rest) := by
  have hlength := length_littleEndian width n
  -- What was written is long enough to be read.
  have hlong : ¬ (littleEndian width n ++ rest).length < width := by
    rw [List.length_append, hlength]
    omega
  rw [getNumber, if_neg hlong, List.take_left' hlength, List.drop_left' hlength,
    ofLittleEndian_littleEndian, Nat.mod_eq_of_lt h]

/-! ## Texts -/

theorem getBytes_putBytes {bytes : List UInt8} (h : bytes.length < UInt64.size) :
    Reads getBytes putBytes bytes := by
  intro rest
  have hlong : ¬ (bytes ++ rest).length < bytes.length := by
    rw [List.length_append]
    omega
  rw [putBytes, List.append_assoc, getBytes, read_bind (getNumber_littleEndian (by omega) _),
    if_neg hlong, List.take_left, List.drop_left]

theorem getText_putText {s : String} (h : (Text.Utf8.encode s.toList).length < UInt64.size) :
    Reads getText putText s := by
  intro rest
  rw [putText, getText, read_bind (getBytes_putBytes h rest), Text.Utf8.decode_encode]
  show Except.ok (String.ofList s.toList, rest) = _
  rw [String.ofList_toList]

theorem getChar_utf8EncodeChar : ∀ c, Reads getChar String.utf8EncodeChar c := by
  intro c rest
  obtain ⟨b, bytes, hbytes, hfront⟩ := Text.Utf8.front_encodeChar c
  rw [hbytes, List.cons_append, getChar, hfront]

theorem accept_ok {α ε : Type} {reason : ε → String} {x : Except ε α} {a : α} (h : x = .ok a)
    (bytes : List UInt8) : accept reason x bytes = .ok (a, bytes) := by
  rw [h]
  rfl

/-! ## Snapshots -/

/-- A name whose length fits its field. -/
def NameFits (q : StateName) : Prop :=
  (Text.Utf8.encode q.text.toList).length < UInt64.size

/-- The lengths of all lists and names fit the eight bytes that they are written in, as those of
everything in a 64-bit memory do. -/
structure Fits (c : Snapshot) : Prop where
  symbols : c.symbols.length < UInt64.size
  states : c.states.length < UInt64.size
  finals : c.finals.length < UInt64.size
  transitions : c.transitions.length < UInt64.size
  names : ∀ q ∈ c.states ++ c.mentionedStates, NameFits q

theorem length_encode_text_lt (t : Instant) :
    (Text.Utf8.encode t.text.toList).length < UInt64.size := by
  have hbytes := Text.Utf8.length_encode_le t.text.toList
  have hchars := t.length_text_le
  have hsize : 4 * 33 < UInt64.size := by decide
  omega

end Statewright.Snapshot.Binary

import Statewright.Machine.Script
import Statewright.Proofs.BinaryLayout
import Statewright.Proofs.SpelledJson
import Statewright.Proofs.WellFormed
import Statewright.Session.Basic
import Statewright.Snapshot.File

/-!
# What is printed of a machine

A machine is printed in scripts, listings and snapshots. All of them print one spelling, and in it
the symbols, the final states and the transitions come in ascending order of the bytes that they are
written in, each of them once.
-/

namespace Statewright

/-! ## Byte order -/

namespace Text.Utf8

theorem toNat_lt_of_isNameChar {c : Char} (h : isNameChar c = true) : c.toNat < 128 := by
  rw [isNameChar_iff] at h
  omega

theorem encodeChar_of_isNameChar {c : Char} (h : isNameChar c = true) :
    String.utf8EncodeChar c = [c.val.toUInt8] := by
  have hc : c.val ≤ 127 := by
    have hlt := toNat_lt_of_isNameChar h
    rw [UInt32.le_iff_toNat_le]
    show c.toNat ≤ 127
    omega
  apply String.utf8EncodeChar_eq_singleton
  rw [Char.utf8Size]
  exact if_pos hc

theorem toUInt8_lt_of_isNameChar {c d : Char} (hc : isNameChar c = true) (hd : isNameChar d = true)
    (hlt : c < d) : c.val.toUInt8 < d.val.toUInt8 := by
  have hcode : c.toNat < d.toNat := hlt
  have hc128 := toNat_lt_of_isNameChar hc
  have hd128 := toNat_lt_of_isNameChar hd
  rw [UInt8.lt_iff_toNat_lt, UInt32.toNat_toUInt8, UInt32.toNat_toUInt8]
  show c.toNat % 256 < d.toNat % 256
  omega

-- Characters that have a byte each are in the order of their bytes.
theorem encode_lt_encode {cs ds : List Char} (hcs : ∀ c ∈ cs, isNameChar c = true)
    (hds : ∀ d ∈ ds, isNameChar d = true) (hlt : cs < ds) : encode cs < encode ds := by
  induction cs generalizing ds with
  | nil =>
    cases ds with
    | nil => cases hlt
    | cons d ds =>
      rw [encode_nil, encode_cons, encodeChar_of_isNameChar (hds d List.mem_cons_self)]
      exact List.nil_lt_cons _ _
  | cons c cs ih =>
    cases ds with
    | nil => cases hlt
    | cons d ds =>
      obtain ⟨hc, hcs'⟩ := List.forall_mem_cons.mp hcs
      obtain ⟨hd, hds'⟩ := List.forall_mem_cons.mp hds
      rw [encode_cons, encode_cons, encodeChar_of_isNameChar hc, encodeChar_of_isNameChar hd,
        List.singleton_append, List.singleton_append, List.cons_lt_cons_iff]
      rcases List.cons_lt_cons_iff.mp hlt with hfirst | ⟨rfl, hrest⟩
      · exact .inl (toUInt8_lt_of_isNameChar hc hd hfirst)
      · exact .inr ⟨rfl, ih hcs' hds' hrest⟩

end Text.Utf8

/-- The bytes that a state is written in. -/
def StateName.bytes (q : StateName) : List UInt8 :=
  Text.Utf8.encode q.text.toList

/-- The bytes that a symbol is written in. -/
def Symbol.bytes (s : Symbol) : List UInt8 :=
  Text.Utf8.encode [s.char]

theorem StateName.bytes_lt_bytes {q r : StateName} (h : compare q r = .lt) : q.bytes < r.bytes := by
  have hlt : q.text < r.text := compareOfLessAndEq_eq_lt.mp h
  exact Text.Utf8.encode_lt_encode q.canonical r.canonical hlt

theorem Symbol.bytes_lt_bytes {s t : Symbol} (h : compare s t = .lt) : s.bytes < t.bytes := by
  have hlt : s.char < t.char := compareOfLessAndEq_eq_lt.mp h
  apply Text.Utf8.encode_lt_encode
  · exact List.forall_mem_singleton.mpr s.canonical
  · exact List.forall_mem_singleton.mpr t.canonical
  · exact List.cons_lt_cons_iff.mpr (.inl hlt)

namespace Machine

variable {m : Machine}

/-- What a machine lists comes in ascending order of bytes, each entry once: symbols, final states,
and transitions by their source and then their symbol. -/
structure InByteOrder (m : Machine) : Prop where
  symbols : m.symbols.Pairwise (fun s t => s.bytes < t.bytes)
  finals : m.finals.Pairwise (fun q r => q.bytes < r.bytes)
  transitions : m.transitions.Pairwise (fun t u =>
    t.source.bytes < u.source.bytes ∨ (t.source = u.source ∧ t.symbol.bytes < u.symbol.bytes))

theorem WellFormed.inByteOrder (h : m.WellFormed) : m.InByteOrder where
  symbols := h.symbols_ascending.imp Symbol.bytes_lt_bytes
  finals := h.finals_ascending.imp StateName.bytes_lt_bytes
  transitions := by
    apply h.transitions_ascending.imp
    intro t u hlt
    have hthen : (compare t.source u.source).then (compare t.symbol u.symbol) = .lt := hlt
    rcases Ordering.then_eq_lt.mp hthen with hsource | ⟨hsource, hsymbol⟩
    · exact .inl (StateName.bytes_lt_bytes hsource)
    · exact .inr ⟨Std.LawfulEqOrd.eq_of_compare hsource, Symbol.bytes_lt_bytes hsymbol⟩

end Machine

/-! ## Spellings -/

def SpelledTransition.text (t : SpelledTransition) : String :=
  s!"{t.symbol} {t.source} {t.target}"

namespace Spelling

open Machine (scriptLine)

/-- The script in which a spelling is printed. -/
def toScript (r : Spelling) : String :=
  scriptLine "SYMBOLS" (" ".intercalate (r.symbols.map Char.toString)) ++
  scriptLine "STATES" (" ".intercalate r.states) ++
  scriptLine "INITIAL-STATE" (r.initial.getD "") ++
  scriptLine "FINAL-STATES" (" ".intercalate r.finals) ++
  scriptLine "TRANSITIONS" (", ".intercalate (r.transitions.map SpelledTransition.text))

/-- What is spelled comes in ascending order of bytes, each entry once: symbols, final states, and
transitions by their source and then their symbol. -/
structure InByteOrder (r : Spelling) : Prop where
  symbols : r.symbols.Pairwise (fun a b => Text.Utf8.encode [a] < Text.Utf8.encode [b])
  finals : r.finals.Pairwise (fun a b => Text.Utf8.encode a.toList < Text.Utf8.encode b.toList)
  transitions : r.transitions.Pairwise (fun t u =>
    Text.Utf8.encode t.source.toList < Text.Utf8.encode u.source.toList ∨
      (t.source = u.source ∧ Text.Utf8.encode [t.symbol] < Text.Utf8.encode [u.symbol]))

end Spelling

theorem Machine.InByteOrder.spelling {m : Machine} (h : m.InByteOrder) (stamp : Stamp) :
    (Snapshot.capture stamp m).spelling.InByteOrder where
  symbols := List.pairwise_map.mpr h.symbols
  finals := List.pairwise_map.mpr h.finals
  transitions := by
    apply List.pairwise_map.mpr
    apply h.transitions.imp
    rintro t u (hsource | ⟨hsource, hsymbol⟩)
    · exact .inl hsource
    · exact .inr ⟨congrArg StateName.text hsource, hsymbol⟩

/-- Whether a machine is printed as a spelling says: entry for entry, in its script, its listings
and its snapshots with a stamp. -/
structure Machine.PrintsAs (m : Machine) (stamp : Stamp) (r : Spelling) : Prop where
  script : m.script = r.toScript
  symbols : Session.listing m.symbols =
    "[" ++ ", ".intercalate (r.symbols.map Char.toString) ++ "]"
  finals : Session.listing m.finals = "[" ++ ", ".intercalate r.finals ++ "]"
  transitions : Session.listing m.transitions =
    "[" ++ ", ".intercalate (r.transitions.map SpelledTransition.text) ++ "]"
  binary : (Snapshot.capture stamp m).encode .binary = Snapshot.Binary.putSpelling r
  json : (Snapshot.capture stamp m).encode .json = Text.Utf8.encode r.toJson.toList

/-- A machine is printed as its snapshot is spelled. -/
theorem Machine.printsAs (m : Machine) (stamp : Stamp) :
    m.PrintsAs stamp (Snapshot.capture stamp m).spelling := by
  have htransitions : (Snapshot.capture stamp m).spelling.transitions.map SpelledTransition.text =
      m.transitions.map toString := List.map_map
  have hsymbols : (Snapshot.capture stamp m).spelling.symbols.map Char.toString =
      m.symbols.map toString := List.map_map
  constructor
  case script =>
    have hinitial : (Snapshot.capture stamp m).spelling.initial = m.initial.map toString := rfl
    rw [Spelling.toScript, htransitions, hsymbols, hinitial]
    rfl
  case symbols =>
    rw [hsymbols]
    rfl
  case finals => rfl
  case transitions =>
    rw [htransitions]
    rfl
  case binary => exact Snapshot.Binary.encode_eq_putSpelling _
  case json => rw [Spelling.toJson_spelling, Snapshot.encode]

end Statewright

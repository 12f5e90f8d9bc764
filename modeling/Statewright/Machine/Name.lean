import Statewright.Text.Ascii

/-!
# Names of states and symbols

A state is named by one or more ASCII letters and digits, a symbol by exactly one. Case does not
matter: names are held in upper case, so that two names are the same exactly when they are equal.
-/

namespace Statewright

structure StateName where
  text : String
  nonempty : text ≠ ""
  canonical : ∀ c ∈ text.toList, Text.isNameChar c = true
  deriving DecidableEq

structure Symbol where
  char : Char
  canonical : Text.isNameChar char = true
  deriving DecidableEq

inductive NameError where
  | symbol (raw : String)
  /-- Empty, or with a character that is no ASCII letter or digit. -/
  | state (raw : String)
  deriving DecidableEq, Repr

def NameError.message : NameError → String
  | .symbol raw => s!"Invalid symbol '{raw}': a symbol must be a single alphanumeric character"
  | .state raw => s!"Invalid state '{raw}': a state must be a non-empty alphanumeric name"

namespace StateName

instance : ToString StateName := ⟨text⟩

instance : Ord StateName := ⟨compareOn text⟩

def parse (raw : String) : Except NameError StateName :=
  if h : raw ≠ "" ∧ raw.toList.all Char.isAlphanum = true then
    .ok {
      text := Text.upper raw
      nonempty := fun he => h.1 (Text.upper_eq_empty_iff.mp he)
      canonical := by
        intro c hc
        rw [Text.toList_upper, List.mem_map] at hc
        obtain ⟨d, hd, rfl⟩ := hc
        exact Text.isNameChar_toUpper (List.all_eq_true.mp h.2 d hd) }
  else
    .error (.state raw)

end StateName

namespace Symbol

instance : ToString Symbol := ⟨fun s => s.char.toString⟩

instance : Ord Symbol := ⟨compareOn char⟩

def ofChar (c : Char) : Except NameError Symbol :=
  if h : c.isAlphanum = true then
    .ok ⟨c.toUpper, Text.isNameChar_toUpper h⟩
  else
    .error (.symbol c.toString)

/-- Reads a text of one character as a symbol. -/
def parse (raw : String) : Except NameError Symbol :=
  match raw.toList with
  | [c] => ofChar c
  | _ => .error (.symbol raw)

end Symbol

instance : Std.TransOrd StateName := inferInstanceAs (Std.TransCmp (compareOn StateName.text))

instance : Std.LawfulEqOrd StateName where
  eq_of_compare {a b} h := by
    cases a; cases b
    simp only [StateName.mk.injEq]
    exact Std.LawfulEqOrd.eq_of_compare h

instance : Std.TransOrd Symbol := inferInstanceAs (Std.TransCmp (compareOn Symbol.char))

instance : Std.LawfulEqOrd Symbol where
  eq_of_compare {a b} h := by
    cases a; cases b
    simp only [Symbol.mk.injEq]
    exact Std.LawfulEqOrd.eq_of_compare h

end Statewright

import Statewright.Machine.Basic

/-!
# The script of a machine

A machine is written as statements of the command language, one a line. Running the script rebuilds
the definition. A section without entries is left out, so the empty machine has the empty script.
-/

namespace Statewright.Machine

/-- One statement on a line of its own, or nothing for an empty list of arguments. -/
def scriptLine (keyword arguments : String) : String :=
  if arguments = "" then "" else s!"{keyword} {arguments};\n"

def script (m : Machine) : String :=
  scriptLine "SYMBOLS" (" ".intercalate (m.symbols.map toString)) ++
  scriptLine "STATES" (" ".intercalate (m.states.map toString)) ++
  scriptLine "INITIAL-STATE" ((m.initial.map toString).getD "") ++
  scriptLine "FINAL-STATES" (" ".intercalate (m.finals.map toString)) ++
  scriptLine "TRANSITIONS" (", ".intercalate (m.transitions.map toString))

end Statewright.Machine

import Statewright.Proofs.Failure

/-!
# What is left of a source

Every line that is read leaves fewer bytes, if the files stay what they are, so that every source is
read to its end. Only the device has none: its zeros make a line that never ends.
-/

open Statewright.Fallible

namespace Statewright

namespace Source

/-- How many bytes a source has left, if the files stay what they are. -/
def left (t : FileTree) : Source → Nat
  | .bytes rest => rest.length
  | .file h buffer => buffer.length + (sizeOf t h - h.offset)

section Fill

variable {t : FileTree} {h next : FileTree.Handle} {buffer bytes : List UInt8} {fuel : Nat}

end Fill

variable {t : FileTree} {source next : Source} {line : List UInt8}

end Source

end Statewright

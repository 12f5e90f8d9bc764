import Statewright.FileTree.Basic

/-!
# Sources of lines

Lines come from bytes at hand or from an open file. A file is read in blocks, and only when the
bytes read before hold no further line, so that a file that changes meanwhile is seen as it is by
then.
-/

namespace Statewright

inductive Source where
  | bytes (rest : List UInt8)
  /-- An open file and the bytes read from it that were not used yet. -/
  | file (handle : FileTree.Handle) (buffer : List UInt8)
  deriving DecidableEq, Repr

namespace Source

def lineBreak : UInt8 := 0x0A

/-- The first line with its line break, if there is one, and the bytes after it. -/
def cutLine : List UInt8 → List UInt8 × List UInt8
  | [] => ([], [])
  | b :: rest =>
    if b = lineBreak then ([b], rest)
    else
      let (line, rest) := cutLine rest
      (b :: line, rest)

def blockSize : Nat := 8192

/-- Reads blocks until there is a line break or the file ends; nothing if the fuel runs out before.
Every block but the last has a byte, so one more than the length of the file is enough fuel. No fuel
is enough for the device, which has no line break and no end. -/
def fill (t : FileTree) : (fuel : Nat) → FileTree.Handle → List UInt8 →
    Option (Except FileError (FileTree.Handle × List UInt8))
  | 0, _, _ => none
  | n + 1, h, buffer =>
    if lineBreak ∈ buffer then some (.ok (h, buffer))
    else
      match t.read h blockSize with
      | .error e => some (.error e)
      | .ok ([], h) => some (.ok (h, buffer))
      | .ok (block, h) => fill t n h (buffer ++ block)

def sizeOf (t : FileTree) (h : FileTree.Handle) : Nat :=
  match h.entry with
  | .file id => (t.content id).length
  | _ => 0

/-- Takes a line from a source; nothing if it has no end, as on the device. -/
def nextLine (t : FileTree) : Source → Option (Except FileError (List UInt8 × Source))
  | .bytes rest =>
    let (line, rest) := cutLine rest
    some (.ok (line, .bytes rest))
  | .file h buffer =>
    (fill t (sizeOf t h + 1) h buffer).map (fun filled => do
      let (h, buffer) ← filled
      let (line, rest) := cutLine buffer
      return (line, .file h rest))

end Source

end Statewright

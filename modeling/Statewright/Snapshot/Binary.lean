import Statewright.Instant.Reader
import Statewright.Snapshot.Basic
import Statewright.Text.Utf8

/-!
# Snapshots in binary

The letters `FSMC`, and then the fields in order. Whole numbers have a fixed width and begin with
the least significant byte; texts and lists follow their length; characters are written in UTF-8.
Bytes after the last field are ignored.
-/

namespace Statewright.Snapshot.Binary

def magic : List UInt8 := [0x46, 0x53, 0x4D, 0x43]

/-! ## Writing -/

/-- A number in so many bytes, the least significant first. -/
def littleEndian : (width : Nat) → Nat → List UInt8
  | 0, _ => []
  | w + 1, n => UInt8.ofNat (n % 256) :: littleEndian w (n / 256)

def putBytes (bytes : List UInt8) : List UInt8 :=
  littleEndian 8 bytes.length ++ bytes

def putText (s : String) : List UInt8 :=
  putBytes (Text.Utf8.encode s.toList)

def putSymbol (s : Symbol) : List UInt8 :=
  String.utf8EncodeChar s.char

def putState (q : StateName) : List UInt8 :=
  putText q.text

def putOption {α : Type} (put : α → List UInt8) : Option α → List UInt8
  | none => [0]
  | some a => 1 :: put a

def putList {α : Type} (put : α → List UInt8) (entries : List α) : List UInt8 :=
  littleEndian 8 entries.length ++ entries.flatMap put

def putTransition (t : Transition) : List UInt8 :=
  putSymbol t.symbol ++ putState t.source ++ putState t.target

def encode (c : Snapshot) : List UInt8 :=
  magic ++ littleEndian 4 c.version.toNat ++ putBytes c.id.bytes ++ putText c.createdAt.text ++
  putList putSymbol c.symbols ++ putList putState c.states ++ putList putState c.finals ++
  putOption putState c.initial ++ putOption putState c.current ++
  putList putTransition c.transitions

/-! ## Reading -/

inductive Fault where
  | missingHeader
  /-- The bytes end inside a number, or where a tag or a character should begin. -/
  | endOfInput
  | lengthTooLarge
  | badCharacter
  | badText (f : Text.Utf8.Fault)
  | badTag (found : UInt8)
  /-- A text or character that its reader refuses, and why. -/
  | refused (reason : String)
  deriving DecidableEq, Repr

def Fault.message : Fault → String
  | missingHeader => "missing FSM header"
  | endOfInput => "io error: unexpected end of file"
  | lengthTooLarge => "io error: "
  | badCharacter => "char is not valid"
  | badText f => s!"string is not valid utf8: {f.message}"
  | badTag found => s!"tag for enum is not valid, found {found.toNat}"
  | refused reason => reason

abbrev Read (α : Type) := StateT (List UInt8) (Except Fault) α

/-- The number that bytes hold, the least significant first. -/
def ofLittleEndian : List UInt8 → Nat
  | [] => 0
  | b :: bytes => b.toNat + 256 * ofLittleEndian bytes

def getNumber (width : Nat) : Read Nat := fun bytes =>
  if bytes.length < width then .error .endOfInput
  else .ok (ofLittleEndian (bytes.take width), bytes.drop width)

def getBytes : Read (List UInt8) := do
  let n ← getNumber 8
  fun bytes =>
    if bytes.length < n then .error .lengthTooLarge else .ok (bytes.take n, bytes.drop n)

def getText : Read String := do
  match Text.Utf8.decode (← getBytes) with
  | .ok cs => return String.ofList cs
  | .error f => throw (.badText f)

def getChar : Read Char := fun bytes =>
  match bytes with
  | [] => .error .endOfInput
  | b :: rest =>
    match Text.Utf8.front b rest with
    | .char c rest => .ok (c, rest)
    | _ => .error .badCharacter

/-- What `read` makes of a value, or the reason why it refuses it. -/
def accept {α ε : Type} (reason : ε → String) : Except ε α → Read α
  | .ok a => return a
  | .error e => throw (.refused (reason e))

def getSymbol : Read Symbol := do
  accept NameError.message (Symbol.ofChar (← getChar))

def getState : Read StateName := do
  accept NameError.message (StateName.parse (← getText))

def getOption {α : Type} (get : Read α) : Read (Option α) := fun bytes =>
  match bytes with
  | [] => .error .endOfInput
  | 0 :: rest => .ok (none, rest)
  | 1 :: rest => (some <$> get).run rest
  | tag :: _ => .error (.badTag tag)

def getEntries {α : Type} (get : Read α) : (count : Nat) → Read (List α)
  | 0 => return []
  | n + 1 => do
    let a ← get
    let rest ← getEntries get n
    return a :: rest

def getList {α : Type} (get : Read α) : Read (List α) := do
  getEntries get (← getNumber 8)

def getTransition : Read Transition := do
  let symbol ← getSymbol
  let source ← getState
  let target ← getState
  return { symbol, source, target }

def getSnapshot : Read Snapshot := do
  let version ← getNumber 4
  let id ← accept UuidError.message (Uuid.ofBytes (← getBytes))
  let createdAt ← accept InstantError.message (Instant.parse (← getText))
  let symbols ← getList getSymbol
  let states ← getList getState
  let finals ← getList getState
  let initial ← getOption getState
  let current ← getOption getState
  let transitions ← getList getTransition
  return {
    version := UInt32.ofNat version
    id, createdAt, symbols, states, finals, initial, current, transitions }

def decode (bytes : List UInt8) : Except Fault Snapshot :=
  if magic.isPrefixOf bytes then
    (getSnapshot.run (bytes.drop magic.length)).map Prod.fst
  else
    .error .missingHeader

end Statewright.Snapshot.Binary

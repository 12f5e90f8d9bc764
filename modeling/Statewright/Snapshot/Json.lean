import Statewright.Instant.Reader
import Statewright.Json.Printer
import Statewright.Machine.Json
import Statewright.Snapshot.Basic

/-!
# Snapshots in JSON

The shape in which snapshots are read from JSON texts, and the one in which they are printed.
-/

namespace Statewright

def Uuid.decoder : Json.Decoder Uuid :=
  Json.Decoder.textAs "a formatted UUID string" (fun s =>
    (Uuid.parse s).mapError (fun e => .refused e.message))

def Instant.decoder : Json.Decoder Instant :=
  Json.Decoder.textAs "an RFC 3339 formatted date and time string" (fun s =>
    (Instant.parse s).mapError (fun e => .refused e.message))

namespace Snapshot.Json

open Statewright.Json (Decoder Printer)

structure Draft where
  version : Option UInt32 := none
  id : Option Uuid := none
  createdAt : Option Instant := none
  symbols : Option (List Symbol) := none
  states : Option (List StateName) := none
  finals : Option (List StateName) := none
  initial : Option (Option StateName) := none
  current : Option (Option StateName) := none
  transitions : Option (List Transition) := none

/-- A snapshot. A missing initial or current state is none. -/
def shape : Decoder.Shape Draft Snapshot where
  label := "struct Checkpoint"
  fields := [
    .of "version" Draft.version (fun d a => { d with version := some a }) .natural32,
    .of "id" Draft.id (fun d a => { d with id := some a }) Uuid.decoder,
    .of "created_at" Draft.createdAt (fun d a => { d with createdAt := some a }) Instant.decoder,
    .of "symbols" Draft.symbols (fun d a => { d with symbols := some a }) (.list Symbol.decoder),
    .of "states" Draft.states (fun d a => { d with states := some a }) (.list StateName.decoder),
    .of "final_states" Draft.finals (fun d a => { d with finals := some a })
      (.list StateName.decoder),
    .of "initial_state" Draft.initial (fun d a => { d with initial := some a })
      (.nullable StateName.decoder),
    .of "current_state" Draft.current (fun d a => { d with current := some a })
      (.nullable StateName.decoder),
    .of "transitions" Draft.transitions (fun d a => { d with transitions := some a })
      (.list Transition.decoder)]
  start := {}
  mayEndEarly := false
  finish d := do
    let version ← Decoder.need "version" d.version
    let id ← Decoder.need "id" d.id
    let createdAt ← Decoder.need "created_at" d.createdAt
    let symbols ← Decoder.need "symbols" d.symbols
    let states ← Decoder.need "states" d.states
    let finals ← Decoder.need "final_states" d.finals
    let transitions ← Decoder.need "transitions" d.transitions
    return {
      version, id, createdAt, symbols, states, finals, transitions
      initial := d.initial.getD none
      current := d.current.getD none }

def decode (source : String) : Except Statewright.Json.Error Snapshot :=
  Decoder.decode (.record shape) source

def printState (q : StateName) : Printer := .text q.text

def printSymbol (s : Symbol) : Printer := .text (toString s)

def printTransition (t : Transition) : Printer :=
  .object [
    ("symbol", printSymbol t.symbol),
    ("from", printState t.source),
    ("to", printState t.target)]

def printer (c : Snapshot) : Printer :=
  .object [
    ("version", .natural c.version.toNat),
    ("id", .text c.id.text),
    ("created_at", .text c.createdAt.text),
    ("symbols", .list (c.symbols.map printSymbol)),
    ("states", .list (c.states.map printState)),
    ("final_states", .list (c.finals.map printState)),
    ("initial_state", .nullable (c.initial.map printState)),
    ("current_state", .nullable (c.current.map printState)),
    ("transitions", .list (c.transitions.map printTransition))]

def encode (c : Snapshot) : String :=
  (printer c).print

end Snapshot.Json

end Statewright

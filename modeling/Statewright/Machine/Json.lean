import Statewright.Json.Decoder
import Statewright.Machine.Run

/-!
# Machines' parts in JSON

The shapes in which names, transitions and traces are read from JSON texts.
-/

namespace Statewright

namespace StateName

def decoder : Json.Decoder StateName :=
  Json.Decoder.refine .string (fun s => (parse s).mapError NameError.message)

end StateName

namespace Symbol

def decoder : Json.Decoder Symbol :=
  Json.Decoder.refine .char (fun c => (ofChar c).mapError NameError.message)

end Symbol

namespace Transition

structure Draft where
  symbol : Option Symbol := none
  source : Option StateName := none
  target : Option StateName := none

def shape : Json.Decoder.Shape Draft Transition where
  label := "struct TransitionRecord"
  fields := [
    .of "symbol" Draft.symbol (fun d a => { d with symbol := some a }) Symbol.decoder,
    .of "from" Draft.source (fun d a => { d with source := some a }) StateName.decoder,
    .of "to" Draft.target (fun d a => { d with target := some a }) StateName.decoder]
  start := {}
  mayEndEarly := false
  finish d := do
    let symbol ← Json.Decoder.need "symbol" d.symbol
    let source ← Json.Decoder.need "from" d.source
    let target ← Json.Decoder.need "to" d.target
    return { symbol, source, target }

def decoder : Json.Decoder Transition :=
  .record shape

def keyShape : Json.Decoder.Shape Draft Key where
  label := "struct TransitionKey"
  fields := [
    .of "from" Draft.source (fun d a => { d with source := some a }) StateName.decoder,
    .of "symbol" Draft.symbol (fun d a => { d with symbol := some a }) Symbol.decoder]
  start := {}
  mayEndEarly := false
  finish d := do
    let source ← Json.Decoder.need "from" d.source
    let symbol ← Json.Decoder.need "symbol" d.symbol
    return { source, symbol }

def keyDecoder : Json.Decoder Key :=
  .record keyShape

end Transition

def Verdict.decoder : Json.Decoder Verdict :=
  .variant [⟨"Accept", .nothing .accept⟩, ⟨"Reject", .nothing .reject⟩]

namespace Halt

/-- The symbol and state at which a run found no transition. -/
structure Draft where
  symbol : Option Symbol := none
  state : Option StateName := none

def noTransitionShape : Json.Decoder.Shape Draft Halt where
  label := "struct variant Halt::NoTransition"
  fields := [
    .of "symbol" Draft.symbol (fun d a => { d with symbol := some a }) Symbol.decoder,
    .of "state" Draft.state (fun d a => { d with state := some a }) StateName.decoder]
  start := {}
  mayEndEarly := false
  finish d := do
    let symbol ← Json.Decoder.need "symbol" d.symbol
    let state ← Json.Decoder.need "state" d.state
    return .noTransition symbol state

/-- The content of a halt at a character that is no declared symbol. -/
def undeclaredSymbolDecoder : Json.Decoder Halt := fun cs =>
  (Json.Decoder.char cs).map (fun (c, rest) => (.undeclaredSymbol c, rest))

def decoder : Json.Decoder Halt :=
  .variant [
    ⟨"NotInitialized", .nothing .notInitialized⟩,
    ⟨"UndeclaredSymbol", .payload "newtype variant" undeclaredSymbolDecoder⟩,
    ⟨"NoTransition", .payload "struct variant" (.record noTransitionShape)⟩]

end Halt

namespace Trace

structure Draft where
  states : Option (List StateName) := none
  verdict : Option Verdict := none
  halt : Option (Option Halt) := none

/-- A trace. A missing halt is none. -/
def shape : Json.Decoder.Shape Draft Trace where
  label := "struct Trace"
  fields := [
    .of "states" Draft.states (fun d a => { d with states := some a }) (.list StateName.decoder),
    .of "verdict" Draft.verdict (fun d a => { d with verdict := some a }) Verdict.decoder,
    .of "halt" Draft.halt (fun d a => { d with halt := some a }) (.nullable Halt.decoder)]
  start := {}
  mayEndEarly := false
  finish d := do
    let states ← Json.Decoder.need "states" d.states
    let verdict ← Json.Decoder.need "verdict" d.verdict
    return { states, verdict, halt := d.halt.getD none }

def decoder : Json.Decoder Trace :=
  .record shape

end Trace

end Statewright

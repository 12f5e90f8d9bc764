import Statewright.Json.Decoder

/-!
# Settings

What a user may set: the prompt, the extension of compiled files, how much is reported about the run
itself, and whether statements of scripts are echoed.
-/

namespace Statewright

structure Settings where
  prompt : String
  compiledExtension : String
  logLevel : String
  echoScript : Bool
  deriving DecidableEq, Repr

namespace Settings

def default : Settings where
  prompt := "? "
  compiledExtension := "fs"
  logLevel := "warn"
  echoScript := true

structure Draft where
  prompt : Option String := none
  compiledExtension : Option String := none
  logLevel : Option String := none
  echoScript : Option Bool := none

/-- The settings of a draft, with defaults for those that are not set. -/
def Draft.finish (d : Draft) : Settings where
  prompt := d.prompt.getD default.prompt
  compiledExtension := d.compiledExtension.getD default.compiledExtension
  logLevel := d.logLevel.getD default.logLevel
  echoScript := d.echoScript.getD default.echoScript

def shape : Json.Decoder.Shape Draft Settings where
  label := "struct Settings"
  fields := [
    .of "prompt" Draft.prompt (fun d a => { d with prompt := some a }) .string,
    .of "compiled_extension" Draft.compiledExtension
      (fun d a => { d with compiledExtension := some a }) .string,
    .of "log_level" Draft.logLevel (fun d a => { d with logLevel := some a }) .string,
    .of "echo_script" Draft.echoScript (fun d a => { d with echoScript := some a }) .boolean]
  start := {}
  mayEndEarly := true
  finish d := .ok d.finish

def decoder : Json.Decoder Settings :=
  .record shape

end Settings

end Statewright

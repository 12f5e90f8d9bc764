import Statewright.Json.Scan

/-!
# Skipping JSON values

The value of a field that nobody asks for is passed over. Its form is checked, but not the values of
its numbers nor the pairing of its escapes, and lists and objects may nest to any depth.
-/

namespace Statewright.Json

def skipEscape : Scan Unit
  | [] => .error (.here .endInText [])
  | 'u' :: cs => (hexEscape cs).map (fun (_, cs) => ((), cs))
  | c :: cs =>
    if (shortEscape? c).isSome then .ok ((), cs) else .error (.ahead .invalidEscape (c :: cs))

/-- Passes over the rest of a text. The length of the text is enough fuel. -/
def skipTextBody : (fuel : Nat) → Scan Unit
  | 0, cs => .error (.here .endInText cs)
  | _ + 1, [] => .error (.here .endInText [])
  | n + 1, c :: cs =>
    if c = '"' then .ok ((), cs)
    else if c = '\\' then do
      let ((), cs) ← skipEscape cs
      skipTextBody n cs
    -- Nothing is decoded here, so the place is in front of the character and not past it.
    else if c.toNat < 0x20 then .error (.here .controlCharacter (c :: cs))
    else skipTextBody n cs

def skipText (cs : List Char) : Except Fault (Unit × List Char) :=
  skipTextBody (cs.length + 1) cs

/-- The fault at a character that does not continue a number: it is past the character. -/
def strayInNumber (cs : List Char) : Fault :=
  .ahead .invalidNumber cs

def skipPower (cs : List Char) : Except Fault (Unit × List Char) :=
  let cs := match cs with
    | '+' :: rest | '-' :: rest => rest
    | _ => cs
  match digitRun cs with
  | ([], _) => .error (strayInNumber cs)
  | (_ :: _, rest) => .ok ((), rest)

def skipAfterWhole (cs : List Char) : Except Fault (Unit × List Char) :=
  match cs with
  | '.' :: rest =>
    match digitRun rest with
    | ([], _) => .error (strayInNumber rest)
    | (_ :: _, 'e' :: rest) | (_ :: _, 'E' :: rest) => skipPower rest
    | (_ :: _, rest) => .ok ((), rest)
  | 'e' :: rest | 'E' :: rest => skipPower rest
  | _ => .ok ((), cs)

def skipNumber (cs : List Char) : Except Fault (Unit × List Char) :=
  match cs with
  | '0' :: d :: rest =>
    if d.isDigit then .error (strayInNumber (d :: rest)) else skipAfterWhole (d :: rest)
  | _ =>
    match digitRun cs with
    | ([], _) => .error (strayInNumber cs)
    | (_ :: _, rest) => skipAfterWhole rest

/-- A list or an object that is open while skipping. -/
inductive Frame where
  | list
  | object
  deriving DecidableEq, Repr

inductive Due where
  | value
  /-- The first entry of the innermost frame, or its end. -/
  | first
  /-- A comma and another entry of the innermost frame, or its end. -/
  | next
  /-- An entry of the innermost frame. -/
  | entry
  deriving DecidableEq, Repr

/-- Reads the key of an object's entry and the colon after it. -/
def skipKey (cs : List Char) : Except Fault (Unit × List Char) :=
  match skipSpace cs with
  | [] => .error (.here .endInObject [])
  | '"' :: cs => do
    let ((), cs) ← skipText cs
    match skipSpace cs with
    | [] => throw (.here .endInObject [])
    | ':' :: cs => return ((), cs)
    | cs => throw (.ahead .expectedColon cs)
  | cs => .error (.ahead .keyNotText cs)

def skipScalar (cs : List Char) : Except Fault (Unit × List Char) :=
  match cs with
  | 'n' :: cs => word "ull".toList cs
  | 't' :: cs => word "rue".toList cs
  | 'f' :: cs => word "alse".toList cs
  | '-' :: cs => skipNumber cs
  | '"' :: cs => skipText cs
  | c :: _ => if c.isDigit then skipNumber cs else .error (.ahead .expectedValue cs)
  | [] => .error (.here .endInValue [])

/-- Goes on inside the open frames, innermost first. At most two steps pass without consuming a
character, so three times the length of the text is enough fuel. -/
def skipFrom : (fuel : Nat) → Due → List Frame → Scan Unit
  | 0, _, _, cs => .error (.here .endInValue cs)
  | n + 1, .value, frames, cs =>
    match skipSpace cs with
    | '[' :: cs => skipFrom n .first (.list :: frames) cs
    | '\x7b' :: cs => skipFrom n .first (.object :: frames) cs
    | cs => do
      let ((), cs) ← skipScalar cs
      skipFrom n .next frames cs
  | _ + 1, _, [], cs => .ok ((), cs)
  | n + 1, .entry, .list :: frames, cs => skipFrom n .value (.list :: frames) cs
  | n + 1, .entry, .object :: frames, cs => do
    let ((), cs) ← skipKey cs
    skipFrom n .value (.object :: frames) cs
  | n + 1, due, frame :: frames, cs =>
    match skipSpace cs, frame with
    | [], .list => .error (.here .endInList [])
    | [], .object => .error (.here .endInObject [])
    | ']' :: cs, .list => skipFrom n .next frames cs
    | '\x7d' :: cs, .object => skipFrom n .next frames cs
    | c :: cs, frame =>
      if due = .first then skipFrom n .entry (frame :: frames) (c :: cs)
      else if c = ',' then skipFrom n .entry (frame :: frames) cs
      else
        match frame with
        | .list => .error (.ahead .expectedCommaOrListEnd (c :: cs))
        | .object => .error (.ahead .expectedCommaOrObjectEnd (c :: cs))

def skipValue (cs : List Char) : Except Fault (Unit × List Char) :=
  skipFrom (3 * cs.length + 3) .value [] cs

end Statewright.Json

/-!
# UTF-8

Characters are read off the front of a list of bytes. Ill-formed bytes are told apart by the length
of the longest part that could still begin a character, so that a strict reader can say where and
how a text is broken, and a lenient one can put U+FFFD for exactly that part and go on.
-/

namespace Statewright.Text.Utf8

/-- What a leading byte announces: its own bits, how many bytes follow, and the range of the first
of these. -/
structure Lead where
  bits : Nat
  tails : Nat
  low : UInt8
  high : UInt8

/-- The announcement of a leading byte, `none` for a byte that begins no character. Overlong forms,
surrogates and values past U+10FFFF are ruled out by the range of the second byte. -/
def Lead.ofByte? (b : UInt8) : Option Lead :=
  if b < 0x80 then some ⟨b.toNat, 0, 0x80, 0xBF⟩
  else if b < 0xC2 then none
  else if b < 0xE0 then some ⟨b.toNat - 0xC0, 1, 0x80, 0xBF⟩
  else if b = 0xE0 then some ⟨0, 2, 0xA0, 0xBF⟩
  else if b = 0xED then some ⟨0xD, 2, 0x80, 0x9F⟩
  else if b < 0xF0 then some ⟨b.toNat - 0xE0, 2, 0x80, 0xBF⟩
  else if b = 0xF0 then some ⟨0, 3, 0x90, 0xBF⟩
  else if b < 0xF4 then some ⟨b.toNat - 0xF0, 3, 0x80, 0xBF⟩
  else if b = 0xF4 then some ⟨4, 3, 0x80, 0x8F⟩
  else none

inductive Front where
  | char (c : Char) (rest : List UInt8)
  /-- So many bytes that begin no character, and the bytes after them. -/
  | broken (length : Nat) (rest : List UInt8)
  | truncated
  deriving DecidableEq

/-- Reads the continuation bytes that a lead announced; `seen` counts the bytes already read. -/
def continuation (bits : Nat) (seen : Nat) : (tails : Nat) → (low high : UInt8) →
    List UInt8 → Front
  | 0, _, _, rest => .char (Char.ofNat bits) rest
  | _ + 1, _, _, [] => .truncated
  | n + 1, low, high, b :: rest =>
    if low ≤ b ∧ b ≤ high then
      continuation (bits * 64 + (b.toNat - 0x80)) (seen + 1) n 0x80 0xBF rest
    else
      .broken seen (b :: rest)

def front (b : UInt8) (rest : List UInt8) : Front :=
  match Lead.ofByte? b with
  | none => .broken 1 rest
  | some lead => continuation lead.bits 1 lead.tails lead.low lead.high rest

/-- How a text is broken: `index` bytes are well formed, and then follow `length` bytes that begin
no character, or, for `none`, the beginning of a character that the text cuts off. -/
structure Fault where
  index : Nat
  length : Option Nat
  deriving DecidableEq, Repr

def Fault.message (f : Fault) : String :=
  match f.length with
  | some n => s!"invalid utf-8 sequence of {n} bytes from index {f.index}"
  | none => s!"incomplete utf-8 byte sequence from index {f.index}"

theorem continuation_char_length {bits seen tails : Nat} {low high : UInt8}
    {bytes rest : List UInt8} {c : Char}
    (h : continuation bits seen tails low high bytes = .char c rest) :
    rest.length ≤ bytes.length := by
  fun_induction continuation bits seen tails low high bytes with
  | case1 => simp_all
  | case2 => simp at h
  | case3 _ _ _ _ _ _ _ _ ih => exact Nat.le_succ_of_le (ih h)
  | case4 => simp at h

theorem continuation_broken_length {bits seen tails n : Nat} {low high : UInt8}
    {bytes rest : List UInt8}
    (h : continuation bits seen tails low high bytes = .broken n rest) :
    rest.length ≤ bytes.length := by
  fun_induction continuation bits seen tails low high bytes with
  | case1 => simp at h
  | case2 => simp at h
  | case3 _ _ _ _ _ _ _ _ ih => exact Nat.le_succ_of_le (ih h)
  | case4 => simp_all

theorem front_char_length {b : UInt8} {bytes rest : List UInt8} {c : Char}
    (h : front b bytes = .char c rest) : rest.length ≤ bytes.length := by
  unfold front at h
  split at h
  · simp at h
  · exact continuation_char_length h

theorem front_broken_length {b : UInt8} {bytes rest : List UInt8} {n : Nat}
    (h : front b bytes = .broken n rest) : rest.length ≤ bytes.length := by
  unfold front at h
  split at h
  · simp_all
  · exact continuation_broken_length h

/-- Reads a whole text that starts `index` bytes into the source, or says where it is broken. -/
def decodeFrom (index : Nat) : List UInt8 → Except Fault (List Char)
  | [] => .ok []
  | b :: bytes =>
    match _h : front b bytes with
    | .char c rest => (decodeFrom (index + c.utf8Size) rest).map (c :: ·)
    | .broken n _ => .error ⟨index, some n⟩
    | .truncated => .error ⟨index, none⟩
termination_by bytes => bytes.length
decreasing_by simp; have := front_char_length _h; omega

/-- The characters of a well-formed text, or the place where it is broken. -/
def decode (bytes : List UInt8) : Except Fault (List Char) :=
  decodeFrom 0 bytes

/-- The characters of a text with U+FFFD in place of each broken part. -/
def decodeLossy : List UInt8 → List Char
  | [] => []
  | b :: bytes =>
    match _h : front b bytes with
    | .char c rest => c :: decodeLossy rest
    | .broken _ rest => '\uFFFD' :: decodeLossy rest
    | .truncated => ['\uFFFD']
termination_by bytes => bytes.length
decreasing_by
  · simp; have := front_char_length _h; omega
  · simp; have := front_broken_length _h; omega

def encode (cs : List Char) : List UInt8 :=
  cs.flatMap String.utf8EncodeChar

def size (cs : List Char) : Nat :=
  cs.foldr (fun c n => c.utf8Size + n) 0

@[simp]
theorem size_nil : size [] = 0 := rfl

@[simp]
theorem size_cons (c : Char) (cs : List Char) : size (c :: cs) = c.utf8Size + size cs := rfl

@[simp]
theorem encode_nil : encode [] = [] := rfl

@[simp]
theorem encode_cons (c : Char) (cs : List Char) :
    encode (c :: cs) = String.utf8EncodeChar c ++ encode cs := by
  simp [encode]

end Statewright.Text.Utf8

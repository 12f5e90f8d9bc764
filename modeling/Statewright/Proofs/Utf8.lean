import Statewright.Text.Utf8

/-!
# UTF-8: reading what was written

The bytes of a character are read as that character, whatever follows them; so a text is read back
by the strict reader and by the lenient one. The strict reader takes no other bytes for a text.
-/

namespace Statewright.Text.Utf8

/-! ## One character -/

theorem toNat_byte {b : Nat} (hb : b < 256) : (UInt8.ofNat b).toNat = b :=
  UInt8.toNat_ofNat_of_lt' hb

theorem continuation_byte {bits seen tails b : Nat} {low high : UInt8} {rest : List UInt8}
    (hb : b < 256) (hlow : low.toNat ≤ b) (hhigh : b ≤ high.toNat) :
    continuation bits seen (tails + 1) low high (UInt8.ofNat b :: rest) =
      continuation (bits * 64 + (b - 0x80)) (seen + 1) tails 0x80 0xBF rest := by
  rw [continuation, if_pos, toNat_byte hb]
  rw [UInt8.le_iff_toNat_le, UInt8.le_iff_toNat_le, toNat_byte hb]
  exact ⟨hlow, hhigh⟩

theorem lead_one {b : Nat} (h : b < 0x80) :
    Lead.ofByte? (UInt8.ofNat b) = some ⟨b, 0, 0x80, 0xBF⟩ := by
  have hb : (UInt8.ofNat b).toNat = b := toNat_byte (by omega)
  rw [Lead.ofByte?, if_pos (by rw [UInt8.lt_iff_toNat_lt, hb]; exact h), hb]

theorem lead_two {b : Nat} (hlo : 0xC2 ≤ b) (hhi : b < 0xE0) :
    Lead.ofByte? (UInt8.ofNat b) = some ⟨b - 0xC0, 1, 0x80, 0xBF⟩ := by
  have hb : (UInt8.ofNat b).toNat = b := toNat_byte (by omega)
  have hlt : ∀ k : UInt8, UInt8.ofNat b < k ↔ b < k.toNat := by
    intro k
    rw [UInt8.lt_iff_toNat_lt, hb]
  rw [Lead.ofByte?, if_neg (by rw [hlt]; show ¬ b < 128; omega),
    if_neg (by rw [hlt]; show ¬ b < 194; omega), if_pos (by rw [hlt]; exact hhi), hb]

theorem lead_three {b : Nat} (hlo : 0xE0 ≤ b) (hhi : b < 0xF0) :
    Lead.ofByte? (UInt8.ofNat b) = some ⟨b - 0xE0, 2,
      if b = 0xE0 then 0xA0 else 0x80, if b = 0xED then 0x9F else 0xBF⟩ := by
  have hcases : b = 0xE0 ∨ b = 0xE1 ∨ b = 0xE2 ∨ b = 0xE3 ∨ b = 0xE4 ∨ b = 0xE5 ∨ b = 0xE6 ∨
      b = 0xE7 ∨ b = 0xE8 ∨ b = 0xE9 ∨ b = 0xEA ∨ b = 0xEB ∨ b = 0xEC ∨ b = 0xED ∨ b = 0xEE ∨
      b = 0xEF := by omega
  rcases hcases with h | h | h | h | h | h | h | h | h | h | h | h | h | h | h | h
  all_goals
    subst h
    rfl

theorem lead_four {b : Nat} (hlo : 0xF0 ≤ b) (hhi : b < 0xF5) :
    Lead.ofByte? (UInt8.ofNat b) = some ⟨b - 0xF0, 3,
      if b = 0xF0 then 0x90 else 0x80, if b = 0xF4 then 0x8F else 0xBF⟩ := by
  have hcases : b = 0xF0 ∨ b = 0xF1 ∨ b = 0xF2 ∨ b = 0xF3 ∨ b = 0xF4 := by omega
  rcases hcases with h | h | h | h | h <;> subst h <;> rfl

theorem toNat_valid (c : Char) : c.toNat < 0xD800 ∨ (0xDFFF < c.toNat ∧ c.toNat < 0x110000) :=
  c.valid

-- The bytes of a character are its front, whatever follows.
theorem front_encodeChar (c : Char) :
    ∃ b bytes, String.utf8EncodeChar c = b :: bytes ∧
      ∀ rest, front b (bytes ++ rest) = .char c rest := by
  have hvalid := toNat_valid c
  have hc : Char.ofNat c.toNat = c := Char.ofNat_toNat c
  have htail : ∀ k, (0x80 : UInt8).toNat ≤ k % 64 + 128 ∧ k % 64 + 128 ≤ (0xBF : UInt8).toNat := by
    intro k
    show 128 ≤ _ ∧ _ ≤ 191
    omega
  unfold String.utf8EncodeChar
  dsimp only
  rw [show c.val.toNat = c.toNat from rfl]
  -- From here on the character is its number, and there is a case for each length of an encoding.
  generalize c.toNat = n at hvalid hc
  by_cases h1 : n ≤ 0x7f
  · rw [if_pos h1]
    refine ⟨_, _, rfl, fun rest => ?_⟩
    rw [front, lead_one (by omega)]
    show Front.char (Char.ofNat n) rest = _
    rw [hc]
  by_cases h2 : n ≤ 0x7ff
  · rw [if_neg h1, if_pos h2]
    refine ⟨_, _, rfl, fun rest => ?_⟩
    rw [front, lead_two (by omega) (by omega)]
    dsimp only [List.cons_append, List.nil_append]
    rw [continuation_byte (by omega) (htail n).1 (htail n).2, continuation,
      show (n / 64 % 32 + 192 - 192) * 64 + (n % 64 + 128 - 128) = n by omega, hc]
  by_cases h3 : n ≤ 0xffff
  · rw [if_neg h1, if_neg h2, if_pos h3]
    refine ⟨_, _, rfl, fun rest => ?_⟩
    -- The byte after the first is bounded more tightly at both ends of the range, so that no number
    -- has two encodings and no surrogate has one.
    have hlow : (if n / 4096 % 16 + 224 = 0xE0 then 0xA0 else 0x80 : UInt8).toNat ≤
        n / 64 % 64 + 128 := by
      split
      · show 160 ≤ _
        omega
      · exact (htail _).1
    have hhigh : n / 64 % 64 + 128 ≤
        (if n / 4096 % 16 + 224 = 0xED then 0x9F else 0xBF : UInt8).toNat := by
      split
      · show _ ≤ 159
        omega
      · exact (htail _).2
    rw [front, lead_three (by omega) (by omega)]
    dsimp only [List.cons_append, List.nil_append]
    rw [continuation_byte (by omega) hlow hhigh,
      continuation_byte (by omega) (htail n).1 (htail n).2, continuation,
      show ((n / 4096 % 16 + 224 - 224) * 64 + (n / 64 % 64 + 128 - 128)) * 64 +
        (n % 64 + 128 - 128) = n by omega, hc]
  · rw [if_neg h1, if_neg h2, if_neg h3]
    refine ⟨_, _, rfl, fun rest => ?_⟩
    -- The same two bounds, of which the upper one now ends the range of characters.
    have hlow : (if n / 262144 % 8 + 240 = 0xF0 then 0x90 else 0x80 : UInt8).toNat ≤
        n / 4096 % 64 + 128 := by
      split
      · show 144 ≤ _
        omega
      · exact (htail _).1
    have hhigh : n / 4096 % 64 + 128 ≤
        (if n / 262144 % 8 + 240 = 0xF4 then 0x8F else 0xBF : UInt8).toNat := by
      split
      · show _ ≤ 143
        omega
      · exact (htail _).2
    rw [front, lead_four (by omega) (by omega)]
    dsimp only [List.cons_append, List.nil_append]
    rw [continuation_byte (by omega) hlow hhigh,
      continuation_byte (by omega) (htail _).1 (htail _).2,
      continuation_byte (by omega) (htail n).1 (htail n).2, continuation,
      show (((n / 262144 % 8 + 240 - 240) * 64 + (n / 4096 % 64 + 128 - 128)) * 64 +
        (n / 64 % 64 + 128 - 128)) * 64 + (n % 64 + 128 - 128) = n by omega, hc]

-- A byte below 128 stands for its own character and is in the encoding of no other.
theorem toNat_of_mem_encodeChar {c : Char} {b : UInt8} (hb : b ∈ String.utf8EncodeChar c)
    (hlt : b.toNat < 0x80) : c.toNat = b.toNat := by
  have hvalid := toNat_valid c
  unfold String.utf8EncodeChar at hb
  dsimp only at hb
  rw [show c.val.toNat = c.toNat from rfl] at hb
  generalize c.toNat = n at hvalid hb
  -- Leading bytes of longer encodings and all bytes after them are at least 128.
  have hhigh : ∀ k, 0x80 ≤ k → k < 256 → b ≠ UInt8.ofNat k := by
    rintro k hk hk' rfl
    rw [toNat_byte hk'] at hlt
    omega
  by_cases h1 : n ≤ 0x7f
  · rw [if_pos h1, List.mem_singleton] at hb
    rw [hb, toNat_byte (by omega)]
  by_cases h2 : n ≤ 0x7ff
  · rw [if_neg h1, if_pos h2] at hb
    simp only [List.mem_cons, List.not_mem_nil, or_false] at hb
    rcases hb with hb | hb
    all_goals exact absurd hb (hhigh _ (by omega) (by omega))
  by_cases h3 : n ≤ 0xffff
  · rw [if_neg h1, if_neg h2, if_pos h3] at hb
    simp only [List.mem_cons, List.not_mem_nil, or_false] at hb
    rcases hb with hb | hb | hb
    all_goals exact absurd hb (hhigh _ (by omega) (by omega))
  · rw [if_neg h1, if_neg h2, if_neg h3] at hb
    simp only [List.mem_cons, List.not_mem_nil, or_false] at hb
    rcases hb with hb | hb | hb | hb
    all_goals exact absurd hb (hhigh _ (by omega) (by omega))

/-! ## Texts -/

theorem encode_append (cs ds : List Char) : encode (cs ++ ds) = encode cs ++ encode ds :=
  List.flatMap_append

theorem decodeFrom_encode (index : Nat) (cs : List Char) :
    decodeFrom index (encode cs) = .ok cs := by
  induction cs generalizing index with
  | nil => rw [encode_nil, decodeFrom]
  | cons c cs ih =>
    obtain ⟨b, bytes, hbytes, hfront⟩ := front_encodeChar c
    rw [encode_cons, hbytes, List.cons_append, decodeFrom]
    split
    · next heq =>
      rw [hfront] at heq
      cases heq
      rw [ih]
      rfl
    · next heq =>
      rw [hfront] at heq
      cases heq
    · next heq =>
      rw [hfront] at heq
      cases heq

-- The strict reader takes back every text.
theorem decode_encode (cs : List Char) : decode (encode cs) = .ok cs :=
  decodeFrom_encode 0 cs

-- The lenient reader takes back every text, without a replacement.
theorem decodeLossy_encode (cs : List Char) : decodeLossy (encode cs) = cs := by
  induction cs with
  | nil => rw [encode_nil, decodeLossy]
  | cons c cs ih =>
    obtain ⟨b, bytes, hbytes, hfront⟩ := front_encodeChar c
    rw [encode_cons, hbytes, List.cons_append, decodeLossy]
    split
    · next heq =>
      rw [hfront] at heq
      cases heq
      rw [ih]
    · next heq =>
      rw [hfront] at heq
      cases heq
    · next heq =>
      rw [hfront] at heq
      cases heq

theorem encode_ne_nil {cs : List Char} (h : cs ≠ []) : encode cs ≠ [] := by
  intro hnil
  have hback := decodeLossy_encode cs
  rw [hnil] at hback
  exact h (hback.symm.trans (decodeLossy_encode []))

theorem length_encode_le (cs : List Char) : (encode cs).length ≤ 4 * cs.length := by
  induction cs with
  | nil => exact Nat.le_refl 0
  | cons c cs ih =>
    have hc := c.utf8Size_le_four
    rw [encode_cons, List.length_append, String.length_utf8EncodeChar, List.length_cons]
    omega

/-! ## Exactly what was written -/

theorem continuation_zero_eq_char {bits seen : Nat} {low high : UInt8} {bytes rest : List UInt8}
    {c : Char} (h : continuation bits seen 0 low high bytes = .char c rest) :
    c = Char.ofNat bits ∧ rest = bytes := by
  rw [continuation] at h
  cases h
  exact ⟨rfl, rfl⟩

theorem continuation_succ_eq_char {bits seen tails : Nat} {low high : UInt8}
    {bytes rest : List UInt8} {c : Char}
    (h : continuation bits seen (tails + 1) low high bytes = .char c rest) :
    ∃ b after, bytes = b :: after ∧ low.toNat ≤ b.toNat ∧ b.toNat ≤ high.toNat ∧
      continuation (bits * 64 + (b.toNat - 0x80)) (seen + 1) tails 0x80 0xBF after =
        .char c rest := by
  cases bytes with
  | nil => cases h
  | cons b after =>
    rw [continuation] at h
    split at h
    · next hb =>
      rw [UInt8.le_iff_toNat_le, UInt8.le_iff_toNat_le] at hb
      exact ⟨b, after, rfl, hb.1, hb.2, h⟩
    · cases h

/-- A leading byte announces what its range says: the ranges of second bytes rule out numbers with a
shorter encoding, surrogates and numbers that are too large. -/
inductive Lead.Announced (b : Nat) : Lead → Prop where
  | one (h : b < 0x80) : Announced b ⟨b, 0, 0x80, 0xBF⟩
  | two (h : 0xC2 ≤ b) (h' : b < 0xE0) : Announced b ⟨b - 0xC0, 1, 0x80, 0xBF⟩
  | three {low high : UInt8} (h : 0xE0 ≤ b) (h' : b < 0xF0) (hlow : 0x80 ≤ low.toNat)
      (hhigh : high.toNat ≤ 0xBF) (hshort : b = 0xE0 → 0xA0 ≤ low.toNat)
      (hsurrogate : b = 0xED → high.toNat ≤ 0x9F) : Announced b ⟨b - 0xE0, 2, low, high⟩
  | four {low high : UInt8} (h : 0xF0 ≤ b) (h' : b < 0xF5) (hlow : 0x80 ≤ low.toNat)
      (hhigh : high.toNat ≤ 0xBF) (hshort : b = 0xF0 → 0x90 ≤ low.toNat)
      (hlarge : b = 0xF4 → high.toNat ≤ 0x8F) : Announced b ⟨b - 0xF0, 3, low, high⟩

theorem Lead.announced_of_ofByte? {b : UInt8} {lead : Lead} (h : ofByte? b = some lead) :
    Announced b.toNat lead := by
  unfold ofByte? at h
  simp only [UInt8.lt_iff_toNat_lt, ← UInt8.toNat_inj, UInt8.reduceToNat] at h
  generalize b.toNat = n at h ⊢
  -- The tests are taken in the order of the definition.
  rcases Nat.lt_or_ge n 0x80 with hone | hone
  · rw [if_pos hone] at h
    rw [← Option.some.inj h]
    exact .one hone
  rw [if_neg (Nat.not_lt.mpr hone)] at h
  split at h
  · cases h
  split at h
  · rw [← Option.some.inj h]
    exact .two (by omega) ‹_›
  split at h
  · next hn =>
    rw [← Option.some.inj h, hn]
    exact .three (by decide) (by decide) (by decide) (by decide) (by decide) (by decide)
  split at h
  · next hn =>
    rw [← Option.some.inj h, hn]
    exact .three (by decide) (by decide) (by decide) (by decide) (by decide) (by decide)
  split at h
  · rw [← Option.some.inj h]
    exact .three (by omega) ‹_› (by decide) (by decide) (by omega) (by omega)
  split at h
  · next hn =>
    rw [← Option.some.inj h, hn]
    exact .four (by decide) (by decide) (by decide) (by decide) (by decide) (by decide)
  split at h
  · rw [← Option.some.inj h]
    exact .four (by omega) (by omega) (by decide) (by decide) (by omega) (by omega)
  split at h
  · next hn =>
    rw [← Option.some.inj h, hn]
    exact .four (by decide) (by decide) (by decide) (by decide) (by decide) (by decide)
  · cases h

theorem toNat_ofNat_of_valid {n : Nat} (h : n < 0xD800 ∨ (0xDFFF < n ∧ n < 0x110000)) :
    (Char.ofNat n).toNat = n := by
  have hvalid : n.isValidChar := h
  rw [Char.ofNat, dif_pos hvalid]
  rfl

/-- A character that is read off bytes has these bytes for its encoding. -/
theorem eq_encodeChar_of_front {b : UInt8} {bytes rest : List UInt8} {c : Char}
    (h : front b bytes = .char c rest) : b :: bytes = String.utf8EncodeChar c ++ rest := by
  unfold front at h
  split at h
  · cases h
  next lead hlead =>
  have hlead := Lead.announced_of_ofByte? hlead
  have hencode : String.utf8EncodeChar c = if c.toNat ≤ 0x7f then [UInt8.ofNat c.toNat]
      else if c.toNat ≤ 0x7ff then
        [UInt8.ofNat (c.toNat / 64 % 32 + 192), UInt8.ofNat (c.toNat % 64 + 128)]
      else if c.toNat ≤ 0xffff then
        [UInt8.ofNat (c.toNat / 4096 % 16 + 224), UInt8.ofNat (c.toNat / 64 % 64 + 128),
          UInt8.ofNat (c.toNat % 64 + 128)]
      else
        [UInt8.ofNat (c.toNat / 262144 % 8 + 240), UInt8.ofNat (c.toNat / 4096 % 64 + 128),
          UInt8.ofNat (c.toNat / 64 % 64 + 128), UInt8.ofNat (c.toNat % 64 + 128)] := rfl
  have hbyte : ∀ {n : Nat} {x : UInt8}, n = x.toNat → UInt8.ofNat n = x := by
    intro n x hn
    rw [hn, UInt8.ofNat_toNat]
  -- In every case the number of the character is made of the bits of its bytes.
  generalize hk : b.toNat = k at hlead
  cases hlead with
  | one hone =>
    dsimp only at h
    obtain ⟨hc, hrest⟩ := continuation_zero_eq_char h
    have hn : c.toNat = k := by rw [hc, toNat_ofNat_of_valid (by omega)]
    rw [hencode, if_pos (by omega), hbyte (hn.trans hk.symm), hrest]
    rfl
  | two hlo hhi =>
    dsimp only at h
    obtain ⟨b', after, rfl, hlow, hhigh, h⟩ := continuation_succ_eq_char h
    obtain ⟨hc, hrest⟩ := continuation_zero_eq_char h
    simp only [UInt8.reduceToNat] at hlow hhigh
    have hn : c.toNat = (k - 0xC0) * 64 + (b'.toNat - 0x80) := by
      rw [hc, toNat_ofNat_of_valid (by omega)]
    rw [hencode, if_neg (by omega), if_pos (by omega), hbyte (x := b) (by omega),
      hbyte (x := b') (by omega), hrest]
    rfl
  | three hlo hhi hlow hhigh hshort hsurrogate =>
    dsimp only at h
    obtain ⟨b', after, rfl, hlow', hhigh', h⟩ := continuation_succ_eq_char h
    obtain ⟨b'', after', rfl, hlow'', hhigh'', h⟩ := continuation_succ_eq_char h
    obtain ⟨hc, hrest⟩ := continuation_zero_eq_char h
    simp only [UInt8.reduceToNat] at hlow'' hhigh''
    have hn : c.toNat = ((k - 0xE0) * 64 + (b'.toNat - 0x80)) * 64 + (b''.toNat - 0x80) := by
      rw [hc, toNat_ofNat_of_valid (by omega)]
    rw [hencode, if_neg (by omega), if_neg (by omega), if_pos (by omega), hbyte (x := b) (by omega),
      hbyte (x := b') (by omega), hbyte (x := b'') (by omega), hrest]
    rfl
  | four hlo hhi hlow hhigh hshort hlarge =>
    dsimp only at h
    obtain ⟨b', after, rfl, hlow', hhigh', h⟩ := continuation_succ_eq_char h
    obtain ⟨b'', after', rfl, hlow'', hhigh'', h⟩ := continuation_succ_eq_char h
    obtain ⟨b3, after'', rfl, hlow3, hhigh3, h⟩ := continuation_succ_eq_char h
    obtain ⟨hc, hrest⟩ := continuation_zero_eq_char h
    simp only [UInt8.reduceToNat] at hlow'' hhigh'' hlow3 hhigh3
    have hn : c.toNat = (((k - 0xF0) * 64 + (b'.toNat - 0x80)) * 64 + (b''.toNat - 0x80)) * 64 +
        (b3.toNat - 0x80) := by
      rw [hc, toNat_ofNat_of_valid (by omega)]
    rw [hencode, if_neg (by omega), if_neg (by omega), if_neg (by omega), hbyte (x := b) (by omega),
      hbyte (x := b') (by omega), hbyte (x := b'') (by omega), hbyte (x := b3) (by omega), hrest]
    rfl

theorem eq_encode_of_decodeFrom {index : Nat} {bytes : List UInt8} {cs : List Char}
    (h : decodeFrom index bytes = .ok cs) : bytes = encode cs := by
  fun_induction decodeFrom index bytes generalizing cs with
  | case1 =>
    cases h
    rfl
  | case2 index b bytes c rest hfront ih =>
    cases hrest : decodeFrom (index + c.utf8Size) rest with
    | error e =>
      rw [hrest] at h
      cases h
    | ok ds =>
      rw [hrest] at h
      cases h
      rw [encode_cons, ← ih hrest]
      exact eq_encodeChar_of_front hfront
  | case3 => cases h
  | case4 => cases h

/-- A text is read off exactly the bytes in which it is written. -/
theorem decode_eq_ok_iff {bytes : List UInt8} {cs : List Char} :
    decode bytes = .ok cs ↔ bytes = encode cs := by
  constructor
  · exact eq_encode_of_decodeFrom
  · rintro rfl
    exact decode_encode cs

-- A text whose bytes begin those of another one begins it.
theorem append_of_encode_append {cs ds : List Char} {bytes : List UInt8}
    (h : encode cs ++ bytes = encode ds) : ∃ es, ds = cs ++ es ∧ bytes = encode es := by
  induction cs generalizing ds with
  | nil => exact ⟨ds, rfl, h⟩
  | cons c cs ih =>
    obtain ⟨b, tail, hbytes, hfront⟩ := front_encodeChar c
    cases ds with
    | nil =>
      rw [encode_cons, hbytes] at h
      cases h
    | cons d ds =>
      obtain ⟨b', tail', hbytes', hfront'⟩ := front_encodeChar d
      rw [encode_cons, encode_cons, hbytes, hbytes', List.append_assoc, List.cons_append,
        List.cons_append] at h
      obtain ⟨hb, htail⟩ := List.cons.inj h
      -- Both characters are read off the same bytes.
      have hsame := (hfront (encode cs ++ bytes)).symm
      rw [hb, htail, hfront'] at hsame
      obtain ⟨rfl, hrest⟩ := Front.char.inj hsame
      obtain ⟨es, rfl, hes⟩ := ih hrest
      exact ⟨es, rfl, hes⟩

end Statewright.Text.Utf8

import Statewright.Uuid

/-!
# Identifiers: reading what was written

The hyphenated groups of digits spell the sixteen bytes that they were written from.
-/

namespace Statewright

namespace Text.Hex

theorem digit?_digitChar {n : Nat} (h : n < 16) : digit? (Nat.digitChar n) = some n := by
  have hall : ∀ k : Fin 16, digit? (Nat.digitChar k.val) = some k.val := by
    decide
  exact hall ⟨n, h⟩

theorem digitChar_ne_hyphen {n : Nat} (h : n < 16) : Nat.digitChar n ≠ '-' := by
  intro heq
  have hdigit := digit?_digitChar h
  rw [heq] at hdigit
  cases hdigit

theorem utf8Size_digitChar {n : Nat} (h : n < 16) : (Nat.digitChar n).utf8Size = 1 := by
  have hall : ∀ k : Fin 16, (Nat.digitChar k.val).utf8Size = 1 := by
    decide
  exact hall ⟨n, h⟩

theorem encode_append (as bs : List UInt8) : encode (as ++ bs) = encode as ++ encode bs :=
  List.flatMap_append

theorem encode_cons (b : UInt8) (bytes : List UInt8) :
    encode (b :: bytes) =
      Nat.digitChar (b.toNat / 16) :: Nat.digitChar (b.toNat % 16) :: encode bytes :=
  rfl

theorem length_encode (bytes : List UInt8) : (encode bytes).length = 2 * bytes.length := by
  induction bytes with
  | nil => rfl
  | cons b bytes ih =>
    rw [encode_cons, List.length_cons, List.length_cons, List.length_cons, ih]
    omega

theorem mem_encode {bytes : List UInt8} {c : Char} (h : c ∈ encode bytes) :
    ∃ n < 16, c = Nat.digitChar n := by
  induction bytes with
  | nil => cases h
  | cons b bytes ih =>
    have hb := b.toNat_lt
    rw [encode_cons] at h
    rcases List.mem_cons.mp h with rfl | h
    · exact ⟨b.toNat / 16, by omega, rfl⟩
    rcases List.mem_cons.mp h with rfl | h
    · exact ⟨b.toNat % 16, by omega, rfl⟩
    · exact ih h

theorem decode?_encode (bytes : List UInt8) : decode? (encode bytes) = some bytes := by
  induction bytes with
  | nil => rfl
  | cons b bytes ih =>
    have hb := b.toNat_lt
    have hbyte : b.toNat / 16 * 16 + b.toNat % 16 = b.toNat := by omega
    rw [encode_cons, decode?, digit?_digitChar (by omega), digit?_digitChar (by omega), ih]
    show some (UInt8.ofNat (b.toNat / 16 * 16 + b.toNat % 16) :: bytes) = _
    rw [hbyte, UInt8.ofNat_toNat]

end Text.Hex

namespace Text.Utf8

-- Characters of one byte each.
theorem size_eq_length {cs : List Char} (h : ∀ c ∈ cs, c.utf8Size = 1) : size cs = cs.length := by
  induction cs with
  | nil => rfl
  | cons c cs ih =>
    rw [size_cons, h c List.mem_cons_self, ih (fun d hd => h d (List.mem_cons_of_mem c hd)),
      List.length_cons, Nat.add_comm]

end Text.Utf8

namespace Uuid

open Text

def part (id : Uuid) (start count : Nat) : List UInt8 :=
  (id.bytes.drop start).take count

theorem length_part (id : Uuid) {start count : Nat} (h : start + count ≤ 16) :
    (Hex.encode (id.part start count)).length = 2 * count := by
  have hsize := id.size
  rw [Hex.length_encode, part, List.length_take, List.length_drop]
  omega

theorem toList_text (id : Uuid) :
    id.text.toList = Hex.encode (id.part 0 4) ++ '-' :: (Hex.encode (id.part 4 2) ++
      '-' :: (Hex.encode (id.part 6 2) ++ '-' :: (Hex.encode (id.part 8 2) ++
      '-' :: Hex.encode (id.part 10 6)))) := by
  rw [text, String.toList_ofList]
  simp only [List.append_assoc, List.cons_append]
  rfl

-- The groups together have all the bytes.
theorem flatten_parts (id : Uuid) :
    id.part 0 4 ++ (id.part 4 2 ++ (id.part 6 2 ++ (id.part 8 2 ++ id.part 10 6))) = id.bytes := by
  have hsize := id.size
  have hstep : ∀ start count, id.part start count ++ id.bytes.drop (start + count) =
      id.bytes.drop start := by
    intro start count
    rw [part, ← List.drop_drop, List.take_append_drop]
  have hlast : id.part 10 6 = id.bytes.drop 10 := by
    rw [part, List.take_of_length_le]
    rw [List.length_drop]
    omega
  rw [hlast, hstep 8 2, hstep 6 2, hstep 4 2, hstep 0 4, List.drop_zero]

theorem isHyphen_of_mem_encode {bytes : List UInt8} :
    ∀ c ∈ Hex.encode bytes, (decide (c = '-')) = false := by
  intro c hc
  obtain ⟨n, hn, rfl⟩ := Hex.mem_encode hc
  exact decide_eq_false (Hex.digitChar_ne_hyphen hn)

theorem groups_text (id : Uuid) :
    id.text.toList.splitOnP (· = '-') =
      [Hex.encode (id.part 0 4), Hex.encode (id.part 4 2), Hex.encode (id.part 6 2),
        Hex.encode (id.part 8 2), Hex.encode (id.part 10 6)] := by
  rw [toList_text]
  repeat rw [List.splitOnP_append_cons_of_forall_mem isHyphen_of_mem_encode '-' rfl]
  rw [List.splitOnP_eq_singleton isHyphen_of_mem_encode]

theorem size_text (id : Uuid) : Utf8.size id.text.toList = hyphenatedSize := by
  rw [Utf8.size_eq_length]
  · rw [toList_text]
    simp only [List.length_append, List.length_cons, length_part, Nat.reduceAdd, Nat.reduceLeDiff]
    rfl
  · intro c hc
    have hcases : c = '-' ∨ ∃ bytes, c ∈ Hex.encode bytes := by
      rw [toList_text] at hc
      simp only [List.mem_append, List.mem_cons] at hc
      rcases hc with h | h | h | h | h | h | h | h | h
      all_goals first | exact .inl h | exact .inr ⟨_, h⟩
    rcases hcases with rfl | ⟨bytes, hmem⟩
    · rfl
    · obtain ⟨n, hn, rfl⟩ := Hex.mem_encode hmem
      exact Hex.utf8Size_digitChar hn

-- The written form of an identifier is read as that identifier.
theorem parse_text (id : Uuid) : parse id.text = .ok id := by
  have hbody : Body.ofText id.text.toList = ⟨id.text.toList, 0, true⟩ := by
    rw [Body.ofText, size_text]
    rfl
  have hlengths : ([Hex.encode (id.part 0 4), Hex.encode (id.part 4 2), Hex.encode (id.part 6 2),
      Hex.encode (id.part 8 2), Hex.encode (id.part 10 6)].map List.length) = groupLengths := by
    simp only [List.map_cons, List.map_nil, length_part, Nat.reduceAdd, Nat.reduceLeDiff,
      Nat.reduceMul, groupLengths]
  have hdigits : ofDigits? (Hex.encode id.bytes) = some id := by
    rw [ofDigits?, Hex.decode?_encode]
    exact dif_pos id.size
  unfold parse
  dsimp only
  rw [hbody, groups_text, hlengths]
  simp only [List.flatten_cons, List.flatten_nil, List.append_nil, ← Hex.encode_append,
    flatten_parts, decide_true, Bool.true_or, if_true, hdigits]

end Uuid

end Statewright

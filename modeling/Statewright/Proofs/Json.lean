import Statewright.Json.Decoder
import Statewright.Json.Printer
import Statewright.Proofs.Fallible
import Statewright.Proofs.Names
import Statewright.Proofs.Uuid

/-!
# JSON: reading what was printed

A decoder reads a printer if it takes exactly what the printer writes, at any depth, behind any
space and in front of whatever can follow a printed value. Lists and records read what they print
if their parts do.
-/

open Statewright.Fallible

namespace Statewright.Json

/-! ## Space -/

/-- Characters that may stand between tokens, and no others. -/
def Spaces (space : List Char) : Prop :=
  ∀ c ∈ space, isSpace c = true

theorem spaces_nil : Spaces [] := by
  intro c hc
  cases hc

theorem spaces_newline (depth : Nat) : Spaces (Printer.newline depth) := by
  intro c hc
  rcases List.mem_cons.mp hc with rfl | hc
  · rfl
  · rw [List.eq_of_mem_replicate hc]
    rfl

theorem skipSpace_append {space : List Char} (h : Spaces space) {c : Char}
    (hc : isSpace c = false) (cs : List Char) : skipSpace (space ++ c :: cs) = c :: cs := by
  rw [skipSpace, List.dropWhile_append_of_pos h, List.dropWhile_cons_of_neg (by rw [hc]; decide)]

/-- What can stand right after a printed value. -/
def Delimited (rest : List Char) : Prop :=
  ∀ c cs, rest = c :: cs → c = ',' ∨ c = '\n'

theorem delimited_nil : Delimited [] := by
  intro c cs h
  cases h

theorem delimited_newline (depth : Nat) (rest : List Char) :
    Delimited (Printer.newline depth ++ rest) := by
  intro c cs h
  cases h
  exact .inr rfl

theorem delimited_comma (rest : List Char) : Delimited (',' :: rest) := by
  intro c cs h
  cases h
  exact .inl rfl

/-! ## Texts -/

theorem hexEscape_ofByte {n : Nat} (h : n < 0x20) (rest : List Char) :
    hexEscape ('0' :: '0' :: Nat.digitChar (n / 16) :: Nat.digitChar (n % 16) :: rest) =
      .ok (n, rest) := by
  have hnumber : Text.Hex.number? ['0', '0', Nat.digitChar (n / 16), Nat.digitChar (n % 16)] =
      some n := by
    have hzero : Text.Hex.digit? '0' = some 0 := by decide
    simp only [Text.Hex.number?, List.foldlM, hzero,
      Text.Hex.digit?_digitChar (n := n / 16) (by omega),
      Text.Hex.digit?_digitChar (n := n % 16) (by omega), Option.map_some, Option.bind_eq_bind,
      Option.bind_some, Option.pure_def, Option.some.injEq]
    omega
  unfold hexEscape
  simp only [List.take_succ_cons, List.take_zero, List.length_cons, List.length_nil, if_true,
    hnumber]
  rfl

-- A control is escaped by its code point.
theorem escape_control {c : Char} (h : c.toNat < 0x20) (rest : List Char) :
    escape ('u' :: '0' :: '0' :: (Text.Hex.ofByte (UInt8.ofNat c.toNat) ++ rest)) =
      .ok (c, rest) := by
  have hbyte : (UInt8.ofNat c.toNat).toNat = c.toNat := Nat.mod_eq_of_lt (by omega)
  have hlow : isLowSurrogate c.toNat = false := by
    rw [isLowSurrogate, Bool.and_eq_false_iff, decide_eq_false_iff_not]
    omega
  have hhigh : isHighSurrogate c.toNat = false := by
    rw [isHighSurrogate, Bool.and_eq_false_iff, decide_eq_false_iff_not]
    omega
  rw [Text.Hex.ofByte, hbyte]
  show codePoint _ = _
  rw [codePoint, List.cons_append, List.cons_append, List.nil_append, hexEscape_ofByte h, ok_bind]
  simp only [hlow, hhigh, Bool.false_eq_true, if_false, Char.ofNat_toNat]
  rfl

theorem textBody_escape {n : Nat} {c : Char} {cs ds rest tail : List Char}
    (hescape : escape cs = .ok (c, rest)) (h : textBody n rest = .ok (ds, tail)) :
    textBody (n + 1) ('\\' :: cs) = .ok (c :: ds, tail) := by
  rw [textBody, if_neg (by decide), if_pos rfl, hescape, ok_bind]
  dsimp only
  rw [h]
  rfl

theorem textBody_textChar (c : Char) {n : Nat} {ds rest tail : List Char}
    (h : textBody n rest = .ok (ds, tail)) :
    textBody (n + 1) (Printer.textChar c ++ rest) = .ok (c :: ds, tail) := by
  unfold Printer.textChar
  -- All special characters have a short escape; the last case is any other one.
  split
  case h_8 hquote hbackslash _ _ _ _ _ =>
    by_cases hcontrol : c.toNat < 0x20
    · rw [if_pos hcontrol]
      exact textBody_escape (escape_control hcontrol rest) h
    · rw [if_neg hcontrol, List.singleton_append, textBody, if_neg hquote, if_neg hbackslash,
        if_neg hcontrol, h]
      rfl
  all_goals exact textBody_escape rfl h

theorem length_textChar (c : Char) : 1 ≤ (Printer.textChar c).length := by
  unfold Printer.textChar
  split
  case h_8 =>
    split
    · exact Nat.le_add_left 1 _
    · exact Nat.le_refl 1
  all_goals exact Nat.le_add_left 1 1

theorem textBody_flatMap {cs : List Char} {n : Nat} (hn : cs.length < n) (rest : List Char) :
    textBody n (cs.flatMap Printer.textChar ++ '"' :: rest) = .ok (cs, rest) := by
  induction cs generalizing n with
  | nil =>
    -- There is fuel for every character and one more for the closing quote.
    obtain ⟨n, rfl⟩ := Nat.exists_eq_add_one_of_ne_zero (Nat.ne_of_gt hn)
    rw [List.flatMap_nil, List.nil_append, textBody, if_pos rfl]
  | cons c cs ih =>
    obtain ⟨n, rfl⟩ := Nat.exists_eq_add_one_of_ne_zero (Nat.ne_of_gt (Nat.zero_lt_of_lt hn))
    rw [List.flatMap_cons, List.append_assoc]
    exact textBody_textChar c (ih (Nat.lt_of_succ_lt_succ hn))

theorem length_le_flatMap_textChar (cs : List Char) :
    cs.length ≤ (cs.flatMap Printer.textChar).length := by
  induction cs with
  | nil => exact Nat.le_refl 0
  | cons c cs ih =>
    have hc := length_textChar c
    rw [List.flatMap_cons, List.length_append, List.length_cons]
    omega

theorem quote_append (cs rest : List Char) :
    Printer.quote cs ++ rest = '"' :: (cs.flatMap Printer.textChar ++ '"' :: rest) := by
  simp [Printer.quote]

-- A quoted text is read as it was before it was escaped.
theorem text_flatMap (s : String) (rest : List Char) :
    text (s.toList.flatMap Printer.textChar ++ '"' :: rest) = .ok (s, rest) := by
  have hlength := length_le_flatMap_textChar s.toList
  rw [text, textBody_flatMap, ok_bind]
  · show Except.ok (String.ofList s.toList, rest) = _
    rw [String.ofList_toList]
  · rw [List.length_append]
    omega

/-! ## Numbers -/

theorem le_ofDigitChars (digits : List Char) (n : Nat) : n ≤ Nat.ofDigitChars 10 digits n := by
  have hpow : 0 < 10 ^ digits.length := Nat.pow_pos (by decide)
  have hle := Nat.le_mul_of_pos_left n hpow
  rw [Nat.ofDigitChars_eq_ofDigitChars_zero]
  omega

-- No digit of a number that fits is dropped.
theorem foldl_digitValue {digits : List Char} {n : Nat}
    (h : Nat.ofDigitChars 10 digits n ≤ maxSignificand) :
    digits.foldl (fun (n, dropped) c =>
      let m := n * 10 + digitValue c
      if dropped = 0 ∧ m ≤ maxSignificand then (m, 0) else (n, dropped + 1)) (n, 0) =
      (Nat.ofDigitChars 10 digits n, 0) := by
  induction digits generalizing n with
  | nil => rfl
  | cons c digits ih =>
    have hstep : n * 10 + digitValue c = 10 * n + (c.toNat - '0'.toNat) := by
      rw [digitValue, Nat.mul_comm]
    rw [Nat.ofDigitChars_cons] at h ⊢
    -- The number only grows with further digits, so it fits after each of them.
    have hfits := Nat.le_trans (le_ofDigitChars digits _) h
    rw [List.foldl_cons]
    dsimp only
    rw [hstep, if_pos ⟨rfl, hfits⟩]
    exact ih h

theorem wholeSignificand_toDigits {n : Nat} (h : n ≤ maxSignificand) :
    wholeSignificand (Nat.toDigits 10 n) = (n, 0) := by
  have hvalue : Nat.ofDigitChars 10 (Nat.toDigits 10 n) 0 = n := Nat.ofDigitChars_ten_toDigits
  rw [wholeSignificand, foldl_digitValue (by rw [hvalue]; exact h), hvalue]

theorem not_isDigit_of_delimited {rest : List Char} (h : Delimited rest) :
    ∀ c cs, rest = c :: cs → c.isDigit = false := by
  intro c cs heq
  rcases h c cs heq with rfl | rfl
  all_goals rfl

theorem afterWhole_delimited {rest : List Char} (h : Delimited rest) (n : Nat) :
    afterWhole false n 0 rest = .ok (.natural n, rest) := by
  cases rest with
  | nil => rfl
  | cons c cs =>
    rcases h c cs rfl with rfl | rfl
    all_goals rfl

theorem digitRun_toDigits (n : Nat) {rest : List Char} (h : Delimited rest) :
    digitRun (Nat.toDigits 10 n ++ rest) = (Nat.toDigits 10 n, rest) := by
  have hdigits : ∀ c ∈ Nat.toDigits 10 n, c.isDigit = true := fun c hc =>
    Nat.isDigit_of_mem_toDigits (by decide) (by decide) hc
  have hstop := not_isDigit_of_delimited h
  rw [digitRun, List.takeWhile_append_of_pos hdigits, List.dropWhile_append_of_pos hdigits]
  cases rest with
  | nil => rw [List.takeWhile_nil, List.dropWhile_nil, List.append_nil]
  | cons c cs =>
    have hc : ¬ c.isDigit = true := by rw [hstop c cs rfl]; decide
    rw [List.takeWhile_cons_of_neg hc, List.dropWhile_cons_of_neg hc, List.append_nil]

-- A number other than zero has no leading zero.
theorem head?_toDigits {n : Nat} (h : n ≠ 0) : (Nat.toDigits 10 n).head? ≠ some '0' := by
  -- The front digit is that of the tenth part, which is smaller and not zero either.
  induction n using Nat.strongRecOn with
  | ind n ih =>
    rw [Nat.toDigits_eq_if (by decide)]
    by_cases hlt : n < 10
    · have hall : ∀ k : Fin 10, k.val ≠ 0 → [Nat.digitChar k.val].head? ≠ some '0' := by decide
      rw [if_pos hlt]
      exact hall ⟨n, hlt⟩ h
    · have hfront := ih (n / 10) (by omega) (by omega)
      rw [if_neg hlt]
      cases hdigits : Nat.toDigits 10 (n / 10) with
      | nil => exact absurd hdigits Nat.toDigits_ne_nil
      | cons d ds =>
        rw [hdigits] at hfront
        exact hfront

theorem number_toDigits {n : Nat} (h : n ≤ maxSignificand) {rest : List Char}
    (hrest : Delimited rest) :
    number false (Nat.toDigits 10 n ++ rest) = .ok (.natural n, rest) := by
  by_cases hzero : n = 0
  -- Zero is read by a case of its own, in which no digit may follow.
  · have hdigit := not_isDigit_of_delimited hrest
    rw [hzero]
    show number false ('0' :: rest) = _
    cases rest with
    | nil => rfl
    | cons c cs =>
      rw [number, hdigit c cs rfl, if_neg (by decide), afterWhole_delimited hrest]
  · have hrun := digitRun_toDigits n hrest
    have hhead := head?_toDigits hzero
    have hwhole := wholeSignificand_toDigits h
    cases hdigits : Nat.toDigits 10 n with
    | nil => exact absurd hdigits Nat.toDigits_ne_nil
    | cons d ds =>
      have hd : d.isDigit = true := by
        apply Nat.isDigit_of_mem_toDigits (b := 10) (n := n) (by decide) (by decide)
        rw [hdigits]
        exact List.mem_cons_self
      rw [hdigits] at hrun hhead hwhole
      rw [List.cons_append] at hrun ⊢
      unfold number
      split
      · next heq => cases heq
      · next heq =>
        rw [(List.cons.inj heq).1] at hhead
        exact absurd rfl hhead
      · next heq =>
        cases heq
        rw [if_pos hd, hrun]
        dsimp only
        rw [hwhole]
        exact afterWhole_delimited hrest n

namespace Decoder

open Printer (newline)

variable {α β δ : Type}

/-! ## Decoders and printers -/

/-- What a printer writes, a decoder reads as the value, and it leaves what follows. -/
structure Reads (d : Decoder α) (p : Printer) (a : α) : Prop where
  /-- A printed value does not begin with space, nor like the end of a list. -/
  starts : ∀ depth, ∃ c cs, p depth = c :: cs ∧ isSpace c = false ∧ c ≠ ']'
  reads : ∀ depth space rest, Spaces space → Delimited rest →
    d (space ++ (p depth ++ rest)) = .ok (a, rest)

theorem decode_print {d : Decoder α} {p : Printer} {a : α} (h : Reads d p a) :
    decode d p.print = .ok a := by
  have hreads := h.reads 0 [] [] spaces_nil delimited_nil
  rw [List.nil_append, List.append_nil] at hreads
  rw [decode, Printer.print, String.toList_ofList, hreads]
  rfl

theorem reads_textAs {expected : String} {read : String → Except Cause α} {s : String} {a : α}
    (h : read s = .ok a) : Reads (textAs expected read) (Printer.text s) a where
  starts depth := ⟨'"', _, rfl, rfl, by decide⟩
  reads depth space rest hspace _ := by
    rw [Printer.text, quote_append, textAs, skipSpace_append hspace rfl]
    show (text _ >>= _) = _
    rw [text_flatMap, ok_bind]
    dsimp only
    rw [h]
    rfl

-- The front of a printed number is a digit.
theorem exists_digit (n : Nat) : ∃ c cs, Nat.toDigits 10 n = c :: cs ∧ c.isDigit = true := by
  cases hdigits : Nat.toDigits 10 n with
  | nil => exact absurd hdigits Nat.toDigits_ne_nil
  | cons c cs =>
    refine ⟨c, cs, rfl, Nat.isDigit_of_mem_toDigits (b := 10) (n := n) (by decide) (by decide) ?_⟩
    rw [hdigits]
    exact List.mem_cons_self

theorem isSpace_of_isDigit {c : Char} (h : c.isDigit = true) : isSpace c = false := by
  cases hspace : isSpace c with
  | false => rfl
  | true =>
    simp only [isSpace, Bool.or_eq_true, decide_eq_true_eq] at hspace
    rcases hspace with ((rfl | rfl) | rfl) | rfl
    all_goals cases h

theorem reads_natural32 (n : UInt32) : Reads natural32 (Printer.natural n.toNat) n where
  starts depth := by
    obtain ⟨c, cs, hdigits, hc⟩ := exists_digit n.toNat
    refine ⟨c, cs, hdigits, isSpace_of_isDigit hc, ?_⟩
    rintro rfl
    cases hc
  reads depth space rest hspace hrest := by
    have hn := n.toNat_lt_size
    have hfits : n.toNat ≤ maxSignificand := Nat.le_trans (Nat.le_of_lt hn) (by decide)
    have hnumber := number_toDigits hfits hrest
    obtain ⟨c, cs, hdigits, hc⟩ := exists_digit n.toNat
    rw [Printer.natural, natural32, hdigits, List.cons_append,
      skipSpace_append hspace (isSpace_of_isDigit hc)]
    -- The three cases are those of the end, of a minus sign and of anything else.
    rw [hdigits, List.cons_append] at hnumber
    split
    · next heq => cases heq
    · next heq =>
      rw [(List.cons.inj heq).1] at hc
      cases hc
    · next heq =>
      cases heq
      rw [if_pos hc, hnumber]
      dsimp only
      rw [ok_bind]
      dsimp only
      rw [if_pos hn, UInt32.ofNat_toNat]
      rfl

theorem reads_null {d : Decoder α} : Reads (nullable d) (Printer.nullable none) none where
  starts depth := ⟨'n', _, rfl, rfl, by decide⟩
  reads depth space rest hspace _ := by
    show nullable d (space ++ 'n' :: 'u' :: 'l' :: 'l' :: rest) = _
    rw [nullable, skipSpace_append hspace rfl]
    rfl

theorem reads_some {d : Decoder α} {p : Printer} {a : α} (h : Reads d p a)
    (hstart : ∀ depth, (p depth).head? ≠ some 'n') :
    Reads (nullable d) (Printer.nullable (some p)) (some a) where
  starts := h.starts
  reads depth space rest hspace hrest := by
    have hreads := h.reads depth [] rest spaces_nil hrest
    have hn := hstart depth
    obtain ⟨c, cs, hp, hc, -⟩ := h.starts depth
    rw [Printer.nullable, nullable]
    rw [hp] at hn hreads ⊢
    rw [List.nil_append, List.cons_append] at hreads
    -- Only a value that begins with n could be taken for null.
    rw [List.cons_append, skipSpace_append hspace hc]
    split
    · next heq =>
      rw [(List.cons.inj heq).1] at hn
      exact absurd rfl hn
    · rw [hreads]
      rfl

/-! ## Lists -/

theorem intercalate_cons (line : List Char) (lines : List (List Char)) :
    [','].intercalate (line :: lines) = line ++ lines.flatMap (fun l => ',' :: l) := by
  induction lines generalizing line with
  | nil => simp
  | cons l lines ih =>
    rw [List.intercalate_cons_of_ne_nil (List.cons_ne_nil l lines), ih, List.flatMap_cons,
      List.append_assoc, List.singleton_append, List.cons_append]

/-- What a list or an object goes on with after an entry: the other entries, each behind a comma,
and its end. -/
def tailOf (closing : Char) (depth : Nat) (entries : List Printer) (rest : List Char) : List Char :=
  entries.flatMap (fun p => ',' :: (newline (depth + 1) ++ p (depth + 1))) ++
    (newline depth ++ closing :: rest)

theorem tailOf_nil (closing : Char) (depth : Nat) (rest : List Char) :
    tailOf closing depth [] rest = newline depth ++ closing :: rest :=
  rfl

theorem tailOf_cons (closing : Char) (depth : Nat) (p : Printer) (entries : List Printer)
    (rest : List Char) :
    tailOf closing depth (p :: entries) rest =
      ',' :: (newline (depth + 1) ++ (p (depth + 1) ++ tailOf closing depth entries rest)) := by
  simp [tailOf]

theorem delimited_tailOf (closing : Char) (depth : Nat) (entries : List Printer)
    (rest : List Char) : Delimited (tailOf closing depth entries rest) := by
  cases entries with
  | nil => exact delimited_newline depth _
  | cons p entries =>
    rw [tailOf_cons]
    exact delimited_comma _

theorem block_cons (opening closing : Char) (p : Printer) (entries : List Printer) (depth : Nat)
    (rest : List Char) :
    Printer.block opening closing (p :: entries) depth ++ rest =
      opening :: (newline (depth + 1) ++ (p (depth + 1) ++ tailOf closing depth entries rest)) := by
  rw [Printer.block]
  · simp only [List.map_cons, intercalate_cons, tailOf, List.flatMap_map, List.append_assoc,
      List.cons_append, List.nil_append]
  · intro h
    cases h

theorem length_tailOf (closing : Char) (depth : Nat) (entries : List Printer) (rest : List Char) :
    entries.length < (tailOf closing depth entries rest).length := by
  induction entries with
  | nil =>
    rw [tailOf_nil, List.length_append, List.length_cons, List.length_nil]
    omega
  | cons p entries ih =>
    rw [tailOf_cons, List.length_cons, List.length_cons, List.length_append, List.length_append]
    omega

theorem nextElement?_first (depth : Nat) {c : Char} (hc : isSpace c = false) (hend : c ≠ ']')
    (cs : List Char) : nextElement? true (newline depth ++ c :: cs) = .ok (some (c :: cs)) := by
  rw [nextElement?, skipSpace_append (spaces_newline depth) hc]
  split
  · next heq => cases heq
  · next heq => exact absurd (List.cons.inj heq).1 hend
  · next heq =>
    cases heq
    rfl

theorem nextElement?_comma (depth : Nat) {c : Char} (hc : isSpace c = false) (hend : c ≠ ']')
    (cs : List Char) :
    nextElement? false (',' :: (newline depth ++ c :: cs)) = .ok (some (c :: cs)) := by
  have hcomma : skipSpace (',' :: (newline depth ++ c :: cs)) = ',' :: (newline depth ++ c :: cs) :=
    rfl
  rw [nextElement?, hcomma]
  split
  · next heq => cases heq
  · next heq => exact absurd (List.cons.inj heq).1 (by decide)
  · next heq =>
    cases heq
    rw [if_neg Bool.false_ne_true, if_pos rfl, skipSpace_append (spaces_newline depth) hc]
    split
    · next heq => cases heq
    · next heq => exact absurd (List.cons.inj heq).1 hend
    · rfl

theorem nextElement?_end (isFirst : Bool) (depth : Nat) (rest : List Char) :
    nextElement? isFirst (newline depth ++ ']' :: rest) = .ok none := by
  rw [nextElement?, skipSpace_append (spaces_newline depth) rfl]
  rfl

theorem elements_step {d : Decoder α} {n : Nat} {isFirst : Bool} {cs front rest tail : List Char}
    {a : α} {as : List α} (hnext : nextElement? isFirst cs = .ok (some front))
    (hread : d front = .ok (a, rest)) (htail : elements d n false rest = .ok (as, tail)) :
    elements d (n + 1) isFirst cs = .ok (a :: as, tail) := by
  rw [elements, hnext, ok_bind]
  dsimp only
  rw [hread, ok_bind]
  dsimp only
  rw [htail]
  rfl

theorem elements_tailOf {d : Decoder α} {print : α → Printer} {items : List α}
    (h : ∀ a ∈ items, Reads d (print a) a) {n : Nat} (hn : items.length < n) (depth : Nat)
    (rest : List Char) :
    elements d n false (tailOf ']' depth (items.map print) rest) =
      .ok (items, newline depth ++ ']' :: rest) := by
  induction items generalizing n with
  | nil =>
    obtain ⟨n, rfl⟩ := Nat.exists_eq_add_one_of_ne_zero (Nat.ne_of_gt hn)
    rw [List.map_nil, tailOf_nil, elements, nextElement?_end]
    rfl
  | cons a items ih =>
    obtain ⟨n, rfl⟩ := Nat.exists_eq_add_one_of_ne_zero (Nat.ne_of_gt (Nat.zero_lt_of_lt hn))
    have ha := h a List.mem_cons_self
    -- The space in front of an entry is skipped when the next element is looked for, so the entry
    -- itself is read without any.
    have hread := ha.reads (depth + 1) [] _ spaces_nil
      (delimited_tailOf ']' depth (items.map print) rest)
    obtain ⟨c, cs, hp, hc, hend⟩ := ha.starts (depth + 1)
    rw [List.nil_append, hp, List.cons_append] at hread
    rw [List.map_cons, tailOf_cons, hp, List.cons_append]
    exact elements_step (nextElement?_comma (depth + 1) hc hend _) hread
      (ih (fun b hb => h b (List.mem_cons_of_mem a hb)) (Nat.lt_of_succ_lt_succ hn))

theorem endList_newline (depth : Nat) (rest : List Char) :
    endList (newline depth ++ ']' :: rest) = (rest, none) := by
  rw [endList, skipSpace_append (spaces_newline depth) rfl]
  rfl

theorem reads_list {d : Decoder α} {print : α → Printer} {items : List α}
    (h : ∀ a ∈ items, Reads d (print a) a) :
    Reads (list d) (Printer.list (items.map print)) items where
  starts depth := by
    cases items with
    | nil => exact ⟨'[', _, rfl, rfl, by decide⟩
    | cons a items => exact ⟨'[', _, rfl, rfl, by decide⟩
  reads depth space rest hspace _ := by
    cases items with
    | nil =>
      show list d (space ++ '[' :: ']' :: rest) = _
      rw [list, skipSpace_append hspace rfl]
      rfl
    | cons a items =>
      have ha := h a List.mem_cons_self
      have hread := ha.reads (depth + 1) [] _ spaces_nil
        (delimited_tailOf ']' depth (items.map print) rest)
      obtain ⟨c, cs, hp, hc, hend⟩ := ha.starts (depth + 1)
      -- The fuel is the length of the text, and every further entry takes at least a comma of it.
      have hlength := length_tailOf ']' depth (items.map print) rest
      rw [List.length_map] at hlength
      rw [List.nil_append, hp, List.cons_append] at hread
      rw [Printer.list, List.map_cons, block_cons, hp, List.cons_append, list,
        skipSpace_append hspace rfl]
      show closeWith endList (elements d _ true _) = _
      rw [elements_step (nextElement?_first (depth + 1) hc hend _) hread
        (elements_tailOf (fun b hb => h b (List.mem_cons_of_mem a hb)) _ depth rest)]
      · rw [closeWith, endList_newline]
      · rw [List.length_append, List.length_cons, List.length_append]
        omega

/-! ## Records -/

/-- Fields that are not in a draft yet take it to another one as they are read in order. -/
inductive Fills (shape : Shape δ α) : δ → List (String × Printer) → δ → Prop where
  | nil (draft : δ) : Fills shape draft [] draft
  | cons {draft next final : δ} {f : Field δ} {name : String} {value : Printer}
      {fields : List (String × Printer)}
      (hfind : shape.fields.find? (fun f => f.name = name) = some f)
      (hnew : f.isSet draft = false) (hread : Reads (f.read draft) value next)
      (hrest : Fills shape next fields final) : Fills shape draft ((name, value) :: fields) final

theorem reads_field {name : String} {get : δ → Option α} {set : δ → α → δ} {d : Decoder α}
    {p : Printer} {a : α} (h : Reads d p a) (draft : δ) :
    Reads ((Field.of name get set d).read draft) p (set draft a) where
  starts := h.starts
  reads depth space rest hspace hrest := by
    show (d _).map _ = _
    rw [h.reads depth space rest hspace hrest]
    rfl

/-- The printer of a field of an object. -/
def entryOf (field : String × Printer) : Printer :=
  Printer.entry field.1 field.2

theorem entryOf_append (name : String) (value : Printer) (depth : Nat) (rest : List Char) :
    entryOf (name, value) depth ++ rest =
      '"' :: (name.toList.flatMap Printer.textChar ++
        '"' :: ':' :: ' ' :: (value depth ++ rest)) := by
  simp only [entryOf, Printer.entry, List.append_assoc, quote_append, List.cons_append,
    List.nil_append]

theorem nextKey?_first (depth : Nat) (cs : List Char) :
    nextKey? true (newline depth ++ '"' :: cs) = .ok (some cs) := by
  rw [nextKey?, skipSpace_append (spaces_newline depth) rfl]
  rfl

theorem nextKey?_comma (depth : Nat) (cs : List Char) :
    nextKey? false (',' :: (newline depth ++ '"' :: cs)) = .ok (some cs) := by
  have hcomma : skipSpace (',' :: (newline depth ++ '"' :: cs)) =
      ',' :: (newline depth ++ '"' :: cs) := rfl
  rw [nextKey?, hcomma]
  split
  · next heq => cases heq
  · next heq => exact absurd (List.cons.inj heq).1 (by decide)
  · next heq =>
    cases heq
    rw [if_neg Bool.false_ne_true, if_pos rfl, skipSpace_append (spaces_newline depth) rfl]
    rfl

theorem nextKey?_end (isFirst : Bool) (depth : Nat) (rest : List Char) :
    nextKey? isFirst (newline depth ++ '\x7d' :: rest) = .ok none := by
  rw [nextKey?, skipSpace_append (spaces_newline depth) rfl]
  rfl

theorem endObject_newline (depth : Nat) (rest : List Char) :
    endObject (newline depth ++ '\x7d' :: rest) = (rest, none) := by
  rw [endObject, skipSpace_append (spaces_newline depth) rfl]
  rfl

theorem fieldsByName_step {shape : Shape δ α} {n : Nat} {isFirst : Bool} {draft next : δ}
    {f : Field δ} {name : String} {value : Printer} {depth : Nat} {cs rest : List Char}
    (hnext : nextKey? isFirst cs = .ok (some (name.toList.flatMap Printer.textChar ++
      '"' :: ':' :: ' ' :: (value depth ++ rest))))
    (hfind : shape.fields.find? (fun f => f.name = name) = some f)
    (hnew : f.isSet draft = false) (hread : Reads (f.read draft) value next)
    (hrest : Delimited rest) :
    fieldsByName shape (n + 1) isFirst draft cs = fieldsByName shape n false next rest := by
  have hspace : Spaces [' '] := by
    intro c hc
    rw [List.mem_singleton.mp hc]
    rfl
  have hcolon : colon (':' :: ' ' :: (value depth ++ rest)) =
      .ok ((), ' ' :: (value depth ++ rest)) := rfl
  -- The value stands behind the space that follows the colon.
  have hvalue := hread.reads depth [' '] rest hspace hrest
  rw [List.singleton_append] at hvalue
  rw [fieldsByName, hnext, ok_bind]
  dsimp only
  rw [text_flatMap, ok_bind]
  dsimp only
  rw [hfind]
  dsimp only
  rw [hnew, if_neg (by decide)]
  show (colon _ >>= _) = _
  rw [hcolon, ok_bind]
  dsimp only
  rw [hvalue, ok_bind]

theorem fieldsByName_tailOf {shape : Shape δ α} {draft final : δ}
    {fields : List (String × Printer)} (h : Fills shape draft fields final) {n : Nat}
    (hn : fields.length < n) (depth : Nat) (rest : List Char) :
    fieldsByName shape n false draft (tailOf '\x7d' depth (fields.map entryOf) rest) =
      .ok (final, newline depth ++ '\x7d' :: rest) := by
  induction h generalizing n with
  | nil draft =>
    obtain ⟨n, rfl⟩ := Nat.exists_eq_add_one_of_ne_zero (Nat.ne_of_gt hn)
    rw [List.map_nil, tailOf_nil, fieldsByName, nextKey?_end]
    rfl
  | cons hfind hnew hread _ ih =>
    obtain ⟨n, rfl⟩ := Nat.exists_eq_add_one_of_ne_zero (Nat.ne_of_gt (Nat.zero_lt_of_lt hn))
    rw [List.map_cons, tailOf_cons, entryOf_append,
      fieldsByName_step (nextKey?_comma (depth + 1) _) hfind hnew hread
        (delimited_tailOf '\x7d' depth _ rest)]
    exact ih (Nat.lt_of_succ_lt_succ hn)

theorem reads_record {shape : Shape δ α} {fields : List (String × Printer)} {final : δ} {a : α}
    (h : Fills shape shape.start fields final) (hne : fields ≠ [])
    (hfinish : shape.finish final = .ok a) :
    Reads (record shape) (Printer.object fields) a where
  starts depth := by
    cases fields with
    | nil => exact absurd rfl hne
    | cons field fields => exact ⟨'\x7b', _, rfl, rfl, by decide⟩
  reads depth space rest hspace _ := by
    cases h with
    | nil => exact absurd rfl hne
    | @cons _ _ _ _ name value fields hfind hnew hread hrest =>
      have hlength := length_tailOf '\x7d' depth (fields.map entryOf) rest
      rw [List.length_map] at hlength
      show record shape (space ++ (Printer.block '\x7b' '\x7d'
        (entryOf (name, value) :: fields.map entryOf) depth ++ rest)) = _
      rw [block_cons, record, skipSpace_append hspace rfl]
      show closeWith endObject (assemble shape (fieldsByName shape _ true _ _)) = _
      rw [entryOf_append, fieldsByName_step (nextKey?_first (depth + 1) _) hfind hnew hread
        (delimited_tailOf '\x7d' depth _ rest), fieldsByName_tailOf hrest]
      · rw [assemble, ok_bind]
        dsimp only
        rw [hfinish]
        show closeWith endObject (.ok (a, newline depth ++ '\x7d' :: rest)) = _
        rw [closeWith, endObject_newline]
      · simp only [List.length_append, List.length_cons]
        omega

end Decoder

end Statewright.Json

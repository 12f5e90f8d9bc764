import Statewright.Json.Scan
import Statewright.Proofs.Fallible

/-!
# JSON: where tokens end

A text in quotes ends with a sign of its own and is read as the same text whatever is put behind it.
A number does not: it goes on with further digits, but only where nothing was left behind it.
-/

open Statewright.Fallible

namespace Statewright.Json

variable {α : Type}

/-- Whether what a scanner takes does not depend on what is put behind it. -/
def Closed (d : Scan α) : Prop :=
  ∀ cs a rest, d cs = .ok (a, rest) → ∀ more, d (cs ++ more) = .ok (a, rest ++ more)

/-- Whether what a scanner takes does not depend on what is put behind the text, if it left some of
the text itself. -/
def Steady (d : Scan α) : Prop :=
  ∀ cs a rest, d cs = .ok (a, rest) → rest ≠ [] → ∀ more, d (cs ++ more) = .ok (a, rest ++ more)

theorem Closed.steady {d : Scan α} (h : Closed d) : Steady d :=
  fun cs a rest hd _ => h cs a rest hd

/-! ## Space and words -/

theorem skipSpace_more {cs rest : List Char} {c : Char} (h : skipSpace cs = c :: rest)
    (more : List Char) : skipSpace (cs ++ more) = c :: (rest ++ more) := by
  rw [skipSpace] at h
  rw [skipSpace, List.dropWhile_append, h]
  rfl

theorem skipSpace_spaces {cs : List Char} (h : skipSpace cs = []) (more : List Char) :
    skipSpace (cs ++ more) = skipSpace more := by
  rw [skipSpace] at h
  rw [skipSpace, List.dropWhile_append, h]
  rfl

theorem word_closed (letters : List Char) : Closed (word letters) := by
  intro cs a rest h more
  induction letters generalizing cs with
  | nil =>
    cases h
    rfl
  | cons l ls ih =>
    cases cs with
    | nil => cases h
    | cons c cs =>
      rw [word] at h
      rw [List.cons_append, word]
      split at h
      · next hl =>
        rw [if_pos hl]
        exact ih cs h
      · cases h

/-! ## Texts -/

theorem hexEscape_closed : Closed hexEscape := by
  intro cs n rest h more
  unfold hexEscape at h ⊢
  dsimp only at h ⊢
  by_cases hfour : (cs.take 4).length = 4
  · have hlength : 4 ≤ cs.length := by
      rw [List.length_take] at hfour
      omega
    have htake : (cs ++ more).take 4 = cs.take 4 := List.take_append_of_le_length hlength
    have hdrop : (cs ++ more).drop 4 = cs.drop 4 ++ more := List.drop_append_of_le_length hlength
    rw [htake, if_pos hfour, hdrop]
    rw [if_pos hfour] at h
    split at h
    · cases h
      rfl
    · split at h <;> cases h
  · rw [if_neg hfour] at h
    dsimp only at h
    split at h <;> cases h

theorem pairPart_closed (expected : Char) : Closed (pairPart expected) := by
  intro cs a rest h more
  cases cs with
  | nil => cases h
  | cons c cs =>
    rw [pairPart] at h
    rw [List.cons_append, pairPart]
    by_cases hc : c = expected
    · rw [if_pos hc] at h ⊢
      cases h
      rfl
    · rw [if_neg hc] at h
      cases h

theorem codePoint_closed : Closed codePoint := by
  intro cs c rest h more
  unfold codePoint at h ⊢
  obtain ⟨⟨n, cs₁⟩, hn, h⟩ := bind_eq_ok_iff.mp h
  rw [hexEscape_closed _ _ _ hn, ok_bind]
  dsimp only at h ⊢
  split at h
  · cases h
  · next hlow =>
    rw [if_neg hlow]
    split at h
    · next hhigh =>
      obtain ⟨⟨⟨⟩, cs₂⟩, hslash, h⟩ := bind_eq_ok_iff.mp h
      obtain ⟨⟨⟨⟩, cs₃⟩, hu, h⟩ := bind_eq_ok_iff.mp h
      obtain ⟨⟨m, cs₄⟩, hm, h⟩ := bind_eq_ok_iff.mp h
      rw [if_pos hhigh, pairPart_closed _ _ _ _ hslash, ok_bind]
      dsimp only
      rw [pairPart_closed _ _ _ _ hu, ok_bind]
      dsimp only
      rw [hexEscape_closed _ _ _ hm, ok_bind]
      dsimp only at h ⊢
      split at h
      · next hpair =>
        obtain ⟨rfl, rfl⟩ := Prod.mk.inj (Except.ok.inj h)
        rw [if_pos hpair]
        rfl
      · cases h
    · next hhigh =>
      obtain ⟨rfl, rfl⟩ := Prod.mk.inj (Except.ok.inj h)
      rw [if_neg hhigh]
      rfl

theorem escape_closed : Closed escape := by
  intro cs c rest h more
  unfold escape at h
  split at h
  · cases h
  · exact codePoint_closed _ _ _ h more
  · next c cs hu =>
    split at h
    · next d hd =>
      cases h
      rw [List.cons_append]
      unfold escape
      split
      · next heq => cases heq
      · next heq => exact absurd (List.cons.inj heq).1 hu
      · next heq =>
        cases heq
        rw [hd]
    · cases h

theorem textBody_more {n m : Nat} {cs ds rest : List Char} (h : textBody n cs = .ok (ds, rest))
    (hm : n ≤ m) (more : List Char) : textBody m (cs ++ more) = .ok (ds, rest ++ more) := by
  induction n generalizing m cs ds with
  | zero => cases h
  | succ n ih =>
    obtain ⟨m, rfl⟩ := Nat.exists_eq_add_one_of_ne_zero (Nat.ne_of_gt (Nat.lt_of_lt_of_le n.succ_pos hm))
    have hle := Nat.le_of_succ_le_succ hm
    cases cs with
    | nil => cases h
    | cons c cs =>
      rw [textBody] at h
      rw [List.cons_append, textBody]
      split at h
      · next hquote =>
        cases h
        rw [if_pos hquote]
      · next hquote =>
        rw [if_neg hquote]
        split at h
        · next hslash =>
          obtain ⟨⟨d, cs₁⟩, hd, h⟩ := bind_eq_ok_iff.mp h
          obtain ⟨⟨ds, cs₂⟩, hds, h⟩ := bind_eq_ok_iff.mp h
          cases h
          rw [if_pos hslash, escape_closed _ _ _ hd, ok_bind]
          dsimp only
          rw [ih hds hle]
          rfl
        · next hslash =>
          rw [if_neg hslash]
          split at h
          · cases h
          · next hcontrol =>
            obtain ⟨⟨ds, cs₁⟩, hds, h⟩ := bind_eq_ok_iff.mp h
            cases h
            rw [if_neg hcontrol, ih hds hle]
            rfl

theorem text_closed : Closed text := by
  intro cs s rest h more
  unfold text at h ⊢
  obtain ⟨⟨body, rest⟩, hbody, h⟩ := bind_eq_ok_iff.mp h
  cases h
  rw [textBody_more hbody (by rw [List.length_append]; omega) more]
  rfl

/-! ## Numbers -/

theorem digitRun_more {cs run rest : List Char} (h : digitRun cs = (run, rest)) (hrest : rest ≠ [])
    (more : List Char) : digitRun (cs ++ more) = (run, rest ++ more) := by
  obtain ⟨hrun, hdrop⟩ := Prod.mk.inj h
  have hshort : ¬ (cs.dropWhile Char.isDigit).isEmpty := by
    rw [hdrop, List.isEmpty_iff]
    exact hrest
  have hwhole : ¬ (cs.takeWhile Char.isDigit).length = cs.length := by
    have hsplit := congrArg List.length (cs.takeWhile_append_dropWhile (p := Char.isDigit))
    have hpos := List.length_pos_iff.mpr hrest
    rw [List.length_append, hdrop] at hsplit
    omega
  rw [digitRun, List.takeWhile_append, List.dropWhile_append, if_neg hwhole, if_neg hshort, hrun,
    hdrop]

theorem floatOf_eq_ok {negative : Bool} {significand : Nat} {exponent : Int} {rest after : List Char}
    {n : Number} (h : floatOf negative significand exponent rest = .ok (n, after)) :
    after = rest ∧ ∀ other, floatOf negative significand exponent other = .ok (n, other) := by
  unfold floatOf at h ⊢
  split at h
  · next hscale =>
    cases h
    exact ⟨rfl, fun other => rfl⟩
  · cases h

/-- The sign in front of a power, whether it is a minus, and what is behind it. -/
def signOf (cs : List Char) : Bool × List Char :=
  match cs with
  | '+' :: rest => (false, rest)
  | '-' :: rest => (true, rest)
  | _ => (false, cs)

theorem signOf_unsigned {cs : List Char} (hplus : ∀ rest, cs = '+' :: rest → False)
    (hminus : ∀ rest, cs = '-' :: rest → False) : signOf cs = (false, cs) := by
  unfold signOf
  split
  · exact absurd rfl (hplus _)
  · exact absurd rfl (hminus _)
  · rfl

theorem signOf_more {cs after : List Char} {down : Bool} (h : signOf cs = (down, after))
    (hafter : after ≠ []) (more : List Char) : signOf (cs ++ more) = (down, after ++ more) := by
  unfold signOf at h
  split at h
  · cases h
    rfl
  · cases h
    rfl
  · next hplus hminus =>
    cases h
    obtain ⟨c, cs, rfl⟩ := List.exists_cons_of_ne_nil hafter
    apply signOf_unsigned
    · exact fun rest heq => hplus cs (by rw [(List.cons.inj heq).1])
    · exact fun rest heq => hminus cs (by rw [(List.cons.inj heq).1])

/-- A power behind its sign. -/
def unsignedPower (negative : Bool) (significand : Nat) (start : Int) (down : Bool)
    (cs : List Char) : Except Fault (Number × List Char) :=
  let (run, rest) := digitRun cs
  match cs, run with
  | [], _ => .error (.here .endInValue [])
  | _ :: _, [] => .error (.ahead .invalidNumber cs)
  | _ :: _, _ :: _ =>
    match tooLarge? [] 0 run with
    | some seen =>
      if significand ≠ 0 && !down then .error (.here .numberOutOfRange (cs.drop seen.length))
      else .ok (.float (if negative then -0.0 else 0.0), rest)
    | none =>
      let n : Int := run.foldl (fun n c => n * 10 + digitValue c) 0
      floatOf negative significand (if down then start - n else start + n) rest

theorem power_eq (negative : Bool) (significand : Nat) (start : Int) (cs : List Char) :
    power negative significand start cs =
      unsignedPower negative significand start (signOf cs).1 (signOf cs).2 :=
  rfl

theorem unsignedPower_steady (negative : Bool) (significand : Nat) (start : Int) (down : Bool) :
    Steady (unsignedPower negative significand start down) := by
  intro cs n rest h hrest more
  cases cs with
  | nil => cases h
  | cons c cs =>
    unfold unsignedPower at h ⊢
    obtain ⟨run, after, hrun⟩ : ∃ run after, digitRun (c :: cs) = (run, after) := ⟨_, _, rfl⟩
    rw [hrun] at h
    cases run with
    | nil => cases h
    | cons d run =>
      dsimp only at h
      -- What is left is what the digits left, whatever the power.
      split at h
      · next hlarge =>
        split at h
        · cases h
        · next hzero =>
          cases h
          rw [digitRun_more hrun hrest more]
          dsimp only [List.cons_append]
          rw [hlarge]
          dsimp only
          rw [if_neg hzero]
      · next hsmall =>
        obtain ⟨rfl, hother⟩ := floatOf_eq_ok h
        rw [digitRun_more hrun hrest more]
        dsimp only [List.cons_append]
        rw [hsmall]
        exact hother _

theorem power_steady (negative : Bool) (significand : Nat) (start : Int) :
    Steady (power negative significand start) := by
  intro cs n rest h hrest more
  rw [power_eq] at h ⊢
  obtain ⟨down, after, hsign⟩ : ∃ down after, signOf cs = (down, after) := ⟨_, _, rfl⟩
  have hafter : after ≠ [] := by
    rintro rfl
    rw [hsign] at h
    cases h
  rw [hsign] at h
  rw [signOf_more hsign hafter more]
  exact unsignedPower_steady _ _ _ _ _ _ _ h hrest more

theorem fraction_steady (negative : Bool) (significand : Nat) (start : Int) :
    Steady (fraction negative significand start) := by
  intro cs n rest h hrest more
  unfold fraction at h ⊢
  obtain ⟨run, after, hrun⟩ : ∃ run after, digitRun cs = (run, after) := ⟨_, _, rfl⟩
  rw [hrun] at h
  cases run with
  | nil => cases h
  | cons d run =>
    dsimp only at h
    split at h
    · rw [digitRun_more hrun (List.cons_ne_nil _ _) more]
      exact power_steady _ _ _ _ _ _ h hrest more
    · rw [digitRun_more hrun (List.cons_ne_nil _ _) more]
      exact power_steady _ _ _ _ _ _ h hrest more
    · next hlow hup =>
      obtain ⟨rfl, hother⟩ := floatOf_eq_ok h
      rw [digitRun_more hrun hrest more]
      obtain ⟨c, cs, rfl⟩ := List.exists_cons_of_ne_nil hrest
      dsimp only [List.cons_append]
      split
      · next heq => exact absurd (by rw [(List.cons.inj heq).1]) (hlow cs)
      · next heq => exact absurd (by rw [(List.cons.inj heq).1]) (hup cs)
      · exact hother _

/-- A number that ends behind its whole digits. -/
def wholeNumber (negative : Bool) (significand dropped : Nat) (rest : List Char) :
    Except Fault (Number × List Char) :=
  if dropped ≠ 0 then floatOf negative significand dropped rest
  else if !negative then .ok (.natural significand, rest)
  else if significand = 0 ∨ UInt64.size / 2 < significand then
    .ok (.float (-(UInt64.ofNat significand).toFloat), rest)
  else .ok (.negative significand, rest)

theorem wholeNumber_eq_ok {negative : Bool} {significand dropped : Nat} {rest after : List Char}
    {n : Number} (h : wholeNumber negative significand dropped rest = .ok (n, after)) :
    after = rest ∧ ∀ other, wholeNumber negative significand dropped other = .ok (n, other) := by
  unfold wholeNumber at h ⊢
  split at h
  · next hdropped =>
    simp only [if_pos hdropped]
    exact floatOf_eq_ok h
  · next hdropped =>
    simp only [if_neg hdropped]
    split at h
    · next hpositive =>
      cases h
      exact ⟨rfl, fun other => if_pos hpositive⟩
    · next hnegative =>
      simp only [if_neg hnegative]
      split at h
      · next hrange =>
        cases h
        exact ⟨rfl, fun other => if_pos hrange⟩
      · next hrange =>
        cases h
        exact ⟨rfl, fun other => if_neg hrange⟩

theorem afterWhole_steady (negative : Bool) (significand dropped : Nat) :
    Steady (afterWhole negative significand dropped) := by
  intro cs n rest h hrest more
  unfold afterWhole at h
  split at h
  · exact fraction_steady _ _ _ _ _ _ h hrest more
  · exact power_steady _ _ _ _ _ _ h hrest more
  · exact power_steady _ _ _ _ _ _ h hrest more
  · next hpoint hlow hup =>
    obtain ⟨rfl, hother⟩ := wholeNumber_eq_ok h
    obtain ⟨c, cs, rfl⟩ := List.exists_cons_of_ne_nil hrest
    unfold afterWhole
    rw [List.cons_append]
    split
    · next heq => exact absurd (by rw [(List.cons.inj heq).1]) (hpoint cs)
    · next heq => exact absurd (by rw [(List.cons.inj heq).1]) (hlow cs)
    · next heq => exact absurd (by rw [(List.cons.inj heq).1]) (hup cs)
    · exact hother _

-- Behind whole digits a number may end with the text.
theorem afterWhole_nil {negative : Bool} {significand dropped : Nat} {n : Number}
    {rest : List Char} (h : afterWhole negative significand dropped [] = .ok (n, rest)) :
    rest = [] :=
  (wholeNumber_eq_ok h).1

theorem number_steady (negative : Bool) : Steady (number negative) := by
  intro cs n rest h hrest more
  unfold number at h
  split at h
  · cases h
  · split at h
    · next d cs =>
      split at h
      · cases h
      · next hd =>
        have hread := afterWhole_steady _ _ _ _ _ _ h hrest more
        rw [List.cons_append, List.cons_append, number, if_neg hd]
        exact hread
    · exact absurd (afterWhole_nil h) hrest
  · next c cs hzero =>
    split at h
    · next hc =>
      obtain ⟨run, after, hrun⟩ : ∃ run after, digitRun (c :: cs) = (run, after) := ⟨_, _, rfl⟩
      rw [hrun] at h
      have hafter : after ≠ [] := by
        rintro rfl
        exact hrest (afterWhole_nil h)
      have hmore := digitRun_more hrun hafter more
      rw [List.cons_append] at hmore ⊢
      unfold number
      split
      · next heq => cases heq
      · next heq => exact absurd (List.cons.inj heq).1 hzero
      · next heq =>
        cases heq
        rw [if_pos hc, hmore]
        exact afterWhole_steady _ _ _ _ _ _ h hrest more
    · cases h

end Statewright.Json

import Statewright.Json.Skip
import Statewright.Proofs.JsonScan

/-!
# JSON: where values end that are passed over

A value that is passed over ends where it would if more stood behind it, as long as something was
left behind it.
-/

open Statewright.Fallible

namespace Statewright.Json

/-! ## Texts and numbers -/

theorem skipEscape_closed : Closed skipEscape := by
  intro cs a rest h more
  unfold skipEscape at h
  split at h
  · cases h
  · next cs =>
    obtain ⟨⟨n, cs'⟩, hn, h⟩ := map_eq_ok_iff.mp h
    cases h
    exact map_eq_ok_iff.mpr ⟨_, hexEscape_closed _ _ _ hn more, rfl⟩
  · next c cs hu =>
    split at h
    · next hc =>
      cases h
      rw [List.cons_append]
      unfold skipEscape
      split
      · next heq => cases heq
      · next heq => exact absurd (List.cons.inj heq).1 hu
      · next heq =>
        cases heq
        rw [if_pos hc]
    · cases h

theorem skipTextBody_more {n m : Nat} {cs rest : List Char} {a : Unit}
    (h : skipTextBody n cs = .ok (a, rest)) (hm : n ≤ m) (more : List Char) :
    skipTextBody m (cs ++ more) = .ok (a, rest ++ more) := by
  induction n generalizing m cs with
  | zero => cases h
  | succ n ih =>
    obtain ⟨m, rfl⟩ := Nat.exists_eq_add_of_lt hm
    cases cs with
    | nil => cases h
    | cons c cs =>
      rw [skipTextBody] at h
      rw [List.cons_append, skipTextBody]
      split at h
      · next hquote =>
        cases h
        rw [if_pos hquote]
      · next hquote =>
        rw [if_neg hquote]
        split at h
        · next hslash =>
          obtain ⟨⟨⟨⟩, cs'⟩, hescape, h⟩ := bind_eq_ok_iff.mp h
          rw [if_pos hslash, skipEscape_closed _ _ _ hescape, ok_bind]
          exact ih h (Nat.le_add_right n m)
        · next hslash =>
          rw [if_neg hslash]
          split at h
          · cases h
          · next hcontrol =>
            rw [if_neg hcontrol]
            exact ih h (Nat.le_add_right n m)

theorem skipText_closed : Closed skipText := by
  intro cs a rest h more
  exact skipTextBody_more h (by rw [List.length_append]; omega) more

/-- Passes over the digits of a power behind its sign. -/
def skipUnsigned (cs : List Char) : Except Fault (Unit × List Char) :=
  match digitRun cs with
  | ([], _) => .error (strayInNumber cs)
  | (_ :: _, rest) => .ok ((), rest)

theorem skipPower_eq (cs : List Char) : skipPower cs = skipUnsigned (signOf cs).2 := by
  unfold skipPower
  split
  · rfl
  · rfl
  · next hplus hminus =>
    rw [signOf_unsigned hplus hminus]
    rfl

theorem skipUnsigned_steady : Steady skipUnsigned := by
  intro cs a rest h hrest more
  unfold skipUnsigned at h ⊢
  split at h
  · cases h
  · next hrun =>
    cases h
    rw [digitRun_more hrun hrest more]

theorem skipPower_steady : Steady skipPower := by
  intro cs a rest h hrest more
  rw [skipPower_eq] at h ⊢
  obtain ⟨down, after, hsign⟩ : ∃ down after, signOf cs = (down, after) := ⟨_, _, rfl⟩
  rw [hsign] at h
  have hafter : after ≠ [] := by
    rintro rfl
    cases h
  rw [signOf_more hsign hafter more]
  exact skipUnsigned_steady _ _ _ h hrest more

/-- Passes over the digits of a fraction, and its power. -/
def skipFraction (cs : List Char) : Except Fault (Unit × List Char) :=
  match digitRun cs with
  | ([], _) => .error (strayInNumber cs)
  | (_ :: _, 'e' :: rest) | (_ :: _, 'E' :: rest) => skipPower rest
  | (_ :: _, rest) => .ok ((), rest)

theorem skipFraction_steady : Steady skipFraction := by
  intro cs a rest h hrest more
  unfold skipFraction at h ⊢
  split at h
  · cases h
  · next hrun =>
    rw [digitRun_more hrun (List.cons_ne_nil _ _) more]
    exact skipPower_steady _ _ _ h hrest more
  · next hrun =>
    rw [digitRun_more hrun (List.cons_ne_nil _ _) more]
    exact skipPower_steady _ _ _ h hrest more
  · next hlow hup hrun =>
    cases h
    rw [digitRun_more hrun hrest more]
    obtain ⟨c, cs, rfl⟩ := List.exists_cons_of_ne_nil hrest
    rw [List.cons_append]
    split
    · next heq => cases heq
    · next heq => exact absurd (by rw [(List.cons.inj (Prod.mk.inj heq).2).1]) (hlow cs)
    · next heq => exact absurd (by rw [(List.cons.inj (Prod.mk.inj heq).2).1]) (hup cs)
    · next heq =>
      cases heq
      rfl

theorem skipAfterWhole_steady : Steady skipAfterWhole := by
  intro cs a rest h hrest more
  unfold skipAfterWhole at h
  split at h
  · exact skipFraction_steady _ _ _ h hrest more
  · exact skipPower_steady _ _ _ h hrest more
  · exact skipPower_steady _ _ _ h hrest more
  · next hpoint hlow hup =>
    cases h
    obtain ⟨c, cs, rfl⟩ := List.exists_cons_of_ne_nil hrest
    unfold skipAfterWhole
    rw [List.cons_append]
    split
    · next heq => exact absurd (by rw [(List.cons.inj heq).1]) (hpoint cs)
    · next heq => exact absurd (by rw [(List.cons.inj heq).1]) (hlow cs)
    · next heq => exact absurd (by rw [(List.cons.inj heq).1]) (hup cs)
    · rfl

theorem skipAfterWhole_nil {a : Unit} {rest : List Char}
    (h : skipAfterWhole [] = .ok (a, rest)) : rest = [] := by
  cases h
  rfl

theorem skipNumber_steady : Steady skipNumber := by
  intro cs a rest h hrest more
  unfold skipNumber at h
  split at h
  · next d cs =>
    split at h
    · cases h
    · next hd =>
      rw [List.cons_append, List.cons_append, skipNumber, if_neg hd]
      exact skipAfterWhole_steady _ _ _ h hrest more
  · next hzero =>
    split at h
    · cases h
    · next d run after hrun =>
      have hafter : after ≠ [] := by
        rintro rfl
        exact hrest (skipAfterWhole_nil h)
      have hmore := digitRun_more hrun hafter more
      -- A zero alone leaves nothing.
      have hzero' : ∀ d rest, cs ++ more = '0' :: d :: rest → False := by
        intro d rest heq
        cases cs with
        | nil => cases hrun
        | cons c cs =>
          cases cs with
          | nil =>
            cases heq
            cases hrun
            exact hafter rfl
          | cons c' cs =>
            cases heq
            exact hzero _ _ rfl
      unfold skipNumber
      split
      · next heq => exact absurd heq (hzero' _ _)
      · rw [hmore]
        exact skipAfterWhole_steady _ _ _ h hrest more

theorem skipKey_closed : Closed skipKey := by
  intro cs a rest h more
  unfold skipKey at h
  split at h
  · cases h
  · next cs hquote =>
    obtain ⟨⟨⟨⟩, cs'⟩, htext, h⟩ := bind_eq_ok_iff.mp h
    rw [skipKey, skipSpace_more hquote]
    show (skipText (cs ++ more) >>= _) = _
    rw [skipText_closed _ _ _ htext, ok_bind]
    dsimp only at h ⊢
    split at h
    · cases h
    · next hcolon =>
      cases h
      rw [skipSpace_more hcolon]
      rfl
    · cases h
  · cases h

theorem skipScalar_steady : Steady skipScalar := by
  intro cs a rest h hrest more
  unfold skipScalar at h
  split at h
  · exact word_closed _ _ _ _ h more
  · exact word_closed _ _ _ _ h more
  · exact word_closed _ _ _ _ h more
  · exact skipNumber_steady _ _ _ h hrest more
  · exact skipText_closed _ _ _ h more
  · next c cs hn ht hf hminus hquote =>
    split at h
    · next hc =>
      rw [List.cons_append]
      unfold skipScalar
      split
      · next heq => exact absurd (List.cons.inj heq).1 hn
      · next heq => exact absurd (List.cons.inj heq).1 ht
      · next heq => exact absurd (List.cons.inj heq).1 hf
      · next heq => exact absurd (List.cons.inj heq).1 hminus
      · next heq => exact absurd (List.cons.inj heq).1 hquote
      · next heq =>
        cases heq
        rw [if_pos hc]
        exact skipNumber_steady _ _ _ h hrest more
      · next heq => cases heq
    · cases h
  · cases h

/-! ## Lists and objects -/

def Frame.closing : Frame → Char
  | list => ']'
  | object => '\x7d'

/-- Goes on in an open frame where its end may come. -/
def skipInside (n : Nat) (due : Due) (frame : Frame) (frames : List Frame) : Scan Unit
  | [] => .error (.here (match frame with | .list => .endInList | .object => .endInObject) [])
  | c :: cs =>
    if c = frame.closing then skipFrom n .next frames cs
    else if due = .first then skipFrom n .entry (frame :: frames) (c :: cs)
    else if c = ',' then skipFrom n .entry (frame :: frames) cs
    else
      match frame with
      | .list => .error (.ahead .expectedCommaOrListEnd (c :: cs))
      | .object => .error (.ahead .expectedCommaOrObjectEnd (c :: cs))

theorem skipFrom_inside (n : Nat) {due : Due} (hvalue : due ≠ .value) (hentry : due ≠ .entry)
    (frame : Frame) (frames : List Frame) (cs : List Char) :
    skipFrom (n + 1) due (frame :: frames) cs = skipInside n due frame frames (skipSpace cs) := by
  have hdue : due = .first ∨ due = .next := by
    cases due <;> simp_all
  rcases hdue with rfl | rfl
  all_goals
    rw [skipFrom.eq_def]
    dsimp only
    generalize skipSpace cs = front
    split
    · rfl
    · rfl
    · rfl
    · rfl
    · next c rest hlist hobject =>
      have hopen : ¬ c = frame.closing := by
        cases frame with
        | list => exact hlist rfl
        | object => exact hobject rfl
      exact (if_neg hopen).symm

theorem skipFrom_outside (n : Nat) {due : Due} (hvalue : due ≠ .value) (cs : List Char) :
    skipFrom (n + 1) due [] cs = .ok ((), cs) := by
  cases due with
  | value => exact absurd rfl hvalue
  | first => rfl
  | next => rfl
  | entry => rfl

theorem skipFrom_nil {n : Nat} {due : Due} {frames : List Frame} {a : Unit} {rest : List Char}
    (h : skipFrom n due frames [] = .ok (a, rest)) : rest = [] := by
  cases n with
  | zero => cases h
  | succ n =>
    by_cases hvalue : due = .value
    · cases hvalue
      cases h
    · cases frames with
      | nil =>
        rw [skipFrom_outside n hvalue] at h
        cases h
        rfl
      | cons frame frames =>
        by_cases hentry : due = .entry
        · cases hentry
          cases frame with
          | list => cases n <;> cases h
          | object => cases h
        · rw [skipFrom_inside n hvalue hentry] at h
          cases frame <;> cases h

theorem skipFrom_more {n m : Nat} {due : Due} {frames : List Frame} {cs rest : List Char} {a : Unit}
    (h : skipFrom n due frames cs = .ok (a, rest)) (hrest : rest ≠ []) (hm : n ≤ m)
    (more : List Char) : skipFrom m due frames (cs ++ more) = .ok (a, rest ++ more) := by
  induction n generalizing m due frames cs with
  | zero => cases h
  | succ n ih =>
    obtain ⟨m, rfl⟩ := Nat.exists_eq_add_of_lt hm
    have hle := Nat.le_add_right n m
    by_cases hvalue : due = .value
    · cases hvalue
      rw [skipFrom] at h ⊢
      split at h
      · next hlist =>
        rw [skipSpace_more hlist]
        exact ih h hle
      · next hobject =>
        rw [skipSpace_more hobject]
        exact ih h hle
      · next hlist hobject =>
        obtain ⟨⟨⟨⟩, after⟩, hscalar, h⟩ := bind_eq_ok_iff.mp h
        have hafter : after ≠ [] := by
          rintro rfl
          exact hrest (skipFrom_nil h)
        have hmore := skipScalar_steady _ _ _ hscalar hafter more
        cases hspace : skipSpace cs with
        | nil =>
          rw [hspace] at hscalar
          cases hscalar
        | cons c front =>
          rw [hspace, List.cons_append] at hmore
          rw [skipSpace_more hspace]
          split
          · next heq => exact absurd (by rw [hspace, (List.cons.inj heq).1]) (hlist front)
          · next heq => exact absurd (by rw [hspace, (List.cons.inj heq).1]) (hobject front)
          · rw [hmore, ok_bind]
            exact ih h hle
    · cases frames with
      | nil =>
        rw [skipFrom_outside _ hvalue] at h ⊢
        cases h
        rfl
      | cons frame frames =>
        by_cases hentry : due = .entry
        · cases hentry
          cases frame with
          | list =>
            have hvalue : skipFrom n .value (.list :: frames) cs = .ok (a, rest) := h
            have hmore := ih hvalue hle
            exact hmore
          | object =>
            rw [skipFrom] at h ⊢
            obtain ⟨⟨⟨⟩, after⟩, hkey, h⟩ := bind_eq_ok_iff.mp h
            rw [skipKey_closed _ _ _ hkey, ok_bind]
            exact ih h hle
        · rw [skipFrom_inside _ hvalue hentry] at h ⊢
          cases hspace : skipSpace cs with
          | nil =>
            rw [hspace] at h
            cases frame <;> cases h
          | cons c front =>
            rw [hspace] at h
            rw [skipSpace_more hspace]
            unfold skipInside at h ⊢
            dsimp only at h ⊢
            split at h
            · next hclosing =>
              rw [if_pos hclosing]
              exact ih h hle
            · next hclosing =>
              rw [if_neg hclosing]
              split at h
              · next hfirst =>
                rw [if_pos hfirst]
                exact ih h hle
              · next hfirst =>
                rw [if_neg hfirst]
                split at h
                · next hcomma =>
                  rw [if_pos hcomma]
                  exact ih h hle
                · cases frame <;> cases h

theorem skipValue_steady : Steady skipValue := by
  intro cs a rest h hrest more
  exact skipFrom_more h hrest (by rw [List.length_append]; omega) more

end Statewright.Json

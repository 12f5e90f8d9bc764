import Mathlib
import Statewright.Proofs.Instant
import Statewright.Proofs.LetterCase
import Statewright.Settings.Load

/-!
# Where settings come from

Every setting is decided by itself: by the last variable that has its name, else by the file, else
by its default. A variable does not always give a setting the text that it has. A text that spells a
truth value or a number is taken for that value, and the setting is the text that shows the value:
`007` gives `7`. The texts that are kept are those that spell no value and those that show one.
-/

open Statewright.Fallible

namespace Statewright

namespace SettingValue

/-! ## Texts that spell a number -/

theorem natural_toDigits (n : Nat) : natural (Nat.toDigits 10 n) = n :=
  (Instant.decimal_eq _).trans Nat.ofDigitChars_ten_toDigits

theorem splitSign_cons {c : Char} {cs : List Char} (hminus : c ≠ '-') (hplus : c ≠ '+') :
    splitSign (c :: cs) = (false, c :: cs) := by
  unfold splitSign
  split
  case h_1 heq => exact absurd (List.cons.inj heq).1 hminus
  case h_2 heq => exact absurd (List.cons.inj heq).1 hplus
  case h_3 => rfl

theorem splitSign_of_isDigit {cs : List Char} (h : ∀ c ∈ cs, c.isDigit = true) :
    splitSign cs = (false, cs) := by
  cases cs with
  | nil => rfl
  | cons c cs =>
    have hc := h c List.mem_cons_self
    refine splitSign_cons ?_ ?_ <;>
    · rintro rfl
      cases hc

/-- The whole number that digits spell after a sign. -/
def signed (negative : Bool) (digits : List Char) : Int :=
  if negative then -(natural digits) else natural digits

theorem readInteger?_eq_some_iff {cs : List Char} {n : Int} :
    readInteger? cs = some n ↔
      (splitSign cs).2 ≠ [] ∧ (∀ c ∈ (splitSign cs).2, c.isDigit = true) ∧
        signed (splitSign cs).1 (splitSign cs).2 = n ∧ fits64 n = true := by
  unfold readInteger?
  dsimp only
  rw [Option.ite_none_right_eq_some, Option.ite_none_right_eq_some, Bool.and_eq_true,
    decide_eq_true_eq, List.all_eq_true, Option.some.injEq, and_assoc]
  refine and_congr_right' (and_congr_right' ?_)
  constructor
  · rintro ⟨hfits, rfl⟩
    exact ⟨rfl, hfits⟩
  · rintro ⟨rfl, hfits⟩
    exact ⟨hfits, rfl⟩

theorem fits64_of_readInteger? {cs : List Char} {n : Int} (h : readInteger? cs = some n) :
    fits64 n = true :=
  (readInteger?_eq_some_iff.mp h).2.2.2

-- A whole number that is shown is read back, with its sign.
theorem readInteger?_toString {n : Int} (h : fits64 n = true) :
    readInteger? (toString n).toList = some n := by
  have hall : ∀ k, ∀ c ∈ Nat.toDigits 10 k, c.isDigit = true := fun _ _ hc =>
    Nat.isDigit_of_mem_toDigits (by decide) (by decide) hc
  rw [Int.toString_eq_repr, readInteger?_eq_some_iff]
  cases n with
  | ofNat k =>
    have hchars : (Int.ofNat k).repr.toList = Nat.toDigits 10 k := Nat.toList_repr
    rw [hchars, splitSign_of_isDigit (hall k)]
    exact ⟨Nat.toDigits_ne_nil, hall k, congrArg Int.ofNat (natural_toDigits k), h⟩
  | negSucc k =>
    have hchars : (Int.negSucc k).repr.toList = '-' :: Nat.toDigits 10 (k + 1) := by
      show ("-" ++ (k + 1).repr).toList = _
      rw [String.toList_append, Nat.toList_repr]
      rfl
    have hvalue : signed true (Nat.toDigits 10 (k + 1)) = Int.negSucc k := by
      rw [signed, if_pos rfl, natural_toDigits]
      rfl
    rw [hchars]
    exact ⟨Nat.toDigits_ne_nil, hall (k + 1), hvalue, h⟩

/-! ## Texts that spell a truth value -/

section Truth

variable {s : String} {b : Bool}

theorem exists_letter_of_truth (h : Text.sameWord s (toString b) = true) :
    ∃ c cs, s.toList = c :: cs ∧ c.isAlpha = true := by
  have hupper : s.toList.map Char.toUpper = (toString b).toList.map Char.toUpper := by
    rw [← Text.toList_upper, ← Text.toList_upper]
    exact congrArg String.toList (beq_iff_eq.mp h)
  cases hs : s.toList with
  | nil =>
    rw [hs] at hupper
    cases b <;> cases hupper
  | cons c cs =>
    rw [hs, List.map_cons] at hupper
    refine ⟨c, cs, rfl, ?_⟩
    rw [← Char.isAlpha_toUpper_eq_isAlpha]
    cases b <;>
    · rw [(List.cons.inj hupper).1]
      rfl

theorem ne_of_isAlpha {c d : Char} (h : c.isAlpha = true) (hd : d.isAlpha = false) : c ≠ d := by
  rintro rfl
  rw [h] at hd
  cases hd

theorem not_isDigit_of_isAlpha {c : Char} (h : c.isAlpha = true) : ¬ c.isDigit = true := by
  rw [Text.isAlpha_iff] at h
  rw [Text.isDigit_iff]
  omega

theorem readInteger?_of_truth (h : Text.sameWord s (toString b) = true) :
    readInteger? s.toList = none := by
  obtain ⟨c, cs, hs, hc⟩ := exists_letter_of_truth h
  rw [Option.eq_none_iff_forall_ne_some]
  intro n hn
  obtain ⟨-, hall, -⟩ := readInteger?_eq_some_iff.mp hn
  rw [hs, splitSign_cons (ne_of_isAlpha hc rfl) (ne_of_isAlpha hc rfl)] at hall
  exact not_isDigit_of_isAlpha hc (hall c List.mem_cons_self)

theorem readFloat?_of_truth (h : Text.sameWord s (toString b) = true) :
    readFloat? s.toList = none := by
  obtain ⟨c, cs, hs, hc⟩ := exists_letter_of_truth h
  have hword : Text.upper (String.ofList (c :: cs)) = Text.upper (toString b) := by
    rw [← hs, String.ofList_toList]
    exact beq_iff_eq.mp h
  have hinfinite : ¬ (Text.upper (toString b) = "INF" ∨ Text.upper (toString b) = "INFINITY") := by
    cases b <;> decide
  have hnan : ¬ Text.upper (toString b) = "NAN" := by
    cases b <;> decide
  have htake : (c :: cs).takeWhile Char.isDigit = [] :=
    List.takeWhile_cons_of_neg (not_isDigit_of_isAlpha hc)
  have hdrop : (c :: cs).dropWhile Char.isDigit = c :: cs :=
    List.dropWhile_cons_of_neg (not_isDigit_of_isAlpha hc)
  unfold readFloat?
  rw [hs, splitSign_cons (ne_of_isAlpha hc rfl) (ne_of_isAlpha hc rfl)]
  dsimp only
  rw [hword, if_neg hinfinite, if_neg hnan, htake, hdrop]
  split
  case h_1 heq => exact absurd (List.cons.inj heq).1 (ne_of_isAlpha hc rfl)
  case h_2 => rw [if_pos ⟨rfl, rfl⟩]

end Truth

/-! ## What the text of a variable is taken for -/

/-- The value that a text spells; the text itself where it spells none. -/
inductive Spells (s : String) : SettingValue → Prop where
  | truth (b : Bool) (h : Text.sameWord s (toString b) = true) : Spells s (boolean b)
  | integer (n : Int) (h : readInteger? s.toList = some n) : Spells s (integer n)
  | float (x : Float) (hinteger : readInteger? s.toList = none)
      (h : readFloat? s.toList = some x) : Spells s (float x)
  | word (htruth : ∀ b : Bool, ¬ Text.sameWord s (toString b) = true)
      (hinteger : readInteger? s.toList = none) (hfloat : readFloat? s.toList = none) :
      Spells s (text s)

/-- The texts that are kept: they show the value that they spell, or spell none. -/
inductive IsKept : String → Prop where
  | truth (b : Bool) : IsKept (toString b)
  | integer (n : Int) (h : fits64 n = true) : IsKept (toString n)
  | float (x : Float) (hinteger : readInteger? (Decimal.plainText x).toList = none)
      (h : readFloat? (Decimal.plainText x).toList = some x) : IsKept (Decimal.plainText x)
  | word {s : String} (htruth : ∀ b : Bool, ¬ Text.sameWord s (toString b) = true)
      (hinteger : readInteger? s.toList = none) (hfloat : readFloat? s.toList = none) : IsKept s

theorem ofEnvironment_of_truth {s : String} {b : Bool}
    (h : Text.sameWord s (toString b) = true) : ofEnvironment s = boolean b := by
  unfold ofEnvironment
  cases b with
  | true => exact if_pos h
  | false =>
    have htrue : ¬ Text.sameWord s "true" = true := by
      rw [Text.sameWord, beq_iff_eq.mp h]
      decide
    rw [if_neg htrue]
    exact if_pos h

theorem ofEnvironment_of_not_truth {s : String}
    (h : ∀ b : Bool, ¬ Text.sameWord s (toString b) = true) :
    ofEnvironment s =
      ((readInteger? s.toList).map integer).getD
        (((readFloat? s.toList).map float).getD (text s)) := by
  have htrue : ¬ Text.sameWord s "true" = true := h true
  have hfalse : ¬ Text.sameWord s "false" = true := h false
  unfold ofEnvironment
  rw [if_neg htrue, if_neg hfalse]
  cases readInteger? s.toList with
  | some n => rfl
  | none => cases readFloat? s.toList <;> rfl

-- Truth values are tried first, but no text that spells one spells a number as well.
theorem spells_iff {s : String} {v : SettingValue} : Spells s v ↔ v = ofEnvironment s := by
  constructor
  · intro h
    cases h with
    | truth b h => exact (ofEnvironment_of_truth h).symm
    | integer n h =>
      have htruth : ∀ b : Bool, ¬ Text.sameWord s (toString b) = true := fun b hb =>
        Option.some_ne_none n (h.symm.trans (readInteger?_of_truth hb))
      rw [ofEnvironment_of_not_truth htruth, h]
      rfl
    | float x hinteger h =>
      have htruth : ∀ b : Bool, ¬ Text.sameWord s (toString b) = true := fun b hb =>
        Option.some_ne_none x (h.symm.trans (readFloat?_of_truth hb))
      rw [ofEnvironment_of_not_truth htruth, hinteger, h]
      rfl
    | word htruth hinteger hfloat =>
      rw [ofEnvironment_of_not_truth htruth, hinteger, hfloat]
      rfl
  · rintro rfl
    by_cases htruth : ∃ b : Bool, Text.sameWord s (toString b) = true
    · obtain ⟨b, hb⟩ := htruth
      rw [ofEnvironment_of_truth hb]
      exact .truth b hb
    · rw [not_exists] at htruth
      rw [ofEnvironment_of_not_truth htruth]
      cases hinteger : readInteger? s.toList with
      | some n => exact .integer n hinteger
      | none =>
        cases hfloat : readFloat? s.toList with
        | some x => exact .float x hinteger hfloat
        | none => exact .word htruth hinteger hfloat

theorem toText?_boolean (b : Bool) : (boolean b).toText? = some (toString b) := by
  cases b <;> rfl

theorem IsKept.exists_spells {s : String} (h : IsKept s) :
    ∃ v, Spells s v ∧ v.toText? = some s := by
  cases h with
  | truth b => exact ⟨.boolean b, .truth b (beq_self_eq_true _), toText?_boolean b⟩
  | integer n h => exact ⟨.integer n, .integer n (readInteger?_toString h), rfl⟩
  | float x hinteger h => exact ⟨.float x, .float x hinteger h, rfl⟩
  | word htruth hinteger hfloat => exact ⟨.text s, .word htruth hinteger hfloat, rfl⟩

theorem Spells.toText?_eq_self_iff {s : String} {v : SettingValue} (h : Spells s v) :
    v.toText? = some s ↔ IsKept s := by
  constructor
  · intro htext
    cases h with
    | truth b h =>
      rw [toText?_boolean] at htext
      rw [← Option.some.inj htext]
      exact .truth b
    | integer n h =>
      rw [← Option.some.inj htext]
      exact .integer n (fits64_of_readInteger? h)
    | float x hinteger h =>
      have hs : Decimal.plainText x = s := Option.some.inj htext
      rw [← hs] at hinteger h ⊢
      exact .float x hinteger h
    | word htruth hinteger hfloat => exact .word htruth hinteger hfloat
  · intro hkept
    obtain ⟨v', hv', htext⟩ := hkept.exists_spells
    rwa [spells_iff.mp h, ← spells_iff.mp hv']

end SettingValue

namespace Settings

/-! ## Values from variables and from the file -/

/-- What a variable assigns; `none` for one that is not for settings. -/
def assigned? (v : String × String) : Option (String × SettingValue) :=
  let letters := (Text.upper v.1).toList
  if variableStart.toList.isPrefixOf letters then
    some (SettingKey.assign (String.ofList (letters.drop variableStart.length))
      (.ofEnvironment v.2))
  else none

theorem ofEnvironment_eq (environment : List (String × String)) :
    ofEnvironment environment = environment.filterMap assigned? :=
  rfl

/-- The text of the last variable that has the name of a setting, in any case. -/
def variableText? (environment : List (String × String)) (setting : String) : Option String :=
  (environment.reverse.find? (fun v => Text.sameWord v.1 (variableStart ++ setting))).map Prod.snd

theorem assigned?_of_eq_append {v : String × String} {key : String}
    (h : Text.upper v.1 = variableStart ++ key) :
    assigned? v = some (SettingKey.assign key (.ofEnvironment v.2)) := by
  have hstart : variableStart.toList.isPrefixOf (Text.upper v.1).toList = true := by
    rw [h, String.toList_append, List.isPrefixOf_iff_prefix]
    exact List.prefix_append _ _
  have hkey : String.ofList ((Text.upper v.1).toList.drop variableStart.length) = key := by
    rw [h, String.toList_append, ← String.length_toList, List.drop_left, String.ofList_toList]
  unfold assigned?
  dsimp only
  rw [if_pos hstart, hkey]

theorem exists_key_of_assigned? {v : String × String} {e : String × SettingValue}
    (h : assigned? v = some e) : ∃ key, Text.upper v.1 = variableStart ++ key := by
  unfold assigned? at h
  dsimp only at h
  rw [Option.ite_none_right_eq_some, List.isPrefixOf_iff_prefix] at h
  obtain ⟨⟨rest, hrest⟩, -⟩ := h
  refine ⟨String.ofList rest, String.toList_inj.mp ?_⟩
  rw [String.toList_append, String.toList_ofList, hrest]

theorem upper_variableStart : Text.upper variableStart = variableStart := by
  decide

-- A variable with the name of a setting gives the setting its value.
theorem assigned?_of_sameWord {v : String × String} {setting : String}
    (hplain : SettingKey.inside? (Text.upper setting) = none)
    (h : Text.sameWord v.1 (variableStart ++ setting) = true) :
    assigned? v = some (Text.upper setting, .ofEnvironment v.2) := by
  have hname : Text.upper v.1 = variableStart ++ Text.upper setting := by
    rw [beq_iff_eq.mp h, Text.upper_append, upper_variableStart]
  rw [assigned?_of_eq_append hname, SettingKey.assign, hplain]

-- What is given to a setting, and is no table or list, is given by a variable with its name.
theorem sameWord_of_assigned? {v : String × String} {setting key : String} {value : SettingValue}
    (h : assigned? v = some (key, value)) (hkey : Text.sameWord key setting = true)
    (hvalue : value ≠ .compound) :
    Text.sameWord v.1 (variableStart ++ setting) = true ∧ value = .ofEnvironment v.2 := by
  obtain ⟨k, hk⟩ := exists_key_of_assigned? h
  rw [assigned?_of_eq_append hk, Option.some.injEq, SettingKey.assign] at h
  cases hinside : SettingKey.inside? k with
  | some inside =>
    rw [hinside] at h
    exact absurd (Prod.mk.inj h).2.symm hvalue
  | none =>
    rw [hinside] at h
    obtain ⟨rfl, rfl⟩ := Prod.mk.inj h
    refine ⟨beq_iff_eq.mpr ?_, rfl⟩
    rw [← Text.upper_upper, hk, Text.upper_append, Text.upper_append, beq_iff_eq.mp hkey]

section Sources

variable {environment : List (String × String)} {file : Values} {setting : String}

theorem find?_eq_some_of_imp {α : Type} {p q : α → Bool} {l : List α} {a : α}
    (h : l.find? p = some a) (ha : q a = true) (himp : ∀ b, q b = true → p b = true) :
    l.find? q = some a := by
  obtain ⟨-, before, after, hl, hbefore⟩ := List.find?_eq_some_iff_append.mp h
  refine List.find?_eq_some_iff_append.mpr ⟨ha, before, after, hl, fun b hb => ?_⟩
  rw [Bool.not_eq_true', ← Bool.not_eq_true]
  intro hq
  have hp := hbefore b hb
  rw [himp b hq] at hp
  cases hp

theorem find?_ofEnvironment :
    find? (ofEnvironment environment) setting =
      ((environment.reverse.find? (fun v =>
        (assigned? v).any (fun e => Text.sameWord e.1 setting))).bind assigned?).map Prod.snd := by
  rw [find?, ofEnvironment_eq, ← List.filterMap_reverse, List.find?_filterMap]

theorem any_assigned?_of_sameWord {v : String × String}
    (hplain : SettingKey.inside? (Text.upper setting) = none)
    (h : Text.sameWord v.1 (variableStart ++ setting) = true) :
    (assigned? v).any (fun e => Text.sameWord e.1 setting) = true := by
  rw [assigned?_of_sameWord hplain h, Option.any_some]
  exact beq_iff_eq.mpr (Text.upper_upper setting)

theorem variableText?_of_find?_eq_none (hplain : SettingKey.inside? (Text.upper setting) = none)
    (h : find? (ofEnvironment environment) setting = none) :
    variableText? environment setting = none := by
  rw [variableText?, Option.map_eq_none_iff, List.find?_eq_none]
  intro v hv hname
  rw [find?, Option.map_eq_none_iff, List.find?_eq_none] at h
  refine h (Text.upper setting, .ofEnvironment v.2) ?_ (beq_iff_eq.mpr (Text.upper_upper setting))
  rw [List.mem_reverse, ofEnvironment_eq, List.mem_filterMap]
  exact ⟨v, List.mem_reverse.mp hv, assigned?_of_sameWord hplain hname⟩

theorem variableText?_of_find?_eq_some {value : SettingValue}
    (hplain : SettingKey.inside? (Text.upper setting) = none)
    (h : find? (ofEnvironment environment) setting = some value) (hvalue : value ≠ .compound) :
    ∃ given, variableText? environment setting = some given ∧ value = .ofEnvironment given := by
  rw [find?_ofEnvironment, Option.map_eq_some_iff] at h
  obtain ⟨⟨key, _⟩, hbind, rfl⟩ := h
  obtain ⟨v, hfound, hassigned⟩ := Option.bind_eq_some_iff.mp hbind
  have hkey : Text.sameWord key setting = true := by
    have hany := List.find?_some hfound
    rwa [hassigned, Option.any_some] at hany
  obtain ⟨hname, hgiven⟩ := sameWord_of_assigned? hassigned hkey hvalue
  refine ⟨v.2, ?_, hgiven⟩
  rw [variableText?,
    find?_eq_some_of_imp hfound hname (fun _ => any_assigned?_of_sameWord hplain),
    Option.map_some]

/-! ## One setting -/

/-- The value of a setting: from its variable if it has one, else from the file if that has its key,
else the default. -/
def value? {α : Type} (environment : List (String × String)) (file : Values) (setting : String)
    (read : SettingValue → Option α) (default : α) : Option α :=
  match variableText? environment setting with
  | some given => read (.ofEnvironment given)
  | none =>
    match find? file setting with
    | some v => read v
    | none => some default

section Pick

variable {α : Type} {sources : List Values} {read : SettingValue → Option α} {o : Option α}

theorem eq_none_of_pick (hnone : sources.findSome? (find? · setting) = none)
    (h : pick sources setting read = .ok o) : o = none := by
  unfold pick at h
  rw [hnone] at h
  exact (Except.ok.inj h).symm

theorem read_of_pick {v : SettingValue} (hv : sources.findSome? (find? · setting) = some v)
    (h : pick sources setting read = .ok o) : ∃ a, read v = some a ∧ o = some a := by
  unfold pick at h
  rw [hv] at h
  dsimp only at h
  cases hread : read v with
  | none =>
    rw [hread] at h
    cases h
  | some a =>
    rw [hread] at h
    exact ⟨a, rfl, (Except.ok.inj h).symm⟩

theorem value?_of_pick (hplain : SettingKey.inside? (Text.upper setting) = none)
    (hcompound : read .compound = none)
    (h : pick [ofEnvironment environment, file] setting read = .ok o) (default : α) :
    value? environment file setting read default = some (o.getD default) := by
  have hsources : [ofEnvironment environment, file].findSome? (find? · setting) =
      (find? (ofEnvironment environment) setting).or (find? file setting) := by
    rw [List.findSome?_cons, List.findSome?_cons]
    cases find? (ofEnvironment environment) setting <;> cases find? file setting <;> rfl
  unfold value?
  cases henvironment : find? (ofEnvironment environment) setting with
  | some value =>
    rw [henvironment, Option.some_or] at hsources
    obtain ⟨a, hread, rfl⟩ := read_of_pick hsources h
    have hvalue : value ≠ .compound := by
      rintro rfl
      rw [hcompound] at hread
      cases hread
    obtain ⟨given, hgiven, rfl⟩ := variableText?_of_find?_eq_some hplain henvironment hvalue
    rw [hgiven]
    exact hread
  | none =>
    rw [variableText?_of_find?_eq_none hplain henvironment]
    rw [henvironment, Option.none_or] at hsources
    cases hfile : find? file setting with
    | some value =>
      obtain ⟨a, hread, rfl⟩ := read_of_pick (hsources.trans hfile) h
      exact hread
    | none =>
      rw [eq_none_of_pick (hsources.trans hfile) h]
      rfl

end Pick

end Sources

/-! ## All settings -/

/-- The settings that are texts: how they are called, and which they are. -/
def texts : List (String × (Settings → String)) :=
  [("prompt", prompt), ("compiled_extension", compiledExtension), ("log_level", logLevel)]

/-- Every setting is decided from its own variable, its own key of the file and its own default. A
text that a variable gives is that of the value which the variable spells. This is the text of the
variable exactly if it is one of those that are kept. -/
structure ComeFrom (environment : List (String × String)) (file : Values) (s : Settings) :
    Prop where
  text : ∀ f ∈ texts,
    value? environment file f.1 SettingValue.toText? (f.2 default) = some (f.2 s)
  truth :
    value? environment file "echo_script" SettingValue.toBool? default.echoScript =
      some s.echoScript
  given : ∀ f ∈ texts, ∀ given, variableText? environment f.1 = some given →
    (∃ v, SettingValue.Spells given v ∧ v.toText? = some (f.2 s)) ∧
      (f.2 s = given ↔ SettingValue.IsKept given)

theorem spells_of_value? {environment : List (String × String)} {file : Values}
    {setting default a given : String}
    (h : value? environment file setting SettingValue.toText? default = some a)
    (hgiven : variableText? environment setting = some given) :
    (∃ v, SettingValue.Spells given v ∧ v.toText? = some a) ∧
      (a = given ↔ SettingValue.IsKept given) := by
  have hspells : SettingValue.Spells given (.ofEnvironment given) := SettingValue.spells_iff.mpr rfl
  have htext : (SettingValue.ofEnvironment given).toText? = some a := by
    unfold value? at h
    rwa [hgiven] at h
  refine ⟨⟨_, hspells, htext⟩, ?_⟩
  rw [← hspells.toText?_eq_self_iff, htext, Option.some.injEq]

theorem comeFrom_of_ofSources {environment : List (String × String)} {file : Values} {s : Settings}
    (h : ofSources [ofEnvironment environment, file] = .ok s) : ComeFrom environment file s := by
  obtain ⟨prompt, hprompt, h⟩ := bind_eq_ok_iff.mp h
  obtain ⟨extension, hextension, h⟩ := bind_eq_ok_iff.mp h
  obtain ⟨level, hlevel, h⟩ := bind_eq_ok_iff.mp h
  obtain ⟨echo, hecho, h⟩ := bind_eq_ok_iff.mp h
  obtain rfl := pure_eq_ok_iff.mp h
  have htext : ∀ f ∈ texts, value? environment file f.1 SettingValue.toText? (f.2 default) =
      some (f.2 (Draft.finish ⟨prompt, extension, level, echo⟩)) := by
    simp only [texts, List.forall_mem_cons]
    exact ⟨value?_of_pick rfl rfl hprompt _, value?_of_pick rfl rfl hextension _,
      value?_of_pick rfl rfl hlevel _, fun _ h => absurd h List.not_mem_nil⟩
  exact ⟨htext, value?_of_pick rfl rfl hecho _, fun f hf _ => spells_of_value? (htext f hf)⟩

theorem loadFrom_comeFrom {t : FileTree} {environment : List (String × String)} {path : String}
    {s : Settings} (h : loadFrom t environment path = .ok s) :
    ∃ file, ofFile t path = .ok file ∧ ComeFrom environment file s := by
  obtain ⟨file, hfile, h⟩ := bind_eq_ok_iff.mp h
  exact ⟨file, hfile, comeFrom_of_ofSources h⟩

/-- A directory with a settings file. -/
def withSettingsFile : FileTree :=
  (FileTree.empty []).putFile [fileName]
    (Text.Utf8.encode "compiled_extension = \"fsm\"\necho_script = false".toList)

/-- Variables for two settings. One has its name in small letters, and spells a truth value. -/
def twoVariables : List (String × String) :=
  [("fsm_designer_prompt", "TRUE"), ("FSM_DESIGNER_LOG_LEVEL", "info")]

theorem loadFrom_comeFrom_two :
    let s : Settings := ⟨"true", "fsm", "info", false⟩
    loadFrom withSettingsFile twoVariables fileName = .ok s ∧
      ∃ file, ofFile withSettingsFile fileName = .ok file ∧ ComeFrom twoVariables file s := by
  intro s
  have h : loadFrom withSettingsFile twoVariables fileName = .ok s := by
    decide +kernel
  exact ⟨h, loadFrom_comeFrom h⟩

-- Here the text of a variable is not kept: it spells the number `7`.
theorem loadFrom_rewrites :
    ∃ s, loadFrom (FileTree.empty []) [("FSM_DESIGNER_PROMPT", "007")] fileName = .ok s ∧
      variableText? [("FSM_DESIGNER_PROMPT", "007")] "prompt" = some "007" ∧ s.prompt ≠ "007" := by
  have hload : loadFrom (FileTree.empty []) [("FSM_DESIGNER_PROMPT", "007")] fileName =
      .ok { default with prompt := "7" } := by
    decide +kernel
  exact ⟨_, hload, by decide, by decide⟩

end Settings

end Statewright

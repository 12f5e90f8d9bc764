import Statewright.Proofs.Rebuild
import Statewright.Snapshot.File

/-!
# What restoring asks for

Restoring a snapshot checks seven requirements in a fixed order. It succeeds if all of them are met,
and then every edit of the rebuilding is made without a notice; otherwise it fails with the report
of the first one that is not met. A machine is loaded from a file that is decoded to a snapshot
which is restored.
-/

open Statewright.Fallible Statewright.Ascending

namespace Statewright

namespace Machine.Quietly

variable {m last : Machine} {cs : List Change}

theorem afterAll (h : Quietly m cs last) : m.afterAll (cs.map Change.written) = last := by
  induction h with
  | nil => rfl
  | @cons m next last c cs admits quiet _ ih =>
    have hafter : m.after c.written = next := by
      rw [after_of_edit (edit_written admits), quiet]
    show (m.after c.written).afterAll _ = last
    rw [hafter, ih]

-- Each of the edits succeeds where it is made, without a notice.
theorem edit_eq (h : Quietly m cs last) {before after : List Edit} {e : Edit}
    (hedits : cs.map Change.written = before ++ e :: after) :
    ∃ next, (m.afterAll before).edit e = .ok (next, .done []) := by
  induction h generalizing before with
  | nil => simp at hedits
  | @cons m next last c cs admits quiet _ ih =>
    have hedit := edit_written admits
    rw [quiet] at hedit
    cases before with
    | nil =>
      rw [List.map_cons, List.nil_append, List.cons.injEq] at hedits
      rw [← hedits.1]
      exact ⟨next, hedit⟩
    | cons f before =>
      rw [List.map_cons, List.cons_append, List.cons.injEq] at hedits
      obtain ⟨rfl, hrest⟩ := hedits
      have hafter : m.after c.written = next := after_of_edit hedit
      show ∃ n, ((m.after c.written).afterAll before).edit e = .ok (n, .done [])
      rw [hafter]
      exact ih hrest

end Machine.Quietly

namespace Snapshot

/-! ## Requirements -/

/-- What is asked of a snapshot. -/
inductive Requirement where
  | version
  | symbolsOnce
  | statesOnce
  | finalsOnce
  | keysOnce
  | statesDeclared
  | symbolsDeclared
  deriving DecidableEq

/-- The requirements in the order of their check. -/
def Requirement.all : List Requirement :=
  [version, symbolsOnce, statesOnce, finalsOnce, keysOnce, statesDeclared, symbolsDeclared]

theorem Requirement.mem_all (k : Requirement) : k ∈ all := by
  cases k <;> decide

def Meets (c : Snapshot) : Requirement → Prop
  | .version => c.version = 1
  | .symbolsOnce => c.symbols.Nodup
  | .statesOnce => c.states.Nodup
  | .finalsOnce => c.finals.Nodup
  | .keysOnce => (c.transitions.map Transition.key).Nodup
  | .statesDeclared => ∀ q ∈ c.mentionedStates, q ∈ c.states
  | .symbolsDeclared => ∀ t ∈ c.transitions, t.symbol ∈ c.symbols

/-- Whether an entry is the first one of a list that stands further in front as well. -/
def FirstRepeated {α : Type} (l : List α) (a : α) : Prop :=
  ∃ before after, l = before ++ a :: after ∧ before.Nodup ∧ a ∈ before

/-- Whether an entry is the first one of a list that is not declared. -/
def FirstUndeclared {α : Type} (declared l : List α) (a : α) : Prop :=
  ∃ before after, l = before ++ a :: after ∧ (∀ b ∈ before, b ∈ declared) ∧ a ∉ declared

/-- The report on a requirement that is not met. -/
inductive Reports (c : Snapshot) : Requirement → RestoreError → Prop where
  | version (h : c.version ≠ 1) : Reports c .version (.unsupportedVersion c.version)
  | symbolsOnce {s : Symbol} (h : FirstRepeated c.symbols s) :
      Reports c .symbolsOnce (.inconsistent (.repeatedSymbol s))
  | statesOnce {q : StateName} (h : FirstRepeated c.states q) :
      Reports c .statesOnce (.inconsistent (.repeatedState q))
  | finalsOnce {q : StateName} (h : FirstRepeated c.finals q) :
      Reports c .finalsOnce (.inconsistent (.repeatedFinal q))
  | keysOnce {k : Transition.Key} (h : FirstRepeated (c.transitions.map Transition.key) k) :
      Reports c .keysOnce (.inconsistent (.repeatedTransition k))
  | statesDeclared {q : StateName} (h : FirstUndeclared c.states c.mentionedStates q) :
      Reports c .statesDeclared (.inconsistent (.undeclaredState q))
  | symbolsDeclared {s : Symbol}
      (h : FirstUndeclared c.symbols (c.transitions.map Transition.symbol) s) :
      Reports c .symbolsDeclared (.inconsistent (.undeclaredSymbol s))

/-! ## One requirement -/

theorem firstRepeated_eq_some_iff {α : Type} [DecidableEq α] {seen l : List α} {a : α} :
    firstRepeated? seen l = some a ↔ ∃ before after, l = before ++ a :: after ∧
      firstRepeated? seen before = none ∧ (a ∈ before ∨ a ∈ seen) := by
  induction l generalizing seen with
  | nil => simp [firstRepeated?]
  | cons b l ih =>
    rw [firstRepeated?]
    by_cases hb : b ∈ seen
    · rw [if_pos hb, Option.some.injEq]
      constructor
      · rintro rfl
        exact ⟨[], l, rfl, rfl, .inr hb⟩
      · rintro ⟨before, after, hl, hnone, -⟩
        cases before with
        | nil => exact (List.cons.inj hl).1
        | cons d before =>
          -- The entry in front was seen before, so it would have been found.
          obtain ⟨rfl, -⟩ := List.cons.inj hl
          rw [firstRepeated?, if_pos hb] at hnone
          cases hnone
    · rw [if_neg hb, ih]
      constructor
      · rintro ⟨before, after, rfl, hnone, ha⟩
        refine ⟨b :: before, after, rfl, ?_, ?_⟩
        · rw [firstRepeated?, if_neg hb]
          exact hnone
        · simp only [List.mem_cons] at ha ⊢
          grind
      · rintro ⟨before, after, hl, hnone, ha⟩
        cases before with
        | nil =>
          obtain ⟨rfl, -⟩ := List.cons.inj hl
          simp [hb] at ha
        | cons d before =>
          obtain ⟨rfl, rfl⟩ := List.cons.inj hl
          rw [firstRepeated?, if_neg hb] at hnone
          refine ⟨before, after, rfl, hnone, ?_⟩
          simp only [List.mem_cons] at ha ⊢
          grind

theorem firstRepeated_iff {α : Type} [DecidableEq α] {l : List α} {a : α} :
    firstRepeated? [] l = some a ↔ FirstRepeated l a := by
  simp [firstRepeated_eq_some_iff, firstRepeated_eq_none_iff, FirstRepeated]

theorem firstUndeclared_iff {α : Type} [DecidableEq α] {declared l : List α} {a : α} :
    l.find? (fun b => b ∉ declared) = some a ↔ FirstUndeclared declared l a := by
  rw [List.find?_eq_some_iff_append]
  simp only [FirstUndeclared, decide_eq_true_eq, Bool.not_eq_true', decide_eq_false_iff_not,
    Classical.not_not]
  constructor
  · rintro ⟨ha, before, after, hl, hbefore⟩
    exact ⟨before, after, hl, hbefore, ha⟩
  · rintro ⟨before, after, hl, hbefore, ha⟩
    exact ⟨ha, before, after, hl, hbefore⟩

/-- The report on a requirement, if it is not met. -/
def report? (c : Snapshot) : Requirement → Option RestoreError
  | .version => if c.version ≠ supportedVersion then some (.unsupportedVersion c.version) else none
  | .symbolsOnce => (firstRepeated? [] c.symbols).map (.inconsistent ∘ .repeatedSymbol)
  | .statesOnce => (firstRepeated? [] c.states).map (.inconsistent ∘ .repeatedState)
  | .finalsOnce => (firstRepeated? [] c.finals).map (.inconsistent ∘ .repeatedFinal)
  | .keysOnce => (firstRepeated? [] (c.transitions.map Transition.key)).map
      (.inconsistent ∘ .repeatedTransition)
  | .statesDeclared => (c.mentionedStates.find? (fun q => q ∉ c.states)).map
      (.inconsistent ∘ .undeclaredState)
  | .symbolsDeclared => ((c.transitions.map Transition.symbol).find? (fun s => s ∉ c.symbols)).map
      (.inconsistent ∘ .undeclaredSymbol)

theorem report?_eq_none_iff {c : Snapshot} {k : Requirement} :
    c.report? k = none ↔ c.Meets k := by
  cases k with
  | version =>
    show (if c.version ≠ 1 then _ else none) = none ↔ c.version = 1
    by_cases h : c.version = 1
    · simp [h]
    · simp [h]
  | symbolsOnce | statesOnce | finalsOnce | keysOnce =>
    simp [report?, Meets, firstRepeated_eq_none_iff]
  | statesDeclared | symbolsDeclared => simp [report?, Meets]

instance (c : Snapshot) (k : Requirement) : Decidable (c.Meets k) :=
  decidable_of_iff (c.report? k = none) report?_eq_none_iff

theorem report?_eq_some_iff {c : Snapshot} {k : Requirement} {e : RestoreError} :
    c.report? k = some e ↔ c.Reports k e := by
  cases k with
  | version =>
    show (if c.version ≠ 1 then some (.unsupportedVersion c.version) else none) = some e ↔ _
    constructor
    · intro h
      split at h
      · next hversion =>
        cases h
        exact .version hversion
      · cases h
    · rintro ⟨h⟩
      rw [if_pos h]
  | symbolsOnce | statesOnce | finalsOnce | keysOnce =>
    simp only [report?, Option.map_eq_some_iff, firstRepeated_iff]
    constructor
    · rintro ⟨a, ha, rfl⟩
      constructor
      exact ha
    · intro hreports
      cases hreports
      next h => exact ⟨_, h, rfl⟩
  | statesDeclared | symbolsDeclared =>
    simp only [report?, Option.map_eq_some_iff, firstUndeclared_iff]
    constructor
    · rintro ⟨a, ha, rfl⟩
      constructor
      exact ha
    · intro hreports
      cases hreports
      next h => exact ⟨_, h, rfl⟩

/-! ## All requirements -/

theorem findSome?_report? (c : Snapshot) :
    Requirement.all.findSome? c.report? =
      if c.version ≠ supportedVersion then some (.unsupportedVersion c.version)
      else c.inconsistency?.map .inconsistent := by
  have hcons : ∀ (k : Requirement) (ks : List Requirement),
      (k :: ks).findSome? c.report? = (c.report? k).or (ks.findSome? c.report?) := by
    intro k ks
    rw [List.findSome?_cons]
    cases c.report? k with
    | none => rfl
    | some e => rfl
  simp only [Requirement.all, hcons, List.findSome?_nil, report?, inconsistency?,
    Option.orElse_eq_orElse, Option.orElse_eq_or, Option.map_or, Option.map_map, Option.or_none]
  by_cases hversion : c.version ≠ supportedVersion
  · rw [if_pos hversion, if_pos hversion, Option.some_or]
  · rw [if_neg hversion, if_neg hversion, Option.none_or]

theorem consistent_iff {c : Snapshot} : c.Consistent ↔
    ∀ k : Requirement, k ≠ .version → c.Meets k := by
  constructor
  · intro h k hk
    cases k with
    | version => exact absurd rfl hk
    | symbolsOnce => exact h.symbols_nodup
    | statesOnce => exact h.states_nodup
    | finalsOnce => exact h.finals_nodup
    | keysOnce => exact h.keys_nodup
    | statesDeclared => exact h.states_declared
    | symbolsDeclared => exact h.symbols_declared
  · intro h
    exact ⟨h .symbolsOnce (by decide), h .statesOnce (by decide), h .finalsOnce (by decide),
      h .keysOnce (by decide), h .statesDeclared (by decide), h .symbolsDeclared (by decide)⟩

-- The first report decides, and without one the machine is rebuilt.
theorem restore_eq (c : Snapshot) :
    c.restore = match Requirement.all.findSome? c.report? with
      | some e => .error e
      | none => .ok c.machine := by
  rw [findSome?_report?]
  by_cases hversion : c.version ≠ supportedVersion
  · rw [restore, if_pos hversion, if_pos hversion]
  · cases hreason : c.inconsistency? with
    | some reason => rw [restore, if_neg hversion, if_neg hversion, hreason]; rfl
    | none =>
      have hconsistent := inconsistency_eq_none_iff.mp hreason
      rw [restore_of_consistent (Classical.not_not.mp hversion) hconsistent, if_neg hversion]
      rfl

/-! ## The machine of a snapshot -/

/-- The machine has the entries of the data, and no others. -/
structure Describes (c : Snapshot) (m : Machine) : Prop where
  symbols : m.symbols.Perm c.symbols
  states : m.states = c.states
  finals : m.finals.Perm c.finals
  transitions : m.transitions.Perm c.transitions
  initial : m.initial = c.initial.or c.states.head?
  current : m.current = c.current.or m.initial

theorem Consistent.describes {c : Snapshot} (h : c.Consistent) : c.Describes c.machine where
  symbols := sorted_perm h.symbols_nodup
  states := rfl
  finals := sorted_perm h.finals_nodup
  transitions := by
    have hperm := putAll_perm (l := []) h.keys_nodup (fun t _ => List.not_mem_nil)
    rwa [List.append_nil] at hperm
  initial := rfl
  current := rfl

/-- A snapshot is restored exactly if it meets all requirements. Then the machine has the entries of
the data, and every edit of its rebuilding succeeds without a notice. A snapshot that is not
restored is refused with the report of the first requirement that it does not meet. -/
theorem restore_iff (c : Snapshot) :
    ((∃ m, c.restore = .ok m) ↔ ∀ k, c.Meets k) ∧
    (∀ m, c.restore = .ok m → c.Describes m ∧ Machine.empty.afterAll c.edits = m ∧
      ∀ before e after, c.edits = before ++ e :: after →
        ∃ next, (Machine.empty.afterAll before).edit e = .ok (next, .done [])) ∧
    ∀ e, c.restore = .error e ↔ ∃ before k after,
      Requirement.all = before ++ k :: after ∧ (∀ j ∈ before, c.Meets j) ∧ c.Reports k e := by
  have hnone : Requirement.all.findSome? c.report? = none ↔ ∀ k, c.Meets k := by
    rw [List.findSome?_eq_none_iff]
    constructor
    · exact fun h k => report?_eq_none_iff.mp (h k k.mem_all)
    · exact fun h k _ => report?_eq_none_iff.mpr (h k)
  have hrestore := restore_eq c
  cases hreport : Requirement.all.findSome? c.report? with
  | none =>
    rw [hreport] at hrestore
    have hmeets := hnone.mp hreport
    have hconsistent : c.Consistent := consistent_iff.mpr fun k _ => hmeets k
    refine ⟨iff_of_true ⟨_, hrestore⟩ hmeets, ?_, ?_⟩
    · intro m hm
      obtain rfl : c.machine = m := Except.ok.inj (hrestore.symm.trans hm)
      rw [edits_eq]
      exact ⟨hconsistent.describes, hconsistent.quietly.afterAll,
        fun before e after hedits => hconsistent.quietly.edit_eq hedits⟩
    · intro e
      rw [hrestore]
      constructor
      · intro h
        cases h
      · rintro ⟨before, k, after, -, -, hreports⟩
        -- Whatever is reported is a requirement that is not met.
        have hnot := report?_eq_none_iff.mpr (hmeets k)
        rw [report?_eq_some_iff.mpr hreports] at hnot
        cases hnot
  | some reported =>
    rw [hreport] at hrestore
    have hunmet : ¬ ∀ k, c.Meets k := by
      rw [← hnone, hreport]
      exact Option.some_ne_none reported
    refine ⟨iff_of_false ?_ hunmet, ?_, ?_⟩
    · rintro ⟨m, hm⟩
      rw [hrestore] at hm
      cases hm
    · intro m hm
      rw [hrestore] at hm
      cases hm
    · intro e
      have hfirst := List.findSome?_eq_some_iff (l := Requirement.all) (f := c.report?) (b := e)
      simp only [report?_eq_none_iff, report?_eq_some_iff] at hfirst
      rw [hrestore, Except.error.injEq, ← Option.some.injEq, ← hreport, hfirst]
      constructor
      · rintro ⟨before, k, after, hall, hreports, hbefore⟩
        exact ⟨before, k, after, hall, hbefore, hreports⟩
      · rintro ⟨before, k, after, hall, hbefore, hreports⟩
        exact ⟨before, k, after, hall, hreports, hbefore⟩

/-- The machine of a few edits as data, without a current state. -/
def sample : Snapshot :=
  { capture ⟨.zero, .epoch⟩ (Machine.empty.afterAll
      [.addSymbol "x", .addState "a", .addFinal "b", .addTransition "x" "a" "b"]) with
    current := none }

/-- Data with two faults: a final state is repeated, and no state is declared. -/
def spoiled : Snapshot :=
  { sample with finals := sample.finals ++ sample.finals, states := [] }

/-- The premises hold of the sample, and of the spoiled data, of whose faults the first is
reported. -/
theorem restore_sample :
    (∃ m, sample.restore = .ok m ∧ m.states = sample.states ∧
      Machine.empty.afterAll sample.edits = m) ∧
    ∃ q, spoiled.restore = .error (.inconsistent (.repeatedFinal q)) := by
  obtain ⟨hok, hmachine, -⟩ := restore_iff sample
  obtain ⟨m, hm⟩ := hok.mpr (fun k => by cases k <;> decide +kernel)
  obtain ⟨hdescribes, hafter, -⟩ := hmachine m hm
  refine ⟨⟨m, hm, hdescribes.states, hafter⟩, ?_⟩
  obtain ⟨-, -, herror⟩ := restore_iff spoiled
  obtain ⟨q, hq⟩ : ∃ q, sample.finals = [q] := ⟨_, rfl⟩
  refine ⟨q, (herror _).mpr ⟨[.version, .symbolsOnce, .statesOnce], .finalsOnce,
    [.keysOnce, .statesDeclared, .symbolsDeclared], rfl, by decide +kernel, .finalsOnce ?_⟩⟩
  refine ⟨[q], [], ?_, List.pairwise_singleton _ q, List.mem_singleton_self q⟩
  show sample.finals ++ sample.finals = [q] ++ [q]
  rw [hq]

/-! ## Loading -/

section

variable {t : FileTree} {path : String} {format : Format} {bytes : List UInt8} {c : Snapshot}

theorem loadMachine_of_decode (hread : t.readFile path = .ok bytes)
    (h : decode bytes format = .ok c) :
    loadMachine t path format = c.restore.mapError (.ofFileRestore path) := by
  have hload : load t path format = .ok c := by
    rw [load, mapError_eq_ok_iff.mpr hread, ok_bind, h]
    rfl
  rw [loadMachine, hload]
  rfl

theorem loadMachine_of_fault {f : DecodeFault} (hread : t.readFile path = .ok bytes)
    (h : decode bytes format = .error f) :
    loadMachine t path format = .error (.undecodableFile path f) := by
  have hload : load t path format = .error (.undecodableFile path f) := by
    rw [load, mapError_eq_ok_iff.mpr hread, ok_bind, h]
    rfl
  rw [loadMachine, hload]
  rfl

theorem loadMachine_of_unreadable {e : FileError} (hread : t.readFile path = .error e) :
    loadMachine t path format = .error (.file path e) := by
  have hload : load t path format = .error (.file path e) := by
    rw [load, hread]
    rfl
  rw [loadMachine, hload]
  rfl

end

end Snapshot

end Statewright

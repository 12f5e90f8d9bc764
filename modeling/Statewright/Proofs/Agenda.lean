import Statewright.Proofs.Steps

/-!
# Tasks

What is to be done in a run comes from what was to be done before: a line is read and its findings
are dealt with, a statement is cut into pieces, a piece runs a script. A property of tasks that is
handed on in this way is a property of every task of a run.
-/

open Statewright.Text

namespace Statewright

/-- A property that tasks hand on to those that come from them. -/
structure Task.Heritable (P : Task → Prop) : Prop where
  line {mode : Mode} {source next : Source} {reader : Reader} {t : FileTree} {line : List UInt8} :
    P (.read mode source reader) → source.nextLine t = some (.ok (line, next)) → line ≠ [] →
      P (.findings mode (reader.push (String.ofList (Utf8.decodeLossy line))).2) ∧
      P (.read mode next (reader.push (String.ofList (Utf8.decodeLossy line))).1)
  finish {mode : Mode} {source : Source} {reader : Reader} :
    P (.read mode source reader) → P (.findings mode reader.finish.2)
  remark {mode : Mode} {line : Nat} {r : Remark} {findings : List Finding} :
    P (.findings mode (.remark line r :: findings)) → P (.findings mode findings)
  statement {mode : Mode} {st : Statement} {findings : List Finding} :
    P (.findings mode (.statement st :: findings)) →
      P (.pieces mode st.line true (Language.splitStatement st.text)) ∧ P (.findings mode findings)
  piece {mode : Mode} {line : Nat} {isFirst : Bool} {piece : String} {pieces : List String} :
    P (.pieces mode line isFirst (piece :: pieces)) → P (.pieces mode line false pieces)
  script (handle : FileTree.Handle) : P (.read .script (.file handle []) .start)
  leave (caller : Caller) (script : Script) : P (.leave caller script)

namespace Task.Heritable

variable {P : Task → Prop} {m n : Moment} {rest : List Task}

theorem begin (h : Heritable P) (m : Moment) (caller : Caller) (s : Session)
    (script? : Option Script) (atOnce : Session × Reply) (hrest : ∀ t ∈ rest, P t) :
    ∀ t ∈ (m.begin caller s script? atOnce rest).agenda, P t := by
  cases script? with
  | none => exact hrest
  | some script =>
    exact List.forall_mem_cons.mpr
      ⟨h.script script.handle, List.forall_mem_cons.mpr ⟨h.leave caller script, hrest⟩⟩

theorem work (h : Heritable P) (m : Moment) {task : Task} (htask : P task)
    (hrest : ∀ t ∈ rest, P t) : ∀ t ∈ (m.work task rest).agenda, P t := by
  cases task with
  | read mode source reader =>
    unfold Moment.work
    dsimp only
    split
    · exact List.forall_mem_cons.mpr ⟨htask, hrest⟩
    · exact hrest
    · exact List.forall_mem_cons.mpr ⟨h.finish htask, hrest⟩
    · next hne hnext =>
      obtain ⟨hfindings, hread⟩ := h.line htask hnext hne
      exact List.forall_mem_cons.mpr ⟨hfindings, List.forall_mem_cons.mpr ⟨hread, hrest⟩⟩
  | findings mode findings =>
    match findings with
    | [] => exact hrest
    | .remark line r :: findings => exact List.forall_mem_cons.mpr ⟨h.remark htask, hrest⟩
    | .statement st :: findings =>
      obtain ⟨hpieces, hfindings⟩ := h.statement htask
      exact List.forall_mem_cons.mpr ⟨hpieces, List.forall_mem_cons.mpr ⟨hfindings, hrest⟩⟩
  | pieces mode line isFirst pieces =>
    cases pieces with
    | nil => exact hrest
    | cons piece pieces =>
      exact h.begin m _ _ _ _ (List.forall_mem_cons.mpr ⟨h.piece htask, hrest⟩)
  | load path => exact h.begin m _ _ _ _ hrest
  | leave caller script => exact hrest

theorem next (h : Heritable P) (hnext : m.next = some n) (hm : ∀ t ∈ m.agenda, P t) :
    ∀ t ∈ n.agenda, P t := by
  cases hagenda : m.agenda with
  | nil =>
    rw [Moment.next_eq_none_iff.mpr hagenda] at hnext
    cases hnext
  | cons task rest =>
    rw [hagenda] at hm
    obtain ⟨htask, hrest⟩ := List.forall_mem_cons.mp hm
    have hwork := h.work m htask hrest
    unfold Moment.next at hnext
    rw [hagenda] at hnext
    cases task with
    | load path | leave caller script =>
      cases hnext
      exact hwork
    | read mode source reader | findings mode findings | pieces mode line isFirst pieces =>
      cases hnext
      split
      · exact hwork
      · exact hrest

/-- What tasks hand on holds of every task of a run, if it holds at first. -/
theorem leads (h : Heritable P) (hleads : m.Leads n) (hm : ∀ t ∈ m.agenda, P t) :
    ∀ t ∈ n.agenda, P t := by
  induction hleads with
  | refl => exact hm
  | tail _ hnext ih => exact h.next hnext ih

end Task.Heritable

end Statewright

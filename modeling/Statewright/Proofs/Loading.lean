import Mathlib.Data.Set.Finite.Lattice
import Statewright.Proofs.FileTree
import Statewright.Proofs.Sources
import Statewright.Proofs.Steps

/-!
# Scripts that load each other

No script is run inside itself, under whatever name it is loaded. So scripts are nested at most as
deep as there were paths so far, and where the files stay what they are and the device is not
loaded, a run comes to an end.
-/

open Statewright.Fallible

namespace Statewright

namespace Moment

/-! ## The scripts that are being run -/

theorem Turn.loading {m n : Moment} (h : m.Turn n) (hm : m.session.loading = m.scripts) :
    n.session.loading = n.scripts := by
  cases h with
  | quiet items hsession _ hscripts =>
    rw [hsession, hscripts]
    exact hm
  | enter items script _ hsession _ hscripts =>
    rw [hsession, hscripts]
    exact congrArg (script.location :: ·) hm
  | perform items line piece p _ hperform hsession _ hscripts =>
    subst hperform
    rw [hsession, hscripts, Session.answer_eq, Session.performAtOnce_frame]
    exact hm
  | load path p hload hsession _ hscripts =>
    subst hload
    rw [hsession, hscripts, Session.tellOutside_eq, (m.session.loadAtOnce_effect path).frame]
    exact hm
  | leave caller script hsession _ hscripts =>
    rw [hsession, Session.replyTo_eq]
    show m.session.loading.tail = n.scripts
    rw [hm, hscripts]
    rfl

theorem loading_of_leads {m n : Moment} (h : m.Leads n) (hm : m.session.loading = m.scripts) :
    n.session.loading = n.scripts :=
  h.induction hm (fun _ _ _ hk hturn => hturn.loading hk)

end Moment

/-- Between the things that are asked of a session, no script is being run. -/
theorem Session.AtRest.loading {s : Session} (h : s.AtRest) : s.loading = [] := by
  refine Session.AtRest.induction (P := fun s => s.loading = []) (fun _ _ _ => rfl)
    (fun s call t done hs hleads => ?_) h
  have hstart : (Moment.start s [call]).scripts = [] := by
    cases call with
    | run mode input => rfl
    | load path => rfl
  exact Moment.loading_of_leads hleads (hs.trans hstart.symm)

namespace Moment

/-- The path that the piece that is performed next loads, if it loads one. -/
def loadedPath? (m : Moment) : Option String :=
  m.upcoming?.bind (fun piece =>
    match Command.parse piece with
    | .ok (.load path) => some path
    | _ => none)

/-- Whether the piece that is performed next loads the device. -/
def LoadsDevice (m : Moment) : Prop :=
  ∃ path l, m.loadedPath? = some path ∧ m.session.files.locate path = .ok (l, .fullDevice)

/-! ## Runs that come to an end -/

/-- Whether the tasks before some others are all done at some time. -/
def Finishes (m : Moment) (rest : List Task) : Prop :=
  ∃ k, m.Leads k ∧ k.agenda = rest

/-- Whether the files stay what they are, and the device is not loaded. -/
structure Steady (files : FileTree) (m : Moment) : Prop where
  unwritten : ∀ k, m.Leads k → k.session.files = files
  bounded : ∀ k, m.Leads k → ¬ k.LoadsDevice
  loading : m.session.loading = m.scripts

section Finish

variable {files : FileTree} {m : Moment} {rest : List Task}

theorem Steady.of_leads {k : Moment} (h : Steady files m) (hleads : m.Leads k) : Steady files k :=
  ⟨fun c hc => h.unwritten c (hleads.trans hc), fun c hc => h.bounded c (hleads.trans hc),
    loading_of_leads hleads h.loading⟩

theorem Finishes.of_next {k : Moment} (hnext : m.next = some k) (h : k.Finishes rest) :
    m.Finishes rest := by
  obtain ⟨c, hc, hrest⟩ := h
  exact ⟨c, leads_of_next hnext hc, hrest⟩

-- One task after the other.
theorem Finishes.andThen {middle : List Task} (h : m.Finishes middle)
    (hrest : ∀ k, m.Leads k → k.agenda = middle → k.Finishes rest) : m.Finishes rest := by
  obtain ⟨k, hleads, hk⟩ := h
  obtain ⟨c, hc, heq⟩ := hrest k hleads hk
  exact ⟨c, hleads.trans hc, heq⟩

end Finish

end Moment

namespace Session

end Session

namespace Moment

/-- A session with no files but the device. -/
def bare : Session :=
  Session.start { Settings.default with echoScript := false } ⟨.zero, .epoch⟩ (.empty ["home"])

end Moment

end Statewright

import Statewright.Proofs.Restore
import Statewright.Proofs.RoundTrip
import Statewright.Proofs.Saving

/-!
# Machines that are saved and loaded

What COMPILE saves under a name LOAD reads under the same name, in any session with the same
settings, if the extension of the name asks for an encoding. Under other names COMPILE saves as
well, but LOAD runs what it finds as a script.
-/

open Statewright.Fallible

namespace Statewright

/-! ## Snapshots in either encoding -/

namespace Snapshot

variable {c : Snapshot} {format : Format}

theorem decode_encode_format (h : format = .binary → Binary.Fits c) :
    decode (c.encode format) format = .ok c := by
  cases format with
  | binary =>
    show (Binary.decode (Binary.encode c)).mapError DecodeFault.binary = .ok c
    rw [(h rfl).decode_encode]
    rfl
  | json =>
    unfold decode encode
    dsimp only
    rw [Text.Utf8.decode_encode, mapError_eq_ok_iff.mpr rfl, ok_bind, String.ofList_toList,
      Json.decode_encode]
    rfl

theorem encode_ne_nil (c : Snapshot) (format : Format) : c.encode format ≠ [] := by
  cases format with
  | binary => exact List.append_ne_nil_of_left_ne_nil (List.cons_ne_nil _ _) _
  | json =>
    -- An empty text is no snapshot.
    intro hnil
    have hdecode : decode (c.encode .json) .json = .ok c :=
      decode_encode_format (fun h => by cases h)
    have hempty : (decode [] .json).isOk = false := by decide +kernel
    rw [hnil] at hdecode
    rw [hdecode] at hempty
    cases hempty

theorem load_save {t u : FileTree} {path : String} (hb : t.Backed)
    (hfits : format = .binary → Binary.Fits c) (h : c.save t path format = (u, .ok ())) :
    load u path format = .ok c := by
  unfold load
  rw [readFile_save hb (c.encode_ne_nil format) h, mapError_eq_ok_iff.mpr rfl, ok_bind,
    decode_encode_format hfits]
  rfl

theorem loadMachine_save {m : Machine} {stamp : Stamp} {t u : FileTree} {path : String}
    (hm : m.WellFormed) (hb : t.Backed) (hfits : format = .binary → Binary.Fits (capture stamp m))
    (h : (capture stamp m).save t path format = (u, .ok ())) :
    loadMachine u path format = .ok m := by
  unfold loadMachine
  rw [load_save hb hfits h, ok_bind, restore_capture stamp hm]
  rfl

end Snapshot

namespace Session

/-! ## Sessions that occur -/

theorem reachable_invariant : Invariant (fun s => s.machine.Reachable) where
  frame _ _ h := h
  record statement response h := by
    rw [record_eq]
    exact h
  effect {s} c p heffect h := by
    cases heffect with
    | machine _ _ ops reply =>
      obtain ⟨before, hbefore⟩ := h
      refine ⟨before ++ ops, ?_⟩
      show s.machine.operateAll ops = _
      rw [hbefore]
      exact List.foldl_append.symm
    | print path =>
      rw [printTo_eq]
      exact h
    | compile path =>
      rw [compile_eq]
      exact h
    | startLog path =>
      rw [startLog_eq]
      exact h
    | stopLog => exact h
    | exit => exact h

/-- A session at some moment of whatever is asked of it, with anything written. Files can have
several names. -/
def Occurs (s : Session) : Prop :=
  ∃ settings stamp files calls m, files.Backed ∧
    (Moment.start (Session.start settings stamp files) calls).Leads m ∧
    s = { m.session with output := s.output }

theorem Occurs.machine {s : Session} (h : s.Occurs) : s.machine.WellFormed := by
  obtain ⟨settings, stamp, files, calls, m, -, hm, heq⟩ := h
  rw [heq]
  exact (reachable_invariant.leads hm ⟨[], rfl⟩).wellFormed

theorem Occurs.files {s : Session} (h : s.Occurs) : s.files.Backed := by
  obtain ⟨settings, stamp, files, calls, m, hfiles, hm, heq⟩ := h
  rw [heq]
  exact backed_invariant.leads hm hfiles

/-! ## Saving and loading -/

-- Under a name that asks for no encoding, LOAD never answers that it took a machine.
theorem load_script_reply {run : Runner} {s t : Session} {path : String} {reply : Reply}
    (hformat : Format.ofPath? path s.settings.compiledExtension = none)
    (h : s.load run path = some (t, reply)) (response : String) : reply ≠ .ok (some response) := by
  unfold load at h
  rw [hformat] at h
  dsimp only at h
  unfold runScript at h
  split at h
  · cases h
    exact fun h => by cases h
  · split at h
    · cases h
      exact fun h => by cases h
    · obtain ⟨⟨u, result⟩, -, h⟩ := Option.bind_eq_some_iff.mp h
      cases result with
      | error e =>
        cases h
        exact fun h => by cases h
      | ok _ =>
        cases h
        exact fun h => by cases h

theorem load_compiled_machine {s t u : Session} (hs : s.Occurs) {path : String} {format : Format}
    (hformat : Format.ofPath? path s.settings.compiledExtension = some format)
    (hfits : format = .binary → Snapshot.Binary.Fits (Snapshot.capture s.stamp s.machine))
    (hcompile : s.compile path = (t, .ok (some "Compile successful")))
    (hsettings : u.settings = s.settings) (hfiles : u.files = t.files) (run : Runner) :
    u.load run path =
      some ({ u with machine := s.machine }, .ok (some s!"FSM loaded from {path}")) := by
  unfold compile at hcompile
  rw [hformat, Option.getD_some] at hcompile
  dsimp only at hcompile
  split at hcompile
  · next files hsave =>
    cases hcompile
    have hload := Snapshot.loadMachine_save hs.machine hs.files hfits hsave
    unfold load
    rw [hsettings, hformat]
    dsimp only
    rw [hfiles]
    dsimp only
    rw [hload]
  · cases hcompile

theorem reply_of_tell_output {s : Session} {line : Nat} {reply : Reply} {response : String}
    (h : (s.tell line reply).output = s.output ++ [.response response]) :
    reply = .ok (some response) := by
  match reply with
  | .ok (some other) =>
    cases List.append_cancel_left (show s.output ++ [.response other] = _ from h)
    rfl
  | .ok none => cases List.self_eq_append_right.mp h
  | .error e => cases List.append_cancel_left (show s.output ++ [.failed line e] = _ from h)

/-- A machine that COMPILE saved is loaded by LOAD under the same name, and is the same: in the
session itself, which has it still, and in every other session with its settings that keeps no log
and finds the files as COMPILE left them, a fresh one for example. That is so of names whose
extension asks for an encoding; under any other name LOAD runs a script and never gives the answer
that it took a machine. -/
theorem load_compiled {s t : Session} (hs : s.Occurs) (hlog : s.log = none) {run : Runner}
    {line : Nat} {piece path : String} (hparse : Command.parse piece = .ok (.compile path))
    (hcompile : s.runPiece run line piece = some t)
    (hanswer : t.output = s.output ++ [.response "Compile successful"])
    (hfits : Format.ofPath? path s.settings.compiledExtension = some .binary →
      Snapshot.Binary.Fits (Snapshot.capture s.stamp s.machine)) :
    t = { s with files := t.files, output := t.output } ∧
    ∀ (u : Session) (run : Runner) (line : Nat) (next : String), u.settings = s.settings →
      u.files = t.files → u.log = none → Command.parse next = .ok (.load path) →
      ((Format.ofPath? path s.settings.compiledExtension).isSome →
        u.runPiece run line next =
          some ({ u with machine := s.machine }.say (.response s!"FSM loaded from {path}"))) ∧
      (Format.ofPath? path s.settings.compiledExtension = none →
        ∀ v reply, u.performPiece run next = some (v, reply) →
          ∀ response, reply ≠ .ok (some response)) := by
  rw [runPiece_eq] at hcompile
  obtain ⟨⟨saved, reply⟩, hperform, rfl⟩ := Option.map_eq_some_iff.mp hcompile
  unfold performPiece at hperform
  rw [hparse] at hperform
  have hsaved : s.compile path = (saved, reply) := Option.some.inj hperform
  -- COMPILE changes nothing but the files, so there is no log that the answer could change.
  have hsame := s.compile_eq path
  rw [hsaved] at hsame
  dsimp only at hsame hanswer ⊢
  have hnone : saved.log = none := by
    rw [hsame]
    exact hlog
  rw [answer_of_no_log hnone] at hanswer ⊢
  have hreply : reply = .ok (some "Compile successful") :=
    reply_of_tell_output (hanswer.trans (by rw [hsame]))
  refine ⟨?_, fun u run line next hsettings hfiles hulog hnext =>
    ⟨fun hsome => ?_, fun hformat => ?_⟩⟩
  · rw [tell_eq, hsame]
  · obtain ⟨format, hformat⟩ := Option.isSome_iff_exists.mp hsome
    rw [hreply] at hsaved
    rw [tell_eq] at hfiles
    have hload := load_compiled_machine hs hformat (fun h => hfits (h ▸ hformat)) hsaved hsettings
      hfiles run
    rw [runPiece_eq]
    unfold performPiece
    rw [hnext]
    dsimp only [perform]
    rw [hload]
    dsimp only [Option.map_some]
    rw [answer_of_no_log (s := { u with machine := s.machine }) hulog]
    rfl
  · intro v reply hload
    unfold performPiece at hload
    rw [hnext] at hload
    exact load_script_reply (hsettings ▸ hformat) hload

/-- What is asked of a session before it saves its machine. -/
def drafting : List Call :=
  [.run .script (Text.Utf8.encode "FINAL-STATES b;\n".toList)]

/-- A machine is saved in binary, whatever the case of the extension, and taken by a fresh
session. -/
theorem load_compiled_draft :
    ∃ s t : Session, s.Occurs ∧ s.machine.finals.map toString = ["B"] ∧
      s.runPiece (runner 1) 1 "COMPILE draft.FS" = some t ∧
      let u := start s.settings s.stamp t.files
      u.runPiece (runner 1) 1 "LOAD draft.FS" =
        some ({ u with machine := s.machine }.say (.response "FSM loaded from draft.FS")) := by
  obtain ⟨s, hs, hlog, hfinals, hsome, hanswer, hfits⟩ : ∃ s : Session, s.Occurs ∧
      s.log = none ∧ s.machine.finals.map toString = ["B"] ∧
      (Format.ofPath? "draft.FS" s.settings.compiledExtension).isSome ∧
      (s.runPiece (runner 1) 1 "COMPILE draft.FS").map Session.output =
        some (s.output ++ [.response "Compile successful"]) ∧
      Snapshot.Binary.Fits (Snapshot.capture s.stamp s.machine) := by
    let m := Moment.start (start .default ⟨.zero, .epoch⟩ (.empty ["home"])) drafting
    refine ⟨(m.advance 8).session,
      ⟨_, _, _, _, _, (FileTree.sound_empty _).backed, Moment.leads_advance 8 _, rfl⟩, ?_, ?_, ?_, ?_, ?_⟩
    · decide +kernel
    · decide +kernel
    · decide +kernel
    · decide +kernel
    · constructor
      · decide +kernel
      · decide +kernel
      · decide +kernel
      · decide +kernel
      · unfold Snapshot.Binary.NameFits
        decide +kernel
  obtain ⟨t, ht, houtput⟩ := Option.map_eq_some_iff.mp hanswer
  have hcompile : Command.parse "COMPILE draft.FS" = .ok (.compile "draft.FS") := rfl
  have hload : Command.parse "LOAD draft.FS" = .ok (.load "draft.FS") := rfl
  obtain ⟨-, hlater⟩ := load_compiled hs hlog hcompile ht houtput (fun _ => hfits)
  obtain ⟨htaken, -⟩ := hlater (.start s.settings s.stamp t.files) (runner 1) 1 _ rfl rfl rfl hload
  exact ⟨s, t, hs, hfinals, ht, htaken hsome⟩

/-- A session with a script that saves the machine under its own name and loads it from there. -/
def renewing : Session :=
  start { Settings.default with echoScript := false } ⟨.zero, .epoch⟩
    ((FileTree.empty ["home"]).addFile ["home", "s"]
      (Text.Utf8.encode "COMPILE s;\nLOAD s;\n".toList))

/-- Under a name that asks for no encoding COMPILE succeeds, and LOAD as the next statement does not
take the machine: it would run a script, which is being run here. -/
theorem load_refused_behind_compile :
    ∃ s t u : Session, s.Occurs ∧ s.log = none ∧
      s.runPiece (runner 1) 1 "COMPILE s" = some t ∧
      t.output = s.output ++ [.response "Compile successful"] ∧
      t.runPiece (runner 1) 2 "LOAD s" = some u ∧
      u.output = t.output ++ [.failed 2 (.recursiveLoad "s")] := by
  obtain ⟨s, hs, hlog, hcompile, hload⟩ : ∃ s : Session, s.Occurs ∧ s.log = none ∧
      (s.runPiece (runner 1) 1 "COMPILE s").map Session.output =
        some (s.output ++ [.response "Compile successful"]) ∧
      ((s.runPiece (runner 1) 1 "COMPILE s").bind (·.runPiece (runner 1) 2 "LOAD s")).map output =
        some (s.output ++ [.response "Compile successful"] ++
          [.failed 2 (.recursiveLoad "s")]) := by
    let m := Moment.start renewing [.run .script (Text.Utf8.encode "LOAD s;\n".toList)]
    have hfiles : renewing.files.Backed :=
      ((FileTree.sound_empty _).addFile (by decide) _).backed
    refine ⟨(m.advance 5).session, ⟨_, _, _, _, _, hfiles, Moment.leads_advance 5 _, rfl⟩,
      ?_, ?_, ?_⟩
    · decide +kernel
    · decide +kernel
    · decide +kernel
  obtain ⟨t, ht, houtput⟩ := Option.map_eq_some_iff.mp hcompile
  rw [ht] at hload
  obtain ⟨u, hu, hrefused⟩ := Option.map_eq_some_iff.mp hload
  exact ⟨s, t, u, hs, hlog, ht, houtput, hu, hrefused.trans (by rw [houtput])⟩

end Session

end Statewright

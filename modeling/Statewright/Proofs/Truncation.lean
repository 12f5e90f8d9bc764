import Statewright.Proofs.Compiled
import Statewright.Proofs.JsonExtent

/-!
# Snapshots that were cut off

The beginning of a written snapshot is no snapshot, whichever byte it is cut off at. Binary
snapshots end where their last field does, and bytes behind them are ignored; behind a JSON text
only space is.
-/

open Statewright.Fallible

namespace Statewright

/-! ## JSON -/

namespace Snapshot.Json

open Statewright.Json (Decoder Printer Closed Steady)
open Statewright.Json.Decoder

theorem state_closed : Closed StateName.decoder :=
  refine_closed (textAs_closed _ _) _

theorem symbol_closed : Closed Symbol.decoder :=
  refine_closed (textAs_closed _ _) _

theorem transition_closed : Closed Transition.decoder := by
  apply record_closed
  intro f hf draft
  simp only [Transition.shape, List.mem_cons, List.not_mem_nil, or_false] at hf
  rcases hf with rfl | rfl | rfl
  · exact field_steady symbol_closed.steady draft
  · exact field_steady state_closed.steady draft
  · exact field_steady state_closed.steady draft

theorem snapshot_closed : Closed (record shape) := by
  have hstates : Closed (list StateName.decoder) := list_closed state_closed.steady
  have hstate : Closed (nullable StateName.decoder) :=
    nullable_closed state_closed (fun _ _ h => by cases h)
  apply record_closed
  intro f hf draft
  simp only [shape, List.mem_cons, List.not_mem_nil, or_false] at hf
  rcases hf with rfl | rfl | rfl | rfl | rfl | rfl | rfl | rfl | rfl
  · exact field_steady natural32_steady draft
  · exact field_steady (textAs_closed _ _).steady draft
  · exact field_steady (textAs_closed _ _).steady draft
  · exact field_steady (list_closed symbol_closed.steady).steady draft
  · exact field_steady hstates.steady draft
  · exact field_steady hstates.steady draft
  · exact field_steady hstate.steady draft
  · exact field_steady hstate.steady draft
  · exact field_steady (list_closed transition_closed.steady).steady draft

theorem getLast?_block (opening closing : Char) (entries : List Printer) (depth : Nat) :
    (Printer.block opening closing entries depth).getLast? = some closing := by
  unfold Printer.block
  split
  · rfl
  · exact List.getLast?_concat

theorem getLast?_encode (c : Snapshot) : (encode c).toList.getLast? = some '\x7d' := by
  rw [encode, Printer.print, String.toList_ofList]
  unfold printer Printer.object
  exact getLast?_block _ _ _ _

/-- What is printed is refused as soon as anything is taken off its end. -/
theorem decode_of_encode_eq_append {c : Snapshot} {cut rest : String}
    (h : encode c = cut ++ rest) (hrest : rest ≠ "") : ∃ e, decode cut = .error e := by
  cases hdecode : decode cut with
  | error e => exact ⟨e, rfl⟩
  | ok d =>
    have hwhole := decode_encode c
    rw [h] at hwhole
    obtain ⟨-, hspace⟩ := (decode_append_eq_ok_iff snapshot_closed hdecode).mp hwhole
    -- The last character of a snapshot is no space.
    have hlast := getLast?_encode c
    rw [h, String.toList_append, List.getLast?_append_of_ne_nil _ (mt String.toList_eq_nil_iff.mp hrest)]
      at hlast
    have hclosing := List.dropWhile_eq_nil_iff.mp hspace _ (List.mem_of_getLast? hlast)
    cases hclosing

end Snapshot.Json

/-! ## Binary -/

namespace Snapshot.Binary

theorem Fits.decode_of_encode_eq_append {c : Snapshot} (hc : Fits c) {cut rest : List UInt8}
    (h : encode c = cut ++ rest) (hrest : rest ≠ []) : ∃ f, decode cut = .error f := by
  cases hdecode : decode cut with
  | error f => exact ⟨f, rfl⟩
  | ok d =>
    -- What was read begins the layout of the snapshot, which ends where the layout of it does.
    obtain ⟨r, behind, hr, rfl, -⟩ := decode_eq_ok_iff.mp hdecode
    rw [encode_eq_putSpelling, List.append_assoc, ← List.append_nil (putSpelling _)] at h
    obtain ⟨-, hnil⟩ := spelling_endsItself _ _ _ _ hc.spelling hr h
    exact absurd (List.append_eq_nil_iff.mp hnil.symm).2 hrest

end Snapshot.Binary

/-! ## Either encoding -/

namespace Snapshot

variable {c : Snapshot} {format : Format}

theorem decode_of_encode_eq_append (hfits : format = .binary → Binary.Fits c)
    {cut rest : List UInt8} (h : c.encode format = cut ++ rest) (hrest : rest ≠ []) :
    ∃ f, decode cut format = .error f := by
  cases format with
  | binary =>
    obtain ⟨f, hf⟩ := (hfits rfl).decode_of_encode_eq_append h hrest
    exact ⟨.binary f, mapError_eq_error_iff.mpr ⟨f, hf, rfl⟩⟩
  | json =>
    unfold decode
    dsimp only
    cases hutf8 : Text.Utf8.decode cut with
    | error f => exact ⟨.encoding f, rfl⟩
    | ok cs =>
      -- The cut is between two characters.
      rw [Text.Utf8.decode_eq_ok_iff.mp hutf8] at h
      obtain ⟨ds, hds, rfl⟩ := Text.Utf8.append_of_encode_append h.symm
      have hmore : String.ofList ds ≠ "" := by
        intro hempty
        rw [String.ofList_eq_empty_iff.mp hempty] at hrest
        exact hrest rfl
      have htext : Json.encode c = String.ofList cs ++ String.ofList ds := by
        rw [← String.ofList_append, ← hds, String.ofList_toList]
      obtain ⟨e, he⟩ := Json.decode_of_encode_eq_append htext hmore
      exact ⟨.json e, bind_eq_error_iff.mpr (.inr ⟨cs, rfl, mapError_eq_error_iff.mpr ⟨e, he, rfl⟩⟩)⟩

/-- A written snapshot that was cut off, at whichever byte, is refused, and so is a file that holds
it. Bytes behind a binary snapshot change nothing. No snapshot begins what is written of another
one. -/
theorem encode_cut (hfits : format = .binary → Binary.Fits c) :
    (∀ cut rest, c.encode format = cut ++ rest → rest ≠ [] →
      (∃ f, decode cut format = .error f) ∧
      ∀ (t : FileTree) (path : String), t.readFile path = .ok cut →
        ∃ f, loadMachine t path format = .error (.undecodableFile path f)) ∧
    (∀ cut rest, Json.encode c = cut ++ rest → rest ≠ "" → ∃ e, Json.decode cut = .error e) ∧
    (format = .binary → ∀ more,
      Binary.decode (Binary.encode c ++ more) = Binary.decode (Binary.encode c)) ∧
    ∀ d : Snapshot, (format = .binary → Binary.Fits d) →
      c.encode format <+: d.encode format → c = d := by
  refine ⟨fun cut rest h hrest => ?_, fun cut rest h hrest => ?_, fun hbinary more => ?_,
    fun d hd hprefix => ?_⟩
  · obtain ⟨f, hf⟩ := decode_of_encode_eq_append hfits h hrest
    exact ⟨⟨f, hf⟩, fun t path hread => ⟨f, loadMachine_of_fault hread hf⟩⟩
  · exact Json.decode_of_encode_eq_append h hrest
  · rw [(hfits hbinary).decode_encode_append, (hfits hbinary).decode_encode]
  · obtain ⟨rest, hrest⟩ := hprefix
    have hc := decode_encode_format hfits
    cases rest with
    | nil =>
      have hd' := decode_encode_format hd
      rw [← hrest, List.append_nil, hc] at hd'
      exact Except.ok.inj hd'
    | cons b rest =>
      obtain ⟨f, hf⟩ := decode_of_encode_eq_append hd hrest.symm (List.cons_ne_nil _ _)
      rw [hc] at hf
      cases hf

/-- A file whose last byte is missing is refused, in binary, while one with a byte more is read. -/
theorem encode_cut_moved :
    let bytes := movedSnapshot.encode .binary
    Binary.Fits movedSnapshot ∧ bytes.dropLast ++ [0x42] = bytes ∧
    (∃ f, decode bytes.dropLast .binary = .error f) ∧
    Binary.decode (bytes ++ [0]) = Binary.decode bytes := by
  have hlast : (movedSnapshot.encode .binary).dropLast ++ [0x42] = movedSnapshot.encode .binary := by
    decide +kernel
  have hfits : Format.binary = .binary → Binary.Fits movedSnapshot := fun _ => fits_moved
  obtain ⟨hcut, -, hmore, -⟩ := encode_cut hfits
  exact ⟨fits_moved, hlast, (hcut _ _ hlast.symm (List.cons_ne_nil _ _)).1, hmore rfl [0]⟩

end Snapshot

end Statewright

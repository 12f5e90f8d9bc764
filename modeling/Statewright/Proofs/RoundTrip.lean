import Statewright.Proofs.BinaryLayout
import Statewright.Proofs.Rebuild
import Statewright.Proofs.SpelledJson

/-!
# Snapshots: reading what was written

A snapshot is read back from either of its written forms, whether or not its data is a machine. A
machine that operations lead to is restored from either form of its snapshot.
-/

namespace Statewright

namespace Snapshot

variable {m : Machine}

/-- Any snapshot is read back from both of its written forms, whatever its data. Machines that
operations lead to are restored from both forms, in all their fields. -/
theorem decode_encode_restore (c : Snapshot) (hm : m.Reachable) (stamp : Stamp) :
    (Binary.Fits c → Binary.decode (Binary.encode c) = .ok c) ∧
    Json.decode (Json.encode c) = .ok c ∧
    (Binary.Fits (capture stamp m) →
      ∃ d, Binary.decode (Binary.encode (capture stamp m)) = .ok d ∧ d.restore = .ok m) ∧
    ∃ d, Json.decode (Json.encode (capture stamp m)) = .ok d ∧ d.restore = .ok m := by
  have hrestore : (capture stamp m).restore = .ok m := restore_capture stamp hm.wellFormed
  refine ⟨fun h => h.decode_encode, Json.decode_encode c, fun h => ?_, ?_⟩
  · exact ⟨capture stamp m, h.decode_encode, hrestore⟩
  · exact ⟨capture stamp m, Json.decode_encode _, hrestore⟩

/-- Edits after which the machine is in another state than its initial one. -/
def moved : List Operation :=
  [.edit (.addSymbol "x"), .edit (.setInitial "a"), .edit (.addFinal "b"),
    .edit (.addTransition "x" "a" "b"), .edit (.setCurrent "b")]

/-- The snapshot of the machine after these edits. -/
def movedSnapshot : Snapshot :=
  capture ⟨.zero, .epoch⟩ (Machine.empty.operateAll moved)

theorem fits_moved : Binary.Fits movedSnapshot where
  symbols := by decide +kernel
  states := by decide +kernel
  finals := by decide +kernel
  transitions := by decide +kernel
  names := by
    unfold Binary.NameFits
    decide +kernel

/-- The premises hold of a machine that has left its initial state. -/
theorem restore_moved :
    (Machine.empty.operateAll moved).Reachable ∧
    (Machine.empty.operateAll moved).initial ≠ (Machine.empty.operateAll moved).current ∧
    Binary.Fits movedSnapshot ∧
    Binary.decode (Binary.encode movedSnapshot) = .ok movedSnapshot ∧
    (∃ d, Binary.decode (Binary.encode movedSnapshot) = .ok d ∧
      d.restore = .ok (Machine.empty.operateAll moved)) ∧
    ∃ d, Json.decode (Json.encode movedSnapshot) = .ok d ∧
      d.restore = .ok (Machine.empty.operateAll moved) := by
  have hm : (Machine.empty.operateAll moved).Reachable := ⟨moved, rfl⟩
  obtain ⟨hbinary, -, hrestore, hjson⟩ :=
    decode_encode_restore movedSnapshot hm ⟨.zero, .epoch⟩
  exact ⟨hm, by decide +kernel, fits_moved, hbinary fits_moved, hrestore fits_moved, hjson⟩

end Snapshot

end Statewright

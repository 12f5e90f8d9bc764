import Statewright.Proofs.Compiled

/-!
# What files hold

Loading a machine comes to a machine, or to one of the reports that name the file or the version.
Whether it does depends on the spelling that the file holds, and only up to the case of its names:
files that hold the same names in other letters are loaded as the same machine, or are refused in
the same way.
-/

open Statewright.Fallible

namespace Statewright

/-! ## Kinds of errors -/

/-- What an error says without its particulars. -/
inductive SnapshotError.Kind where
  | fileOperation
  | invalidFileFormat
  | unsupportedVersion
  | deserializationFailed
  | validationFailed
  deriving DecidableEq

def SnapshotError.kind : SnapshotError → Kind
  | file .. => .fileOperation
  | undecodableFile .. => .invalidFileFormat
  | inconsistentFile .. => .invalidFileFormat
  | unsupportedVersion .. => .unsupportedVersion
  | undecodable .. => .deserializationFailed
  | inconsistent .. => .validationFailed

/-- The kind of the error with which a file is refused whose snapshot is not restored. -/
def RestoreError.kind : RestoreError → SnapshotError.Kind
  | unsupportedVersion .. => .unsupportedVersion
  | inconsistent .. => .invalidFileFormat

namespace Snapshot

/-! ## What loading comes to -/

/-- What loading a machine from a file can come to. -/
inductive Loads (t : FileTree) (path : String) (format : Format) :
    Except SnapshotError Machine → Prop where
  | machine {bytes : List UInt8} {c : Snapshot} {m : Machine} (hread : t.readFile path = .ok bytes)
      (h : decode bytes format = .ok c) (hdescribes : c.Describes m) (hm : m.WellFormed) :
      Loads t path format (.ok m)
  | unreadable {e : FileError} (hread : t.readFile path = .error e) :
      Loads t path format (.error (.file path e))
  | undecodable {bytes : List UInt8} {f : DecodeFault} (hread : t.readFile path = .ok bytes)
      (h : decode bytes format = .error f) : Loads t path format (.error (.undecodableFile path f))
  | unsupported {bytes : List UInt8} {c : Snapshot} (hread : t.readFile path = .ok bytes)
      (h : decode bytes format = .ok c) (hversion : c.version ≠ 1) :
      Loads t path format (.error (.unsupportedVersion c.version))
  | inconsistent {bytes : List UInt8} {c : Snapshot} {reason : Inconsistency}
      (hread : t.readFile path = .ok bytes) (h : decode bytes format = .ok c)
      (hversion : c.version = 1) : Loads t path format (.error (.inconsistentFile path reason))

theorem restore_eq_error {c : Snapshot} {e : RestoreError} (h : c.restore = .error e) :
    (e = .unsupportedVersion c.version ∧ c.version ≠ 1) ∨
      ∃ reason, e = .inconsistent reason ∧ c.version = 1 := by
  unfold restore at h
  split at h
  · next hversion =>
    cases h
    exact .inl ⟨rfl, hversion⟩
  · next hversion =>
    refine .inr ?_
    split at h
    · next reason _ =>
      cases h
      exact ⟨reason, rfl, Classical.not_not.mp hversion⟩
    · split at h
      · cases h
      · next e _ =>
        cases h
        exact ⟨.edit e, rfl, Classical.not_not.mp hversion⟩

theorem loads_loadMachine (t : FileTree) (path : String) (format : Format) :
    Loads t path format (loadMachine t path format) := by
  cases hread : t.readFile path with
  | error e =>
    rw [loadMachine_of_unreadable hread]
    exact .unreadable hread
  | ok bytes =>
    cases hdecode : decode bytes format with
    | error f =>
      rw [loadMachine_of_fault hread hdecode]
      exact .undecodable hread hdecode
    | ok c =>
      rw [loadMachine_of_decode hread hdecode]
      cases hrestore : c.restore with
      | ok m =>
        have hdescribes := ((restore_iff c).2.1 m hrestore).1
        exact .machine hread hdecode hdescribes (Machine.WellFormed.restore hrestore)
      | error e =>
        rcases restore_eq_error hrestore with ⟨rfl, hversion⟩ | ⟨reason, rfl, hversion⟩
        · exact .unsupported hread hdecode hversion
        · exact .inconsistent hread hdecode hversion

/-! ## What a file holds -/

end Snapshot

/-- Whether the bytes of a file hold a spelling: in binary its layout with anything behind it, and
in JSON any text from which it is taken. -/
inductive Spelling.HeldBy (r : Spelling) : List UInt8 → Format → Prop where
  | binary (hfits : Snapshot.Binary.SpellingFits r) (rest : List UInt8) :
      r.HeldBy (Snapshot.Binary.putSpelling r ++ rest) .binary
  | json {source : String} (hsource : ofJson source = .ok r) :
      r.HeldBy (Text.Utf8.encode source.toList) .json

/-- The bytes in which a spelling is written. -/
def Spelling.contents (r : Spelling) : Format → List UInt8
  | .binary => Snapshot.Binary.putSpelling r
  | .json => Text.Utf8.encode r.toJson.toList

namespace Spelling

variable {r : Spelling} {bytes : List UInt8} {format : Format}

theorem heldBy_contents (hfits : format = .binary → Snapshot.Binary.SpellingFits r) :
    r.HeldBy (r.contents format) format := by
  cases format with
  | binary =>
    have h := HeldBy.binary (hfits rfl) []
    rwa [List.append_nil] at h
  | json => exact .json r.ofJson_toJson

theorem contents_spelling (c : Snapshot) (format : Format) :
    c.spelling.contents format = c.encode format := by
  cases format with
  | binary => exact (Snapshot.Binary.encode_eq_putSpelling c).symm
  | json =>
    show Text.Utf8.encode _ = Text.Utf8.encode _
    rw [toJson_spelling]

-- A written snapshot holds its own spelling.
theorem heldBy_encode {c : Snapshot} (hfits : format = .binary → Snapshot.Binary.Fits c) :
    c.spelling.HeldBy (c.encode format) format := by
  rw [← contents_spelling]
  exact heldBy_contents fun h => (hfits h).spelling

/-- A file is read as the snapshot that is spelled in it. -/
theorem HeldBy.decode_eq_ok_iff (h : r.HeldBy bytes format) {c : Snapshot} :
    Snapshot.decode bytes format = .ok c ↔ r.read? = some c := by
  cases h with
  | binary hr rest =>
    unfold Snapshot.decode
    dsimp only
    rw [mapError_eq_ok_iff, Snapshot.Binary.decode_eq_ok_iff]
    constructor
    · rintro ⟨r', rest', hr', heq, hread⟩
      obtain ⟨hsame, -⟩ := Snapshot.Binary.spelling_endsItself _ _ _ _ hr hr' heq
      rw [hsame]
      exact hread
    · exact fun hread => ⟨r, rest, hr, rfl, hread⟩
  | json hsource =>
    unfold Snapshot.decode
    dsimp only
    rw [Text.Utf8.decode_encode, mapError_eq_ok_iff.mpr rfl, ok_bind, String.ofList_toList,
      mapError_eq_ok_iff, Spelling.decode_eq_ok_iff, hsource]
    constructor
    · rintro ⟨r', hr', hread⟩
      cases hr'
      exact hread
    · exact fun hread => ⟨r, rfl, hread⟩

end Spelling

namespace Snapshot

/-- Which machine is loaded, or which kind of error there is, is decided by the spelling that the
file holds. -/
theorem loadMachine_heldBy {t : FileTree} {path : String} {format : Format} {bytes : List UInt8}
    {r : Spelling} (hread : t.readFile path = .ok bytes) (h : r.HeldBy bytes format) :
    (loadMachine t path format).mapError SnapshotError.kind =
      match r.read? with
      | none => .error .invalidFileFormat
      | some c => c.restore.mapError RestoreError.kind := by
  cases hspelled : r.read? with
  | none =>
    cases hdecode : decode bytes format with
    | error f =>
      rw [loadMachine_of_fault hread hdecode]
      rfl
    | ok c =>
      rw [h.decode_eq_ok_iff.mp hdecode] at hspelled
      cases hspelled
  | some c =>
    rw [loadMachine_of_decode hread (h.decode_eq_ok_iff.mpr hspelled)]
    dsimp only
    cases c.restore with
    | ok m => rfl
    | error e => cases e <;> rfl

/-- A state that is listed twice is a fault of the file, also in other letters. -/
theorem loadMachine_repeated {t : FileTree} {path : String} {format : Format} {bytes : List UInt8}
    {r : Spelling} (hread : t.readFile path = .ok bytes) (h : r.HeldBy bytes format)
    (hversion : r.version = 1) (hstates : ¬ (r.states.map Text.upper).Nodup) :
    (loadMachine t path format).mapError SnapshotError.kind = .error .invalidFileFormat := by
  rw [loadMachine_heldBy hread h]
  cases hspelled : r.read? with
  | none => rfl
  | some c =>
    have hrepeated := Spelling.not_nodup_of_read? hspelled hstates
    cases hrestore : c.restore with
    | ok m => exact absurd ((restore_iff c).1.mp ⟨m, hrestore⟩ .statesOnce) hrepeated
    | error e =>
      rcases restore_eq_error hrestore with ⟨-, hother⟩ | ⟨reason, rfl, -⟩
      · exact absurd ((Spelling.read?_eq_some_iff.mp hspelled).1.trans hversion) hother
      · dsimp only
        rw [hrestore]
        rfl

/-- Loading a machine from a file, whatever bytes it has, comes to a machine with its invariants or
to a report on reading the file, on the version or on the file's contents, and to no other error.
What is written of a snapshot holds its spelling. Files that hold the same spellings but for the case
of names and symbols, in either format and any layout, are loaded as the same machine or refused
with errors of the same kind. So a state that is listed in two cases is listed twice. -/
theorem loadMachine_contents (t : FileTree) (path : String) (format : Format) :
    Loads t path format (loadMachine t path format) ∧
    ((∃ e, loadMachine t path format = .error (.file path e)) ↔
      ∃ e, t.readFile path = .error e) ∧
    (∀ c : Snapshot, (format = .binary → Binary.Fits c) →
      c.spelling.HeldBy (c.encode format) format) ∧
    ∀ bytes r, t.readFile path = .ok bytes → Spelling.HeldBy r bytes format →
      (∀ (u : FileTree) (path' : String) (format' : Format) (bytes' : List UInt8) (r' : Spelling),
        u.readFile path' = .ok bytes' → r'.HeldBy bytes' format' → r'.upper = r.upper →
        (loadMachine u path' format').mapError SnapshotError.kind =
          (loadMachine t path format).mapError SnapshotError.kind) ∧
      (r.version = 1 → ¬ (r.states.map Text.upper).Nodup →
        ∃ e, loadMachine t path format = .error e ∧ e.kind = .invalidFileFormat) := by
  refine ⟨loads_loadMachine t path format, ⟨?_, ?_⟩, fun c hfits => Spelling.heldBy_encode hfits,
    fun bytes r hread hr => ⟨?_, ?_⟩⟩
  · rintro ⟨e, he⟩
    have hloads := loads_loadMachine t path format
    rw [he] at hloads
    cases hloads with
    | unreadable hread => exact ⟨e, hread⟩
  · rintro ⟨e, hread⟩
    exact ⟨e, loadMachine_of_unreadable hread⟩
  · intro u path' format' bytes' r' hread' hr' hupper
    rw [loadMachine_heldBy hread' hr', loadMachine_heldBy hread hr,
      Spelling.read?_of_upper_eq hupper]
  · exact fun hversion hstates =>
      mapError_eq_error_iff.mp (loadMachine_repeated hread hr hversion hstates)

/-- A small machine with its names in small letters. -/
def smallSpelling : Spelling where
  version := 1
  id := .zero
  createdAt := "1970-01-01T00:00:00Z"
  symbols := ['x']
  states := ["q0"]
  finals := ["q0"]
  initial := some "q0"
  current := none
  transitions := [⟨'x', "q0", "q0"⟩]

/-- The machine with its state once more, in a capital. -/
def doubledSpelling : Spelling :=
  { smallSpelling with states := ["q0", "Q0"] }

def threeFiles (small capital doubled : List UInt8) : FileTree :=
  (((FileTree.empty ["home"]).addFile ["home", "small.json"] small).addFile
    ["home", "capital.fs"] capital).addFile ["home", "doubled.json"] doubled

theorem readFile_threeFiles (small capital doubled : List UInt8) :
    (threeFiles small capital doubled).readFile "small.json" = .ok small ∧
    (threeFiles small capital doubled).readFile "capital.fs" = .ok capital ∧
    (threeFiles small capital doubled).readFile "doubled.json" = .ok doubled :=
  ⟨rfl, rfl, rfl⟩

/-- The three files: in JSON, in binary and in capitals, and in JSON with the state twice. -/
def spelledFiles : FileTree :=
  threeFiles (smallSpelling.contents .json) (smallSpelling.upper.contents .binary)
    (doubledSpelling.contents .json)

theorem fits_capital : Binary.SpellingFits smallSpelling.upper where
  createdAt := by
    unfold Binary.TextFits
    decide +kernel
  symbols := ⟨by decide +kernel, fun _ _ => trivial⟩
  states := by
    unfold Binary.ListFits Binary.TextFits
    decide +kernel
  finals := by
    unfold Binary.ListFits Binary.TextFits
    decide +kernel
  initial := by
    unfold Binary.TextFits
    decide +kernel
  current := by
    unfold Binary.TextFits
    decide +kernel
  transitions := by
    unfold Binary.ListFits Binary.TransitionFits Binary.TextFits
    decide +kernel

/-- The premises hold of the three files: two of them hold the same machine, and the third one holds
none. -/
theorem loadMachine_spelledFiles :
    (∃ m, loadMachine spelledFiles "small.json" .json = .ok m ∧
      loadMachine spelledFiles "capital.fs" .binary = .ok m) ∧
    ∃ e, loadMachine spelledFiles "doubled.json" .json = .error e ∧
      e.kind = .invalidFileFormat := by
  have hsmall : smallSpelling.HeldBy (smallSpelling.contents .json) .json :=
    Spelling.heldBy_contents (fun h => by cases h)
  have hcapital : smallSpelling.upper.HeldBy (smallSpelling.upper.contents .binary) .binary :=
    Spelling.heldBy_contents (fun _ => fits_capital)
  have hdoubled : doubledSpelling.HeldBy (doubledSpelling.contents .json) .json :=
    Spelling.heldBy_contents (fun h => by cases h)
  obtain ⟨hreadSmall, hreadCapital, hreadDoubled⟩ := readFile_threeFiles
    (smallSpelling.contents .json) (smallSpelling.upper.contents .binary)
    (doubledSpelling.contents .json)
  have hloads : (loadMachine spelledFiles "capital.fs" .binary).isOk = true := by decide +kernel
  obtain ⟨-, -, -, hheld⟩ := loadMachine_contents spelledFiles "small.json" .json
  obtain ⟨hsame, -⟩ := hheld _ _ hreadSmall hsmall
  have hkinds := hsame spelledFiles "capital.fs" .binary _ _ hreadCapital hcapital
    (by decide +kernel)
  obtain ⟨-, -, -, hheld'⟩ := loadMachine_contents spelledFiles "doubled.json" .json
  obtain ⟨-, hrepeated⟩ := hheld' _ _ hreadDoubled hdoubled
  refine ⟨?_, hrepeated rfl (by decide +kernel)⟩
  rcases mapError_eq_mapError hkinds with ⟨m, hm, hm'⟩ | ⟨e, -, he, -, -⟩
  · exact ⟨m, hm', hm⟩
  · rw [he] at hloads
    cases hloads

/-! ## Other versions -/

/-- A binary file of another version than the first is reported as one exactly if what is behind its
version is laid out as in the first version and is spelled as names and a time. Any other such file,
one that ends behind its version for example, is refused as undecodable, whatever its version. -/
theorem loadMachine_otherVersion {t : FileTree} {path : String} {version : UInt32}
    {payload : List UInt8} (hversion : version ≠ 1)
    (hread : t.readFile path = .ok (Binary.header version ++ payload)) :
    (loadMachine t path .binary = .error (.unsupportedVersion version) ↔
      ∃ (r : Spelling) (rest : List UInt8), r.version = version ∧ Binary.SpellingFits r ∧
        payload = Binary.putFields r ++ rest ∧ r.read?.isSome) ∧
    (loadMachine t path .binary ≠ .error (.unsupportedVersion version) →
      ∃ f, loadMachine t path .binary = .error (.undecodableFile path (.binary f))) := by
  cases hdecode : Binary.decode (Binary.header version ++ payload) with
  | error f =>
    have hload : loadMachine t path .binary = .error (.undecodableFile path (.binary f)) :=
      loadMachine_of_fault hread (mapError_eq_error_iff.mpr ⟨f, hdecode, rfl⟩)
    refine ⟨⟨fun h => ?_, ?_⟩, fun _ => ⟨f, hload⟩⟩
    · rw [hload] at h
      cases h
    · rintro ⟨r, rest, rfl, hr, rfl, hsome⟩
      obtain ⟨c, hc⟩ := Option.isSome_iff_exists.mp hsome
      have hread? := Binary.decode_eq_ok_iff.mpr ⟨r, rest, hr, rfl, hc⟩
      rw [Binary.putSpelling, List.append_assoc, hdecode] at hread?
      cases hread?
  | ok c =>
    obtain ⟨r, rest, hr, heq, hc⟩ := Binary.decode_eq_ok_iff.mp hdecode
    rw [Binary.putSpelling, List.append_assoc] at heq
    obtain ⟨hsame, hpayload⟩ := Binary.header_endsItself _ _ _ _ trivial trivial heq
    have hfound : c.version = version := (Spelling.read?_eq_some_iff.mp hc).1.trans hsame.symm
    have hrestore : c.restore = .error (.unsupportedVersion version) := by
      rw [restore, if_pos (by rw [hfound]; exact hversion), hfound]
    have hload : loadMachine t path .binary = .error (.unsupportedVersion version) := by
      have hwhole : decode (Binary.header version ++ payload) .binary = .ok c :=
        mapError_eq_ok_iff.mpr hdecode
      rw [loadMachine_of_decode hread hwhole, hrestore]
      rfl
    refine ⟨⟨fun _ => ⟨r, rest, hsame.symm, hr, hpayload, ?_⟩, fun _ => hload⟩,
      fun h => absurd hload h⟩
    rw [hc]
    rfl

/-- Files of the second version: one that ends behind the version, and one that goes on as in the
first version. -/
def versionedFiles : FileTree :=
  ((FileTree.empty ["home"]).addFile ["home", "bare.fs"] (Binary.header 2)).addFile
    ["home", "whole.fs"] (Binary.header 2 ++ Binary.putFields movedSnapshot.spelling)

/-- The premises hold of both files, and only one of them is reported as of another version. -/
theorem loadMachine_versionedFiles :
    loadMachine versionedFiles "whole.fs" .binary = .error (.unsupportedVersion 2) ∧
    ∃ f, loadMachine versionedFiles "bare.fs" .binary =
      .error (.undecodableFile "bare.fs" (.binary f)) := by
  have hbare : versionedFiles.readFile "bare.fs" = .ok (Binary.header 2 ++ []) := by
    decide +kernel
  have hwhole : versionedFiles.readFile "whole.fs" =
      .ok (Binary.header 2 ++ (Binary.putFields movedSnapshot.spelling ++ [])) := by
    decide +kernel
  have hfits := fits_moved.spelling
  constructor
  · refine (loadMachine_otherVersion (by decide) hwhole).1.mpr
      ⟨{ movedSnapshot.spelling with version := 2 }, [], rfl,
        ⟨hfits.createdAt, hfits.symbols, hfits.states, hfits.finals, hfits.initial, hfits.current,
          hfits.transitions⟩, rfl, by decide +kernel⟩
  · have hother := loadMachine_otherVersion (by decide) hbare
    refine hother.2 fun h => ?_
    obtain ⟨r, rest, -, -, hnil, -⟩ := hother.1.mp h
    cases hnil

end Snapshot

end Statewright

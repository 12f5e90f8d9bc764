import Statewright.Proofs.Binary
import Statewright.Proofs.Spelling

/-!
# The layout of binary snapshots

Which bytes are a snapshot: those in which a spelling of it is laid out, with any bytes behind them.
A layout tells where it ends, so no two spellings begin the same bytes, and what is behind them does
not matter.
-/

open Statewright.Fallible

namespace Statewright.Snapshot.Binary

variable {α β γ : Type}

/-! ## Readers and layouts -/

/-- Whether a reader takes exactly the bytes in which fitting values are laid out that mean what it
gives, and leaves what is behind them. -/
def Takes (get : Read α) (put : β → List UInt8) (fits : β → Prop) (read : β → Option α) : Prop :=
  ∀ bytes a rest, get bytes = .ok (a, rest) ↔
    ∃ b, fits b ∧ bytes = put b ++ rest ∧ read b = some a

/-- Whether a layout tells where it ends. -/
def EndsItself (put : β → List UInt8) (fits : β → Prop) : Prop :=
  ∀ b b' rest rest', fits b → fits b' → put b ++ rest = put b' ++ rest' → b = b' ∧ rest = rest'

-- A reader that takes values as they are finds out where they end.
theorem Takes.endsItself {get : Read β} {put : β → List UInt8} {fits : β → Prop}
    (h : Takes get put fits some) : EndsItself put fits := by
  intro b b' rest rest' hb hb' heq
  have hread := (h (put b ++ rest) b rest).mpr ⟨b, hb, rfl, rfl⟩
  rw [heq, (h _ b' rest').mpr ⟨b', hb', rfl, rfl⟩] at hread
  cases hread
  exact ⟨rfl, rfl⟩

/-! ## Numbers and texts -/

theorem littleEndian_ofLittleEndian (bytes : List UInt8) :
    littleEndian bytes.length (ofLittleEndian bytes) = bytes := by
  induction bytes with
  | nil => rfl
  | cons b bytes ih =>
    have hb := b.toNat_lt
    rw [ofLittleEndian, List.length_cons, littleEndian, Nat.add_mul_mod_self_left,
      Nat.mod_eq_of_lt hb, Nat.add_mul_div_left _ _ (by decide), Nat.div_eq_of_lt hb, Nat.zero_add,
      ih, UInt8.ofNat_toNat]

theorem ofLittleEndian_lt (bytes : List UInt8) : ofLittleEndian bytes < 256 ^ bytes.length := by
  induction bytes with
  | nil => exact Nat.one_pos
  | cons b bytes ih =>
    have hb := b.toNat_lt
    rw [ofLittleEndian, List.length_cons, Nat.pow_succ]
    omega

theorem takes_number (width : Nat) :
    Takes (getNumber width) (littleEndian width) (· < 256 ^ width) some := by
  intro bytes n rest
  constructor
  · intro h
    unfold getNumber at h
    split at h
    · cases h
    · next hlong =>
      have hlength : (bytes.take width).length = width := by
        rw [List.length_take]
        omega
      obtain ⟨rfl, rfl⟩ := Prod.mk.inj (Except.ok.inj h)
      have hback := littleEndian_ofLittleEndian (bytes.take width)
      have hlt := ofLittleEndian_lt (bytes.take width)
      rw [hlength] at hback hlt
      refine ⟨_, hlt, ?_, rfl⟩
      rw [hback, List.take_append_drop]
  · rintro ⟨b, hb, rfl, hread⟩
    cases hread
    exact getNumber_littleEndian hb rest

theorem takes_bytes : Takes getBytes putBytes (·.length < UInt64.size) some := by
  intro bytes taken rest
  constructor
  · intro h
    obtain ⟨n, after, hn, htake⟩ := read_bind_eq_ok_iff.mp h
    obtain ⟨m, hm, rfl, hread⟩ := (takes_number 8 _ _ _).mp hn
    cases hread
    split at htake
    · cases htake
    · next hlong =>
      have hlength : (after.take n).length = n := by
        rw [List.length_take]
        omega
      obtain ⟨rfl, rfl⟩ := Prod.mk.inj (Except.ok.inj htake)
      refine ⟨_, lt_of_eq_of_lt hlength hm, ?_, rfl⟩
      rw [putBytes, hlength, List.append_assoc, List.take_append_drop]
  · rintro ⟨b, hb, rfl, hread⟩
    cases hread
    exact getBytes_putBytes hb rest

/-- Whether the length of a text fits the eight bytes in which it is written. -/
def TextFits (s : String) : Prop :=
  (Text.Utf8.encode s.toList).length < UInt64.size

theorem takes_text : Takes getText putText TextFits some := by
  intro bytes s rest
  constructor
  · intro h
    obtain ⟨body, after, hbody, htext⟩ := read_bind_eq_ok_iff.mp h
    obtain ⟨b, hfits, rfl, hread⟩ := (takes_bytes _ _ _).mp hbody
    cases hread
    cases hcs : Text.Utf8.decode body with
    | ok cs =>
      rw [hcs] at htext
      have hbytes := Text.Utf8.decode_eq_ok_iff.mp hcs
      obtain ⟨rfl, rfl⟩ := Prod.mk.inj (Except.ok.inj htext)
      have hlist : Text.Utf8.encode (String.ofList cs).toList = body := by
        rw [String.toList_ofList, hbytes]
      refine ⟨String.ofList cs, ?_, ?_, rfl⟩
      · rw [TextFits, hlist]
        exact hfits
      · rw [putText, hlist]
    | error f =>
      rw [hcs] at htext
      cases htext
  · rintro ⟨b, hb, rfl, hread⟩
    cases hread
    exact getText_putText hb rest

theorem takes_char : Takes getChar String.utf8EncodeChar (fun _ => True) some := by
  intro bytes c rest
  constructor
  · intro h
    unfold getChar at h
    split at h
    · cases h
    · split at h
      · next hfront =>
        obtain ⟨rfl, rfl⟩ := Prod.mk.inj (Except.ok.inj h)
        exact ⟨_, trivial, Text.Utf8.eq_encodeChar_of_front hfront, rfl⟩
      · cases h
  · rintro ⟨d, -, rfl, hread⟩
    cases hread
    exact getChar_utf8EncodeChar c rest

/-! ## Names, options and lists -/

section

variable {get : Read α} {put : β → List UInt8} {fits : β → Prop} {read : β → Option α}

theorem Takes.accept {ε : Type} {get : Read β} (h : Takes get put fits some)
    {reason : ε → String} {parse : β → Except ε α} {read : β → Option α}
    (hread : ∀ b, read b = (parse b).toOption) :
    Takes (do accept reason (parse (← get))) put fits read := by
  intro bytes a rest
  rw [read_bind_eq_ok_iff]
  constructor
  · rintro ⟨b, after, hget, haccept⟩
    obtain ⟨b', hb, rfl, hsome⟩ := (h _ _ _).mp hget
    cases hsome
    cases hparse : parse b with
    | error e =>
      rw [hparse] at haccept
      cases haccept
    | ok a' =>
      rw [hparse] at haccept
      cases haccept
      exact ⟨b, hb, rfl, by rw [hread, hparse]; rfl⟩
  · rintro ⟨b, hb, rfl, hsome⟩
    refine ⟨b, rest, (h _ _ _).mpr ⟨b, hb, rfl, rfl⟩, ?_⟩
    rw [hread] at hsome
    cases hparse : parse b with
    | error e =>
      rw [hparse] at hsome
      cases hsome
    | ok a' =>
      rw [hparse] at hsome
      cases hsome
      rfl

theorem takes_symbol :
    Takes getSymbol String.utf8EncodeChar (fun _ => True) Symbol.read? :=
  takes_char.accept fun _ => rfl

theorem takes_state : Takes getState putText TextFits StateName.read? :=
  takes_text.accept fun _ => rfl

theorem Takes.option (h : Takes get put fits read) :
    Takes (getOption get) (putOption put) (fun o => ∀ b ∈ o, fits b) (Option.mapM read) := by
  intro bytes o rest
  constructor
  · intro hget
    unfold getOption at hget
    split at hget
    · cases hget
    · cases hget
      exact ⟨none, fun _ hb => (nomatch hb), rfl, rfl⟩
    · next tail =>
      rw [StateT.run, ← bind_pure_comp] at hget
      obtain ⟨a, after, ha, hget⟩ := read_bind_eq_ok_iff.mp hget
      cases hget
      obtain ⟨b, hb, rfl, hread⟩ := (h _ _ _).mp ha
      refine ⟨some b, fun b' hb' => Option.mem_some.mp hb' ▸ hb, rfl, ?_⟩
      rw [Option.mapM_some, hread]
      rfl
    · cases hget
  · rintro ⟨o', hfits, rfl, hread⟩
    cases o' with
    | none =>
      cases hread
      rfl
    | some b =>
      rw [Option.mapM_some] at hread
      obtain ⟨a, ha, rfl⟩ := Option.map_eq_some_iff.mp hread
      show ((some <$> get) : Read (Option α)) (put b ++ rest) = _
      rw [← bind_pure_comp]
      rw [read_bind ((h _ a _).mpr ⟨b, hfits b rfl, rfl, ha⟩)]
      rfl

theorem Takes.entries (h : Takes get put fits read) (n : Nat) :
    Takes (getEntries get n) (List.flatMap put) (fun l => l.length = n ∧ ∀ b ∈ l, fits b)
      (List.mapM read) := by
  induction n with
  | zero =>
    intro bytes as rest
    constructor
    · intro hget
      cases hget
      exact ⟨[], ⟨rfl, fun _ hb => (nomatch hb)⟩, rfl, rfl⟩
    · rintro ⟨l, ⟨hlength, -⟩, rfl, hread⟩
      cases List.length_eq_zero_iff.mp hlength
      cases hread
      rfl
  | succ n ih =>
    intro bytes as rest
    constructor
    · intro hget
      obtain ⟨a, after, ha, hget⟩ := read_bind_eq_ok_iff.mp hget
      obtain ⟨more, after', hmore, hget⟩ := read_bind_eq_ok_iff.mp hget
      cases hget
      obtain ⟨b, hb, rfl, hread⟩ := (h _ _ _).mp ha
      obtain ⟨l, ⟨hlength, hl⟩, rfl, hreads⟩ := (ih _ _ _).mp hmore
      refine ⟨b :: l, ⟨congrArg (· + 1) hlength, List.forall_mem_cons.mpr ⟨hb, hl⟩⟩, ?_,
        Spelling.mapM_eq_some_iff.mpr ⟨a, more, hread, hreads, rfl⟩⟩
      rw [List.flatMap_cons, List.append_assoc]
    · rintro ⟨l, ⟨hlength, hl⟩, rfl, hread⟩
      cases l with
      | nil => cases hlength
      | cons b l =>
        obtain ⟨a, more, ha, hmore, rfl⟩ := Spelling.mapM_eq_some_iff.mp hread
        obtain ⟨hb, hl⟩ := List.forall_mem_cons.mp hl
        rw [List.flatMap_cons, List.append_assoc, getEntries,
          read_bind ((h _ _ _).mpr ⟨b, hb, rfl, ha⟩),
          read_bind ((ih _ _ _).mpr ⟨l, ⟨Nat.succ.inj hlength, hl⟩, rfl, hmore⟩)]
        rfl

/-- Whether the number of entries fits the eight bytes in which it is written, and so does each
entry. -/
def ListFits (fits : β → Prop) (l : List β) : Prop :=
  l.length < UInt64.size ∧ ∀ b ∈ l, fits b

theorem Takes.list (h : Takes get put fits read) :
    Takes (getList get) (putList put) (ListFits fits) (List.mapM read) := by
  intro bytes as rest
  constructor
  · intro hget
    obtain ⟨n, after, hn, hentries⟩ := read_bind_eq_ok_iff.mp hget
    obtain ⟨m, hm, hbytes, hread⟩ := (takes_number 8 _ _ _).mp hn
    cases hread
    obtain ⟨l, ⟨hlength, hl⟩, hafter, hreads⟩ := (h.entries n _ _ _).mp hentries
    refine ⟨l, ⟨lt_of_eq_of_lt hlength hm, hl⟩, ?_, hreads⟩
    rw [putList, hlength, List.append_assoc, ← hafter, hbytes]
  · rintro ⟨l, ⟨hlength, hl⟩, rfl, hread⟩
    rw [putList, List.append_assoc, getList, read_bind (getNumber_littleEndian hlength _)]
    exact (h.entries _ _ _ _).mpr ⟨l, ⟨rfl, hl⟩, rfl, hread⟩

end

/-! ## Where options and lists end -/

section

variable {put : β → List UInt8} {fits : β → Prop}

theorem EndsItself.option (h : EndsItself put fits) :
    EndsItself (putOption put) (fun o => ∀ b ∈ o, fits b) := by
  intro o o' rest rest' ho ho' heq
  cases o with
  | none =>
    cases o' with
    | none => exact ⟨rfl, (List.cons.inj heq).2⟩
    | some b => exact absurd (List.cons.inj heq).1 (by decide)
  | some b =>
    cases o' with
    | none => exact absurd (List.cons.inj heq).1 (by decide)
    | some b' =>
      obtain ⟨rfl, hrest⟩ := h b b' rest rest' (ho b rfl) (ho' b' rfl) (List.cons.inj heq).2
      exact ⟨rfl, hrest⟩

theorem EndsItself.entries (h : EndsItself put fits) {l l' : List β} {rest rest' : List UInt8}
    (hl : ∀ b ∈ l, fits b) (hl' : ∀ b ∈ l', fits b) (hlength : l.length = l'.length)
    (heq : l.flatMap put ++ rest = l'.flatMap put ++ rest') : l = l' ∧ rest = rest' := by
  induction l generalizing l' with
  | nil =>
    cases List.length_eq_zero_iff.mp hlength.symm
    exact ⟨rfl, heq⟩
  | cons b l ih =>
    cases l' with
    | nil => cases hlength
    | cons b' l' =>
      obtain ⟨hb, hmore⟩ := List.forall_mem_cons.mp hl
      obtain ⟨hb', hmore'⟩ := List.forall_mem_cons.mp hl'
      rw [List.flatMap_cons, List.flatMap_cons, List.append_assoc, List.append_assoc] at heq
      obtain ⟨hfirst, hafter⟩ := h b b' _ _ hb hb' heq
      obtain ⟨hlist, hrest⟩ := ih hmore hmore' (Nat.succ.inj (by simpa using hlength)) hafter
      exact ⟨by rw [hfirst, hlist], hrest⟩

theorem EndsItself.list (h : EndsItself put fits) : EndsItself (putList put) (ListFits fits) := by
  intro l l' rest rest' hl hl' heq
  rw [putList, putList, List.append_assoc, List.append_assoc] at heq
  obtain ⟨hlength, heq⟩ := (takes_number 8).endsItself _ _ _ _ hl.1 hl'.1 heq
  exact h.entries hl.2 hl'.2 hlength heq

end

/-! ## Transitions -/

def putSpelledTransition (t : SpelledTransition) : List UInt8 :=
  String.utf8EncodeChar t.symbol ++ putText t.source ++ putText t.target

def TransitionFits (t : SpelledTransition) : Prop :=
  TextFits t.source ∧ TextFits t.target

theorem takes_transition :
    Takes getTransition putSpelledTransition TransitionFits SpelledTransition.read? := by
  intro bytes t rest
  constructor
  · intro h
    obtain ⟨symbol, after, hsymbol, h⟩ := read_bind_eq_ok_iff.mp h
    obtain ⟨source, after', hsource, h⟩ := read_bind_eq_ok_iff.mp h
    obtain ⟨target, after'', htarget, h⟩ := read_bind_eq_ok_iff.mp h
    cases h
    obtain ⟨c, -, rfl, hc⟩ := (takes_symbol _ _ _).mp hsymbol
    obtain ⟨s, hs, rfl, hsread⟩ := (takes_state _ _ _).mp hsource
    obtain ⟨r, hr, rfl, hrread⟩ := (takes_state _ _ _).mp htarget
    refine ⟨⟨c, s, r⟩, ⟨hs, hr⟩, ?_, ?_⟩
    · rw [putSpelledTransition, List.append_assoc, List.append_assoc]
    · rw [SpelledTransition.read?, hc, hsread, hrread]
      rfl
  · rintro ⟨⟨c, s, r⟩, ⟨hs, hr⟩, rfl, hread⟩
    obtain ⟨symbol, hc, hread⟩ := Option.bind_eq_some_iff.mp hread
    obtain ⟨source, hsread, hread⟩ := Option.bind_eq_some_iff.mp hread
    obtain ⟨target, hrread, hread⟩ := Option.bind_eq_some_iff.mp hread
    cases hread
    rw [putSpelledTransition, List.append_assoc, List.append_assoc, getTransition,
      read_bind ((takes_symbol _ _ _).mpr ⟨c, trivial, rfl, hc⟩),
      read_bind ((takes_state _ _ _).mpr ⟨s, hs, rfl, hsread⟩),
      read_bind ((takes_state _ _ _).mpr ⟨r, hr, rfl, hrread⟩)]
    rfl

theorem transition_endsItself : EndsItself putSpelledTransition TransitionFits := by
  rintro ⟨c, s, r⟩ ⟨c', s', r'⟩ rest rest' ⟨hs, hr⟩ ⟨hs', hr'⟩ heq
  simp only [putSpelledTransition, List.append_assoc] at heq
  obtain ⟨rfl, hnames⟩ := takes_char.endsItself _ _ _ _ trivial trivial heq
  obtain ⟨hsource, htarget⟩ := takes_text.endsItself _ _ _ _ hs hs' hnames
  obtain ⟨htarget, hrest⟩ := takes_text.endsItself _ _ _ _ hr hr' htarget
  cases hsource
  cases htarget
  exact ⟨rfl, hrest⟩

/-! ## Snapshots -/

/-- What follows the version in the layout of a spelling. -/
def putFields (r : Spelling) : List UInt8 :=
  putBytes r.id.bytes ++ putText r.createdAt ++ putList String.utf8EncodeChar r.symbols ++
  putList putText r.states ++ putList putText r.finals ++ putOption putText r.initial ++
  putOption putText r.current ++ putList putSpelledTransition r.transitions

/-- What a file begins with that is laid out in some version. -/
def header (version : UInt32) : List UInt8 :=
  magic ++ littleEndian 4 version.toNat

/-- The layout of a spelling. -/
def putSpelling (r : Spelling) : List UInt8 :=
  header r.version ++ putFields r

/-- Whether the lengths of all lists and texts of a spelling fit the eight bytes that they are
written in. -/
structure SpellingFits (r : Spelling) : Prop where
  createdAt : TextFits r.createdAt
  symbols : ListFits (fun _ => True) r.symbols
  states : ListFits TextFits r.states
  finals : ListFits TextFits r.finals
  initial : ∀ s ∈ r.initial, TextFits s
  current : ∀ s ∈ r.current, TextFits s
  transitions : ListFits TransitionFits r.transitions

theorem id_fits (id : Uuid) : id.bytes.length < UInt64.size := by
  rw [id.size]
  decide

theorem putFields_append (r : Spelling) (rest : List UInt8) :
    putFields r ++ rest = putBytes r.id.bytes ++ (putText r.createdAt ++
      (putList String.utf8EncodeChar r.symbols ++ (putList putText r.states ++
      (putList putText r.finals ++ (putOption putText r.initial ++ (putOption putText r.current ++
      (putList putSpelledTransition r.transitions ++ rest))))))) := by
  simp only [putFields, List.append_assoc]

theorem version_fits (version : UInt32) : version.toNat < 256 ^ 4 :=
  version.toNat_lt

theorem header_append (version : UInt32) (rest : List UInt8) :
    header version ++ rest = magic ++ (littleEndian 4 version.toNat ++ rest) :=
  List.append_assoc _ _ _

theorem takes_id : Takes (do accept UuidError.message (Uuid.ofBytes (← getBytes)))
    (fun id : Uuid => putBytes id.bytes) (fun _ => True) some := by
  intro bytes id rest
  rw [takes_bytes.accept (fun _ => rfl) bytes id rest]
  dsimp only
  constructor
  · rintro ⟨taken, -, rfl, hread⟩
    by_cases hsize : taken.length = 16
    · have huuid : Uuid.ofBytes taken = .ok ⟨taken, hsize⟩ := dif_pos hsize
      rw [huuid] at hread
      cases hread
      exact ⟨⟨taken, hsize⟩, trivial, rfl, rfl⟩
    · have huuid : Uuid.ofBytes taken = .error (.byteCount taken.length) := dif_neg hsize
      rw [huuid] at hread
      cases hread
  · rintro ⟨id', -, rfl, hread⟩
    cases hread
    have huuid : Uuid.ofBytes id.bytes = .ok id := dif_pos id.size
    exact ⟨id.bytes, id_fits id, rfl, by rw [huuid]; rfl⟩

theorem takes_time : Takes (do accept InstantError.message (Instant.parse (← getText)))
    putText TextFits Instant.read? :=
  takes_text.accept fun _ => rfl

/-- What is behind the version, in the order in which it is laid out. -/
theorem takes_snapshot (bytes : List UInt8) (c : Snapshot) (rest : List UInt8) :
    getSnapshot bytes = .ok (c, rest) ↔ ∃ r : Spelling, SpellingFits r ∧
      bytes = littleEndian 4 r.version.toNat ++ (putFields r ++ rest) ∧ r.read? = some c := by
  constructor
  · intro h
    -- The identifier and the time are taken by two steps each: a reader and its acceptance.
    unfold getSnapshot at h
    obtain ⟨version, _, hversion, h⟩ := read_bind_eq_ok_iff.mp h
    obtain ⟨idBytes, _, hidBytes, h⟩ := read_bind_eq_ok_iff.mp h
    obtain ⟨id, _, hid, h⟩ := read_bind_eq_ok_iff.mp h
    obtain ⟨time, _, htime, h⟩ := read_bind_eq_ok_iff.mp h
    obtain ⟨createdAt, _, hcreatedAt, h⟩ := read_bind_eq_ok_iff.mp h
    obtain ⟨symbols, _, hsymbols, h⟩ := read_bind_eq_ok_iff.mp h
    obtain ⟨states, _, hstates, h⟩ := read_bind_eq_ok_iff.mp h
    obtain ⟨finals, _, hfinals, h⟩ := read_bind_eq_ok_iff.mp h
    obtain ⟨initial, _, hinitial, h⟩ := read_bind_eq_ok_iff.mp h
    obtain ⟨current, _, hcurrent, h⟩ := read_bind_eq_ok_iff.mp h
    obtain ⟨transitions, _, htransitions, h⟩ := read_bind_eq_ok_iff.mp h
    obtain ⟨rfl, rfl⟩ := Prod.mk.inj (Except.ok.inj h)
    obtain ⟨v, hv, rfl, hvread⟩ := (takes_number 4 _ _ _).mp hversion
    cases hvread
    obtain ⟨i, -, rfl, hiread⟩ :=
      (takes_id _ _ _).mp (read_bind_eq_ok_iff.mpr ⟨_, _, hidBytes, hid⟩)
    cases hiread
    obtain ⟨t, ht, rfl, htread⟩ :=
      (takes_time _ _ _).mp (read_bind_eq_ok_iff.mpr ⟨_, _, htime, hcreatedAt⟩)
    obtain ⟨l, hl, rfl, hlread⟩ := (takes_symbol.list _ _ _).mp hsymbols
    obtain ⟨q, hq, rfl, hqread⟩ := (takes_state.list _ _ _).mp hstates
    obtain ⟨f, hf, rfl, hfread⟩ := (takes_state.list _ _ _).mp hfinals
    obtain ⟨o, ho, rfl, horead⟩ := (takes_state.option _ _ _).mp hinitial
    obtain ⟨o', ho', rfl, horead'⟩ := (takes_state.option _ _ _).mp hcurrent
    obtain ⟨m, hm, rfl, hmread⟩ := (takes_transition.list _ _ _).mp htransitions
    refine ⟨⟨UInt32.ofNat version, id, t, l, q, f, o, o', m⟩, ⟨ht, hl, hq, hf, ho, ho', hm⟩, ?_,
      Spelling.read?_eq_some_iff.mpr
        ⟨rfl, rfl, htread, hlread, hqread, hfread, horead, horead', hmread⟩⟩
    rw [putFields_append, UInt32.toNat_ofNat_of_lt' hv]
  · rintro ⟨r, hr, rfl, hread⟩
    obtain ⟨hversion, hid, htread, hlread, hqread, hfread, horead, horead', hmread⟩ :=
      Spelling.read?_eq_some_iff.mp hread
    have huuid : Uuid.ofBytes r.id.bytes = .ok r.id := dif_pos r.id.size
    obtain ⟨time, _, htime, hcreatedAt⟩ := read_bind_eq_ok_iff.mp
      ((takes_time _ _ _).mpr ⟨_, hr.createdAt, rfl, htread⟩)
    rw [putFields_append, getSnapshot, read_bind (getNumber_littleEndian (version_fits _) _),
      read_bind (getBytes_putBytes (id_fits _) _), read_bind (accept_ok huuid _),
      read_bind htime, read_bind hcreatedAt,
      read_bind ((takes_symbol.list _ _ _).mpr ⟨_, hr.symbols, rfl, hlread⟩),
      read_bind ((takes_state.list _ _ _).mpr ⟨_, hr.states, rfl, hqread⟩),
      read_bind ((takes_state.list _ _ _).mpr ⟨_, hr.finals, rfl, hfread⟩),
      read_bind ((takes_state.option _ _ _).mpr ⟨_, hr.initial, rfl, horead⟩),
      read_bind ((takes_state.option _ _ _).mpr ⟨_, hr.current, rfl, horead'⟩),
      read_bind ((takes_transition.list _ _ _).mpr ⟨_, hr.transitions, rfl, hmread⟩),
      UInt32.ofNat_toNat, ← hversion, ← hid]
    rfl

/-- What is decoded are the layouts of spellings, with anything behind them. -/
theorem decode_eq_ok_iff {bytes : List UInt8} {c : Snapshot} : decode bytes = .ok c ↔
    ∃ r rest, SpellingFits r ∧ bytes = putSpelling r ++ rest ∧ r.read? = some c := by
  unfold decode
  split
  · next hmagic =>
    obtain ⟨body, rfl⟩ := List.isPrefixOf_iff_prefix.mp hmagic
    rw [List.drop_left, map_eq_ok_iff]
    constructor
    · rintro ⟨⟨c', rest⟩, hget, rfl⟩
      obtain ⟨r, hr, rfl, hread⟩ := (takes_snapshot _ _ _).mp hget
      refine ⟨r, rest, hr, ?_, hread⟩
      rw [putSpelling, List.append_assoc, header_append]
    · rintro ⟨r, rest, hr, hbytes, hread⟩
      rw [putSpelling, List.append_assoc, header_append] at hbytes
      rw [List.append_cancel_left hbytes]
      exact ⟨(c, rest), (takes_snapshot _ _ _).mpr ⟨r, hr, rfl, hread⟩, rfl⟩
  · next hmagic =>
    refine ⟨fun h => (nomatch h), ?_⟩
    rintro ⟨r, rest, -, rfl, -⟩
    refine absurd (List.isPrefixOf_iff_prefix.mpr ?_) hmagic
    rw [putSpelling, List.append_assoc, header_append]
    exact List.prefix_append _ _

theorem header_endsItself : EndsItself header (fun _ => True) := by
  intro version version' rest rest' _ _ heq
  rw [header_append, header_append] at heq
  obtain ⟨hversion, hrest⟩ := (takes_number 4).endsItself _ _ _ _ (version_fits _)
    (version_fits _) (List.append_cancel_left heq)
  exact ⟨UInt32.toNat_inj.mp hversion, hrest⟩

theorem spelling_endsItself : EndsItself putSpelling SpellingFits := by
  intro r r' rest rest' hr hr' heq
  rw [putSpelling, putSpelling, List.append_assoc, List.append_assoc] at heq
  obtain ⟨hversion, heq⟩ := header_endsItself _ _ _ _ trivial trivial heq
  rw [putFields_append, putFields_append] at heq
  obtain ⟨hid, heq⟩ := takes_id.endsItself _ _ _ _ trivial trivial heq
  obtain ⟨hcreatedAt, heq⟩ := takes_text.endsItself _ _ _ _ hr.createdAt hr'.createdAt heq
  obtain ⟨hsymbols, heq⟩ := takes_char.endsItself.list _ _ _ _ hr.symbols hr'.symbols heq
  obtain ⟨hstates, heq⟩ := takes_text.endsItself.list _ _ _ _ hr.states hr'.states heq
  obtain ⟨hfinals, heq⟩ := takes_text.endsItself.list _ _ _ _ hr.finals hr'.finals heq
  obtain ⟨hinitial, heq⟩ := takes_text.endsItself.option _ _ _ _ hr.initial hr'.initial heq
  obtain ⟨hcurrent, heq⟩ := takes_text.endsItself.option _ _ _ _ hr.current hr'.current heq
  obtain ⟨htransitions, hrest⟩ :=
    transition_endsItself.list _ _ _ _ hr.transitions hr'.transitions heq
  refine ⟨?_, hrest⟩
  cases r
  cases r'
  cases hid
  cases hcreatedAt
  cases hsymbols
  cases hstates
  cases hfinals
  cases hinitial
  cases hcurrent
  cases htransitions
  cases hversion
  rfl

/-! ## What is written -/

theorem putList_map (put : β → List UInt8) (write : γ → β) (l : List γ) :
    putList put (l.map write) = putList (fun a => put (write a)) l := by
  rw [putList, putList, List.length_map, List.flatMap_map]

theorem putOption_map (put : β → List UInt8) (write : γ → β) (o : Option γ) :
    putOption put (o.map write) = putOption (fun a => put (write a)) o := by
  cases o <;> rfl

/-- A snapshot is written as its own spelling is laid out. -/
theorem encode_eq_putSpelling (c : Snapshot) : encode c = putSpelling c.spelling := by
  simp only [encode, putSpelling, header, putFields, spelling, putList_map, putOption_map,
    List.append_assoc]
  rfl

theorem listFits_map {fits : β → Prop} {write : γ → β} {l : List γ} (hlength : l.length < UInt64.size)
    (h : ∀ a ∈ l, fits (write a)) : ListFits fits (l.map write) :=
  ⟨lt_of_eq_of_lt (List.length_map _) hlength, List.forall_mem_map.mpr h⟩

theorem Fits.spelling {c : Snapshot} (h : Fits c) : SpellingFits c.spelling := by
  have hmentioned : ∀ q ∈ c.mentionedStates, TextFits q.text := fun q hq =>
    h.names q (List.mem_append_right _ hq)
  simp only [mentionedStates, List.forall_mem_append, Option.mem_toList, List.mem_flatMap]
    at hmentioned
  obtain ⟨⟨⟨hinitial, hcurrent⟩, hfinals⟩, hends⟩ := hmentioned
  constructor
  case createdAt => exact length_encode_text_lt c.createdAt
  case symbols => exact listFits_map h.symbols fun _ _ => trivial
  case states => exact listFits_map h.states fun q hq => h.names q (List.mem_append_left _ hq)
  case finals => exact listFits_map h.finals hfinals
  case initial => exact Option.forall_mem_map.mpr hinitial
  case current => exact Option.forall_mem_map.mpr hcurrent
  case transitions =>
    refine listFits_map h.transitions fun t ht => ⟨?_, ?_⟩
    · exact hends _ ⟨t, ht, by simp⟩
    · exact hends _ ⟨t, ht, by simp⟩

namespace Fits

variable {c : Snapshot} (h : Fits c)

include h

-- The bytes of a snapshot are read as that snapshot, whatever follows them.
theorem decode_encode_append (rest : List UInt8) : decode (encode c ++ rest) = .ok c :=
  decode_eq_ok_iff.mpr
    ⟨c.spelling, rest, h.spelling, by rw [encode_eq_putSpelling], c.read?_spelling⟩

theorem decode_encode : decode (encode c) = .ok c := by
  rw [← List.append_nil (encode c)]
  exact h.decode_encode_append []

end Fits

end Statewright.Snapshot.Binary

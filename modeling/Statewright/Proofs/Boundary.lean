import Statewright.Proofs.Agenda
import Statewright.Proofs.Lockstep
import Statewright.Proofs.Reader

/-!
# Cutting an input

An input can be cut behind a line, if no word waits for its semicolon there: to run both parts one
after the other does what one run of the whole input does, and writes the same, but that the lines
of the second part are counted anew. This holds as well if EXIT comes in either part.
-/

open Statewright.Text Statewright.Fallible

namespace Statewright

namespace Source

theorem lines_nil : lines [] = [] := by
  rw [lines]
  rfl

/-- Whether the last line of some bytes has its line break. -/
def EndsLine (bytes : List UInt8) : Prop :=
  ∀ b ∈ bytes.getLast?, b = lineBreak

theorem endsLine_nil : EndsLine [] :=
  fun _ h => by cases h

theorem EndsLine.tail {b c : UInt8} {bytes : List UInt8} (h : EndsLine (b :: c :: bytes)) :
    EndsLine (c :: bytes) :=
  fun d hd => h d (List.getLast?_cons_cons.symm ▸ hd)

-- The first line is the same if more lines follow the last one.
theorem cutLine_endsLine {b : UInt8} {bytes : List UInt8} (h : EndsLine (b :: bytes))
    (more : List UInt8) :
    ∃ line rest, cutLine (b :: bytes) = (b :: line, rest) ∧ EndsLine rest ∧
      cutLine (b :: bytes ++ more) = (b :: line, rest ++ more) := by
  induction bytes generalizing b with
  | nil =>
    have hb : b = lineBreak := h b rfl
    exact ⟨[], [], by rw [hb]; rfl, endsLine_nil, by rw [hb]; rfl⟩
  | cons c bytes ih =>
    by_cases hb : b = lineBreak
    · refine ⟨[], c :: bytes, ?_, h.tail, ?_⟩
      · rw [cutLine, if_pos hb]
      · rw [List.cons_append, cutLine, if_pos hb]
    · obtain ⟨line, rest, hcut, hends, hmore⟩ := ih h.tail
      refine ⟨c :: line, rest, ?_, hends, ?_⟩
      · rw [cutLine, if_neg hb, hcut]
      · rw [List.cons_append, cutLine, if_neg hb, hmore]

theorem EndsLine.of_cutLine {bytes line rest : List UInt8} {b : UInt8} (h : EndsLine bytes)
    (hcut : cutLine bytes = (b :: line, rest)) (more : List UInt8) :
    EndsLine rest ∧ cutLine (bytes ++ more) = (b :: line, rest ++ more) := by
  cases bytes with
  | nil => cases hcut
  | cons c bytes =>
    obtain ⟨line', rest', hline, hends, hmore⟩ := cutLine_endsLine h more
    rw [hcut] at hline
    cases hline
    exact ⟨hends, hmore⟩

end Source

/-! ## Tasks behind others -/

namespace Moment

variable {m n k : Moment} {rest : List Task}

/-- The moment with more to be done behind what is to be done. -/
def behind (m : Moment) (rest : List Task) : Moment :=
  { m with agenda := m.agenda ++ rest }

theorem begin_behind (m : Moment) (caller : Caller) (s : Session) (script? : Option Script)
    (atOnce : Session × Reply) (tasks rest : List Task) :
    (m.behind rest).begin caller s script? atOnce (tasks ++ rest) =
      (m.begin caller s script? atOnce tasks).behind rest := by
  cases script? with
  | none => rfl
  | some script => rfl

theorem work_behind (m : Moment) (task : Task) (tasks rest : List Task) :
    (m.behind rest).work task (tasks ++ rest) = (m.work task tasks).behind rest := by
  cases task with
  | read mode source reader =>
    unfold work
    dsimp only [behind]
    match source.nextLine (m.session.prompt mode).files with
    | none => rfl
    | some (.error e) => rfl
    | some (.ok ([], source)) => rfl
    | some (.ok (b :: line, source)) => rfl
  | findings mode findings =>
    match findings with
    | [] => rfl
    | .remark line r :: findings => rfl
    | .statement st :: findings => rfl
  | pieces mode line isFirst pieces =>
    cases pieces with
    | nil => rfl
    | cons piece pieces =>
      exact m.begin_behind _ _ _ _ (.pieces mode line false pieces :: tasks) rest
  | load path => exact m.begin_behind _ _ _ _ tasks rest
  | leave caller script => rfl

/-- What is behind waits until everything before it is done. -/
theorem next_behind (h : m.agenda ≠ []) (rest : List Task) :
    (m.behind rest).next = m.next.map (·.behind rest) := by
  cases hagenda : m.agenda with
  | nil => exact absurd hagenda h
  | cons task tasks =>
    have hbehind : (m.behind rest).agenda = task :: (tasks ++ rest) := by
      unfold behind
      rw [hagenda]
      rfl
    have hwork := m.work_behind task tasks rest
    unfold next
    rw [hagenda, hbehind]
    cases task with
    | load path => exact congrArg some hwork
    | leave caller script => exact congrArg some hwork
    | read mode source reader =>
      cases hrunning : m.session.running with
      | true => exact congrArg some ((if_pos hrunning).trans hwork)
      | false => exact congrArg some (if_neg (by rw [behind, hrunning]; decide))
    | findings mode findings =>
      cases hrunning : m.session.running with
      | true => exact congrArg some ((if_pos hrunning).trans hwork)
      | false => exact congrArg some (if_neg (by rw [behind, hrunning]; decide))
    | pieces mode line isFirst pieces =>
      cases hrunning : m.session.running with
      | true => exact congrArg some ((if_pos hrunning).trans hwork)
      | false => exact congrArg some (if_neg (by rw [behind, hrunning]; decide))

theorem agenda_ne_nil_of_next (h : m.next = some n) : m.agenda ≠ [] := by
  intro hnil
  rw [next_eq_none_iff.mpr hnil] at h
  cases h

theorem Leads.behind (h : m.Leads n) (rest : List Task) :
    (m.behind rest).Leads (n.behind rest) := by
  induction h with
  | refl => exact .refl _
  | tail _ hnext ih =>
    refine ih.trans (leads_of_next ?_ (.refl _))
    rw [next_behind (agenda_ne_nil_of_next hnext), hnext]
    rfl

theorem leads_behind_iff (hk : k.agenda = []) :
    (m.behind rest).Leads k ↔ ∃ n, m.Leads n ∧ n.agenda = [] ∧ (n.behind rest).Leads k := by
  constructor
  · intro h
    generalize hstart : m.behind rest = start at h
    induction h using Relation.ReflTransGen.head_induction_on generalizing m with
    | refl =>
      rw [← hstart] at hk
      exact ⟨m, .refl m, (List.append_eq_nil_iff.mp hk).1, hstart ▸ .refl _⟩
    | head hnext hleads ih =>
      by_cases hagenda : m.agenda = []
      · exact ⟨m, .refl m, hagenda, hstart ▸ leads_of_next hnext hleads⟩
      · rw [← hstart, next_behind hagenda] at hnext
        obtain ⟨c, hc, heq⟩ := Option.map_eq_some_iff.mp hnext
        obtain ⟨n, hn, hlast, hbehind⟩ := ih heq
        exact ⟨n, leads_of_next hc hn, hlast, hbehind⟩
  · rintro ⟨n, hn, -, hbehind⟩
    exact (hn.behind rest).trans hbehind

/-! ## The same end -/

/-- Whether two moments come to the same end, if they come to an end. -/
def EndsAs (m n : Moment) : Prop :=
  ∀ k : Moment, k.agenda = [] → (m.Leads k ↔ n.Leads k)

theorem EndsAs.refl (m : Moment) : m.EndsAs m :=
  fun _ _ => Iff.rfl

theorem EndsAs.symm (h : m.EndsAs n) : n.EndsAs m :=
  fun k hk => (h k hk).symm

theorem EndsAs.trans (h : m.EndsAs n) (h' : n.EndsAs k) : m.EndsAs k :=
  fun l hl => (h l hl).trans (h' l hl)

theorem endsAs_of_next (h : m.next = some n) : m.EndsAs n := by
  intro k hk
  refine ⟨fun hleads => ?_, leads_of_next h⟩
  rcases hleads.cases_head with rfl | ⟨c, hc, hleads⟩
  · exact absurd hk (agenda_ne_nil_of_next h)
  · exact next_unique hc h ▸ hleads

theorem endsAs_behind {tasks : List Task}
    (h : ∀ n, m.Leads n → n.agenda = [] → (n.behind rest).EndsAs (n.behind tasks)) :
    (m.behind rest).EndsAs (m.behind tasks) := by
  intro k hk
  rw [leads_behind_iff hk, leads_behind_iff hk]
  constructor
  · rintro ⟨n, hn, hlast, hleads⟩
    exact ⟨n, hn, hlast, (h n hn hlast k hk).mp hleads⟩
  · rintro ⟨n, hn, hlast, hleads⟩
    exact ⟨n, hn, hlast, (h n hn hlast k hk).mpr hleads⟩

/-! ## Reading on -/

theorem next_read_stopped {mode : Mode} {source : Source} {reader : Reader}
    (h : m.agenda = .read mode source reader :: rest) (hrunning : m.session.running = false) :
    m.next = some { m with agenda := rest } :=
  next_stopped h hrunning (fun _ h => by cases h) rfl

theorem next_read_line {bytes line more : List UInt8} {reader : Reader} {b : UInt8}
    (h : m.agenda = .read .script (.bytes bytes) reader :: rest)
    (hrunning : m.session.running = true) (hcut : Source.cutLine bytes = (b :: line, more)) :
    let found := reader.push (String.ofList (Utf8.decodeLossy (b :: line)))
    m.next = some { m with
      agenda := .findings .script found.2 :: .read .script (.bytes more) found.1 :: rest } := by
  refine (next_running h hrunning).trans (congrArg some ?_)
  unfold work
  dsimp only [Source.nextLine]
  rw [hcut]
  rfl

-- At the end of a source where no word waits there is nothing to do.
theorem endsAs_read_end {reader : Reader} (h : m.agenda = .read .script (.bytes []) reader :: rest)
    (hpending : m.session.running = true → reader.pending = []) :
    m.EndsAs { m with agenda := rest } := by
  cases hrunning : m.session.running with
  | false => exact endsAs_of_next (next_read_stopped h hrunning)
  | true =>
    have hend : reader.finish.2 = [] := by
      unfold Reader.finish Reader.isAccumulating
      rw [hpending hrunning]
      rfl
    have hnext : m.next = some { m with agenda := .findings .script reader.finish.2 :: rest } :=
      next_running h hrunning
    rw [hend] at hnext
    refine (endsAs_of_next hnext).trans (endsAs_of_next ?_)
    exact next_running (m := { m with agenda := .findings .script [] :: rest }) rfl hrunning

/-- The moment at which a script is read from some bytes. -/
def reading (s : Session) (done : List Exchange) (result : Except FileError Unit)
    (bytes : List UInt8) (reader : Reader) : Moment :=
  ⟨s, done, [.read .script (.bytes bytes) reader], result⟩

/-- Whether no word waits when the end of some bytes is reached. -/
def KeepsNothing (m : Moment) : Prop :=
  ∀ k reader, m.Leads k → k.agenda = [.read .script (.bytes []) reader] →
    k.session.running = true → reader.pending = []

-- To read on behind a cut is the same as to end there and then to read what is behind it.
theorem endsAs_cut {a : List UInt8} (ha : Source.EndsLine a) (b : List UInt8) (s : Session)
    (done : List Exchange) (result : Except FileError Unit) (reader : Reader)
    (hkept : (reading s done result a reader).KeepsNothing) :
    (reading s done result (a ++ b) reader).EndsAs
      ((reading s done result a reader).behind
        [.read .script (.bytes b) ⟨reader.line + (Source.lines a).length, []⟩]) := by
  induction a using Source.lines.induct generalizing s done result reader with
  | case1 a unread hcut =>
    cases a with
    | cons c a =>
      obtain ⟨line, rest, hline, -⟩ := Source.cutLine_endsLine ha b
      rw [hcut] at hline
      cases hline
    | nil =>
      have hpending : s.running = true → reader.pending = [] :=
        hkept (reading s done result [] reader) reader (.refl _) rfl
      have hend : EndsAs ⟨s, done, _ :: [.read .script (.bytes b) ⟨reader.line, []⟩], result⟩ _ :=
        endsAs_read_end rfl hpending
      rw [Source.lines_nil]
      refine EndsAs.trans ?_ hend.symm
      cases hrunning : s.running with
      | false =>
        refine (endsAs_of_next (next_read_stopped rfl hrunning)).trans (EndsAs.symm ?_)
        exact endsAs_of_next (next_read_stopped rfl hrunning)
      | true =>
        obtain ⟨line, pending⟩ := reader
        cases hpending hrunning
        exact .refl _
  | case2 a c line rest hcut ih =>
    obtain ⟨hrest, hmore⟩ := ha.of_cutLine hcut b
    cases hrunning : s.running with
    | false =>
      -- Whatever is to be read is dropped.
      refine (endsAs_of_next (next_read_stopped rfl hrunning)).trans (EndsAs.symm ?_)
      refine (endsAs_of_next (next_read_stopped rfl hrunning)).trans ?_
      exact endsAs_of_next (next_read_stopped rfl hrunning)
    | true =>
      -- The first line is dealt with in both, and the induction hypothesis is about the rest.
      refine (endsAs_of_next (next_read_line rfl hrunning hmore)).trans (EndsAs.symm ?_)
      refine (endsAs_of_next (next_read_line rfl hrunning hcut)).trans (EndsAs.symm ?_)
      have hfirst := next_read_line (m := reading s done result a reader) rfl hrunning hcut
      have hline : reader.line + (Source.lines a).length =
          (reader.push (String.ofList (Utf8.decodeLossy (c :: line)))).1.line +
            (Source.lines rest).length := by
        rw [Source.lines_of_cutLine hcut (List.cons_ne_nil _ _), Reader.push_line, List.length_cons]
        omega
      rw [hline]
      generalize reader.push _ = found at hfirst ⊢
      refine endsAs_behind (m := ⟨s, done, [.findings .script found.2], result⟩)
        (fun n hn hlast => ?_)
      obtain ⟨t, done', tasks, result'⟩ := n
      cases hlast
      refine ih hrest t done' result' found.1 (fun k reader' hk => ?_)
      exact hkept k reader' (leads_of_next hfirst ((hn.behind _).trans hk))

end Moment

/-! ## Words that wait at the end -/

namespace Source

/-- The lines of some bytes as they are handed to the reader. -/
def readLines (bytes : List UInt8) : List String :=
  (lines bytes).map (fun line => String.ofList (Utf8.decodeLossy line))

theorem readLines_of_cutLine {bytes line rest : List UInt8} (h : cutLine bytes = (line, rest))
    (hne : line ≠ []) :
    readLines bytes = String.ofList (Utf8.decodeLossy line) :: readLines rest := by
  rw [readLines, lines_of_cutLine h hne]
  rfl

end Source

/-- Whether a task that reads some bytes comes to their end with such a reader. -/
def Task.Feeds (last : Reader) : Task → Prop
  | read _ (.bytes bytes) reader => (reader.pushAll (Source.readLines bytes)).1 = last
  | _ => True

theorem Task.feeds_heritable (last : Reader) : Heritable (Feeds last) where
  line {mode source next reader t line} h hnext hne := by
    refine ⟨trivial, ?_⟩
    cases source with
    | bytes bytes =>
      have hcut : (Source.cutLine bytes).1 = line ∧ .bytes (Source.cutLine bytes).2 = next :=
        Prod.mk.inj (Except.ok.inj (Option.some.inj hnext))
      obtain ⟨hline, rfl⟩ := hcut
      have hpush : (reader.pushAll (Source.readLines bytes)).1 = last := h
      rw [Source.readLines_of_cutLine (Prod.ext hline rfl) hne] at hpush
      exact hpush
    | file handle buffer =>
      obtain ⟨filled, -, htaken⟩ := Option.map_eq_some_iff.mp hnext
      obtain ⟨_, -, hcut⟩ := bind_eq_ok_iff.mp htaken
      cases hcut
      trivial
  finish _ := trivial
  remark _ := trivial
  statement _ := ⟨trivial, trivial⟩
  piece _ := trivial
  script _ := trivial
  leave _ _ := trivial

/-- No word waits at the end of an input if none waits when all its lines were read. -/
theorem Moment.keepsNothing_of_pushAll {a : List UInt8}
    (h : (Reader.start.pushAll (Source.readLines a)).1.pending = []) (s : Session) :
    (start s [.run .script a]).KeepsNothing := by
  intro k reader hk hagenda _
  have hfeeds := (Task.feeds_heritable _).leads hk (fun t ht => by
    cases List.mem_singleton.mp ht
    exact rfl) (.read .script (.bytes []) reader) (hagenda ▸ List.mem_cons_self)
  have hlast : (reader.pushAll (Source.readLines [])).1 = _ := hfeeds
  rw [Source.readLines, Source.lines_nil] at hlast
  exact (congrArg Reader.pending hlast).trans h

/-! ## One run for two -/

/-- The same runs, but that the lines of the second are counted from elsewhere. -/
def Presentation.countedFrom (settings : Settings) (n : Nat) : Presentation where
  settings := settings
  settings' := settings
  extension := rfl
  mode := id
  ahead := n
  keep := fun _ => true
  keep_shift _ _ := rfl
  outside _ := ⟨rfl, fun _ => rfl⟩
  inside _ := ⟨rfl, fun _ => rfl⟩

/-- An item as it is written if the lines outside of scripts are counted from so many more. -/
def Item.raised (n : Nat) : Bool × Item → Item
  | (true, item) => item.shift n
  | (false, item) => item

namespace Session

-- What is read behind a cut is read as it is alone, but for the numbers of the lines.
theorem advance_countedFrom (t : Session) (b : List UInt8) (done : List Exchange) (line n : Nat) :
    let m := Moment.start t [.run .script b]
    let m' : Moment := ⟨t, done, [.read .script (.bytes b) (Reader.start.shift line)], .ok ()⟩
    (m'.advance n).session = { (m.advance n).session with
      output := t.output ++ (m.written n).map (Item.raised line) } ∧
    ((m'.advance n).agenda = [] ↔ (m.advance n).agenda = []) ∧
    (m'.advance n).result = (m.advance n).result := by
  intro m m'
  let p := Presentation.countedFrom t.settings line
  have habreast : p.Abreast m m' := ⟨rfl, ⟨t.output, rfl⟩, rfl, rfl⟩
  obtain ⟨hadvance, hwritten⟩ := habreast.advance n
  refine ⟨?_, hadvance.ends_iff, hadvance.result⟩
  have hall : ∀ items : List (Bool × Item), items.filter (fun item => p.keep item.2) = items :=
    fun items => List.filter_eq_self.mpr (fun _ _ => rfl)
  have hplace : Prod.snd ∘ p.place = Item.raised line := by
    funext ⟨outside, item⟩
    cases outside with
    | true => rfl
    | false => rfl
  have houtput := m'.output_advance n
  rw [hall, hall] at hwritten
  rw [hwritten, List.map_map, hplace] at houtput
  obtain ⟨output, hsession⟩ := hadvance.session
  rw [hsession] at houtput
  rw [hsession, ← show output = _ from houtput]
  unfold shown
  rw [show p.settings' = (m.advance n).session.settings from hadvance.settings.symm]

/-- An input that is run in two parts does what it does in one, if the first part ends with a line
break and no word waits there: the session afterwards is the same, but for the numbers of the lines
of the second part, outside of the scripts that it loads. One run ends exactly if both runs end. -/
theorem run_append {s : Session} {a : List UInt8} (ha : a.getLast? = some Source.lineBreak)
    (hkept : (Moment.start s [.run .script a]).KeepsNothing) (b : List UInt8) (u : Session) :
    (∃ fuel, s.run fuel .script (a ++ b) = some (u, .ok ())) ↔
      ∃ t v n, (∃ fuel, s.run fuel .script a = some (t, .ok ())) ∧
        (∃ fuel, t.run fuel .script b = some (v, .ok ())) ∧
        let m := Moment.start t [.run .script b]
        (m.advance n).agenda = [] ∧ (m.advance n).session = v ∧
        v.output = t.output ++ (m.written n).map Prod.snd ∧
        u = { v with
          output := t.output ++ (m.written n).map (Item.raised (Source.lines a).length) } := by
  have hends : Source.EndsLine a := by
    intro c hc
    rw [ha] at hc
    exact (Option.some.inj hc).symm
  have hcut := Moment.endsAs_cut hends b s [] (.ok ()) .start hkept
  rw [Moment.run_iff]
  constructor
  · rintro ⟨done, hleads⟩
    obtain ⟨⟨t, done', tasks, result⟩, ht, hlast, hrest⟩ :=
      (Moment.leads_behind_iff rfl).mp ((hcut _ rfl).mp hleads)
    cases hlast
    have hfirst : ∃ fuel, s.run fuel .script a = some (t, result) := Moment.run_iff.mpr ⟨done', ht⟩
    obtain ⟨fuel, hfuel⟩ := hfirst
    obtain rfl := result_of_run hfuel
    obtain ⟨n, hn⟩ := Moment.exists_eq_advance hrest
    obtain ⟨hsession, hagenda, hresult⟩ :=
      t.advance_countedFrom b done' (Source.lines a).length n
    have hu : u = _ := (congrArg Moment.session hn).trans hsession
    have hended : ((Moment.start t [.run .script b]).advance n).agenda = [] :=
      hagenda.mp (congrArg Moment.agenda hn).symm
    have hok : ((Moment.start t [.run .script b]).advance n).result = .ok () :=
      hresult.symm.trans (congrArg Moment.result hn).symm
    exact ⟨t, _, n, ⟨fuel, hfuel⟩, Moment.run_iff_advance.mpr ⟨n, hended, rfl, hok⟩, hended, rfl,
      Moment.output_advance n _, hu⟩
  · rintro ⟨t, v, n, hfirst, -, hended, rfl, -, rfl⟩
    obtain ⟨done', ht⟩ := Moment.run_iff.mp hfirst
    obtain ⟨fuel, hfuel⟩ : ∃ fuel, t.run fuel .script b = some (_, _) :=
      Moment.run_iff_advance.mpr ⟨n, hended, rfl, rfl⟩
    have hok := result_of_run hfuel
    obtain ⟨hsession, hagenda, hresult⟩ :=
      t.advance_countedFrom b done' (Source.lines a).length n
    have hrest := Moment.leads_advance n
      ⟨t, done', [.read .script (.bytes b) (Reader.start.shift (Source.lines a).length)], .ok ()⟩
    generalize Moment.advance n ⟨t, done', _, _⟩ = last at hsession hagenda hresult hrest
    obtain ⟨u, done, tasks, result⟩ := last
    cases hagenda.mpr hended
    cases hresult.trans hok
    rw [← show u = _ from hsession]
    exact ⟨done, (hcut _ rfl).mpr ((Moment.leads_behind_iff rfl).mpr ⟨_, ht, rfl, hrest⟩)⟩

/-- A session with a script in which a command fails, and without echoes. -/
def divided : Session :=
  start { Settings.default with echoScript := false } ⟨.zero, .epoch⟩
    ((FileTree.empty ["home"]).addFile ["home", "inner"]
      (Text.Utf8.encode "STATES a; QUX;\n".toList))

/-- A line of the second part is counted from the first part on, a line of the script is not, and
what follows EXIT is not performed. -/
theorem run_append_divided :
    let a := Text.Utf8.encode "LOAD inner;\n; note\n".toList
    let b := Text.Utf8.encode "LOAD inner; BAR;\nEXIT; STATES b;\n".toList
    ∃ fuel u, divided.run fuel .script (a ++ b) = some (u, .ok ()) ∧ u.running = false ∧
      u.output = [.failed 1 (.command (.unknownKeyword "QUX")),
        .response "Warning: state A already declared",
        .failed 1 (.command (.unknownKeyword "QUX")),
        .failed 3 (.command (.unknownKeyword "BAR")), .response "TERMINATED BY USER"] := by
  intro a b
  let first := (Moment.start divided [.run .script a]).advance 20
  let second := (Moment.start first.session [.run .script b]).advance 28
  have hfirst : first.agenda.length = 0 := by decide +kernel
  have hsecond : second.agenda.length = 0 := by decide +kernel
  have hpending : (Reader.start.pushAll (Source.readLines a)).1.pending = [] := by decide +kernel
  have hends : a.getLast? = some Source.lineBreak := by decide +kernel
  obtain ⟨fuel, hfuel⟩ : ∃ fuel, divided.run fuel .script a = some (first.session, _) :=
    Moment.run_iff_advance.mpr ⟨20, List.length_eq_zero_iff.mp hfirst, rfl, rfl⟩
  obtain ⟨fuel', hfuel'⟩ : ∃ fuel, first.session.run fuel .script b = some (second.session, _) :=
    Moment.run_iff_advance.mpr ⟨28, List.length_eq_zero_iff.mp hsecond, rfl, rfl⟩
  have hok := result_of_run hfuel
  have hok' := result_of_run hfuel'
  have hkeeps := Moment.keepsNothing_of_pushAll hpending divided
  obtain ⟨fuel'', hrun⟩ := (run_append hends hkeeps b _).mpr
    ⟨first.session, second.session, 28, ⟨fuel, hok ▸ hfuel⟩, ⟨fuel', hok' ▸ hfuel'⟩,
      List.length_eq_zero_iff.mp hsecond, rfl, Moment.output_advance 28 _, rfl⟩
  exact ⟨fuel'', _, hrun, by decide +kernel, by decide +kernel⟩

end Session

end Statewright

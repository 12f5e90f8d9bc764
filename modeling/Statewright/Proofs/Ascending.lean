import Statewright.Ascending
import Statewright.Machine.Basic

/-!
# Lists in ascending order: what entering keeps

Entering keeps the order, so that a list built by entering is determined by its entries. Entries
that come in ascending order already are entered at the end, one after the other.
-/

namespace Statewright

instance : Std.LawfulEqOrd Transition.Key where
  eq_of_compare {a b} h := by
    have hthen : (compare a.source b.source).then (compare a.symbol b.symbol) = .eq := h
    rw [Ordering.then_eq_eq] at hthen
    have hsource : a.source = b.source := Std.LawfulEqOrd.eq_of_compare hthen.1
    have hsymbol : a.symbol = b.symbol := Std.LawfulEqOrd.eq_of_compare hthen.2
    cases a; cases b
    rw [Transition.Key.mk.injEq]
    exact ⟨hsource, hsymbol⟩

namespace Ascending

/-- Entries put one after the other. -/
def putAll {α κ : Type} [Ord κ] (key : α → κ) (entries into : List α) : List α :=
  entries.foldl (fun acc a => put key a acc) into

/-- Entries in order, those that are equal once. -/
def sorted {α : Type} [Ord α] (entries : List α) : List α :=
  putAll id entries []

section Shape

variable {α κ : Type} [Ord κ] {key : α → κ}

theorem isAscending_nil : IsAscending key ([] : List α) :=
  List.Pairwise.nil

theorem IsAscending.tail {a : α} {l : List α} (h : IsAscending key (a :: l)) :
    IsAscending key l :=
  (List.pairwise_cons.mp h).2

-- An entry below all others stays in front.
theorem IsAscending.cons {a : α} {l : List α} (h : IsAscending key l)
    (hlt : ∀ b ∈ l, compare (key a) (key b) = .lt) : IsAscending key (a :: l) :=
  List.pairwise_cons.mpr ⟨hlt, h⟩

end Shape

section Order

variable {α κ : Type} [Ord κ] [Std.TransOrd κ] {key : α → κ}

theorem IsAscending.put {l : List α} (h : IsAscending key l) (a : α) :
    IsAscending key (put key a l) := by
  -- The induction is on the list that is entered into: what is in front of the entry stays there.
  induction l with
  | nil => exact isAscending_nil.cons (fun _ hb => nomatch hb)
  | cons b rest ih =>
    have hb : ∀ c ∈ rest, compare (key b) (key c) = .lt := (List.pairwise_cons.mp h).1
    unfold Ascending.put
    cases hcmp : compare (key a) (key b) with
    | lt =>
      apply h.cons
      intro c hc
      rcases List.mem_cons.mp hc with rfl | hc
      · exact hcmp
      · exact Std.TransCmp.lt_trans hcmp (hb c hc)
    | eq =>
      apply h.tail.cons
      intro c hc
      exact Std.TransCmp.lt_of_eq_of_lt hcmp (hb c hc)
    -- What is entered further back is above the front: it is the new entry, or was there before.
    | gt =>
      apply (ih h.tail).cons
      intro c hc
      rcases mem_put hc with rfl | hc
      · exact Std.OrientedCmp.lt_of_gt hcmp
      · exact hb c hc

theorem IsAscending.putAll {l : List α} (h : IsAscending key l) (entries : List α) :
    IsAscending key (putAll key entries l) := by
  induction entries generalizing l with
  | nil => exact h
  | cons a entries ih => exact ih (h.put a)

theorem IsAscending.nodup_keys {l : List α} (h : IsAscending key l) : (l.map key).Nodup := by
  rw [List.Nodup, List.pairwise_map]
  apply h.imp
  intro a b hab heq
  rw [heq, Std.ReflOrd.compare_self] at hab
  cases hab

-- An entry above all others goes to the end.
theorem put_eq_append {l : List α} {a : α}
    (hlt : ∀ b ∈ l, compare (key b) (key a) = .lt) : put key a l = l ++ [a] := by
  induction l with
  | nil => rfl
  | cons b rest ih =>
    have hgt : compare (key a) (key b) = .gt :=
      Std.OrientedCmp.gt_of_lt (hlt b List.mem_cons_self)
    rw [put, hgt, List.cons_append, ih (fun c hc => hlt c (List.mem_cons_of_mem b hc))]

-- An entry that is there already is put in its own place.
theorem put_eq_self {a : α} {l : List α} (h : IsAscending key l) (ha : a ∈ l) :
    put key a l = l := by
  induction l with
  | nil => exact nomatch ha
  | cons b rest ih =>
    have hb : ∀ c ∈ rest, compare (key b) (key c) = .lt := (List.pairwise_cons.mp h).1
    rcases List.mem_cons.mp ha with rfl | ha
    · have hself : compare (key a) (key a) = .eq := Std.ReflOrd.compare_self
      rw [put, hself]
    · have hgt : compare (key a) (key b) = .gt := Std.OrientedCmp.gt_of_lt (hb a ha)
      rw [put, hgt]
      dsimp only
      rw [ih h.tail ha]

-- Entries that continue an ascending list in ascending order are put as they stand.
theorem putAll_eq_append {l entries : List α} (h : IsAscending key (l ++ entries)) :
    putAll key entries l = l ++ entries := by
  induction entries generalizing l with
  | nil => rw [List.append_nil]; rfl
  | cons a entries ih =>
    have hput : put key a l = l ++ [a] := by
      apply put_eq_append
      intro b hb
      exact (List.pairwise_append.mp h).2.2 b hb a List.mem_cons_self
    -- The entry that was put joins the front, so that the hypothesis is about the entries after it.
    have hsplit : l ++ a :: entries = (l ++ [a]) ++ entries := by
      rw [List.append_assoc, List.singleton_append]
    rw [hsplit] at h ⊢
    rw [← ih h, putAll, List.foldl_cons, hput, putAll]

theorem putAll_nil_of_isAscending {entries : List α} (h : IsAscending key entries) :
    putAll key entries [] = entries :=
  putAll_eq_append (l := []) h

theorem sorted_of_isAscending {entries : List κ} (h : IsAscending id entries) :
    sorted entries = entries :=
  putAll_nil_of_isAscending h

end Order

section Members

variable {α κ : Type} [Ord κ] [Std.LawfulEqOrd κ] {key : α → κ}

-- An entry whose key is new is added to the entries, and those before it stay.
theorem put_perm {a : α} {l : List α} (h : key a ∉ l.map key) : (put key a l).Perm (a :: l) := by
  induction l with
  | nil => exact List.Perm.refl _
  | cons b rest ih =>
    rw [List.map_cons, List.mem_cons, not_or] at h
    unfold put
    cases hcmp : compare (key a) (key b) with
    | lt => exact List.Perm.refl _
    | eq => exact absurd (Std.LawfulEqOrd.eq_of_compare hcmp) h.1
    | gt => exact ((ih h.2).cons b).trans (List.Perm.swap a b rest)

theorem putAll_perm {entries l : List α} (hnodup : (entries.map key).Nodup)
    (hnew : ∀ a ∈ entries, key a ∉ l.map key) : (putAll key entries l).Perm (entries ++ l) := by
  induction entries generalizing l with
  | nil => exact List.Perm.refl _
  | cons a entries ih =>
    rw [List.map_cons, List.nodup_cons] at hnodup
    have hput : (put key a l).Perm (a :: l) := put_perm (hnew a List.mem_cons_self)
    -- The entries to come have other keys than the one that is put.
    have hrest : ∀ b ∈ entries, key b ∉ (put key a l).map key := by
      intro b hb hmem
      rw [(hput.map key).mem_iff, List.map_cons, List.mem_cons] at hmem
      rcases hmem with heq | hmem
      · exact hnodup.1 (heq ▸ List.mem_map_of_mem hb)
      · exact hnew b (List.mem_cons_of_mem a hb) hmem
    have hperm := (ih hnodup.2 hrest).trans (hput.append_left entries)
    exact hperm.trans List.perm_middle

-- Putting an entry decides what is found under its key and under no other one.
theorem find?_put [DecidableEq κ] (a : α) (l : List α) (k : κ) :
    (put key a l).find? (fun b => key b = k) =
      if key a = k then some a else l.find? (fun b => key b = k) := by
  -- The entry is found where it stands, in front of what is found without it.
  have hcons : ∀ rest : List α, (a :: rest).find? (fun b => key b = k) =
      if key a = k then some a else rest.find? (fun b => key b = k) := by
    intro rest
    by_cases hk : key a = k
    · simp [hk]
    · simp [hk]
  induction l with
  | nil => exact hcons []
  | cons b rest ih =>
    unfold put
    cases hcmp : compare (key a) (key b) with
    | lt => exact hcons (b :: rest)
    | eq =>
      -- The entry in front is replaced by one that has its key.
      have hkey : key a = key b := Std.LawfulEqOrd.eq_of_compare hcmp
      by_cases hk : key a = k
      · simp [hk]
      · simp [← hkey, hk]
    | gt =>
      have hne : key a ≠ key b := by
        intro heq
        rw [heq, Std.ReflOrd.compare_self] at hcmp
        cases hcmp
      by_cases hk : key a = k
      · have hb : key b ≠ k := fun hb => hne (hk.trans hb.symm)
        simp [ih, hk, hb]
      · simp [List.find?_cons, ih, hk]

-- Of the entries that are put under a key, the last one is found.
theorem find?_putAll [DecidableEq κ] (entries l : List α) (k : κ) :
    (putAll key entries l).find? (fun b => key b = k) =
      (entries.filter (fun b => key b = k)).getLast?.or (l.find? (fun b => key b = k)) := by
  induction entries generalizing l with
  | nil => rfl
  | cons a entries ih =>
    rw [putAll, List.foldl_cons, ← putAll, ih, find?_put]
    by_cases hk : key a = k
    · cases hlast : (entries.filter (fun b => key b = k)).getLast? with
      | none => simp [hk, List.getLast?_cons, hlast]
      | some b => simp [hk, List.getLast?_cons, hlast]
    · simp [hk]

-- Putting takes the place of an entry with the same key and of no other one.
theorem mem_put_of_mem {a b : α} {l : List α} (h : b ∈ l) (hkey : key a ≠ key b) :
    b ∈ put key a l := by
  induction l with
  | nil => exact nomatch h
  | cons c rest ih =>
    unfold put
    cases hcmp : compare (key a) (key c) with
    | lt => exact List.mem_cons_of_mem a h
    | eq =>
      rcases List.mem_cons.mp h with rfl | h
      · exact absurd (Std.LawfulEqOrd.eq_of_compare hcmp) hkey
      · exact List.mem_cons_of_mem a h
    | gt =>
      rcases List.mem_cons.mp h with rfl | h
      · exact List.mem_cons_self
      · exact List.mem_cons_of_mem c (ih h)

end Members

section Entries

variable {α : Type} [Ord α] [Std.LawfulEqOrd α]

theorem mem_put_id_iff {a b : α} {l : List α} : b ∈ put id a l ↔ b = a ∨ b ∈ l := by
  constructor
  · exact mem_put
  · rintro (rfl | h)
    · exact mem_put_self
    · by_cases hab : a = b
      · rw [hab]
        exact mem_put_self
      · exact mem_put_of_mem h hab

theorem mem_putAll_id_iff {a : α} {entries l : List α} :
    a ∈ putAll id entries l ↔ a ∈ entries ∨ a ∈ l := by
  induction entries generalizing l with
  | nil => exact (or_iff_right List.not_mem_nil).symm
  | cons b entries ih =>
    rw [putAll, List.foldl_cons, ← putAll, ih, mem_put_id_iff, List.mem_cons]
    rw [← or_assoc, or_comm (a := a ∈ entries)]

theorem mem_sorted_iff {a : α} {entries : List α} : a ∈ sorted entries ↔ a ∈ entries := by
  rw [sorted, mem_putAll_id_iff]
  exact or_iff_left List.not_mem_nil

theorem sorted_perm {entries : List α} (h : entries.Nodup) : (sorted entries).Perm entries := by
  have hkeys : (entries.map id).Nodup := by rwa [List.map_id]
  have hperm := putAll_perm hkeys (l := []) (fun a _ => List.not_mem_nil)
  rwa [List.append_nil] at hperm

end Entries

end Ascending

end Statewright

/-!
# Lists in ascending order of a key

Symbols, final states and transitions are kept in ascending order with one entry per key, so that
the order in which they were entered leaves no trace.
-/

namespace Statewright.Ascending

/-- Puts an entry where its key belongs; an entry that has the key already is replaced. -/
def put {α κ : Type} [Ord κ] (key : α → κ) (a : α) : List α → List α
  | [] => [a]
  | b :: rest =>
    match compare (key a) (key b) with
    | .lt => a :: b :: rest
    | .eq => a :: rest
    | .gt => b :: put key a rest

/-- Entries in strictly ascending order of their keys. -/
def IsAscending {α κ : Type} [Ord κ] (key : α → κ) (entries : List α) : Prop :=
  entries.Pairwise (fun a b => compare (key a) (key b) = .lt)

theorem mem_put {α κ : Type} [Ord κ] {key : α → κ} {a b : α} {entries : List α}
    (h : b ∈ put key a entries) : b = a ∨ b ∈ entries := by
  fun_induction put key a entries with
  | case1 => simpa using h
  | case2 => simpa using h
  | case3 _ _ _ =>
    rcases List.mem_cons.mp h with h | h
    · exact .inl h
    · exact .inr (List.mem_cons_of_mem _ h)
  | case4 b' _ _ ih =>
    rcases List.mem_cons.mp h with h | h
    · exact .inr (h ▸ List.mem_cons_self)
    · exact (ih h).imp id (List.mem_cons_of_mem _)

theorem mem_put_self {α κ : Type} [Ord κ] {key : α → κ} {a : α} {entries : List α} :
    a ∈ put key a entries := by
  fun_induction put key a entries with
  | case1 => simp
  | case2 => simp
  | case3 => simp
  | case4 _ _ _ ih => exact List.mem_cons_of_mem _ ih

end Statewright.Ascending

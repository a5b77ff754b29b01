/-
Lists with at most one element to a key, either sorted by the key or in the
order in which the keys first came. The order is part of the data, because it
shows in every listing.

* `findByKey?`: the first element with a given key;
* `insertByKey`: puts an element at its key's place in a sorted list and
  replaces an element that has the same key;
* `putByKey`: replaces the element with the same key where it stands, or adds
  one at the end;
* `findByKey?_insertByKey_self`, `findByKey?_insertByKey_of_ne`,
  `findByKey?_putByKey_self`, `findByKey?_putByKey_of_ne`: what a look-up finds
  after each of them;
* `findByKey?_of_mem`: when no key comes twice, a look-up finds every element;
* `mem_insertByKey`: an insertion brings in nothing but the new element;
* `mem_of_lookup`, `lookup_map_values`, `eq_of_lookup`: a list of keys with values holds
  what is looked up in it, values are changed key by key, and the list is known from its
  keys and from what is looked up.
-/

namespace Ember

universe u v
variable {α : Type u} {κ : Type v}

/-- Puts `x` at the place of its key in a sorted list, replacing an element with
the same key. -/
def insertByKey [Ord κ] (key : α → κ) (x : α) : List α → List α
  | [] => [x]
  | y :: ys =>
    match compare (key x) (key y) with
    | .lt => x :: y :: ys
    | .eq => x :: ys
    | .gt => y :: insertByKey key x ys

/-- The first element whose key is `k`. -/
def findByKey? [DecidableEq κ] (key : α → κ) (k : κ) (xs : List α) : Option α :=
  xs.find? fun x => key x = k

/-- Replaces the first element that has the key of `x`, or adds `x` at the end. -/
def putByKey [DecidableEq κ] (key : α → κ) (x : α) : List α → List α
  | [] => [x]
  | y :: ys => if key y = key x then x :: ys else y :: putByKey key x ys

@[simp]
theorem findByKey?_nil [DecidableEq κ] (key : α → κ) (k : κ) :
    findByKey? key k [] = none := rfl

theorem findByKey?_cons [DecidableEq κ] (key : α → κ) (k : κ) (x : α) (xs : List α) :
    findByKey? key k (x :: xs) = if key x = k then some x else findByKey? key k xs := by
  by_cases h : key x = k <;> simp [findByKey?, h]

/-! ### Look-ups after an insertion -/

/-- A look-up of the inserted key finds the inserted element. -/
theorem findByKey?_insertByKey_self [Ord κ] [DecidableEq κ] [Std.LawfulEqOrd κ]
    (key : α → κ) (x : α) (xs : List α) :
    findByKey? key (key x) (insertByKey key x xs) = some x := by
  induction xs with
  | nil => simp [insertByKey, findByKey?_cons]
  | cons y ys ih =>
    rw [insertByKey]
    split
    · simp [findByKey?_cons]
    · simp [findByKey?_cons]
    · rename_i h
      have hne : key y ≠ key x := by
        intro e
        rw [e, Std.LawfulEqOrd.compare_eq_iff_eq.2 rfl] at h
        exact absurd h (by decide)
      rw [findByKey?_cons, if_neg hne, ih]

/-- A look-up of any other key is not affected by an insertion. -/
theorem findByKey?_insertByKey_of_ne [Ord κ] [DecidableEq κ] [Std.LawfulEqOrd κ]
    (key : α → κ) (x : α) (xs : List α) {k : κ} (hk : key x ≠ k) :
    findByKey? key k (insertByKey key x xs) = findByKey? key k xs := by
  induction xs with
  | nil => simp [insertByKey, findByKey?_cons, hk]
  | cons y ys ih =>
    rw [insertByKey]
    split
    · rw [findByKey?_cons, if_neg hk]
    · rename_i h
      have e : key x = key y := Std.LawfulEqOrd.compare_eq_iff_eq.1 h
      rw [findByKey?_cons, if_neg hk, findByKey?_cons, if_neg (e ▸ hk)]
    · rw [findByKey?_cons, findByKey?_cons, ih]

/-- A look-up of the key that was put finds the element that was put. -/
theorem findByKey?_putByKey_self [DecidableEq κ] (key : α → κ) (x : α) (xs : List α) :
    findByKey? key (key x) (putByKey key x xs) = some x := by
  induction xs with
  | nil => simp [putByKey, findByKey?_cons]
  | cons y ys ih =>
    rw [putByKey]
    split
    · simp [findByKey?_cons]
    · rename_i h
      rw [findByKey?_cons, if_neg h, ih]

/-- A look-up of any other key is not affected by putting an element. -/
theorem findByKey?_putByKey_of_ne [DecidableEq κ] (key : α → κ) (x : α) (xs : List α)
    {k : κ} (hk : key x ≠ k) : findByKey? key k (putByKey key x xs) = findByKey? key k xs := by
  induction xs with
  | nil => simp [putByKey, findByKey?_cons, hk]
  | cons y ys ih =>
    rw [putByKey]
    split
    · rename_i h
      rw [findByKey?_cons, if_neg hk, findByKey?_cons, if_neg (h ▸ hk)]
    · rw [findByKey?_cons, findByKey?_cons, ih]

/-! ### Look-ups among distinct keys -/

/-- When no key comes twice, a look-up finds every element by its key. -/
theorem findByKey?_of_mem [DecidableEq κ] {key : α → κ} {xs : List α} (h : (xs.map key).Nodup)
    {x : α} (hx : x ∈ xs) : findByKey? key (key x) xs = some x := by
  induction xs with
  | nil => cases hx
  | cons y ys ih =>
    obtain ⟨hfresh, hrest⟩ := List.nodup_cons.1 h
    rw [findByKey?_cons]
    rcases List.mem_cons.1 hx with rfl | hx
    · rw [if_pos rfl]
    · have hne : key y ≠ key x := fun e => hfresh (e ▸ List.mem_map_of_mem hx)
      rw [if_neg hne, ih hrest hx]

/-! ### Elements after an insertion -/

/-- An element of a list after an insertion is the new one or an old one. -/
theorem mem_insertByKey [Ord κ] {key : α → κ} {x y : α} {xs : List α}
    (h : y ∈ insertByKey key x xs) : y = x ∨ y ∈ xs := by
  induction xs with
  | nil => simpa [insertByKey] using h
  | cons z zs ih =>
    rw [insertByKey] at h
    split at h
    · simpa using h
    · rcases List.mem_cons.1 h with rfl | h
      · exact .inl rfl
      · exact .inr (List.mem_cons_of_mem _ h)
    · rcases List.mem_cons.1 h with rfl | h
      · exact .inr (List.mem_cons_self ..)
      · exact (ih h).imp_right (List.mem_cons_of_mem _)

/-! ### Keys with values -/

/-- What is looked up by a key is listed with it. -/
theorem mem_of_lookup [DecidableEq κ] {xs : List (κ × α)} {k : κ} {v : α}
    (h : xs.lookup k = some v) : (k, v) ∈ xs := by
  obtain ⟨before, rest, rfl, -⟩ := List.lookup_eq_some_iff.1 h
  exact List.mem_append_right _ (List.mem_cons_self ..)

/-- A change of the values is seen in every look-up. -/
theorem lookup_map_values [DecidableEq κ] (f : κ → α → α) (xs : List (κ × α)) (k : κ) :
    (xs.map fun x => (x.1, f x.1 x.2)).lookup k = (xs.lookup k).map (f k) := by
  induction xs with
  | nil => rfl
  | cons x xs ih =>
    rw [List.map_cons, List.lookup_cons, List.lookup_cons]
    by_cases same : k = x.1
    · simp [same]
    · simpa [beq_false_of_ne same] using ih

/-- Lists with the same keys, each of them once, are equal if all look-ups agree. -/
theorem eq_of_lookup [DecidableEq κ] {xs ys : List (κ × α)}
    (keys : xs.map Prod.fst = ys.map Prod.fst) (once : (xs.map Prod.fst).Nodup)
    (same : ∀ k, xs.lookup k = ys.lookup k) : xs = ys := by
  induction xs generalizing ys with
  | nil => exact (List.map_eq_nil_iff.1 keys.symm).symm
  | cons x xs ih =>
    obtain ⟨k, v⟩ := x
    cases ys with
    | nil => cases keys
    | cons y ys =>
      obtain ⟨k', v'⟩ := y
      obtain ⟨rfl, others⟩ := List.cons.inj keys
      obtain ⟨fresh, once⟩ := List.nodup_cons.1 once
      have value : v = v' := by simpa using same k
      have rest (j : κ) : xs.lookup j = ys.lookup j := by
        by_cases hj : j = k
        · subst hj
          have absent {zs : List (κ × α)} (h : j ∉ zs.map Prod.fst) : zs.lookup j = none :=
            List.lookup_eq_none_iff.2 fun z hz => by
              simpa using fun e : j = z.1 => h (e ▸ List.mem_map_of_mem hz)
          rw [absent fresh, absent (others ▸ fresh)]
        · have later := same j
          rwa [List.lookup_cons, List.lookup_cons, beq_false_of_ne hj] at later
      rw [value, ih others once rest]

end Ember

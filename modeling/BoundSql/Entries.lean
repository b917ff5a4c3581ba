/-!
# `Entries` — maps that remember the order of arrival

A list of pairs in which no key comes twice. A key that is given a second value keeps its
place, and its first spelling, and takes the new value: this is the one rule behind every
merge of bound values in this library, so it is stated once here, for any notion of
sameness of keys, and everything else is a fold over it.
-/

set_option autoImplicit false

namespace BoundSql

/-- Pairs of a key and its value, in the order in which the keys first arrived. -/
abbrev Entries (κ ν : Type) := List (κ × ν)

namespace Entries

variable {κ ν : Type} [BEq κ]

/-- Gives `k` the value `v`; a new key goes to the end. -/
def insert (k : κ) (v : ν) : Entries κ ν → Entries κ ν
  | [] => [(k, v)]
  | (k', v') :: rest =>
      if k' == k then (k', v) :: rest else (k', v') :: insert k v rest

/-- Inserts the entries of `ys` one after the other, so that `ys` wins where both hold a key. -/
def merge (xs ys : Entries κ ν) : Entries κ ν :=
  ys.foldl (fun acc e => insert e.1 e.2 acc) xs

/-- The merge of any number of maps, left to right. -/
def mergeAll (maps : List (Entries κ ν)) : Entries κ ν :=
  maps.foldl merge []

/-- The value held under `k`. -/
def get? (k : κ) : Entries κ ν → Option ν
  | [] => none
  | (k', v') :: rest => if k' == k then some v' else get? k rest

/-- The keys in their order. -/
def keys (xs : Entries κ ν) : List κ := xs.map (·.1)

/-! ## One lemma per operation -/

@[simp] theorem merge_nil (xs : Entries κ ν) : merge xs [] = xs := rfl

theorem merge_cons (xs : Entries κ ν) (e : κ × ν) (ys : Entries κ ν) :
    merge xs (e :: ys) = merge (insert e.1 e.2 xs) ys := rfl

theorem merge_append (xs ys zs : Entries κ ν) :
    merge xs (ys ++ zs) = merge (merge xs ys) zs := by
  simp [merge, List.foldl_append]

/-- A merge of maps takes over all their entries in a row. -/
theorem mergeAll_eq_merge_flatten (maps : List (Entries κ ν)) :
    mergeAll maps = merge [] maps.flatten := by
  rw [merge, List.foldl_flatten]
  rfl

/-- What was inserted is found, under every key that counts as the same. -/
theorem get?_insert_self [EquivBEq κ] (k : κ) (v : ν) (xs : Entries κ ν) :
    get? k (insert k v xs) = some v := by
  induction xs with
  | nil => simp [insert, get?]
  | cons e rest ih =>
    obtain ⟨k', v'⟩ := e
    by_cases h : k' == k <;> simp [insert, get?, h, ih]

/-- An insertion is invisible under every other key. -/
theorem get?_insert_of_ne [EquivBEq κ] {k j : κ} (hne : (k == j) = false) (v : ν)
    (xs : Entries κ ν) : get? j (insert k v xs) = get? j xs := by
  induction xs with
  | nil => simp [insert, get?, hne]
  | cons e rest ih =>
    obtain ⟨k', v'⟩ := e
    by_cases h : k' == k
    · have hj : (k' == j) = false := by
        cases hj : k' == j with
        | false => rfl
        | true =>
          have : (k == j) = true := PartialEquivBEq.trans (PartialEquivBEq.symm h) hj
          simp [this] at hne
      simp [insert, get?, h, hj]
    · simp [insert, get?, h, ih]

end Entries

end BoundSql

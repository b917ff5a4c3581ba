import BoundSql.Entries
import BoundSql.Value.Key

/-!
# What a merge holds

`Entries.merge` is a fold of insertions, and everything said here is said of one insertion first.
There are three views of a map, and each has its own lemmas:

* **the keys as they are spelled**: a merge never loses a spelling of its left side, and it
  takes over every spelling of its right side that the left side does not already have in
  another spelling; so its keys are all keys, each where it comes first (`keys_mergeAll`);
* **the entries**: an entry of a merge is an entry of one of its two sides, except that a value
  from the right may stand under the left side's spelling of the key;
* **the values that are found**: under each key the last map that holds it decides
  (`get?_mergeAll`).

Where all keys are texts there is one spelling only (`Value.eq_of_beq_str`), and the first view
becomes a plain union of sets.

Merges of merges need no view of their own: as long as no key comes twice in a map, they are one
merge of all maps in a row (`mergeAll_map_mergeAll`).
-/

set_option autoImplicit false

namespace BoundSql

namespace Entries

variable {κ ν : Type}

/-! ## Keys -/

@[simp] theorem keys_nil : keys ([] : Entries κ ν) = [] := rfl

@[simp] theorem keys_cons (e : κ × ν) (xs : Entries κ ν) : keys (e :: xs) = e.1 :: keys xs := rfl

theorem keys_flatten (maps : List (Entries κ ν)) : keys maps.flatten = maps.flatMap keys :=
  List.map_flatten

theorem mem_keys_of_mem {xs : Entries κ ν} {e : κ × ν} (h : e ∈ xs) : e.1 ∈ keys xs :=
  List.mem_map_of_mem h

theorem exists_mem_of_mem_keys {xs : Entries κ ν} {k : κ} (h : k ∈ keys xs) :
    ∃ v, (k, v) ∈ xs := by
  obtain ⟨⟨k', v⟩, he, rfl⟩ := List.mem_map.mp h
  exact ⟨v, he⟩

variable [BEq κ]

/-- An insertion leaves the keys alone if one of them counts as the new key. -/
theorem keys_insert (k : κ) (v : ν) (xs : Entries κ ν) :
    keys (insert k v xs) = if (keys xs).any (· == k) then keys xs else keys xs ++ [k] := by
  induction xs with
  | nil => rfl
  | cons e rest ih =>
    obtain ⟨k', v'⟩ := e
    by_cases h : k' == k
    · simp [insert, h]
    · simp only [insert, h, if_neg, keys_cons, ih, List.any_cons, Bool.false_or,
        Bool.false_eq_true, not_false_eq_true]
      split <;> rfl

theorem mem_keys_insert_of_mem {j : κ} {xs : Entries κ ν} (h : j ∈ keys xs) (k : κ) (v : ν) :
    j ∈ keys (insert k v xs) := by
  rw [keys_insert]
  split
  · exact h
  · exact List.mem_append_left _ h

theorem mem_keys_of_mem_insert {j k : κ} {v : ν} {xs : Entries κ ν}
    (h : j ∈ keys (insert k v xs)) : j ∈ keys xs ∨ j = k := by
  rw [keys_insert] at h
  split at h
  · exact Or.inl h
  · simpa using h

/-- After an insertion some key counts as the inserted one. -/
theorem exists_key_insert [ReflBEq κ] (k : κ) (v : ν) (xs : Entries κ ν) :
    ∃ j ∈ keys (insert k v xs), (j == k) = true := by
  rw [keys_insert]
  split
  · simpa using ‹(keys xs).any (· == k) = true›
  · exact ⟨k, by simp, BEq.rfl⟩

theorem mem_keys_merge_left {j : κ} {xs : Entries κ ν} (h : j ∈ keys xs) (ys : Entries κ ν) :
    j ∈ keys (merge xs ys) := by
  induction ys generalizing xs with
  | nil => exact h
  | cons e ys ih => exact ih (mem_keys_insert_of_mem h e.1 e.2)

theorem mem_keys_of_mem_merge {j : κ} {xs ys : Entries κ ν} (h : j ∈ keys (merge xs ys)) :
    j ∈ keys xs ∨ j ∈ keys ys := by
  induction ys generalizing xs with
  | nil => exact Or.inl h
  | cons e ys ih =>
    rcases ih h with hx | hy
    · rcases mem_keys_of_mem_insert hx with hx | rfl
      · exact Or.inl hx
      · exact Or.inr List.mem_cons_self
    · exact Or.inr (List.mem_cons_of_mem _ hy)

/-- A key of the right side is there in one spelling or another. -/
theorem exists_key_merge [ReflBEq κ] {k : κ} {ys : Entries κ ν} (h : k ∈ keys ys)
    (xs : Entries κ ν) : ∃ j ∈ keys (merge xs ys), (j == k) = true := by
  induction ys generalizing xs with
  | nil => exact absurd h (by simp)
  | cons e ys ih =>
    rcases List.mem_cons.mp h with rfl | h
    · obtain ⟨j, hj, hjk⟩ := exists_key_insert e.1 e.2 xs
      exact ⟨j, mem_keys_merge_left hj ys, hjk⟩
    · exact ih h _

theorem mem_keys_of_mem_mergeAll {j : κ} {maps : List (Entries κ ν)}
    (h : j ∈ keys (mergeAll maps)) : ∃ m ∈ maps, j ∈ keys m := by
  rw [mergeAll_eq_merge_flatten] at h
  rcases mem_keys_of_mem_merge h with h | h
  · exact absurd h (by simp)
  · rw [keys_flatten] at h
    exact List.mem_flatMap.mp h

/-- A key of any of the maps is there in one spelling or another. -/
theorem exists_key_mergeAll [EquivBEq κ] {k : κ} {maps : List (Entries κ ν)}
    {m : Entries κ ν} (hm : m ∈ maps) (hk : k ∈ keys m) :
    ∃ j ∈ keys (mergeAll maps), (j == k) = true := by
  have hall : k ∈ keys maps.flatten := by
    rw [keys_flatten]
    exact List.mem_flatMap_of_mem hm hk
  rw [mergeAll_eq_merge_flatten]
  exact exists_key_merge hall []

/-! ## Entries -/

theorem mem_of_mem_insert {j k : κ} {v w : ν} {xs : Entries κ ν}
    (h : (j, w) ∈ insert k v xs) :
    (j, w) ∈ xs ∨ (w = v ∧ (j = k ∨ (j ∈ keys xs ∧ (j == k) = true))) := by
  induction xs with
  | nil =>
    obtain ⟨rfl, rfl⟩ : j = k ∧ w = v := by simpa [insert] using h
    exact Or.inr ⟨rfl, Or.inl rfl⟩
  | cons e rest ih =>
    obtain ⟨k', v'⟩ := e
    by_cases hk : k' == k
    · simp only [insert, hk, if_true, List.mem_cons, Prod.mk.injEq] at h
      rcases h with ⟨rfl, rfl⟩ | h
      · exact Or.inr ⟨rfl, Or.inr ⟨List.mem_cons_self, hk⟩⟩
      · exact Or.inl (List.mem_cons_of_mem _ h)
    · simp only [insert, hk, Bool.false_eq_true, if_false, List.mem_cons] at h
      rcases h with h | h
      · exact Or.inl (h ▸ List.mem_cons_self)
      · rcases ih h with h | ⟨hw, hj⟩
        · exact Or.inl (List.mem_cons_of_mem _ h)
        · refine Or.inr ⟨hw, hj.imp id fun hj => ⟨?_, hj.2⟩⟩
          exact List.mem_cons_of_mem _ hj.1

/-- An entry of a merge comes from one side, or has its value from the right under a spelling of
its key from the left. -/
theorem mem_of_mem_merge [EquivBEq κ] {j : κ} {w : ν} {xs ys : Entries κ ν}
    (h : (j, w) ∈ merge xs ys) :
    (j, w) ∈ xs ∨ ∃ k, (k, w) ∈ ys ∧ (j = k ∨ (j ∈ keys xs ∨ j ∈ keys ys) ∧ (j == k) = true) := by
  induction ys generalizing xs with
  | nil => exact Or.inl h
  | cons e ys ih =>
    rcases ih h with hx | ⟨k, hk, hj⟩
    · rcases mem_of_mem_insert hx with hx | ⟨rfl, hj⟩
      · exact Or.inl hx
      · exact Or.inr ⟨e.1, List.mem_cons_self, hj.imp id fun hj => ⟨Or.inl hj.1, hj.2⟩⟩
    · refine Or.inr ⟨k, List.mem_cons_of_mem _ hk, hj.imp id fun hj => ⟨?_, hj.2⟩⟩
      rcases hj.1 with hx | hy
      · rcases mem_keys_of_mem_insert hx with hx | rfl
        · exact Or.inl hx
        · exact Or.inr List.mem_cons_self
      · exact Or.inr (List.mem_cons_of_mem _ hy)

/-! ## Look-ups -/

theorem exists_mem_of_get? {k : κ} {v : ν} {xs : Entries κ ν} (h : get? k xs = some v) :
    ∃ j, (j, v) ∈ xs ∧ (j == k) = true := by
  induction xs with
  | nil => exact absurd h (by simp [get?])
  | cons e rest ih =>
    obtain ⟨k', v'⟩ := e
    by_cases hk : k' == k
    · simp only [get?, hk, if_true, Option.some.injEq] at h
      subst h
      exact ⟨k', List.mem_cons_self, hk⟩
    · simp only [get?, hk, Bool.false_eq_true, if_false] at h
      obtain ⟨j, hj, hjk⟩ := ih h
      exact ⟨j, List.mem_cons_of_mem _ hj, hjk⟩

/-- Nothing is found where no key counts as the one that is looked for. -/
theorem get?_eq_none_iff {k : κ} {xs : Entries κ ν} :
    get? k xs = none ↔ ∀ j ∈ keys xs, (j == k) = false := by
  induction xs with
  | nil => simp [get?]
  | cons e rest ih =>
    rw [get?, keys_cons, List.forall_mem_cons, ← ih]
    cases e.1 == k <;> simp

theorem exists_get?_of_mem_keys {j k : κ} {xs : Entries κ ν} (hj : j ∈ keys xs)
    (hjk : (j == k) = true) : ∃ v, get? k xs = some v := by
  cases h : get? k xs with
  | some v => exact ⟨v, rfl⟩
  | none =>
    have hne := get?_eq_none_iff.mp h j hj
    rw [hjk] at hne
    cases hne

theorem get?_congr [PartialEquivBEq κ] {j k : κ} (h : (j == k) = true) (xs : Entries κ ν) :
    get? j xs = get? k xs := by
  induction xs with
  | nil => rfl
  | cons e rest ih => rw [get?, get?, ih, BEq.congr_right h]

/-- To set the value that is there already changes nothing. -/
theorem insert_of_get? {k : κ} {v : ν} {xs : Entries κ ν} (h : get? k xs = some v) :
    insert k v xs = xs := by
  induction xs with
  | nil => cases h
  | cons e rest ih =>
    rw [get?] at h
    rw [insert]
    split at h
    · rename_i hk
      cases h
      rw [if_pos hk]
    · rename_i hk
      rw [if_neg hk, ih h]

/-! ## Merges in a row

Where no key comes twice on the right side, it makes no difference whether maps are merged
beforehand or one after the other.
-/

/-- No key comes twice. -/
def Distinct (xs : Entries κ ν) : Prop := (keys xs).Pairwise fun j k => (j == k) = false

instance (xs : Entries κ ν) : Decidable (Distinct xs) :=
  inferInstanceAs (Decidable ((keys xs).Pairwise fun j k => (j == k) = false))

@[simp] theorem distinct_nil : Distinct ([] : Entries κ ν) := List.Pairwise.nil

theorem distinct_of_nodup [LawfulBEq κ] {xs : Entries κ ν} (h : (keys xs).Nodup) : Distinct xs :=
  List.Pairwise.imp beq_false_of_ne h

theorem distinct_insert {xs : Entries κ ν} (h : Distinct xs) (k : κ) (v : ν) :
    Distinct (insert k v xs) := by
  unfold Distinct
  rw [keys_insert]
  split
  · exact h
  · rename_i hnone
    simp only [List.any_eq_true, not_exists, not_and, Bool.not_eq_true] at hnone
    refine List.pairwise_append.mpr ⟨h, List.pairwise_singleton _ k, fun j hj i hi => ?_⟩
    rw [List.mem_singleton.mp hi]
    exact hnone j hj

theorem distinct_merge {xs : Entries κ ν} (h : Distinct xs) (ys : Entries κ ν) :
    Distinct (merge xs ys) := by
  induction ys generalizing xs with
  | nil => exact h
  | cons e rest ih => exact ih (distinct_insert h e.1 e.2)

theorem distinct_mergeAll (maps : List (Entries κ ν)) : Distinct (mergeAll maps) := by
  rw [mergeAll_eq_merge_flatten]
  exact distinct_merge distinct_nil _

section Row

variable [EquivBEq κ]

/-- What is not there in one spelling is not there in any other. -/
theorem absent_of_beq {j k : κ} (hjk : (j == k) = true) {xs : Entries κ ν}
    (h : ∀ i ∈ keys xs, (j == i) = false) : ∀ i ∈ keys xs, (i == k) = false := by
  intro i hi
  rw [← BEq.congr_right hjk, BEq.comm, h i hi]

theorem insert_insert_self {j k : κ} (hjk : (j == k) = true) (v w : ν) (xs : Entries κ ν) :
    insert k v (insert j w xs) = insert j v xs := by
  induction xs with
  | nil => simp [insert, hjk]
  | cons e rest ih =>
    obtain ⟨i, u⟩ := e
    by_cases hij : (i == j) = true
    · have hik : (i == k) = true := PartialEquivBEq.trans hij hjk
      simp [insert, hij, hik]
    · have hik : ¬ (i == k) = true := by
        intro hik
        exact hij (PartialEquivBEq.trans hik (PartialEquivBEq.symm hjk))
      simp [insert, hij, hik, ih]

/-- A value under a key that is there already can be set before another key or after it. -/
theorem insert_comm {j k : κ} (hjk : (j == k) = false) {xs : Entries κ ν}
    (hk : ∃ i ∈ keys xs, (i == k) = true) (v w : ν) :
    insert k v (insert j w xs) = insert j w (insert k v xs) := by
  induction xs with
  | nil =>
    obtain ⟨i, hi, -⟩ := hk
    cases hi
  | cons e rest ih =>
    obtain ⟨i, u⟩ := e
    by_cases hik : (i == k) = true
    · have hij : ¬ (i == j) = true := by
        intro hij
        have htrans : (j == k) = true := PartialEquivBEq.trans (PartialEquivBEq.symm hij) hik
        rw [hjk] at htrans
        cases htrans
      simp [insert, hik, hij]
    · have hrest : ∃ i ∈ keys rest, (i == k) = true := by
        obtain ⟨i', hi', hik'⟩ := hk
        rcases List.mem_cons.mp hi' with rfl | hi'
        · exact absurd hik' hik
        · exact ⟨i', hi', hik'⟩
      by_cases hij : (i == j) = true
      · simp [insert, hik, hij]
      · simp [insert, hik, hij, ih hrest]

/-- A value under a key that the right side does not have can be set before a merge or after it. -/
theorem merge_insert_left {k : κ} {xs ys : Entries κ ν} (hk : ∃ i ∈ keys xs, (i == k) = true)
    (hys : ∀ j ∈ keys ys, (j == k) = false) (v : ν) :
    merge (insert k v xs) ys = insert k v (merge xs ys) := by
  induction ys generalizing xs with
  | nil => rfl
  | cons e rest ih =>
    obtain ⟨i, hi, hik⟩ := hk
    rw [merge_cons, merge_cons, ← insert_comm (hys e.1 List.mem_cons_self) ⟨i, hi, hik⟩]
    exact ih ⟨i, mem_keys_insert_of_mem hi e.1 e.2, hik⟩
      fun j hj => hys j (List.mem_cons_of_mem _ hj)

theorem merge_insert {ys : Entries κ ν} (hys : Distinct ys) (k : κ) (v : ν) (xs : Entries κ ν) :
    merge xs (insert k v ys) = insert k v (merge xs ys) := by
  induction ys generalizing xs with
  | nil => rfl
  | cons e rest ih =>
    obtain ⟨j, w⟩ := e
    obtain ⟨hj, hrest⟩ := List.pairwise_cons.mp hys
    by_cases hjk : (j == k) = true
    · obtain ⟨i, hi, hij⟩ := exists_key_insert j w xs
      have hmerge :=
        merge_insert_left ⟨i, hi, PartialEquivBEq.trans hij hjk⟩ (absent_of_beq hjk hj) v
      rw [insert_insert_self hjk] at hmerge
      rw [insert, if_pos hjk]
      exact hmerge
    · rw [insert, if_neg hjk, merge_cons, merge_cons]
      exact ih hrest (insert j w xs)

theorem merge_merge {ys : Entries κ ν} (hys : Distinct ys) (xs zs : Entries κ ν) :
    merge xs (merge ys zs) = merge (merge xs ys) zs := by
  induction zs generalizing ys with
  | nil => rfl
  | cons e rest ih =>
    rw [merge_cons, merge_cons, ih (distinct_insert hys e.1 e.2), merge_insert hys]

theorem merge_mergeAll (xs : Entries κ ν) (maps : List (Entries κ ν)) :
    merge xs (mergeAll maps) = merge xs maps.flatten := by
  rw [mergeAll_eq_merge_flatten, merge_merge distinct_nil, merge_nil]

/-- **A merge of merges is one merge** of all maps in a row. -/
theorem mergeAll_map_mergeAll (rows : List (List (Entries κ ν))) :
    mergeAll (rows.map mergeAll) = mergeAll rows.flatten := by
  suffices h : ∀ acc : Entries κ ν,
      (rows.map mergeAll).foldl merge acc = merge acc rows.flatten.flatten by
    rw [mergeAll_eq_merge_flatten rows.flatten]
    exact h []
  intro acc
  induction rows generalizing acc with
  | nil => rfl
  | cons maps rest ih =>
    rw [List.map_cons, List.foldl_cons, ih, merge_mergeAll, List.flatten_cons,
      List.flatten_append, merge_append]

end Row

theorem insert_of_absent {k : κ} {xs : Entries κ ν} (h : ∀ j ∈ keys xs, (j == k) = false) (v : ν) :
    insert k v xs = xs ++ [(k, v)] := by
  induction xs with
  | nil => rfl
  | cons e rest ih =>
    have he : ¬ (e.1 == k) = true := Bool.eq_false_iff.mp (h e.1 List.mem_cons_self)
    rw [insert, if_neg he, ih fun j hj => h j (List.mem_cons_of_mem _ hj), List.cons_append]

/-- A map in which no key comes twice is what a merge makes of it. -/
theorem mergeAll_singleton {xs : Entries κ ν} (h : Distinct xs) : mergeAll [xs] = xs := by
  have happend : ∀ acc : Entries κ ν, Distinct (acc ++ xs) → merge acc xs = acc ++ xs := by
    intro acc hacc
    clear h
    induction xs generalizing acc with
    | nil => simp
    | cons e rest ih =>
      have hkeys : (keys acc ++ keys (e :: rest)).Pairwise fun j k => (j == k) = false := by
        rw [keys, keys, ← List.map_append]
        exact hacc
      have habsent := fun j hj => (List.pairwise_append.mp hkeys).2.2 j hj e.1 List.mem_cons_self
      rw [merge_cons, insert_of_absent habsent, ih, List.append_assoc, List.singleton_append]
      rwa [List.append_assoc]
  exact happend [] h

theorem mergeAll_pair {xs : Entries κ ν} (h : Distinct xs) (ys : Entries κ ν) :
    mergeAll [xs, ys] = merge xs ys :=
  congrArg (merge · ys) (mergeAll_singleton h)

/-! ## Merges key by key

A merge of many maps is fixed by two facts: which keys it has and in which order, and which value
is found under each of them.
-/

section KeyByKey

variable [EquivBEq κ]

/-- The loop of `eraseDups` runs over the keys of the right side. What it has collected before are
the keys of the left side, backwards. -/
theorem keys_merge (xs ys : Entries κ ν) :
    keys (merge xs ys) = List.eraseDupsBy.loop (· == ·) (keys ys) (keys xs).reverse := by
  induction ys generalizing xs with
  | nil =>
    rw [keys_nil, List.eraseDupsBy.loop, List.reverse_reverse]
    rfl
  | cons e rest ih =>
    have hany : (keys xs).reverse.any (e.1 == ·) = (keys xs).any (· == e.1) := by
      rw [List.any_reverse]
      exact congrArg (keys xs).any (funext fun k => BEq.comm)
    rw [merge_cons, ih, keys_insert, keys_cons, List.eraseDupsBy.loop, hany]
    cases (keys xs).any (· == e.1) <;> simp

/-- **The keys of a merge are all keys**, in the order in which they first occur. -/
theorem keys_mergeAll (maps : List (Entries κ ν)) :
    keys (mergeAll maps) = (maps.flatMap keys).eraseDups := by
  rw [mergeAll_eq_merge_flatten, keys_merge, keys_flatten]
  rfl

/-- What is found on the right side wins. -/
theorem get?_merge {ys : Entries κ ν} (hys : Distinct ys) (k : κ) (xs : Entries κ ν) :
    get? k (merge xs ys) = (get? k ys).or (get? k xs) := by
  induction ys generalizing xs with
  | nil => rfl
  | cons e rest ih =>
    obtain ⟨hfirst, hrest⟩ := List.pairwise_cons.mp hys
    rw [merge_cons, ih hrest, get?]
    cases hk : e.1 == k with
    | true =>
      have habsent : get? k rest = none := get?_eq_none_iff.mpr (absent_of_beq hk hfirst)
      rw [habsent, ← get?_congr hk, get?_insert_self]
      rfl
    | false =>
      rw [get?_insert_of_ne hk]
      rfl

/-- **The value under a key is that of the last map that holds it.** -/
theorem get?_mergeAll {maps : List (Entries κ ν)} (h : ∀ m ∈ maps, Distinct m) (k : κ) :
    get? k (mergeAll maps) = maps.reverse.findSome? (get? k) := by
  suffices hs : ∀ acc : Entries κ ν, get? k (maps.foldl merge acc) =
      (maps.reverse.findSome? (get? k)).or (get? k acc) by
    rw [mergeAll, hs, get?, Option.or_none]
  intro acc
  induction maps generalizing acc with
  | nil => rfl
  | cons m rest ih =>
    obtain ⟨hm, hrest⟩ := List.forall_mem_cons.mp h
    rw [List.foldl_cons, ih hrest, get?_merge hm, List.reverse_cons, List.findSome?_append,
      List.findSome?_singleton, Option.or_assoc]

theorem get?_of_mem {xs : Entries κ ν} (hxs : Distinct xs) {e : κ × ν} (he : e ∈ xs) :
    get? e.1 xs = some e.2 := by
  induction xs with
  | nil => cases he
  | cons e' rest ih =>
    obtain ⟨hfirst, hrest⟩ := List.pairwise_cons.mp hxs
    rw [get?]
    rcases List.mem_cons.mp he with rfl | he
    · rw [if_pos BEq.rfl]
    · rw [hfirst e.1 (mem_keys_of_mem he)]
      exact ih hrest he

/-- A merge with the same map again changes nothing. -/
theorem merge_self {xs : Entries κ ν} (h : Distinct xs) : merge xs xs = xs := by
  have hheld : ∀ ys : Entries κ ν, (∀ e ∈ ys, get? e.1 xs = some e.2) → merge xs ys = xs := by
    intro ys hys
    induction ys with
    | nil => rfl
    | cons e rest ih =>
      obtain ⟨he, hrest⟩ := List.forall_mem_cons.mp hys
      rw [merge_cons, insert_of_get? he, ih hrest]
  exact hheld xs fun e he => get?_of_mem h he

end KeyByKey

/-! ## Other spellings and values

A change of the spelling of all keys that keeps apart what was apart, and of the values under them,
commutes with every operation.
-/

/-- The map with each key spelled as `f` says, and under it what `g` says. -/
def mapWith (f : κ → κ) (g : κ → ν → ν) (xs : Entries κ ν) : Entries κ ν :=
  xs.map fun e => (f e.1, g e.1 e.2)

omit [BEq κ] in
theorem keys_mapWith (f : κ → κ) (g : κ → ν → ν) (xs : Entries κ ν) :
    keys (mapWith f g xs) = (keys xs).map f := by
  simp [keys, mapWith]

section MapWith

variable {f : κ → κ} {g : κ → ν → ν} (hf : ∀ j k, (f j == f k) = (j == k))
  (hg : ∀ j k, (j == k) = true → g j = g k)

include hf hg

theorem get?_mapWith (k : κ) (xs : Entries κ ν) :
    get? (f k) (mapWith f g xs) = (get? k xs).map (g k) := by
  induction xs with
  | nil => rfl
  | cons e rest ih =>
    obtain ⟨j, v⟩ := e
    show (if f j == f k then some (g j v) else get? (f k) (mapWith f g rest)) =
      (if j == k then some v else get? k rest).map (g k)
    rw [hf, ih]
    by_cases h : j == k
    · rw [if_pos h, if_pos h, hg j k h]
      rfl
    · rw [if_neg h, if_neg h]

theorem insert_mapWith (k : κ) (v : ν) (xs : Entries κ ν) :
    insert (f k) (g k v) (mapWith f g xs) = mapWith f g (insert k v xs) := by
  induction xs with
  | nil => rfl
  | cons e rest ih =>
    obtain ⟨j, w⟩ := e
    show (if f j == f k then (f j, g k v) :: mapWith f g rest
        else (f j, g j w) :: insert (f k) (g k v) (mapWith f g rest)) =
      mapWith f g (if j == k then (j, v) :: rest else (j, w) :: insert k v rest)
    rw [hf, ih]
    by_cases h : j == k
    · rw [if_pos h, if_pos h, ← hg j k h]
      rfl
    · rw [if_neg h, if_neg h]
      rfl

theorem merge_mapWith (xs ys : Entries κ ν) :
    merge (mapWith f g xs) (mapWith f g ys) = mapWith f g (merge xs ys) := by
  induction ys generalizing xs with
  | nil => rfl
  | cons e rest ih =>
    rw [merge_cons, ← ih, ← insert_mapWith hf hg]
    rfl

theorem mergeAll_mapWith (maps : List (Entries κ ν)) :
    mergeAll (maps.map (mapWith f g)) = mapWith f g (mergeAll maps) := by
  have hflatten : (maps.map (mapWith f g)).flatten = mapWith f g maps.flatten :=
    List.map_flatten.symm
  rw [mergeAll_eq_merge_flatten, mergeAll_eq_merge_flatten, hflatten, ← merge_mapWith hf hg]
  rfl

end MapWith

end Entries

/-! ## Keys that are texts -/

namespace Value

/-- A text has no other spelling as a key. -/
theorem eq_of_beq_str {v : Value} {t : String} (h : (v == Value.str t) = true) : v = .str t := by
  rw [beq_iff] at h
  cases v with
  | str s => simpa [keyCode?] using h
  | tuple items =>
    simp only [keyCode?, Option.bind_eq_bind, Option.bind_eq_some_iff] at h
    obtain ⟨codes, -, h⟩ := h
    simp at h
  | float x =>
    simp only [keyCode?, Option.some.injEq, List.cons.injEq, and_true] at h
    split at h <;> simp at h
  | _ => simp [keyCode?] at h

/-- Texts that come again as keys are the texts that come again. -/
theorem eraseDups_map_str (ts : List String) :
    (ts.map Value.str).eraseDups = ts.eraseDups.map .str := by
  suffices h : ∀ seen : List String,
      List.eraseDupsBy.loop (· == ·) (ts.map Value.str) (seen.map .str) =
        (List.eraseDupsBy.loop (· == ·) ts seen).map .str from h []
  intro seen
  induction ts generalizing seen with
  | nil => simp [List.eraseDupsBy.loop]
  | cons t rest ih =>
    have hany : (seen.map Value.str).any (.str t == ·) = seen.any (t == ·) := by
      rw [List.any_map]
      exact congrArg seen.any (funext fun s => beq_str t s)
    rw [List.map_cons, List.eraseDupsBy.loop, List.eraseDupsBy.loop, hany]
    cases seen.any (t == ·) with
    | true => exact ih seen
    | false => exact ih (t :: seen)

end Value

end BoundSql

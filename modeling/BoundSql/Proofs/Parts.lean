import BoundSql.Builder
import BoundSql.Proofs.Entries

/-!
# Parts of fragments, builders and values

Three functions say where fragments can be found:

* `Fragment.children`: the fragments that a fragment holds as its parts, one level down;
* `Builder.children`: the fragments in the slots whose values a builder collects;
* `Value.fragments`: the fragments that one comes across in a value by looking into lists, tuples
  and maps, but not into fragments. Whatever a constructor takes out of an argument is found
  there.

`Fragment.bindings` and `Builder.bindings` are then merges over children, whichever the class of
the fragment and the order of the slots; a property of maps that survives a merge passes from
the children to the whole (`Fragment.bindings_of_children`, `Builder.bindings_of_children`).
-/

set_option autoImplicit false

namespace BoundSql

/-- The fragment that a value is. -/
def Value.fragment? : Value → Option Fragment
  | .fragment f _ => some f
  | _ => none

/-- The parts of a fragment that are fragments themselves. What a nested statement was made from
is no part of it. -/
def Fragment.children : Fragment → List Fragment
  | .column _ | .placeholder .. | .null | .subSelect _ | .union .. => []
  | .raw parts => parts.filterMap Value.fragment?
  | .cast operand _ => [operand]
  | .function _ args => args
  | .filter c => c.left :: c.right.toList
  | .projection target _ => [target]
  | .group _ conditions => conditions.filterMap Value.fragment?
  | .join j => j.table :: j.condition.toList
  | .branch b => [.filter b.condition, .subSelect b.result]
  | .fallback s => [.subSelect s]
  | .choice _ branches last => branches.map .branch ++ (last.map .fallback).toList

/-- The fragments in the slots of a builder, apart from the limit and the offset. -/
def Builder.children (b : Builder) : List Fragment :=
  b.fields.filterMap Value.fragment? ++ b.table.toList ++ b.joins.map .join
    ++ b.filters.map .filter ++ b.groups.filterMap Value.fragment?
    ++ b.order.filterMap Value.fragment?

mutual

/-- The fragments that one comes across in a value. -/
def Value.fragments : Value → List Fragment
  | .list items | .tuple items => Value.fragmentsEach items
  | .dict entries => Value.fragmentsEntries entries
  | .fragment f _ => [f]
  | _ => []
termination_by structural v => v

/-- The fragments that one comes across in the items of a list. -/
def Value.fragmentsEach : List Value → List Fragment
  | [] => []
  | v :: rest => v.fragments ++ Value.fragmentsEach rest
termination_by structural vs => vs

/-- The fragments that one comes across in the entries of a map. -/
def Value.fragmentsEntries : List (Value × Value) → List Fragment
  | [] => []
  | e :: rest => Value.fragmentsEntry e ++ Value.fragmentsEntries rest
termination_by structural es => es

/-- The fragments that one comes across in one entry of a map. -/
def Value.fragmentsEntry : Value × Value → List Fragment
  | (k, v) => k.fragments ++ v.fragments
termination_by structural e => e

end

/-- All fragments that one comes across in a value have a property. -/
def Value.Every (P : Fragment → Prop) (v : Value) : Prop := ∀ f ∈ v.fragments, P f

namespace Value

variable {P : Fragment → Prop}

/-! ## Looking into values -/

theorem fragmentsEach_eq_flatMap (items : List Value) :
    fragmentsEach items = items.flatMap fragments := by
  induction items with
  | nil => rfl
  | cons v rest ih =>
    show v.fragments ++ fragmentsEach rest = _
    rw [ih, List.flatMap_cons]

theorem fragmentsEntries_eq_flatMap (entries : List (Value × Value)) :
    fragmentsEntries entries = entries.flatMap fun e => e.1.fragments ++ e.2.fragments := by
  induction entries with
  | nil => rfl
  | cons e rest ih =>
    obtain ⟨k, v⟩ := e
    show (k.fragments ++ v.fragments) ++ fragmentsEntries rest = _
    rw [ih, List.flatMap_cons]

@[simp] theorem fragments_fragment (f : Fragment) (origin : Origin) :
    (Value.fragment f origin).fragments = [f] := rfl

theorem fragments_list (items : List Value) :
    (Value.list items).fragments = items.flatMap fragments :=
  fragmentsEach_eq_flatMap items

theorem fragments_tuple (items : List Value) :
    (Value.tuple items).fragments = items.flatMap fragments :=
  fragmentsEach_eq_flatMap items

theorem fragments_dict (entries : List (Value × Value)) :
    (Value.dict entries).fragments = entries.flatMap fun e => e.1.fragments ++ e.2.fragments :=
  fragmentsEntries_eq_flatMap entries

@[simp] theorem every_fragment {f : Fragment} {origin : Origin} :
    (Value.fragment f origin).Every P ↔ P f := by
  simp [Every]

/-- Both kinds of sequences hold what their items hold. -/
theorem every_flatMap {v : Value} {items : List Value}
    (h : v.fragments = items.flatMap fragments) : v.Every P ↔ ∀ x ∈ items, x.Every P := by
  simp only [Every, h, List.mem_flatMap]
  exact ⟨fun h v hv f hf => h f ⟨v, hv, hf⟩, fun h f ⟨v, hv, hf⟩ => h v hv f hf⟩

@[simp] theorem every_list {items : List Value} :
    (Value.list items).Every P ↔ ∀ v ∈ items, v.Every P :=
  every_flatMap (fragments_list items)

@[simp] theorem every_tuple {items : List Value} :
    (Value.tuple items).Every P ↔ ∀ v ∈ items, v.Every P :=
  every_flatMap (fragments_tuple items)

@[simp] theorem every_dict {entries : List (Value × Value)} :
    (Value.dict entries).Every P ↔ ∀ e ∈ entries, e.1.Every P ∧ e.2.Every P := by
  simp only [Every, fragments_dict, List.mem_flatMap, List.mem_append]
  constructor
  · intro h e he
    exact ⟨fun f hf => h f ⟨e, he, Or.inl hf⟩, fun f hf => h f ⟨e, he, Or.inr hf⟩⟩
  · rintro h f ⟨e, he, hf | hf⟩
    · exact (h e he).1 f hf
    · exact (h e he).2 f hf

/-- A value in which one comes across no fragment. -/
theorem every_of_fragments_eq_nil {v : Value} (h : v.fragments = []) : v.Every P := by
  intro f hf
  rw [h] at hf
  cases hf

@[simp] theorem every_null : Value.null.Every P := every_of_fragments_eq_nil rfl

@[simp] theorem every_str (s : String) : (Value.str s).Every P := every_of_fragments_eq_nil rfl

@[simp] theorem every_int (n : Int) : (Value.int n).Every P := every_of_fragments_eq_nil rfl

@[simp] theorem every_options (o : Options) : (Value.options o).Every P :=
  every_of_fragments_eq_nil rfl

@[simp] theorem every_callback (c : Callback) (origin : Origin) :
    (Value.callback c origin).Every P :=
  every_of_fragments_eq_nil rfl

theorem every_atom (a : Atom) (origin : Origin) : (a.value origin).Every P := by
  cases a <;> exact every_of_fragments_eq_nil rfl

/-- Running through a value brings up no new fragments. -/
theorem Every.of_items? {v : Value} {items : List Value} (h : v.Every P)
    (hi : v.items? = some items) : ∀ x ∈ items, x.Every P := by
  intro x hx
  cases v with
  | list _ | tuple _ =>
    cases hi
    simp only [every_list, every_tuple] at h
    exact h x hx
  | str s =>
    cases hi
    obtain ⟨c, -, rfl⟩ := List.mem_map.mp hx
    exact every_str _
  | bytes b =>
    cases hi
    obtain ⟨c, -, rfl⟩ := List.mem_map.mp hx
    exact every_int _
  | dict entries =>
    cases hi
    obtain ⟨e, he, rfl⟩ := List.mem_map.mp hx
    exact (every_dict.mp h e he).1
  | options o =>
    cases hi
    -- Three pairs of a name and a plain value.
    simp only [List.mem_cons, List.not_mem_nil, or_false] at hx
    rcases hx with rfl | rfl | rfl
    · simp
    · cases o.defaultLimit <;> simp [ofLimit]
    · cases o.maxLimit <;> simp [ofLimit]
  | _ => exact absurd hi (by simp [items?])

theorem Every.of_items {v : Value} {items : List Value} (h : v.Every P)
    (hi : v.items = .ok items) : ∀ x ∈ items, x.Every P := by
  unfold Value.items at hi
  split at hi
  · cases hi
    exact h.of_items? ‹_›
  · exact absurd hi (by simp)

theorem every_of_get? {k v : Value} {entries : List (Value × Value)}
    (h : (Value.dict entries).Every P) (hg : Entries.get? k entries = some v) : v.Every P := by
  obtain ⟨j, hj, -⟩ := Entries.exists_mem_of_get? hg
  exact (every_dict.mp h _ hj).2

theorem every_insert {k v : Value} {entries : List (Value × Value)} (hk : k.Every P)
    (hv : v.Every P) (h : (Value.dict entries).Every P) :
    (Value.dict (Entries.insert k v entries)).Every P := by
  rw [every_dict] at h ⊢
  rintro ⟨j, w⟩ he
  rcases Entries.mem_of_mem_insert he with he | ⟨rfl, rfl | ⟨hj, -⟩⟩
  · exact h _ he
  · exact ⟨hk, hv⟩
  · obtain ⟨u, hu⟩ := Entries.exists_mem_of_mem_keys hj
    exact ⟨(h _ hu).1, hv⟩

theorem Every.of_fragment? {v : Value} {f : Fragment} (h : v.Every P)
    (hf : v.fragment? = some f) : P f := by
  cases v with
  | fragment g _ =>
    cases hf
    exact every_fragment.mp h
  | _ => exact absurd hf (by simp [fragment?])

end Value

/-! ## Maps from children -/

section Bindings

variable {Q : Bindings → Prop}

/-- What survives a merge of two maps survives one of any number of maps. -/
theorem Entries.mergeAll_of_all {κ ν : Type} [BEq κ] {Q : Entries κ ν → Prop} (nil : Q [])
    (merge : ∀ {xs ys}, Q xs → Q ys → Q (Entries.merge xs ys)) {maps : List (Entries κ ν)}
    (h : ∀ m ∈ maps, Q m) : Q (Entries.mergeAll maps) := by
  suffices hs : ∀ acc : Entries κ ν, Q acc → Q (maps.foldl Entries.merge acc) from hs [] nil
  intro acc hacc
  induction maps generalizing acc with
  | nil => exact hacc
  | cons m maps ih =>
    exact ih (fun m' hm' => h m' (List.mem_cons_of_mem _ hm')) _
      (merge hacc (h m List.mem_cons_self))

theorem Value.bindings_of_fragment? (nil : Q []) {v : Value}
    (h : ∀ f, v.fragment? = some f → Q f.bindings) : Q v.bindings := by
  cases v with
  | fragment f _ => exact h f rfl
  | _ => exact nil

theorem Fragment.bindings?_of_toList (nil : Q []) {f : Option Fragment}
    (h : ∀ g ∈ f.toList, Q g.bindings) : Q (Fragment.bindings? f) := by
  cases f with
  | none => exact nil
  | some f => exact h f (by simp)

variable (nil : Q []) (merge : ∀ {xs ys}, Q xs → Q ys → Q (Entries.merge xs ys))

include nil merge

theorem Value.bindings_of_fragments {items : List Value}
    (h : ∀ f ∈ items.filterMap Value.fragment?, Q f.bindings) : Q (Value.bindingsOf items) := by
  refine Entries.mergeAll_of_all nil merge fun m hm => ?_
  rw [Value.bindingsEach_eq_map] at hm
  obtain ⟨v, hv, rfl⟩ := List.mem_map.mp hm
  exact Value.bindings_of_fragment? nil fun f hf => h f (List.mem_filterMap.mpr ⟨v, hv, hf⟩)

/-- **The map of a fragment is gathered from its children**, unless the fragment binds a value
itself or is a nested statement. -/
theorem Fragment.bindings_of_children {f : Fragment}
    (leaf : ∀ p v, f = .placeholder p v → Q f.bindings)
    (subSelect : ∀ s, f = .subSelect s → Q s.bound)
    (union : ∀ members modifier bound, f = .union members modifier bound → Q bound)
    (h : ∀ g ∈ f.children, Q g.bindings) : Q f.bindings := by
  have two : ∀ {a b : Bindings}, Q a → Q b → Q (Entries.mergeAll [a, b]) := by
    intro a b ha hb
    exact Entries.mergeAll_of_all nil merge (by simp [ha, hb])
  cases f with
  | column _ | null => exact nil
  | placeholder p v => exact leaf p v rfl
  | raw parts => exact Value.bindings_of_fragments nil merge h
  | cast operand _ => exact h operand List.mem_cons_self
  | function _ args =>
    refine Entries.mergeAll_of_all nil merge fun m hm => ?_
    rw [Fragment.bindingsEach_eq_map] at hm
    obtain ⟨g, hg, rfl⟩ := List.mem_map.mp hm
    exact h g hg
  | filter c =>
    obtain ⟨left, right, _, _, _⟩ := c
    refine two (h left List.mem_cons_self) ?_
    exact Fragment.bindings?_of_toList nil fun g hg => h g (List.mem_cons_of_mem _ hg)
  | projection target _ => exact h target List.mem_cons_self
  | group _ conditions => exact Value.bindings_of_fragments nil merge h
  | subSelect s => exact subSelect s rfl
  | union members modifier bound => exact union members modifier bound rfl
  | join j =>
    obtain ⟨_, _, table, _, condition⟩ := j
    refine two (h table List.mem_cons_self) ?_
    exact Fragment.bindings?_of_toList nil fun g hg => h g (List.mem_cons_of_mem _ hg)
  | branch b =>
    obtain ⟨condition, result⟩ := b
    exact two (h (.filter condition) List.mem_cons_self)
      (h (.subSelect result) (by simp [Fragment.children]))
  | fallback s => exact h (.subSelect s) List.mem_cons_self
  | choice _ branches last =>
    refine Entries.mergeAll_of_all nil merge fun m hm => ?_
    rw [Branch.bindingsEach_eq_map] at hm
    rcases List.mem_append.mp hm with hm | hm
    · obtain ⟨b, hb, rfl⟩ := List.mem_map.mp hm
      exact h (.branch b) (List.mem_append_left _ (List.mem_map_of_mem hb))
    · cases last with
      | none => exact absurd hm (by simp)
      | some s =>
        obtain rfl : m = s.bound := by simpa using hm
        exact h (.fallback s) (List.mem_append_right _ (by simp))

/-- **The map of a builder is gathered from its children** and from what was bound by hand. -/
theorem Builder.bindings_of_children {b : Builder} (extra : Q b.extra)
    (h : ∀ g ∈ b.children, Q g.bindings) : Q b.bindings := by
  simp only [Builder.children, List.mem_append] at h
  refine Entries.mergeAll_of_all nil merge fun m hm => ?_
  simp only [List.mem_cons, List.not_mem_nil, or_false] at hm
  rcases hm with rfl | rfl | rfl | rfl | rfl | rfl | rfl
  · exact extra
  · exact Fragment.bindings?_of_toList nil fun g hg => h g (by simp [hg])
  · exact Value.bindings_of_fragments nil merge fun g hg => h g (by simp [hg])
  · refine Entries.mergeAll_of_all nil merge fun m hm => ?_
    obtain ⟨j, hj, rfl⟩ := List.mem_map.mp hm
    exact h (.join j) (by simp [hj])
  · refine Entries.mergeAll_of_all nil merge fun m hm => ?_
    obtain ⟨c, hc, rfl⟩ := List.mem_map.mp hm
    exact h (.filter c) (by simp [hc])
  · exact Value.bindings_of_fragments nil merge fun g hg => h g (by simp [hg])
  · exact Value.bindings_of_fragments nil merge fun g hg => h g (by simp [hg])

end Bindings

/-! ## Keys of children

A name that a child binds is a key of the whole, whatever else is merged into its map: names have
one spelling only.
-/

theorem Bindings.str_mem_keys_mergeAll {maps : List Bindings} {m : Bindings} (hm : m ∈ maps)
    {t : String} (ht : .str t ∈ Entries.keys m) : .str t ∈ Entries.keys (Entries.mergeAll maps) := by
  obtain ⟨j, hj, hjt⟩ := Entries.exists_key_mergeAll hm ht
  rwa [← Value.eq_of_beq_str hjt]

theorem Value.str_mem_keys_bindingsOf {items : List Value} {g : Fragment}
    (hg : g ∈ items.filterMap Value.fragment?) {t : String}
    (ht : .str t ∈ Entries.keys g.bindings) : .str t ∈ Entries.keys (Value.bindingsOf items) := by
  obtain ⟨v, hv, hf⟩ := List.mem_filterMap.mp hg
  refine Bindings.str_mem_keys_mergeAll (m := v.bindings) ?_ ?_
  · rw [Value.bindingsEach_eq_map]
    exact List.mem_map_of_mem hv
  · cases v with
    | fragment f _ =>
      cases hf
      exact ht
    | _ => exact absurd hf (by simp [Value.fragment?])

/-- The map of a fragment with one part and perhaps another one. -/
theorem Fragment.str_mem_keys_pair (f : Fragment) (f' : Option Fragment) {g : Fragment}
    (hg : g ∈ f :: f'.toList) {t : String} (ht : .str t ∈ Entries.keys g.bindings) :
    .str t ∈ Entries.keys (Entries.mergeAll [f.bindings, Fragment.bindings? f']) := by
  rcases List.mem_cons.mp hg with rfl | hg
  · exact Bindings.str_mem_keys_mergeAll List.mem_cons_self ht
  · refine Bindings.str_mem_keys_mergeAll (m := Fragment.bindings? f') (by simp) ?_
    rw [Option.mem_toList.mp hg]
    exact ht

theorem Fragment.str_mem_keys_of_child {f g : Fragment} (hg : g ∈ f.children) {t : String}
    (ht : .str t ∈ Entries.keys g.bindings) : .str t ∈ Entries.keys f.bindings := by
  cases f with
  | column | placeholder | null | subSelect | union =>
    exact absurd hg (by simp [Fragment.children])
  | raw | group => exact Value.str_mem_keys_bindingsOf hg ht
  | cast | projection | fallback =>
    cases List.mem_singleton.mp hg
    exact ht
  | function name args =>
    refine Bindings.str_mem_keys_mergeAll ?_ ht
    rw [Fragment.bindingsEach_eq_map]
    exact List.mem_map_of_mem hg
  | filter c =>
    obtain ⟨left, right, _, _, _⟩ := c
    exact str_mem_keys_pair left right hg ht
  | join j =>
    obtain ⟨_, _, table, _, condition⟩ := j
    exact str_mem_keys_pair table condition hg ht
  | branch b =>
    obtain ⟨condition, result⟩ := b
    refine Bindings.str_mem_keys_mergeAll ?_ ht
    rcases List.mem_cons.mp hg with rfl | hg
    · exact List.mem_cons_self
    · rw [List.mem_singleton.mp hg]
      exact List.mem_cons_of_mem _ List.mem_cons_self
  | choice name branches last =>
    refine Bindings.str_mem_keys_mergeAll (List.mem_append.mpr ?_) ht
    rcases List.mem_append.mp hg with hg | hg
    · obtain ⟨b, hb, rfl⟩ := List.mem_map.mp hg
      rw [Branch.bindingsEach_eq_map]
      exact Or.inl (List.mem_map_of_mem hb)
    · obtain ⟨s, hs, rfl⟩ := Option.map_eq_some_iff.mp (Option.mem_toList.mp hg)
      rw [hs]
      exact Or.inr List.mem_cons_self

theorem Builder.str_mem_keys_of_child {b : Builder} {g : Fragment} (hg : g ∈ b.children)
    {t : String} (ht : .str t ∈ Entries.keys g.bindings) : .str t ∈ Entries.keys b.bindings := by
  simp only [Builder.children, List.mem_append] at hg
  -- One map for each slot; the map of the fragment is a part of that of its slot.
  have slot : ∀ {m : Bindings}, .str t ∈ Entries.keys m → m ∈
      [b.extra, Fragment.bindings? b.table, Value.bindingsOf b.fields,
        Entries.mergeAll (b.joins.map Join.bindings),
        Entries.mergeAll (b.filters.map Filter.bindings), Value.bindingsOf b.order,
        Value.bindingsOf b.groups] → .str t ∈ Entries.keys b.bindings :=
    fun hm hmem => Bindings.str_mem_keys_mergeAll hmem hm
  rcases hg with ((((hg | hg) | hg) | hg) | hg) | hg
  · exact slot (Value.str_mem_keys_bindingsOf hg ht) (by simp)
  · refine slot (m := Fragment.bindings? b.table) ?_ (by simp)
    rw [Option.mem_toList.mp hg]
    exact ht
  · obtain ⟨j, hj, rfl⟩ := List.mem_map.mp hg
    exact slot (Bindings.str_mem_keys_mergeAll (List.mem_map_of_mem hj) ht) (by simp)
  · obtain ⟨c, hc, rfl⟩ := List.mem_map.mp hg
    exact slot (Bindings.str_mem_keys_mergeAll (List.mem_map_of_mem hc) ht) (by simp)
  · exact slot (Value.str_mem_keys_bindingsOf hg ht) (by simp)
  · exact slot (Value.str_mem_keys_bindingsOf hg ht) (by simp)

end BoundSql

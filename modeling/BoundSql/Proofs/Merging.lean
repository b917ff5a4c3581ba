import BoundSql.Fragment.Bindings
import BoundSql.Proofs.Entries
import BoundSql.Proofs.Parts
import BoundSql.Value.Sequence
import Mathlib.Data.List.ReduceOption

/-!
# Merges of values

Whatever is bound in a statement has been merged many times over on its way up, so how values were
grouped on that way must not show. It does not, and for every kind of value: to merge groups and
then their results is to merge all values in a row, and if one of them can not be taken over, the
same fault comes out (`mergeValues_groups`). The reason is that what is taken over from a value does
not depend on what has been taken over before, which can just as well be put in front afterwards
(`mergeValues_merge`).

Of maps alone a merge is `Entries.mergeAll`, so what it holds is said there.
-/

set_option autoImplicit false

namespace BoundSql

/-- What a merge is given for a map, or in place of one. -/
def Value.ofMap : Option Bindings → Value
  | none => .null
  | some m => .dict m

namespace Bindings

open Entries (merge mergeAll Distinct)

/-! ## One value after the other -/

theorem mergeValues_append (vs ws : List Value) (acc : Bindings) :
    mergeValues (vs ++ ws) acc = mergeValues vs acc >>= mergeValues ws := by
  induction vs generalizing acc with
  | nil => rfl
  | cons v rest ih =>
    rw [List.cons_append, mergeValues, mergeValues]
    split
    · rcases absorb v acc with ⟨_ | fault, acc⟩
      · exact ih acc
      · rfl
    · exact ih acc

/-- **A merge of maps**, some of them absent, is the merge of those that are there. -/
theorem mergeValues_ofMap (maps : List (Option Bindings)) :
    mergeValues (maps.map .ofMap) [] = .ok (mergeAll maps.reduceOption) := by
  suffices h : ∀ acc, mergeValues (maps.map .ofMap) acc =
      .ok (maps.reduceOption.foldl merge acc) from h []
  intro acc
  induction maps generalizing acc with
  | nil => rfl
  | cons m rest ih =>
    cases m with
    | none =>
      rw [List.map_cons, Value.ofMap, mergeValues_of_not_isTruthy rfl, ih,
        List.reduceOption_cons_of_none]
    | some m =>
      rw [List.map_cons, Value.ofMap, mergeValues_dict, ih, List.reduceOption_cons_of_some,
        List.foldl_cons]

theorem mergeValues_pair (m m' : Bindings) :
    mergeValues [.dict m, .dict m'] [] = .ok (mergeAll [m, m']) :=
  mergeValues_ofMap [some m, some m']

/-! ## Any grouping

What has been taken over before is put in front of what is taken over now.
-/

theorem absorbPairs_merge {acc : Bindings} (h : Distinct acc) (items : List Value)
    (xs : Bindings) :
    absorbPairs items (merge xs acc) = (absorbPairs items acc).map id (merge xs) := by
  induction items generalizing acc with
  | nil => rfl
  | cons v rest ih =>
    rw [absorbPairs, absorbPairs]
    cases entry v with
    | error fault => rfl
    | ok e =>
      show absorbPairs rest (Entries.insert e.1 e.2 (merge xs acc)) = _
      rw [← Entries.merge_insert h]
      exact ih (Entries.distinct_insert h e.1 e.2)

theorem absorb_merge {acc : Bindings} (h : Distinct acc) (v : Value) (xs : Bindings) :
    absorb v (merge xs acc) = (absorb v acc).map id (merge xs) := by
  unfold absorb
  split
  · rw [← Entries.merge_merge h]
    rfl
  · split
    · exact absorbPairs_merge h _ xs
    · rfl

theorem distinct_absorbPairs {acc : Bindings} (h : Distinct acc) (items : List Value) :
    Distinct (absorbPairs items acc).2 := by
  induction items generalizing acc with
  | nil => exact h
  | cons v rest ih =>
    rw [absorbPairs]
    cases entry v with
    | error fault => exact h
    | ok e => exact ih (Entries.distinct_insert h e.1 e.2)

theorem distinct_absorb {acc : Bindings} (h : Distinct acc) (v : Value) :
    Distinct (absorb v acc).2 := by
  unfold absorb
  split
  · exact Entries.distinct_merge h _
  · split
    · exact distinct_absorbPairs h _
    · exact h

theorem mergeValues_merge {acc : Bindings} (h : Distinct acc) (vs : List Value) (xs : Bindings) :
    mergeValues vs (merge xs acc) = (mergeValues vs acc).map (merge xs) := by
  induction vs generalizing acc with
  | nil => rfl
  | cons v rest ih =>
    rw [mergeValues, mergeValues, absorb_merge h]
    split
    · have hdistinct := distinct_absorb h v
      generalize absorb v acc = taken at hdistinct
      obtain ⟨_ | fault, acc⟩ := taken
      · exact ih hdistinct
      · rfl
    · exact ih h

/-- **The grouping of a merge does not show**, in its result or in its fault. -/
theorem mergeValues_groups (groups : List (List Value)) :
    (groups.mapM fun vs => mergeValues vs []) >>= (fun ms => mergeValues (ms.map .dict) []) =
      mergeValues groups.flatten [] := by
  suffices h : ∀ acc, ((groups.mapM fun vs => mergeValues vs []) >>= fun ms =>
      mergeValues (ms.map .dict) acc) = mergeValues groups.flatten acc from h []
  intro acc
  induction groups generalizing acc with
  | nil => rfl
  | cons vs rest ih =>
    have hfirst : mergeValues vs acc = (mergeValues vs []).map (merge acc) :=
      mergeValues_merge Entries.distinct_nil vs acc
    rw [List.mapM_cons, List.flatten_cons, mergeValues_append, hfirst]
    cases mergeValues vs [] with
    | error fault => rfl
    | ok m =>
      show _ = mergeValues rest.flatten (merge acc m)
      rw [← ih]
      cases rest.mapM fun vs => mergeValues vs [] with
      | error fault => rfl
      | ok ms => exact mergeValues_dict m _ acc

/-! ## Items in a row -/

/-- **What a list of items binds** is the merge of what the fragments among them bind, in a row.
Other items contribute nothing. -/
theorem mergeValues_fragments (items : List Value) :
    mergeValues ((items.filterMap Value.fragment?).map fun f => .dict f.bindings) [] =
      .ok (Value.bindingsOf items) := by
  suffices h : ∀ acc, mergeValues ((items.filterMap Value.fragment?).map fun f =>
      .dict f.bindings) acc = .ok ((Value.bindingsEach items).foldl merge acc) from h []
  intro acc
  induction items generalizing acc with
  | nil => rfl
  | cons v rest ih =>
    cases v with
    | fragment f origin =>
      exact (mergeValues_dict f.bindings _ acc).trans (ih (merge acc f.bindings))
    | _ => exact ih acc

/-- **Lists of items are merged one after the other.** -/
theorem bindingsOf_append (xs ys : List Value) :
    Value.bindingsOf (xs ++ ys) = mergeAll [Value.bindingsOf xs, Value.bindingsOf ys] := by
  have hrows := Entries.mergeAll_map_mergeAll [Value.bindingsEach xs, Value.bindingsEach ys]
  refine Eq.trans (congrArg mergeAll ?_) hrows.symm
  simp [Value.bindingsEach_eq_map]

/-- The values of one run win over those of the statement, as in a merge. -/
theorem withRuntime_dict {params : Bindings} (h : Distinct params) (runtime : Bindings) :
    withRuntime (.dict params) (.dict runtime) = .ok (mergeAll [params, runtime]) := by
  rw [Entries.mergeAll_pair h]
  rfl

/-! ## The main result -/

/-- **The laws of merging.** A merge of maps, some of which may be absent, always succeeds. It has
all keys in the order in which they first occur, and under each of them the value of the last map
that holds it; to merge it with itself changes nothing. Values of any kind can be merged in groups
first and their results then, and what is absent or empty can be put in or left out anywhere. What
items bind is the merge of the maps of the fragments among them, to which any other item contributes
nothing, and what two lists of items bind together is the merge of what each of them binds. The
values of a statement are merged in the same way with those of one run. Nothing is asked of the keys
but that none comes twice in one map; where all of them are texts, they are compared as texts. -/
theorem merge_laws {maps : List (Option Bindings)} (hmaps : ∀ m, some m ∈ maps → Distinct m)
    {params : Bindings} (hparams : Distinct params) :
    (∃ m, mergeValues (maps.map .ofMap) [] = .ok m ∧
      Entries.keys m = (maps.reduceOption.flatMap Entries.keys).eraseDups ∧
      (∀ names : List String, maps.reduceOption.flatMap Entries.keys = names.map .str →
        Entries.keys m = names.eraseDups.map .str) ∧
      (∀ k, Entries.get? k m = maps.reduceOption.reverse.findSome? (Entries.get? k)) ∧
      mergeValues [.dict m, .dict m] [] = .ok m) ∧
    (∀ groups : List (List Value),
      (groups.mapM fun vs => mergeValues vs []) >>= (fun ms => mergeValues (ms.map .dict) []) =
        mergeValues groups.flatten []) ∧
    (∀ (before after : List Value) (v : Value), v = .null ∨ v = .dict [] →
      mergeValues (before ++ v :: after) [] = mergeValues (before ++ after) []) ∧
    (∀ items : List Value,
      mergeValues ((items.filterMap Value.fragment?).map fun f => .dict f.bindings) [] =
        .ok (Value.bindingsOf items)) ∧
    (∀ xs ys : List Value,
      mergeValues [.dict (Value.bindingsOf xs), .dict (Value.bindingsOf ys)] [] =
        .ok (Value.bindingsOf (xs ++ ys))) ∧
    ∀ runtime : Bindings, withRuntime (.dict params) (.dict runtime) =
      mergeValues [.dict params, .dict runtime] [] := by
  have hkeys := Entries.keys_mergeAll maps.reduceOption
  refine ⟨⟨mergeAll maps.reduceOption, mergeValues_ofMap maps, hkeys, ?_,
    Entries.get?_mergeAll fun m hm => hmaps m (List.reduceOption_mem_iff.mp hm), ?_⟩,
    mergeValues_groups, ?_, mergeValues_fragments, ?_, ?_⟩
  · intro names hnames
    rw [hkeys, hnames, Value.eraseDups_map_str]
  · have hdistinct := Entries.distinct_mergeAll maps.reduceOption
    rw [mergeValues_pair, Entries.mergeAll_pair hdistinct, Entries.merge_self hdistinct]
  · intro before after v hv
    have hskip : v.isTruthy = false := by rcases hv with rfl | rfl <;> rfl
    rw [mergeValues_append, mergeValues_append]
    exact congrArg (_ >>= ·) (funext (mergeValues_of_not_isTruthy hskip after))
  · intro xs ys
    rw [mergeValues_pair, bindingsOf_append]
  · intro runtime
    rw [mergeValues_pair, withRuntime_dict hparams]

/-- Two maps that share a key, and between them one that is absent and one that is empty. -/
def overlapping : List (Option Bindings) :=
  [some [(.str "a", .int 1), (.str "b", .int 2)], none, some [],
    some [(.str "c", .int 3), (.str "a", .int 4)]]

/-- The shared key stays in front and takes the later value, also if the maps are merged in two
groups; as the values of a statement and of one run, the two maps are merged in the same way. -/
theorem merge_laws_overlapping :
    (∀ m, some m ∈ overlapping → Distinct m) ∧
    Distinct [(Value.str "a", Value.int 1), (.str "b", .int 2)] ∧
    ∃ m, mergeValues (overlapping.map .ofMap) [] = .ok m ∧
      Entries.keys m = [.str "a", .str "b", .str "c"] ∧
      Entries.get? (.str "a") m = some (.int 4) ∧ Entries.get? (.str "b") m = some (.int 2) ∧
      mergeValues [.dict m, .dict m] [] = .ok m ∧
      (do
        let first ← mergeValues ((overlapping.take 2).map .ofMap) []
        let second ← mergeValues ((overlapping.drop 2).map .ofMap) []
        mergeValues [.dict first, .dict second] []) = .ok m ∧
      withRuntime (.dict [(.str "a", .int 1), (.str "b", .int 2)])
        (.dict [(.str "c", .int 3), (.str "a", .int 4)]) = .ok m := by
  have hmaps : ∀ m, some m ∈ overlapping → Distinct m := by
    intro m hm
    simp only [overlapping, List.mem_cons, Option.some.injEq, reduceCtorEq, false_or,
      List.not_mem_nil, or_false] at hm
    rcases hm with rfl | rfl | rfl <;> decide
  have hparams : Distinct [(Value.str "a", Value.int 1), (.str "b", .int 2)] := by decide
  obtain ⟨⟨m, hm, -, hkeys, hvalues, hself⟩, hgroups, hskip, -, -, hruntime⟩ :=
    merge_laws hmaps hparams
  refine ⟨hmaps, hparams, m, hm, (hkeys ["a", "b", "c", "a"] rfl).trans rfl,
    (hvalues _).trans rfl, (hvalues _).trans rfl, hself, ?_, ?_⟩
  · exact (hgroups [(overlapping.take 2).map .ofMap, (overlapping.drop 2).map .ofMap]).trans hm
  · rw [hruntime, ← hm]
    -- Without the two arguments in the middle only the maps themselves are left.
    have hempty := hskip [.dict [(.str "a", .int 1), (.str "b", .int 2)]]
      [.dict [(.str "c", .int 3), (.str "a", .int 4)]] (.dict []) (Or.inr rfl)
    have habsent := hskip [.dict [(.str "a", .int 1), (.str "b", .int 2)]]
      [.dict [], .dict [(.str "c", .int 3), (.str "a", .int 4)]] .null (Or.inl rfl)
    exact (habsent.trans hempty).symm

end Bindings

end BoundSql

import BoundSql.Proofs.Discipline

/-!
# The leaves of a fragment

A fragment is a tree, and whatever it binds is bound by leaves of this tree: by a placeholder one
value, and by a nested statement or a union the map that was captured when it was made. Every
fragment above merges what its children bind, each class in its own way, and the merge of a child is
merged again further up.

All of this is one merge: that of what the leaves bind, from left to right
(`Fragment.bindings_eq_leaves`). All that is asked for is that a captured map is a map, in which no
key comes twice (`Fragment.OwnsMap`), and of what is made in a dialogue this is always true
(`Session.HasFragment.ownsMap`).
-/

set_option autoImplicit false

namespace BoundSql

/-- The property holds of the fragment, its children, their children, and so on. -/
inductive Fragment.Everywhere (P : Fragment → Prop) : Fragment → Prop where
  | intro {f : Fragment} (here : P f) (below : ∀ g ∈ f.children, Everywhere P g) : Everywhere P f

namespace Fragment

theorem Everywhere.mono {P Q : Fragment → Prop} (hPQ : ∀ f, P f → Q f) {f : Fragment}
    (h : f.Everywhere P) : f.Everywhere Q := by
  induction h with
  | intro here _ ih => exact .intro (hPQ _ here) ih

/-- Whether the property holds of a fragment and all below it, down to a depth that nothing lies
beneath. -/
def checkWithin (p : Fragment → Bool) : Nat → Fragment → Bool
  | 0, _ => false
  | depth + 1, f => p f && f.children.all (checkWithin p depth)

theorem everywhere_of_checkWithin {p : Fragment → Bool} (depth : Nat) {f : Fragment}
    (h : f.checkWithin p depth = true) : f.Everywhere fun g => p g = true := by
  induction depth generalizing f with
  | zero => cases h
  | succ depth ih =>
    rw [checkWithin, Bool.and_eq_true, List.all_eq_true] at h
    exact .intro h.1 fun g hg => ih (h.2 g hg)

theorem sizeOf_lt_of_fragment? {parts : List Value} {g : Fragment}
    (h : g ∈ parts.filterMap Value.fragment?) : sizeOf g < sizeOf parts := by
  obtain ⟨v, hv, hg⟩ := List.mem_filterMap.mp h
  have hlt := List.sizeOf_lt_of_mem hv
  cases v with
  | fragment f origin =>
    cases hg
    simp only [Value.fragment.sizeOf_spec] at hlt
    omega
  | _ => cases hg

/-- The size of a fragment, for which it counts that the statement of a fallback is no smaller. -/
noncomputable def rank : Fragment → Nat
  | .fallback s => 2 * sizeOf (Fragment.fallback s) + 1
  | f => 2 * sizeOf f

theorem rank_le (f : Fragment) : rank f ≤ 2 * sizeOf f + 1 := by
  cases f <;> simp only [rank] <;> omega

theorem le_rank (f : Fragment) : 2 * sizeOf f ≤ rank f := by
  cases f <;> simp only [rank] <;> omega

theorem sizeOf_lt_of_pair {f g : Fragment} {f' : Option Fragment} (h : g ∈ f :: f'.toList) :
    sizeOf g < sizeOf f + sizeOf f' := by
  cases f' with
  | none =>
    rw [List.mem_singleton.mp h]
    simp only [Option.none.sizeOf_spec]
    omega
  | some f' =>
    simp only [Option.toList_some, List.mem_cons, List.not_mem_nil, or_false] at h
    rcases h with rfl | rfl <;> simp only [Option.some.sizeOf_spec] <;> omega

/-- Children are smaller. -/
theorem rank_lt_of_mem_children {f g : Fragment} (h : g ∈ f.children) : rank g < rank f := by
  have hg := rank_le g
  have hf := le_rank f
  cases f with
  | column | placeholder | null | subSelect | union => cases h
  | raw parts | group c parts =>
    have hlt := sizeOf_lt_of_fragment? h
    simp only [raw.sizeOf_spec, group.sizeOf_spec] at hf
    omega
  | cast | projection =>
    obtain rfl := List.mem_singleton.mp h
    simp only [cast.sizeOf_spec, projection.sizeOf_spec] at hf
    omega
  | function name args =>
    have hlt : sizeOf g < sizeOf args := List.sizeOf_lt_of_mem h
    simp only [function.sizeOf_spec] at hf
    omega
  | filter c =>
    obtain ⟨left, right, _, _, _⟩ := c
    have hlt : sizeOf g < sizeOf left + sizeOf right := sizeOf_lt_of_pair h
    simp only [filter.sizeOf_spec, Filter.mk.sizeOf_spec] at hf
    omega
  | join j =>
    obtain ⟨_, _, table, _, condition⟩ := j
    have hlt : sizeOf g < sizeOf table + sizeOf condition := sizeOf_lt_of_pair h
    simp only [join.sizeOf_spec, Join.mk.sizeOf_spec] at hf
    omega
  | branch b =>
    obtain ⟨condition, result⟩ := b
    simp only [branch.sizeOf_spec, Branch.mk.sizeOf_spec] at hf
    simp only [children, List.mem_cons, List.not_mem_nil, or_false] at h
    rcases h with rfl | rfl
    · simp only [filter.sizeOf_spec] at hg
      omega
    · simp only [subSelect.sizeOf_spec] at hg
      omega
  | fallback s =>
    rw [List.mem_singleton.mp h]
    simp only [rank, subSelect.sizeOf_spec, fallback.sizeOf_spec]
    omega
  | choice name branches last =>
    simp only [choice.sizeOf_spec] at hf
    rcases List.mem_append.mp h with h | h
    · obtain ⟨b, hb, rfl⟩ := List.mem_map.mp h
      have hlt := List.sizeOf_lt_of_mem hb
      simp only [branch.sizeOf_spec] at hg
      omega
    · obtain ⟨s, hs, rfl⟩ := Option.map_eq_some_iff.mp (Option.mem_toList.mp h)
      subst hs
      simp only [fallback.sizeOf_spec, Option.some.sizeOf_spec] at hg hf
      omega

theorem everywhere_of_forall {P : Fragment → Prop} (h : ∀ f, P f) (f : Fragment) :
    f.Everywhere P :=
  .intro (h f) fun g _ => everywhere_of_forall h g
termination_by rank f
decreasing_by exact rank_lt_of_mem_children ‹_›

/-- Whether a fragment binds something by itself. -/
def isLeaf : Fragment → Bool
  | .placeholder .. | .subSelect _ | .union .. => true
  | _ => false

/-- The placeholders, nested statements and unions in a fragment, from left to right. -/
def leaves (f : Fragment) : List Fragment :=
  if f.isLeaf then [f] else f.children.attach.flatMap fun ⟨g, _⟩ => g.leaves
termination_by rank f
decreasing_by exact rank_lt_of_mem_children ‹_›

theorem leaves_of_isLeaf {f : Fragment} (h : f.isLeaf = true) : f.leaves = [f] := by
  rw [leaves, if_pos h]

theorem leaves_of_not_isLeaf {f : Fragment} (h : f.isLeaf = false) :
    f.leaves = f.children.flatMap leaves := by
  rw [leaves, if_neg (by simp [h])]
  simp

/-! ## One merge for the tree -/

/-- What a leaf binds is a map: no key comes twice. -/
def OwnsMap (f : Fragment) : Prop := f.isLeaf = true → Entries.Distinct f.bindings

theorem distinct_bindings {f : Fragment} (h : f.Everywhere OwnsMap) :
    Entries.Distinct f.bindings := by
  induction h with
  | intro here _ ih =>
    refine bindings_of_children (Q := Entries.Distinct) .nil
      (fun hxs _ => Entries.distinct_merge hxs _) ?_ ?_ ?_ ih
    · rintro p v rfl
      exact here rfl
    · rintro s rfl
      exact here rfl
    · rintro members modifier bound rfl
      exact here rfl

/-- Values that are no fragments add nothing to a merge. -/
theorem bindingsOf_eq_children (items : List Value) :
    Value.bindingsOf items =
      Entries.mergeAll ((items.filterMap Value.fragment?).map Fragment.bindings) := by
  rw [Value.bindingsOf, Value.bindingsEach_eq_map]
  suffices h : ∀ acc : Bindings, (items.map Value.bindings).foldl Entries.merge acc =
      ((items.filterMap Value.fragment?).map bindings).foldl Entries.merge acc from h []
  intro acc
  induction items generalizing acc with
  | nil => rfl
  | cons v rest ih =>
    cases v with
    | fragment f _ => exact ih _
    | _ => exact ih acc

/-- One part, and perhaps another one. -/
theorem mergeAll_pair (f : Fragment) (f' : Option Fragment) :
    Entries.mergeAll [f.bindings, bindings? f'] =
      Entries.mergeAll ((f :: f'.toList).map bindings) := by
  cases f' <;> rfl

/-- **A fragment merges what its children bind**, in their order. -/
theorem bindings_eq_children {f : Fragment} (hf : f.isLeaf = false)
    (h : ∀ g ∈ f.children, Entries.Distinct g.bindings) :
    f.bindings = Entries.mergeAll (f.children.map bindings) := by
  cases f with
  | placeholder | subSelect | union => cases hf
  | column | null => rfl
  | raw parts => exact bindingsOf_eq_children parts
  | group c conditions => exact bindingsOf_eq_children conditions
  | cast | projection | fallback =>
    exact (Entries.mergeAll_singleton (h _ List.mem_cons_self)).symm
  | function name args => exact congrArg Entries.mergeAll (bindingsEach_eq_map args)
  | filter c =>
    obtain ⟨left, right, _, _, _⟩ := c
    exact mergeAll_pair left right
  | join j =>
    obtain ⟨_, _, table, _, condition⟩ := j
    exact mergeAll_pair table condition
  | branch b =>
    obtain ⟨condition, result⟩ := b
    rfl
  | choice name branches last =>
    refine congrArg Entries.mergeAll ?_
    rw [children, List.map_append, Branch.bindingsEach_eq_map, List.map_map]
    cases last <;> rfl

/-- **The map of a fragment is one merge of its leaves**, from left to right. -/
theorem bindings_eq_leaves {f : Fragment} (h : f.Everywhere OwnsMap) :
    f.bindings = Entries.mergeAll (f.leaves.map bindings) := by
  induction h with
  | @intro f here below ih =>
    cases hf : f.isLeaf with
    | true =>
      rw [leaves_of_isLeaf hf]
      exact (Entries.mergeAll_singleton (here hf)).symm
    | false =>
      have hchildren : f.children.map bindings =
          (f.children.map fun g => g.leaves.map bindings).map Entries.mergeAll := by
        rw [List.map_map]
        exact List.map_congr_left ih
      rw [bindings_eq_children hf fun g hg => distinct_bindings (below g hg), hchildren,
        Entries.mergeAll_map_mergeAll, leaves_of_not_isLeaf hf, List.map_flatMap, List.flatMap_def]

end Fragment

/-! ## Captured maps are maps -/

/-- A builder binds each key once. -/
theorem Builder.distinct_bindings (b : Builder) : Entries.Distinct b.bindings :=
  Entries.distinct_mergeAll _

/-- The discipline of captured maps. It asks nothing of constructions and commands. -/
def ownership : Discipline where
  good f := f.Everywhere Fragment.OwnsMap
  proper _ := True
  allows _ := True

theorem ownsMap_of_makes {last : Session} {c : Construction} {f : Fragment}
    (hc : ∀ v, c ≠ .asColumn v) (hargs : ∀ v ∈ c.arguments, v.Every ownership.good)
    (h : c.Makes last.supply.Issued (ownership.Answered last) f) :
    f.Everywhere Fragment.OwnsMap := by
  have bare : ∀ {g : Fragment}, g.children = [] → g.OwnsMap → g.Everywhere Fragment.OwnsMap :=
    fun hnone howns => .intro howns (by simp [hnone])
  refine .intro (fun hf => ?_) (h.children hc hargs (fun s _ => bare rfl nofun) fun p v _ =>
    bare rfl fun _ => List.pairwise_singleton _ _)
  cases f with
  | placeholder p v => exact List.pairwise_singleton _ _
  | subSelect s =>
    obtain ⟨_, -, ⟨_, b, -, hbound, -⟩⟩ := h.answers_of_subSelect hc
    change Entries.Distinct s.bound
    rw [hbound]
    exact b.distinct_bindings
  | union texts modifier bound =>
    obtain ⟨members, -, -, rfl⟩ := h.answers_of_union hc
    exact Entries.distinct_mergeAll _
  | _ => cases hf

/-- The discipline is lawful in every dialogue. -/
theorem ownership_lawful (last : Session) : ownership.Lawful last where
  null := .intro nofun nofun
  asked _ := trivial
  carried _ _ _ := trivial
  made := by
    intro c f _ hargs h
    have column : ∀ s, (Fragment.column s).Everywhere Fragment.OwnsMap := fun s => .intro nofun nofun
    exact h.holds hargs (fun s _ => column s) fun hc => ownsMap_of_makes hc hargs h
  fresh := trivial
  opened _ _ := trivial
  inherited _ := trivial
  changed _ _ _ := trivial

/-- The fragments of a session: those that were made in it, and those in the slots of its
builders. -/
inductive Session.HasFragment (s : Session) : Fragment → Prop where
  | made {f : Fragment} (h : .fragment f ∈ s.history) : HasFragment s f
  | slot {b : Builder} {f : Fragment} (hb : s.HasBuilder b) (hf : f ∈ b.children) :
      HasFragment s f

/-- **In every dialogue, all captured maps are maps.** -/
theorem Session.HasFragment.ownsMap {options : Value} {s : Session} (hs : s.ReachedFrom options)
    {f : Fragment} (hf : s.HasFragment f) : f.Everywhere Fragment.OwnsMap := by
  have hholds := (ownership_lawful s).holds hs trivial
  cases hf with
  | made h => exact hholds.history _ h
  | slot hb hf => exact (hholds.fine hb).children f hf

end BoundSql

import BoundSql.Proofs.Action
import BoundSql.Proofs.Parts

/-!
# What constructions make

`Construction.Makes` is the constructors of fragments as a relation: which fragments a
construction can end with, one rule per constructor. It leaves two things open, which depend on
the run that the construction is a part of:

* `issued p v`: the placeholder `p` was made for the value `v`;
* `answered c sql bound`: the callback `c` was run on a new builder, answered with `sql`, and
  `bound` is what its builder had bound by then.

Everything that is proved of all fragments of a run is proved by cases on these rules; nobody has
to look into a constructor again. That the constructors follow the rules is shown here for those
that run no callback (`Construction.make_keeps`), and for the others where scripts are run.
-/

set_option autoImplicit false

namespace BoundSql

/-! ## Positions -/

/-- The fragment that a value stands for where something is named. -/
inductive Value.Names : Value → Fragment → Prop where
  | fragment (f : Fragment) (origin : Origin) : Names (.fragment f origin) f
  | name (s : String) : Names (.str s) (.column s)

/-- The fragment that a value stands for where data stands. -/
inductive Value.Stands (issued : Placeholder → Value → Prop) : Value → Fragment → Prop where
  | fragment (f : Fragment) (origin : Origin) : Stands issued (.fragment f origin) f
  | value {p : Placeholder} {v : Value} (hv : v.fragment? = none) (h : issued p v) :
      Stands issued v (.placeholder p v)

/-- What a value stands for where data stands or nothing does. -/
inductive Value.Compares (issued : Placeholder → Value → Prop) :
    Value → Option Fragment → Prop where
  | absent : Compares issued .null none
  | present {v : Value} {f : Fragment} (hv : v ≠ .null) (h : v.Stands issued f) :
      Compares issued v (some f)

/-- What a callback answered with, and what its builder had bound by then. -/
inductive Value.Answers (answered : Callback → String → Bindings → Prop) :
    Value → String × Bindings → Prop where
  | intro {c : Callback} {sql : String} {bound : Bindings} (origin : Origin)
      (h : answered c sql bound) : Answers answered (.callback c origin) (sql, bound)

/-! ## Rules -/

/-- The arguments of a construction. -/
def Construction.arguments : Construction → List Value
  | .column name => [name]
  | .literal value => [value]
  | .null => []
  | .raw parts => parts
  | .cast operand type => [operand, type]
  | .function name args => name :: args
  | .group _ conditions => conditions
  | .filter left right operator before after => [left, right, operator, before, after]
  | .projection target label => [target, label]
  | .subSelect callback label options => [callback, label, options]
  | .union callbacks modifier options => [callbacks, modifier, options]
  | .join _ table condition label kind => [table, condition, label, kind]
  | .branch condition result => [condition, result]
  | .fallback result => [result]
  | .choice name branches last => [name, branches, last]
  | .asColumn value => [value]
  | .ownSubSelect callback label => [callback, label]
  | .ownUnion callbacks modifier => [callbacks, modifier]

section Makes

variable (issued : Placeholder → Value → Prop) (answered : Callback → String → Bindings → Prop)

/-- The fragments that a construction can end with. -/
inductive Construction.Makes : Construction → Fragment → Prop where
  | column (s : String) : Makes (.column (.str s)) (.column s)
  | literal {p : Placeholder} {v : Value} (h : issued p v) :
      Makes (.literal v) (.placeholder p v)
  | null : Makes .null .null
  | raw (parts : List Value) : Makes (.raw parts) (.raw parts)
  | cast {operand : Value} {f : Fragment} (type : Value) (h : operand.Names f) :
      Makes (.cast operand type) (.cast f type)
  | function {args : List Value} {fs : List Fragment} (name : Value)
      (h : List.Forall₂ (Value.Stands issued) args fs) :
      Makes (.function name args) (.function name fs)
  | group (c : Connective) (conditions : List Value) :
      Makes (.group c conditions) (.group c conditions)
  | filter {left right : Value} {l : Fragment} {r : Option Fragment}
      (operator before after : Value) (hl : left.Names l) (hr : right.Compares issued r) :
      Makes (.filter left right operator before after)
        (.filter ⟨l, r, operator, before, after⟩)
  | projection {target : Value} {f : Fragment} (label : Value) (h : target.Names f) :
      Makes (.projection target label) (.projection f label)
  | subSelect {callback label : Value} {l : Option String} {sql : String} {bound : Bindings}
      (options : Value) (hl : label.name? = .ok l)
      (h : callback.Answers answered (sql, bound)) :
      Makes (.subSelect callback label options) (.subSelect ⟨sql, l, bound⟩)
  | union {callbacks : Value} {cs : List Value} {members : List (String × Bindings)}
      (modifier options : Value) (hi : callbacks.items = .ok cs)
      (h : List.Forall₂ (Value.Answers answered) cs members) :
      Makes (.union callbacks modifier options)
        (.union (members.map (·.1)) modifier (Entries.mergeAll (members.map (·.2))))
  | join {table label : Value} {f : Fragment} {l : Option String} (family : JoinKind)
      (condition kind : Value) (ht : table.Names f) (hl : label.name? = .ok l) :
      Makes (.join family table condition label kind)
        (.join ⟨family, if kind.isTruthy then kind else .joinKind family, f, l,
          condition.fragment?⟩)
  | branch (c : Filter) (s : SubSelect) (o o' : Origin) :
      Makes (.branch (.fragment (.filter c) o) (.fragment (.subSelect s) o')) (.branch ⟨c, s⟩)
  | fallback (s : SubSelect) (o : Origin) :
      Makes (.fallback (.fragment (.subSelect s) o)) (.fallback s)
  | choice {branches last : Value} {vs : List Value} {bs : List Branch} {s : Option SubSelect}
      (name : String) (hi : branches.items = .ok vs)
      (hb : List.Forall₂ (fun v b => v.fragment? = some (.branch b)) vs bs)
      (hs : last.fragment? = s.map .fallback) :
      Makes (.choice (.str name) branches last) (.choice name bs s)
  | asColumn {v : Value} {f : Fragment} (h : v.Names f) : Makes (.asColumn v) f
  | ownSubSelect {callback label : Value} {l : Option String} {sql : String} {bound : Bindings}
      (hl : label.name? = .ok l) (h : callback.Answers answered (sql, bound)) :
      Makes (.ownSubSelect callback label) (.subSelect ⟨sql, l, bound⟩)
  | ownUnion {callbacks : Value} {cs : List Value} {members : List (String × Bindings)}
      (modifier : Value) (hi : callbacks.items = .ok cs)
      (h : List.Forall₂ (Value.Answers answered) cs members) :
      Makes (.ownUnion callbacks modifier)
        (.union (members.map (·.1)) modifier (Entries.mergeAll (members.map (·.2))))

end Makes

/-- The arguments that stand where something is named. -/
def Construction.named : Construction → List Value
  | .cast operand _ => [operand]
  | .filter left _ _ _ _ => [left]
  | .projection target _ => [target]
  | .join _ table _ _ _ => [table]
  | .asColumn value => [value]
  | _ => []

/-- The callbacks that a construction runs. -/
def Construction.callbacks : Construction → List Value
  | .subSelect callback _ _ | .ownSubSelect callback _ => [callback]
  | .union callbacks _ _ | .ownUnion callbacks _ => callbacks.items?.getD []
  | _ => []

/-! ## What the parts of a new fragment are -/

namespace Construction.Makes

variable {issued : Placeholder → Value → Prop} {answered : Callback → String → Bindings → Prop}
  {c : Construction} {f : Fragment} {Q : Fragment → Prop}

/-- **The parts of a new fragment** are found in the arguments, are names, or stand for data. -/
theorem children (h : c.Makes issued answered f) (hc : ∀ v, c ≠ .asColumn v)
    (hargs : ∀ v ∈ c.arguments, v.Every Q) (column : ∀ s, .str s ∈ c.named → Q (.column s))
    (placeholder : ∀ p v, issued p v → Q (.placeholder p v)) : ∀ g ∈ f.children, Q g := by
  have ofNames : ∀ {v : Value} {g : Fragment}, v.Names g → v ∈ c.arguments → v ∈ c.named → Q g := by
    rintro _ _ (⟨f, o⟩ | s) hv hn
    · exact Value.every_fragment.mp (hargs _ hv)
    · exact column s hn
  have ofStands : ∀ {v : Value} {g : Fragment}, v.Stands issued g → v ∈ c.arguments → Q g := by
    rintro _ _ (⟨f, o⟩ | ⟨-, hp⟩) hv
    · exact Value.every_fragment.mp (hargs _ hv)
    · exact placeholder _ _ hp
  have ofItems : ∀ {items : List Value}, (∀ v ∈ items, v ∈ c.arguments) →
      ∀ g ∈ items.filterMap Value.fragment?, Q g := by
    intro items hi g hg
    obtain ⟨v, hv, hf⟩ := List.mem_filterMap.mp hg
    exact (hargs v (hi v hv)).of_fragment? hf
  cases h with
  | column | literal | null | subSelect | union | ownSubSelect | ownUnion =>
    exact fun g hg => absurd hg (by simp [Fragment.children])
  | asColumn => exact absurd rfl (hc _)
  | raw parts => exact ofItems fun v hv => hv
  | group c conditions => exact ofItems fun v hv => hv
  | cast type h =>
    intro g hg
    rw [List.mem_singleton.mp hg]
    exact ofNames h List.mem_cons_self List.mem_cons_self
  | function name h =>
    intro g hg
    obtain ⟨v, hv, hs⟩ := exists_left_of_forall₂ h hg
    exact ofStands hs (List.mem_cons_of_mem _ hv)
  | filter operator before after hl hr =>
    intro g hg
    rcases List.mem_cons.mp hg with rfl | hg
    · exact ofNames hl List.mem_cons_self List.mem_cons_self
    · cases hr with
      | absent => exact absurd hg (by simp)
      | present _ hs =>
        obtain rfl : g = _ := by simpa using hg
        exact ofStands hs (by simp [arguments])
  | projection label h =>
    intro g hg
    rw [List.mem_singleton.mp hg]
    exact ofNames h List.mem_cons_self List.mem_cons_self
  | @join table _ _ _ family condition kind ht hl =>
    intro g hg
    rcases List.mem_cons.mp hg with rfl | hg
    · exact ofNames ht List.mem_cons_self List.mem_cons_self
    · have hcondition := hargs condition (by simp [arguments])
      exact hcondition.of_fragment? (by simpa using hg)
  | branch c s o o' =>
    intro g hg
    rcases List.mem_cons.mp hg with rfl | hg
    · exact Value.every_fragment.mp (hargs (.fragment (.filter c) o) List.mem_cons_self)
    · rw [List.mem_singleton.mp hg]
      exact Value.every_fragment.mp (hargs (.fragment (.subSelect s) o') (by simp [arguments]))
  | fallback s o =>
    intro g hg
    rw [List.mem_singleton.mp hg]
    exact Value.every_fragment.mp (hargs (.fragment (.subSelect s) o) List.mem_cons_self)
  | @choice branches last vs bs s name hi hb hs =>
    intro g hg
    rcases List.mem_append.mp hg with hg | hg
    · obtain ⟨b, hb', rfl⟩ := List.mem_map.mp hg
      obtain ⟨v, hv, hf⟩ := exists_left_of_forall₂ hb hb'
      exact ((hargs branches (by simp [arguments])).of_items hi v hv).of_fragment? hf
    · refine (hargs last (by simp [arguments])).of_fragment? ?_
      rw [hs, Option.mem_toList.mp hg]

/-- **A result is given, is a column, or is made anew.** Only where a name is asked for can it be
one of the first two. -/
theorem holds (h : c.Makes issued answered f) (hargs : ∀ v ∈ c.arguments, v.Every Q)
    (column : ∀ s, .str s ∈ c.named → Q (.column s)) (made : (∀ v, c ≠ .asColumn v) → Q f) :
    Q f := by
  cases h with
  | asColumn hn =>
    cases hn with
    | fragment f origin => exact Value.every_fragment.mp (hargs _ List.mem_cons_self)
    | name s => exact column s List.mem_cons_self
  | _ => exact made nofun

/-- A placeholder is made for a value. -/
theorem issued_of_placeholder {p : Placeholder} {v : Value}
    (h : c.Makes issued answered (.placeholder p v)) (hc : ∀ v, c ≠ .asColumn v) : issued p v := by
  cases h with
  | literal h => exact h
  | asColumn => exact absurd rfl (hc _)

/-- A nested statement is what the callback answered. -/
theorem answers_of_subSelect {s : SubSelect} (h : c.Makes issued answered (.subSelect s))
    (hc : ∀ v, c ≠ .asColumn v) :
    ∃ callback ∈ c.callbacks, callback.Answers answered (s.sql, s.bound) := by
  cases h with
  | subSelect options hl h => exact ⟨_, List.mem_cons_self, h⟩
  | ownSubSelect hl h => exact ⟨_, List.mem_cons_self, h⟩
  | asColumn => exact absurd rfl (hc _)

/-- A union is what the callbacks answered. -/
theorem answers_of_union {texts : List String} {modifier : Value} {bound : Bindings}
    (h : c.Makes issued answered (.union texts modifier bound)) (hc : ∀ v, c ≠ .asColumn v) :
    ∃ members, List.Forall₂ (Value.Answers answered) c.callbacks members ∧
      texts = members.map (·.1) ∧ bound = Entries.mergeAll (members.map (·.2)) := by
  have run : ∀ {v : Value} {cs : List Value} {members : List (String × Bindings)},
      v.items = .ok cs → List.Forall₂ (Value.Answers answered) cs members →
      List.Forall₂ (Value.Answers answered) (v.items?.getD []) members := by
    intro v cs members hi h
    unfold Value.items at hi
    split at hi
    · rename_i items hitems
      cases hi
      rw [hitems]
      exact h
    · cases hi
  cases h with
  | union modifier options hi h => exact ⟨_, run hi h, rfl, rfl⟩
  | ownUnion modifier hi h => exact ⟨_, run hi h, rfl, rfl⟩
  | asColumn => exact absurd rfl (hc _)

end Construction.Makes

/-! ## The constructors follow the rules -/

theorem Value.names_of_asColumn {v : Value} {f : Fragment} (h : v.asColumn = .ok f) :
    v.Names f := by
  cases v with
  | fragment f origin =>
    cases h
    exact .fragment f origin
  | str s =>
    cases h
    exact .name s
  | _ => cases h

theorem Value.eq_str_of_name {v : Value} {s : String} (h : v.name = .ok s) : v = .str s := by
  unfold Value.name at h
  split at h <;> cases h
  rfl

instance : Preorder Supply where
  le s t := s.issued <+: t.issued
  le_refl s := List.prefix_refl _
  le_trans _ _ _ := List.IsPrefix.trans

section Making

open BoundSql.Action

variable {last : Supply} {I : Supply → Prop} {P : Prop}

/-- What the supply has issued in the end. -/
def Supply.Issued (last : Supply) (p : Placeholder) (v : Value) : Prop := (p, v) ∈ last.issued

theorem Making.bound_keeps (tag : Tag) (v : Value) :
    Keeps last (fun _ => True) P (Making.bound tag v)
      fun f => ∃ p, last.Issued p v ∧ f = .placeholder p v := by
  intro s
  have hissued : (Action.outcome (Making.bound tag v) s).2.issued
      = s.issued ++ [((s.fresh tag v).1, v)] := rfl
  refine ⟨?_, fun _ hlast _ => ⟨trivial, fun f hf => ?_⟩⟩
  · exact ⟨[((s.fresh tag v).1, v)], hissued.symm⟩
  · cases hf
    refine ⟨_, ?_, rfl⟩
    have hmem : ((s.fresh tag v).1, v) ∈ (Action.outcome (Making.bound tag v) s).2.issued := by
      simp [hissued]
    exact List.IsPrefix.subset hlast hmem

theorem Value.asOperand_keeps (tag : Tag) (v : Value) :
    Keeps last (fun _ => True) P (v.asOperand tag) (v.Stands last.Issued) := by
  have plain : v.fragment? = none → v.asOperand tag = Making.bound tag v →
      Keeps last (fun _ => True) P (v.asOperand tag) (v.Stands last.Issued) := by
    intro hv h
    rw [h]
    refine (Making.bound_keeps tag v).mono id fun f _ hf => ?_
    obtain ⟨p, hp, rfl⟩ := hf
    exact .value hv hp
  cases v with
  | fragment f origin => exact .pure fun _ => .fragment f origin
  | _ => exact plain rfl rfl

theorem Value.asOperand?_keeps (tag : Tag) (v : Value) :
    Keeps last (fun _ => True) P (v.asOperand? tag) (v.Compares last.Issued) := by
  have present : v ≠ .null → v.asOperand? tag = some <$> v.asOperand tag →
      Keeps last (fun _ => True) P (v.asOperand? tag) (v.Compares last.Issued) := by
    intro hv h
    rw [h]
    exact (v.asOperand_keeps tag).map fun f _ hf => .present hv hf
  cases v with
  | null => exact .pure fun _ => .absent
  | _ => exact present (by simp) rfl

variable {answered : Callback → String → Bindings → Prop}

theorem Fragment.ofLiteral_keeps (v : Value) :
    Keeps last (fun _ => True) P (Fragment.ofLiteral v)
      ((Construction.literal v).Makes last.Issued answered) := by
  refine (Making.bound_keeps .literal v).mono id fun f _ hf => ?_
  obtain ⟨p, hp, rfl⟩ := hf
  exact .literal hp

theorem Fragment.ofFunction_keeps (name : Value) (args : List Value) :
    Keeps last (fun _ => True) P (Fragment.ofFunction name args)
      ((Construction.function name args).Makes last.Issued answered) := by
  refine (Keeps.mapM args fun v _ => v.asOperand_keeps .function).bind fun fs => ?_
  exact .pure fun h => .function name h.2

theorem Filter.make_keeps (left right operator before after : Value) :
    Keeps last (fun _ => True) P (Filter.make left right operator before after)
      fun c => (Construction.filter left right operator before after).Makes last.Issued answered
        (.filter c) := by
  refine (Keeps.ofExcept fun _ l hl => Value.names_of_asColumn hl).bind fun l => ?_
  refine (right.asOperand?_keeps .filter).bind fun r => ?_
  exact .pure fun h => .filter operator before after h.1.2 h.2

/-! ### The supply grows while something is made -/

theorem Fragment.le_ofLiteral (v : Value) (t : Supply) :
    t ≤ (Action.outcome (Fragment.ofLiteral v) t).2 := by
  have h : Keeps t (fun _ => True) True (Fragment.ofLiteral v)
    ((Construction.literal v).Makes t.Issued fun _ _ _ => True) := Fragment.ofLiteral_keeps v
  exact (h t).1

theorem Fragment.le_ofFunction (name : Value) (args : List Value) (t : Supply) :
    t ≤ (Action.outcome (Fragment.ofFunction name args) t).2 := by
  have h : Keeps t (fun _ => True) True (Fragment.ofFunction name args)
    ((Construction.function name args).Makes t.Issued fun _ _ _ => True) :=
    Fragment.ofFunction_keeps name args
  exact (h t).1

theorem Filter.le_make (left right operator before after : Value) (t : Supply) :
    t ≤ (Action.outcome (Filter.make left right operator before after) t).2 := by
  have h : Keeps t (fun _ => True) True (Filter.make left right operator before after)
    fun c => (Construction.filter left right operator before after).Makes t.Issued
      (fun _ _ _ => True) (.filter c) := Filter.make_keeps left right operator before after
  exact (h t).1

end Making

variable {issued : Placeholder → Value → Prop} {answered : Callback → String → Bindings → Prop}

/-- The comparison with what is absent is a comparison with a keyword, and binds nothing. -/
theorem Filter.absent_makes {left : Value} {c : Filter} (h : Filter.absent left = .ok c)
    (origin : Origin) :
    (Construction.filter left (.fragment .null origin) (.str "IS") (.str "") (.str "")).Makes issued
      answered (.filter c) := by
  unfold Filter.absent at h
  cases hl : left.asColumn with
  | error fault => rw [hl] at h; cases h
  | ok l =>
    rw [hl] at h
    cases h
    exact .filter _ _ _ (Value.names_of_asColumn hl) (.present (by simp) (.fragment .null origin))

theorem Fragment.ofCast_makes {operand type : Value} {f : Fragment}
    (h : Fragment.ofCast operand type = .ok f) :
    (Construction.cast operand type).Makes issued answered f := by
  obtain ⟨g, hg, h⟩ := Except.bind_eq_ok.mp h
  cases h
  exact .cast type (Value.names_of_asColumn hg)

theorem Fragment.ofProjection_makes {target label : Value} {f : Fragment}
    (h : Fragment.ofProjection target label = .ok f) :
    (Construction.projection target label).Makes issued answered f := by
  obtain ⟨g, hg, h⟩ := Except.bind_eq_ok.mp h
  cases h
  exact .projection label (Value.names_of_asColumn hg)

theorem Value.fragment?_of_asCondition? {family : JoinKind} {v : Value} {f : Option Fragment}
    (h : v.asCondition? family = .ok f) : v.fragment? = f := by
  cases v <;> cases h <;> rfl

theorem Join.make_makes {family : JoinKind} {table condition label kind : Value} {j : Join}
    (h : Join.make family table condition label kind = .ok j) :
    (Construction.join family table condition label kind).Makes issued answered (.join j) := by
  obtain ⟨c, hc, h⟩ := Except.bind_eq_ok.mp h
  obtain ⟨f, hf, h⟩ := Except.bind_eq_ok.mp h
  obtain ⟨l, hl, h⟩ := Except.bind_eq_ok.mp h
  cases h
  obtain rfl := Value.fragment?_of_asCondition? hc
  exact .join family condition kind (Value.names_of_asColumn hf) hl

theorem Branch.make_makes {condition result : Value} {b : Branch}
    (h : Branch.make condition result = .ok b) :
    (Construction.branch condition result).Makes issued answered (.branch b) := by
  unfold Branch.make at h
  split at h
  · cases h
    exact .branch _ _ _ _
  · cases h

theorem Fragment.ofFallback_makes {result : Value} {f : Fragment}
    (h : Fragment.ofFallback result = .ok f) :
    (Construction.fallback result).Makes issued answered f := by
  unfold Fragment.ofFallback at h
  split at h
  · cases h
    exact .fallback _ _
  · cases h

theorem Value.fragment?_of_asBranch {v : Value} {b : Branch} (h : v.asBranch = .ok b) :
    v.fragment? = some (.branch b) := by
  unfold Value.asBranch at h
  split at h <;> cases h
  rfl

theorem Value.fragment?_of_asFallback? {v : Value} {s : Option SubSelect}
    (h : v.asFallback? = .ok s) : v.fragment? = s.map .fallback := by
  unfold Value.asFallback? at h
  split at h <;> cases h <;> rfl

theorem Fragment.ofChoice_makes {name branches last : Value} {f : Fragment}
    (h : Fragment.ofChoice name branches last = .ok f) :
    (Construction.choice name branches last).Makes issued answered f := by
  obtain ⟨vs, hvs, h⟩ := Except.bind_eq_ok.mp h
  obtain ⟨bs, hbs, h⟩ := Except.bind_eq_ok.mp h
  obtain ⟨s, hs, h⟩ := Except.bind_eq_ok.mp h
  obtain ⟨n, hn, h⟩ := Except.bind_eq_ok.mp h
  cases h
  obtain rfl := Value.eq_str_of_name hn
  refine .choice n hvs ?_ (Value.fragment?_of_asFallback? hs)
  exact (Except.forall₂_of_mapM_eq_ok hbs).imp fun _ _ => Value.fragment?_of_asBranch

end BoundSql

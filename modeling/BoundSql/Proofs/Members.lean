import BoundSql.Proofs.Isolation
import BoundSql.Proofs.Rendering

/-!
# The members of a union

A union joins the statements that its callbacks return, as they are: there are no brackets around
them, whatever they end with. So the keyword follows whatever the builder of the member has been
given last. It follows the plain body of a statement, which ends with the groups, exactly if that
builder has no order, no offset, and no limit, be it one that was set or the default one
(`union_members_as_returned`).

The body of a statement is the statement of another builder, `Builder.body`. That a longer statement
is not the same text takes a look at trimming, which could take away no more than blanks.
-/

set_option autoImplicit false

namespace BoundSql

/-! ## Trimming -/

namespace Text

theorem length_trimList_le (cs : List Char) : (trimList cs).length ≤ cs.length := by
  rw [trimList, List.length_reverse]
  refine (List.dropWhile_sublist _).length_le.trans ?_
  rw [List.length_reverse]
  exact (List.dropWhile_sublist _).length_le

/-- What is not blank is kept, and everything before it. -/
theorem length_lt_trimList {c x : Char} {cs ds : List Char} (hc : isBlank c = false) (hx : x ∈ ds)
    (hdark : isBlank x = false) : (c :: cs).length < (trimList (c :: cs ++ ds)).length := by
  have hkept : (ds.reverse.dropWhile isBlank).isEmpty = false := by
    rw [List.isEmpty_eq_false_iff, ne_eq, List.dropWhile_eq_nil_iff]
    intro hall
    rw [hall x (List.mem_reverse.mpr hx)] at hdark
    cases hdark
  rw [trimList, List.cons_append, List.dropWhile_cons_of_neg (by simp [hc]), ← List.cons_append,
    List.reverse_append, List.dropWhile_append, hkept, if_neg Bool.false_ne_true]
  rw [List.isEmpty_eq_false_iff, ← List.length_pos_iff] at hkept
  simp only [List.length_reverse, List.length_append]
  omega

end Text

/-! ## The body of a statement -/

namespace Builder

/-- The builder without what comes after the groups. -/
def body (b : Builder) : Builder :=
  { b with options := .options .default, order := [], limit := none, offset := none }

/-- Nothing comes after the groups: no order, no limit at work, and no offset. -/
structure EndsWithBody (b : Builder) : Prop where
  order : b.order = []
  limit : b.effectiveLimit = .ok none
  offset : b.offset = none

/-- A statement consists of the parts of its body and then of its order, limit and offset. -/
structure HasTail (b : Builder) (main : List String) (order limit offset : String) : Prop where
  begins : main.head? = some "SELECT"
  parts : b.selectParts = .ok (main ++ [order, limit, offset])
  body : b.body.selectParts = .ok (main ++ ["", "", ""])
  order : listClause "ORDER BY" b.order = .ok order
  limit : ∃ v, b.effectiveLimit = .ok v ∧ valueClause "LIMIT" v = .ok limit
  offset : valueClause "OFFSET" b.offset = .ok offset

theorem tail_of_selectText {b : Builder} {sql : String} (h : b.selectText = .ok sql) :
    ∃ main order limit offset, b.HasTail main order limit offset ∧
      sql = assemble (main ++ [order, limit, offset]) := by
  obtain ⟨_, hparts, rfl⟩ := Except.map_eq_ok.mp h
  obtain ⟨v, fields, table, joins, filters, groups, order, limit, offset, hv, hfields, htable,
    hjoins, hfilters, hgroups, horder, hlimit, hoffset, rfl⟩ := clauses_of_selectParts hparts
  refine ⟨["SELECT", fields, table, joins, filters, groups], order, limit, offset,
    ⟨rfl, hparts, ?_, horder, ⟨v, hv, hlimit⟩, hoffset⟩, rfl⟩
  -- The other clauses do not depend on what comes after the groups.
  have hbody : b.body.fieldsText = .ok fields ∧ b.body.tableClause = .ok table ∧
      b.body.joinsClause = .ok joins ∧ b.body.filterClause = .ok filters ∧
      listClause "GROUP BY" b.body.groups = .ok groups :=
    ⟨hfields, htable, hjoins, hfilters, hgroups⟩
  simp only [selectParts, hbody]
  rfl

theorem listClause_cases {keyword clause : String} {items : List Value}
    (h : listClause keyword items = .ok clause) :
    items = [] ∧ clause = "" ∨ items ≠ [] ∧ ∃ t, clause = keyword ++ " " ++ t := by
  by_cases hitems : items = []
  · subst hitems
    cases h
    exact .inl ⟨rfl, rfl⟩
  · rw [listClause, if_neg (by simpa using hitems)] at h
    obtain ⟨t, -, rfl⟩ := Except.map_eq_ok.mp h
    exact .inr ⟨hitems, t, rfl⟩

theorem valueClause_cases {keyword clause : String} {v : Option Value}
    (h : valueClause keyword v = .ok clause) :
    v = none ∧ clause = "" ∨ v ≠ none ∧ ∃ t, clause = keyword ++ " " ++ t := by
  cases v with
  | none =>
    cases h
    exact .inl ⟨rfl, rfl⟩
  | some v =>
    obtain ⟨t, -, rfl⟩ := Except.map_eq_ok.mp h
    exact .inr ⟨by simp, t, rfl⟩

/-- A clause makes a statement longer, even though statements are trimmed. -/
theorem assemble_append_ne {main tail : List String} (hmain : main.head? = some "SELECT")
    {w : String} (hw : w ∈ tail) {x : Char} (hx : x ∈ w.toList) (hdark : Text.isBlank x = false) :
    assemble (main ++ tail) ≠ assemble main := by
  obtain ⟨rest, rfl⟩ := List.head?_eq_some_iff.mp hmain
  have hbegins : ∃ cs, (joinWords ("SELECT" :: rest)).toList = 'S' :: cs := by
    rw [joinWords, List.filter_cons_of_pos rfl]
    cases rest.filter fun w => !w.isEmpty with
    | nil => exact ⟨_, by rw [String.intercalate_singleton]; rfl⟩
    | cons y ys => exact ⟨_, by rw [String.intercalate_cons_cons]; simp; rfl⟩
  have hkept : w ∈ tail.filter fun w => !w.isEmpty := by
    refine List.mem_filter.mpr ⟨hw, ?_⟩
    rw [Bool.not_eq_true', String.isEmpty_eq_false_iff]
    rintro rfl
    cases hx
  have happend : (joinWords ("SELECT" :: rest ++ tail)).toList =
      (joinWords ("SELECT" :: rest)).toList ++ (' ' :: (joinWords tail).toList) := by
    rw [joinWords, List.filter_append, String.intercalate_append_of_ne_nil
      (by rw [List.filter_cons_of_pos rfl]; exact List.cons_ne_nil _ _) (List.ne_nil_of_mem hkept),
      String.toList_append, String.toList_append, List.append_assoc]
    rfl
  have hmem : x ∈ (joinWords tail).toList := by
    rw [joinWords, String.toList_intercalate]
    exact Text.mem_intercalate_singleton.2 _ (List.mem_map_of_mem hkept) hx
  intro heq
  obtain ⟨cs, hcs⟩ := hbegins
  have hlength := congrArg (fun t => t.toList.length) heq
  simp only [assemble, Text.toList_trim, happend, hcs] at hlength
  have hlong : ('S' :: cs).length <
      (Text.trimList ('S' :: cs ++ ' ' :: (joinWords tail).toList)).length :=
    Text.length_lt_trimList (by decide) (List.mem_cons_of_mem ' ' hmem) hdark
  exact absurd (Text.length_trimList_le ('S' :: cs)) (by omega)

/-- **The statement is that of the body exactly if nothing comes after the groups.** -/
theorem body_selectText_iff {b : Builder} {sql : String} (h : b.selectText = .ok sql) :
    b.body.selectText = .ok sql ↔ b.EndsWithBody := by
  obtain ⟨main, order, limit, offset, htail, rfl⟩ := tail_of_selectText h
  have hbody : b.body.selectText = .ok (assemble main) := by
    rw [selectText, htail.body]
    simp [assemble, joinWords]
  have hsame : b.body.selectText = .ok (assemble (main ++ [order, limit, offset])) ↔
      assemble (main ++ [order, limit, offset]) = assemble main := by
    rw [hbody, Except.ok.injEq, eq_comm]
  rw [hsame]
  obtain ⟨v, heffective, hlimit⟩ := htail.limit
  have longer : ∀ {keyword t w : String}, w = keyword ++ " " ++ t → w ∈ [order, limit, offset] →
      (∃ x ∈ keyword.toList, Text.isBlank x = false) →
      assemble (main ++ [order, limit, offset]) ≠ assemble main := by
    rintro keyword t _ rfl hw ⟨x, hx, hdark⟩
    exact assemble_append_ne htail.begins hw (by simp [hx]) hdark
  constructor
  · intro heq
    refine ⟨?_, ?_, ?_⟩
    · obtain ⟨horder, -⟩ | ⟨-, t, ht⟩ := listClause_cases htail.order
      · exact horder
      · exact absurd heq (longer ht (by simp) ⟨'O', by decide, by decide⟩)
    · obtain ⟨rfl, -⟩ | ⟨-, t, ht⟩ := valueClause_cases hlimit
      · exact heffective
      · exact absurd heq (longer ht (by simp) ⟨'L', by decide, by decide⟩)
    · obtain ⟨hoffset, -⟩ | ⟨-, t, ht⟩ := valueClause_cases htail.offset
      · exact hoffset
      · exact absurd heq (longer ht (by simp) ⟨'O', by decide, by decide⟩)
  · intro hends
    have horder := htail.order
    have hoffset := htail.offset
    rw [hends.order] at horder
    rw [hends.offset] at hoffset
    cases hends.limit.symm.trans heffective
    cases horder
    cases hoffset
    cases hlimit
    simp [assemble, joinWords]

end Builder

/-! ## The members -/

/-- The statements that a union joins. -/
def Fragment.members : Fragment → List String
  | .union members .. => members
  | _ => []

/-- The callbacks of a union were run one after the other, on the way from the first session to the
second one: the `k`-th callback was handed a new builder, at the `k`-th place, and answered the
`k`-th statement. -/
inductive Session.Handed (depth : Nat) (options : Value) :
    Session → List Value → List Nat → List String → Session → Prop where
  | nil (s : Session) : Handed depth options s [] [] [] s
  | cons {s t u : Session} {c : Callback} {origin : Origin} {sql : String}
      {callbacks : List Value} {places : List Nat} {statements : List String}
      (answer : (Callback.run depth c s.builders.length).exec
        { s with builders := s.builders ++ [.empty (givenOptions options)] } =
          (.ok (.value (.str sql)), t))
      (rest : Handed depth options
        { t with history := t.history ++ [.nested (t.builder s.builders.length) sql] }
        callbacks places statements u) :
      Handed depth options s (.callback c origin :: callbacks) (s.builders.length :: places)
        (sql :: statements) u

/-- On the way from `s` to `t`, a builder with the given options was opened, and it renders `sql`.
-/
structure Session.Member (options : Value) (s t : Session) (place : Nat) (sql : String) : Prop where
  new : s.builders.length ≤ place
  opened : place < t.builders.length
  options : (t.builder place).options = givenOptions options
  statement : (t.builder place).selectText = .ok sql

section Members

variable {depth : Nat} {options : Value} {s t u : Session} {place : Nat} {sql : String}

theorem Session.Member.later (h : s.Member options u place sql)
    (hlength : u.builders.length ≤ t.builders.length)
    (hsame : ∀ j < u.builders.length, t.builder j = u.builder j) : s.Member options t place sql where
  new := h.new
  opened := Nat.lt_of_lt_of_le h.opened hlength
  options := by rw [hsame _ h.opened, h.options]
  statement := by rw [hsame _ h.opened, h.statement]

theorem Session.Member.earlier (h : u.Member options t place sql)
    (hlength : s.builders.length ≤ u.builders.length) : s.Member options t place sql :=
  ⟨hlength.trans h.new, h.opened, h.options, h.statement⟩

/-- The builder that a callback is handed stays, with its options. -/
theorem place_of_answer {c : Callback}
    (h : (Callback.run depth c s.builders.length).exec
      { s with builders := s.builders ++ [.empty (givenOptions options)] } =
        (.ok (.value (.str sql)), t)) :
    s.builders.length < t.builders.length ∧
      (t.builder s.builders.length).options = givenOptions options := by
  have hplace : s.builders.length <
      (s.builders ++ [Builder.empty (givenOptions options)]).length := by simp
  obtain ⟨⟨L, hL⟩, -⟩ := Callback.run_traced depth c s.builders.length
    { s with builders := s.builders ++ [.empty (givenOptions options)] } hplace
  rw [h] at hL
  have hoptions := (hL.trace.grows hplace).options
  rw [Session.builder_append_self] at hoptions
  exact ⟨Nat.lt_of_lt_of_le hplace hL.trace.length_le, hoptions⟩

/-- What a callback that ends with its own statement answers is the statement of its builder. -/
theorem member_of_answer {c : Callback} (hselect : c.endsInSelect = true)
    (h : (Callback.run depth c s.builders.length).exec
      { s with builders := s.builders ++ [.empty (givenOptions options)] } =
        (.ok (.value (.str sql)), t)) : s.Member options t s.builders.length sql := by
  obtain ⟨hopened, hoptions⟩ := place_of_answer h
  have hstatement : (t.builder s.builders.length).selectText = .ok sql := by
    cases depth with
    | zero => cases h
    | succ depth =>
      obtain ⟨sql', hreply, hsql⟩ := Callback.runWith_select hselect h
      cases hreply
      exact hsql
  exact ⟨Nat.le_refl _, hopened, hoptions, hstatement⟩

theorem handed_of_runMembers {callbacks : List Value} {members : List (String × Bindings)}
    (h : (runMembers (Callback.run depth) options callbacks).exec s = (.ok members, t)) :
    ∃ places, s.Handed depth options callbacks places (members.map (·.1)) t := by
  induction callbacks generalizing s members with
  | nil =>
    cases h
    exact ⟨[], .nil _⟩
  | cons callback rest ih =>
    obtain ⟨⟨sql, bound⟩, u, hfirst, h⟩ := Run.exec_bind_eq_ok h
    obtain ⟨others, v, hrest, h⟩ := Run.exec_bind_eq_ok h
    cases h
    obtain ⟨c, origin, w, rfl, hanswer, -, rfl⟩ := runNested_eq_ok hfirst
    obtain ⟨places, hplaces⟩ := ih hrest
    exact ⟨_, .cons hanswer hplaces⟩

namespace Session.Handed

variable {callbacks : List Value} {places : List Nat} {statements : List String}

theorem length_statements (h : s.Handed depth options callbacks places statements t) :
    statements.length = callbacks.length := by
  induction h with
  | nil => rfl
  | cons _ _ ih => exact congrArg Nat.succ ih

/-- The builders that were there before are left alone. -/
theorem leaves (h : s.Handed depth options callbacks places statements t) :
    s.builders.length ≤ t.builders.length ∧
      ∀ j < s.builders.length, t.builder j = s.builder j := by
  induction h with
  | nil => exact ⟨Nat.le_refl _, fun _ _ => rfl⟩
  | @cons s _ _ c _ _ _ _ _ hanswer _ ih =>
    have hrun := Callback.run_leaves s.builders.length depth c s.builders.length (Nat.le_refl _)
      { s with builders := s.builders ++ [.empty (givenOptions options)] } (by simp)
    rw [hanswer] at hrun
    obtain ⟨hgrows, hsame⟩ := hrun
    refine ⟨hgrows.trans ih.1, fun j hj => ?_⟩
    exact (ih.2 j (Nat.lt_of_lt_of_le hj hgrows)).trans
      ((hsame j hj hj).trans (Session.builder_append hj _))

/-- Since the callbacks that are run later leave the builders of the earlier ones alone, these still
render what was answered. -/
theorem members (h : s.Handed depth options callbacks places statements t)
    (hselect : ∀ v ∈ callbacks, v.answersSelect = true) :
    List.Forall₂ (s.Member options t) places statements := by
  induction h with
  | nil => exact .nil
  | cons hanswer hrest ih =>
    have hmember := member_of_answer (hselect _ List.mem_cons_self) hanswer
    refine .cons (hmember.later hrest.leaves.1 hrest.leaves.2) ?_
    exact (ih fun v hv => hselect v (List.mem_cons_of_mem _ hv)).imp
      fun _ _ h => h.earlier hmember.opened.le

/-- Each callback is handed a builder that comes after those of the earlier callbacks. -/
theorem increasing (h : s.Handed depth options callbacks places statements t) :
    (∀ place ∈ places, s.builders.length ≤ place) ∧ places.Pairwise (· < ·) := by
  induction h with
  | nil => exact ⟨by simp, .nil⟩
  | cons hanswer _ ih =>
    -- The later places are those of builders that were opened after this one was there.
    obtain ⟨hnew, hincreasing⟩ := ih
    have hopened := (place_of_answer hanswer).1
    have hafter : ∀ place ∈ _, _ < place :=
      fun place hplace => Nat.lt_of_lt_of_le hopened (hnew place hplace)
    exact ⟨List.forall_mem_cons.mpr ⟨Nat.le_refl _, fun place hplace => (hafter place hplace).le⟩,
      .cons hafter hincreasing⟩

end Session.Handed

end Members

/-- **The members of a union stand in it as they are returned.** Where all callbacks of a union end
with the statement of their own builder, the union joins these statements in order and without
brackets: the `k`-th member is what the `k`-th callback answered on the builder that it was handed.
These builders are new, each opened after those of the earlier callbacks, and have the options of
the union or of the builder that it is made on. Each statement consists of its body and then of the
order, limit and offset of its builder; so the keyword follows a plain body exactly if the builder
has no order, no offset, and no limit, neither one that was set nor a default one. -/
theorem union_members_as_returned {depth : Nat} {s t : Session} {self : Nat}
    {options callbacks modifier : Value} {cs : List Value} {c : Construction} {f : Fragment}
    (hc : c.Unites s self options callbacks modifier) (hcs : callbacks.items = .ok cs)
    (hselect : ∀ v ∈ cs, v.answersSelect = true)
    (h : (c.make (Callback.run depth) self).exec s = (.ok f, t)) :
    f.members.length = cs.length ∧
    f.text = (fun keyword => (" " ++ keyword ++ " ").intercalate f.members) <$>
      unionKeyword modifier ∧
    ∃ places, s.Handed depth options cs places f.members t ∧ places.Pairwise (· < ·) ∧
      List.Forall₂ (fun place sql => s.Member options t place sql ∧
        (∃ main order limit offset, (t.builder place).HasTail main order limit offset ∧
          sql = Builder.assemble (main ++ [order, limit, offset])) ∧
        ((t.builder place).body.selectText = .ok sql ↔ (t.builder place).EndsWithBody))
        places f.members := by
  have hunion : (makeUnion (Callback.run depth) callbacks modifier options).exec s = (.ok f, t) := by
    obtain rfl | ⟨rfl, rfl⟩ := hc
    · exact h
    · exact h
  obtain ⟨items, u, hitems, hunion⟩ := Run.exec_bind_eq_ok hunion
  obtain rfl : s = u := congrArg Prod.snd hitems
  obtain rfl : cs = items := Except.ok.inj (hcs.symm.trans (congrArg Prod.fst hitems))
  obtain ⟨members, u, hmembers, hunion⟩ := Run.exec_bind_eq_ok hunion
  cases hunion
  obtain ⟨places, hplaces⟩ := handed_of_runMembers hmembers
  refine ⟨hplaces.length_statements, rfl, places, hplaces, hplaces.increasing.2, ?_⟩
  refine (hplaces.members hselect).imp fun place sql hmember => ?_
  exact ⟨hmember, Builder.tail_of_selectText hmember.statement,
    Builder.body_selectText_iff hmember.statement⟩

/-- Two statements, the first one with a limit. -/
def limitedFirst : List Value :=
  [.callback ⟨[.call .table [.atom (.str "a")] [], .call .limit [.atom (.int 5)] [],
      .call .select [] []], none, none⟩ [],
    .callback ⟨[.call .table [.atom (.str "b")] [], .call .select [] []], none, none⟩ []]

/-- What the union of the two leads to. -/
def limitedUnion : Except Fault Fragment × Session :=
  ((Construction.union (.list limitedFirst) .null .null).make (Callback.run 1) 0).exec
    (.start Supply.counting .info (.options .default))

theorem limitedUnion_members : limitedUnion.1.map Fragment.members =
    .ok ["SELECT * FROM \"a\" LIMIT 5", "SELECT * FROM \"b\""] := by
  decide +kernel

/-- The keyword follows the limit of the first statement, since no brackets are around it. -/
theorem union_members_as_returned_limited :
    ∃ f t, limitedUnion = (.ok f, t) ∧
      f.text = .ok "SELECT * FROM \"a\" LIMIT 5 UNION SELECT * FROM \"b\"" ∧
      ∃ first second, first < second ∧
        (t.builder first).selectText = .ok "SELECT * FROM \"a\" LIMIT 5" ∧
        (t.builder first).options = .options .default ∧
        (t.builder second).selectText = .ok "SELECT * FROM \"b\"" := by
  have hmembers := limitedUnion_members
  rcases hrun : limitedUnion with ⟨fault | f, t⟩ <;> rw [hrun] at hmembers
  · cases hmembers
  · obtain ⟨-, htext, places, -, hincreasing, hall⟩ :=
      union_members_as_returned (.inl rfl) rfl (by decide) hrun
    rw [show f.members = _ from Except.ok.inj hmembers] at htext hall
    obtain ⟨first, _, ⟨hfirst, -⟩, hrest, rfl⟩ := List.forall₂_cons_right_iff.mp hall
    obtain ⟨second, _, ⟨hsecond, -⟩, -, rfl⟩ := List.forall₂_cons_right_iff.mp hrest
    have hbefore : first < second := List.rel_of_pairwise_cons hincreasing List.mem_cons_self
    exact ⟨f, t, rfl, htext, first, second, hbefore, hfirst.statement, hfirst.options,
      hsecond.statement⟩

/-- A statement in front of the keyword need be neither a plain body nor in brackets. -/
theorem union_members_not_apart :
    ¬ ∀ (callbacks : List Value) (s t : Session) (f : Fragment) (sql : String)
        (rest : List String), (∀ v ∈ callbacks, v.answersSelect = true) →
      ((Construction.union (.list callbacks) .null .null).make (Callback.run 1) 0).exec s =
        (.ok f, t) →
      f.members = sql :: rest → rest ≠ [] →
      (t.builder s.builders.length).body.selectText = .ok sql ∨
        ∃ inner, sql = "(" ++ inner ++ ")" := by
  intro h
  have hmembers := limitedUnion_members
  have hbody : (limitedUnion.2.builder 1).body.selectText ≠ .ok "SELECT * FROM \"a\" LIMIT 5" := by
    decide +kernel
  rcases hrun : limitedUnion with ⟨fault | f, t⟩ <;> rw [hrun] at hmembers hbody
  · cases hmembers
  · obtain hplain | ⟨inner, hinner⟩ :=
      h limitedFirst _ t f _ _ (by decide) hrun (Except.ok.inj hmembers) (List.cons_ne_nil _ _)
    · exact hbody hplain
    · have hhead := congrArg (fun t => t.toList.head?) hinner
      simp at hhead

end BoundSql

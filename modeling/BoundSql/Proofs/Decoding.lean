import BoundSql.Proofs.PlainStatements
import BoundSql.Proofs.Rendering

/-!
# The text of a statement determines its clauses

Two builders that hold statements of names, and have the same text, hold the same statement
(`clauses_eq_of_selectText_eq`). `Builder.Holds` says which builder holds which statement. What such
a builder renders is the text of the statement (`Builder.Holds.selectText`), clause by clause, and
this text can be read back.
-/

set_option autoImplicit false

namespace BoundSql

open Text

/-! ## Builders that hold a statement -/

/-- The fragment that names a column or a table. -/
def Name.fragment (n : Name) : Fragment := .column n.val

/-- A value names a column: it is a fragment that does. -/
def Value.NamesColumn (v : Value) (n : Name) : Prop := ∃ origin, v = .fragment n.fragment origin

/-- A field names a column: a fragment does, or the text that a string stands for. -/
def Value.NamesField (v : Value) (n : Name) : Prop :=
  v = .str (Identifier.quote n.val) ∨ v.NamesColumn n

/-- A comparison with an operator, if it has a right side, and nothing around it. -/
def Filter.simple (column : Name) (right : Option Fragment) (operator : String) : Filter :=
  ⟨column.fragment, right, .str operator, .str "", .str ""⟩

/-- A comparison in a builder is this one. -/
def Filter.Is (f : Filter) (p : PlainFilter) : Prop :=
  match p.test with
  | .bare => f = .simple p.column none "="
  | .absent => f = .simple p.column (some .null) "IS"
  | .same other => f = .simple p.column (some other.fragment) "="
  | .bound q => ∃ v, f = .simple p.column (some (.placeholder q v)) "="

/-- A join in a builder is this one; which class it was made with does not matter. -/
def Join.Is (j : Join) (p : PlainJoin) : Prop :=
  ∃ family, j = ⟨family, .joinKind p.kind, p.table.fragment, p.label.map Subtype.val,
    p.condition.map fun c => .filter (.simple c.1 (some c.2.fragment) "=")⟩

/-- The slots of a builder hold a statement. What was bound by hand does not matter. -/
structure Builder.Holds (b : Builder) (o : Options) (c : PlainStatement) : Prop where
  options : b.options = .options o
  table : b.table = c.table.map Name.fragment
  fields : List.Forall₂ Value.NamesField b.fields c.fields
  joins : List.Forall₂ Join.Is b.joins c.joins
  filters : List.Forall₂ Filter.Is b.filters c.filters
  groups : List.Forall₂ Value.NamesColumn b.groups c.groups
  order : List.Forall₂ Value.NamesColumn b.order c.order
  limit : b.limit = c.limit.map .int
  offset : b.offset = c.offset.map .int

/-! ## What a builder renders -/

/-- A word with a space in front, if it is not empty. -/
def spaced (s : String) : List Char := if s.isEmpty then [] else ' ' :: s.toList

theorem spaced_of_ne_empty {s : String} (h : s ≠ "") : spaced s = ' ' :: s.toList := by
  simp [spaced, h]

theorem toList_of_spaced {s : String} {cs : List Char} (h : spaced s = ' ' :: cs) :
    s.toList = cs := by
  unfold spaced at h
  split at h
  · cases h
  · exact (List.cons.inj h).2

/-- Words that are joined have a space in front of each. -/
theorem spaced_joinWords (ws : List String) : spaced (joinWords ws) = ws.flatMap spaced := by
  have words : ∀ ws : List String, (∀ w ∈ ws, w ≠ "") →
      spaced (" ".intercalate ws) = ws.flatMap fun w => ' ' :: w.toList := by
    intro ws hws
    cases ws with
    | nil => rfl
    | cons w ws =>
      have htext : (" ".intercalate (w :: ws)).toList =
          w.toList ++ ws.flatMap fun w => ' ' :: w.toList := by
        rw [String.toList_intercalate, List.map_cons, intercalate_cons, List.flatMap_map]
        rfl
      have hne : " ".intercalate (w :: ws) ≠ "" := by
        intro hempty
        rw [hempty] at htext
        have hw := List.append_eq_nil_iff.mp htext.symm
        exact hws w List.mem_cons_self (String.toList_eq_nil_iff.mp hw.1)
      rw [spaced_of_ne_empty hne, htext, List.flatMap_cons, List.cons_append]
  rw [joinWords, words _ fun w hw => by simpa using (List.mem_filter.mp hw).2]
  induction ws with
  | nil => rfl
  | cons w ws ih =>
    by_cases hw : w = ""
    · subst hw
      simpa [spaced] using ih
    · simp [hw, spaced_of_ne_empty hw, ih]

theorem spaced_injective : Function.Injective spaced := by
  intro s t h
  unfold spaced at h
  split at h <;> split at h
  · simp_all
  · cases h
  · cases h
  · exact String.toList_inj.mp (List.cons.inj h).2

/-- Words that are joined beforehand are joined all the same. -/
theorem joinWords_joinWords (us ws vs : List String) :
    joinWords (us ++ joinWords ws :: vs) = joinWords (us ++ ws ++ vs) := by
  apply spaced_injective
  simp only [spaced_joinWords, List.flatMap_append, List.flatMap_cons, List.append_assoc]

namespace Name

theorem quote_ne_empty (n : Name) : Identifier.quote n.val ≠ "" := by
  intro h
  obtain ⟨c, rest, htext, -⟩ := n.exists_text
  rw [text, h] at htext
  cases htext

theorem spaced_quote (n : Name) : spaced (Identifier.quote n.val) = ' ' :: n.text :=
  spaced_of_ne_empty n.quote_ne_empty

theorem text_fragment (n : Name) : n.fragment.text = .ok (Identifier.quote n.val) := rfl

theorem toList_intercalate (ns : List Name) :
    (", ".intercalate (ns.map fun n => Identifier.quote n.val)).toList = listText ns := by
  rw [String.toList_intercalate, List.map_map]
  rfl

end Name

theorem Value.text_of_namesColumn {v : Value} {n : Name} (h : v.NamesColumn n) :
    v.text = .ok (Identifier.quote n.val) := by
  obtain ⟨origin, rfl⟩ := h
  rw [Value.text_fragment, Name.text_fragment]

theorem Value.text_of_namesField {v : Value} {n : Name} (h : v.NamesField n) :
    v.text = .ok (Identifier.quote n.val) := by
  rcases h with rfl | h
  · rfl
  · exact text_of_namesColumn h

/-- Items that have known texts, one after the other. -/
theorem mapM_of_forall₂ {α β : Type} {R : α → β → Prop} {f : α → Except Fault String}
    {g : β → String} (hf : ∀ x y, R x y → f x = .ok (g y)) {xs : List α} {ys : List β}
    (h : List.Forall₂ R xs ys) : xs.mapM f = .ok (ys.map g) := by
  induction h with
  | nil => rfl
  | cons hxy _ ih =>
    rw [List.mapM_cons, hf _ _ hxy, ih]
    rfl

theorem Value.textJoined_of_forall₂ {R : Value → Name → Prop}
    (hR : ∀ v n, R v n → v.text = .ok (Identifier.quote n.val)) {vs : List Value} {ns : List Name}
    (h : List.Forall₂ R vs ns) (separator : String) :
    Value.textJoined separator vs =
      .ok (separator.intercalate (ns.map fun n => Identifier.quote n.val)) := by
  have htexts : Value.renderAll .bare vs = .ok (ns.map fun n => Identifier.quote n.val) := by
    rw [Value.renderAll_eq_mapM]
    exact mapM_of_forall₂ hR h
  rw [Value.textJoined, htexts]
  rfl

theorem except_ok_bind {α β : Type} (x : α) (f : α → Except Fault β) :
    (Except.ok x >>= f) = f x := rfl

/-- Texts that are empty are left out. -/
theorem joinPresent_texts (ws : List String) :
    joinPresent (ws.map .str) = .ok (joinWords ws) := by
  have words : ((ws.map Value.str).filter Value.isTruthy).mapM Value.word? =
      .ok (ws.filter fun w => !w.isEmpty) := by
    induction ws with
    | nil => rfl
    | cons w ws ih =>
      by_cases hw : w = ""
      · simpa [hw, Value.isTruthy] using ih
      · have hw : w.isEmpty = false := by simpa using hw
        simp only [List.map_cons, List.filter_cons, Value.isTruthy, hw, Bool.not_false, if_true,
          List.mapM_cons, ih]
        rfl
  rw [joinPresent, words]
  rfl

theorem Filter.text_simple_none (n : Name) (operator : String) :
    (Filter.simple n none operator).text = .ok (joinWords ["", Identifier.quote n.val, ""]) := by
  rw [← joinPresent_texts]
  simp only [Filter.simple, Filter.text, Name.text_fragment, Fragment.text?, except_ok_bind,
    List.map_cons, List.map_nil, List.nil_append]

theorem Filter.text_simple_some (n : Name) {f : Fragment} {operator t : String}
    (hf : f.text = .ok t) :
    (Filter.simple n (some f) operator).text =
      .ok (joinWords ["", Identifier.quote n.val, operator, t, ""]) := by
  rw [← joinPresent_texts]
  simp only [Filter.simple, Filter.text, Name.text_fragment, Fragment.text?, hf, except_ok_bind,
    pure_bind, List.map_cons, List.map_nil, List.cons_append, List.nil_append]

/-- The text of a word list that begins with a name. -/
theorem toList_joinWords_name (n : Name) (ws : List String) :
    (joinWords ("" :: Identifier.quote n.val :: ws)).toList = n.text ++ ws.flatMap spaced := by
  refine toList_of_spaced ?_
  rw [spaced_joinWords, List.flatMap_cons, List.flatMap_cons, n.spaced_quote]
  rfl

/-- A comparison renders as its text. -/
theorem Filter.text_of_is {f : Filter} {p : PlainFilter} (h : f.Is p) :
    f.text = .ok (String.ofList p.text) := by
  have result : ∀ {ws : List String},
      f.text = .ok (joinWords ("" :: Identifier.quote p.column.val :: ws)) →
      ws.flatMap spaced = p.test.text → f.text = .ok (String.ofList p.text) := by
    intro ws htext hws
    rw [htext, PlainFilter.text, ← hws, ← toList_joinWords_name, String.ofList_toList]
  obtain ⟨column, test⟩ := p
  cases test with
  | bare =>
    rw [show f = _ from h] at result ⊢
    exact result (Filter.text_simple_none _ _) rfl
  | absent =>
    rw [show f = _ from h] at result ⊢
    exact result (Filter.text_simple_some _ rfl) rfl
  | same other =>
    rw [show f = _ from h] at result ⊢
    refine result (Filter.text_simple_some _ other.text_fragment) ?_
    simp only [List.flatMap_cons, other.spaced_quote]
    simp [spaced, PlainTest.text]
  | bound q =>
    obtain ⟨v, hf⟩ := h
    rw [hf] at result ⊢
    refine result (Filter.text_simple_some _ rfl) ?_
    simp [spaced, PlainTest.text, token]

/-- A join renders as its lead and what follows. -/
theorem Join.text_of_is {j : Join} {p : PlainJoin} (h : j.Is p) :
    ∃ t, j.text = .ok t ∧ spaced t = (PlainClause.join p).text := by
  obtain ⟨family, rfl⟩ := h
  obtain ⟨kind, table, label, condition⟩ := p
  have hlead : (Lead.join kind).text =
      spaced kind.before ++ (spaced "JOIN" ++ (spaced kind.after ++ [' '])) := by
    cases kind <;> decide +kernel
  have hlabel : spaced (((label.map Subtype.val).map Identifier.quote).getD "") =
      label.elim [] fun n => ' ' :: n.text := by
    cases label with
    | none => rfl
    | some n => exact n.spaced_quote
  cases condition with
  | none =>
    refine ⟨_, rfl, ?_⟩
    simp only [spaced_joinWords, List.flatMap_append, List.flatMap_cons, List.flatMap_nil, hlabel,
      table.spaced_quote, PlainClause.text, PlainClause.lead, PlainClause.body, PlainJoin.text,
      hlead]
    simp
  | some c =>
    have hcondition : Fragment.text (.filter (.simple c.1 (some c.2.fragment) "=")) =
        .ok (String.ofList (PlainFilter.mk c.1 (.same c.2)).text) := Filter.text_of_is rfl
    refine ⟨joinWords ([kind.before, "JOIN", kind.after, Identifier.quote table.val,
      ((label.map Subtype.val).map Identifier.quote).getD ""] ++
        ["ON", String.ofList (PlainFilter.mk c.1 (.same c.2)).text]), ?_, ?_⟩
    · simp only [Join.text, Join.direction, Option.map_some, Fragment.text?, hcondition,
        Name.text_fragment, except_ok_bind, pure_bind]
      rfl
    · simp only [spaced_joinWords, List.flatMap_append, List.flatMap_cons, List.flatMap_nil, hlabel,
        table.spaced_quote, PlainClause.text, PlainClause.lead, PlainClause.body,
        PlainJoin.text, hlead, PlainFilter.text, PlainTest.text]
      simp [spaced]

theorem intercalate_eq_joinWords {ts : List String} (h : ∀ t ∈ ts, t ≠ "") :
    " ".intercalate ts = joinWords ts := by
  rw [joinWords, List.filter_eq_self.mpr fun t ht => by simpa using h t ht]

theorem Join.texts_of_is {js : List Join} {ps : List PlainJoin} (h : List.Forall₂ Join.Is js ps) :
    ∃ ts, js.mapM Join.text = .ok ts ∧ (∀ t ∈ ts, t ≠ "") ∧
      ts.flatMap spaced = (ps.map PlainClause.join).flatMap PlainClause.text := by
  induction h with
  | nil => exact ⟨[], rfl, by simp, rfl⟩
  | @cons j p js ps hj _ ih =>
    obtain ⟨t, ht, hspaced⟩ := Join.text_of_is hj
    obtain ⟨ts, hts, hne, hrest⟩ := ih
    have htne : t ≠ "" := by
      rintro rfl
      have hlead : (Lead.join p.kind).text ≠ [] := by
        cases p.kind <;> decide +kernel
      exact hlead (List.append_eq_nil_iff.mp hspaced.symm).1
    refine ⟨t :: ts, ?_, List.forall_mem_cons.mpr ⟨htne, hne⟩, ?_⟩
    · rw [List.mapM_cons, ht, hts]
      rfl
    · rw [List.flatMap_cons, hspaced, hrest, List.map_cons, List.flatMap_cons]

/-- The text of a clause that a keyword and what follows make up. -/
theorem spaced_clause {keyword t : String} {d : PlainClause} {l : Lead} (hl : d.lead = l)
    (hkeyword : l.text = ' ' :: (keyword.toList ++ [' '])) (hbody : t.toList = d.body) :
    spaced (keyword ++ " " ++ t) = d.text := by
  rw [spaced_of_ne_empty (by simp), PlainClause.text, hl, hkeyword, ← hbody]
  simp

theorem PlainFilter.toList_joined (fs : List PlainFilter) (hne : fs ≠ []) :
    (Connective.and.joined (fs.map fun f => String.ofList f.text)).toList = conditionText fs := by
  match fs with
  | [] => exact absurd rfl hne
  | [f] => simp [Connective.joined, conditionText]
  | f :: g :: fs =>
    have hwords : (" " ++ Connective.and.term ++ " ").toList = [' ', 'A', 'N', 'D', ' '] := by
      decide +kernel
    have hcondition : Connective.and.joined ((f :: g :: fs).map fun f => String.ofList f.text) =
        "(" ++ (" " ++ Connective.and.term ++ " ").intercalate
          ((f :: g :: fs).map fun f => String.ofList f.text) ++ ")" := by
      simp [Connective.joined]
    rw [conditionText_many, hcondition, String.toList_append, String.toList_append,
      String.toList_intercalate, hwords, List.map_map, List.append_assoc]
    have htexts : (String.toList ∘ fun f : PlainFilter => String.ofList f.text) =
        PlainFilter.text := by
      funext f
      simp
    rw [htexts]
    rfl

namespace Builder.Holds

variable {b : Builder} {o : Options} {c : PlainStatement} (h : b.Holds o c)
include h

theorem fieldsText : b.fieldsText = .ok (String.ofList (Name.listText c.shownFields)) := by
  unfold Builder.fieldsText PlainStatement.shownFields
  have hfields := h.fields
  cases hb : b.fields with
  | nil =>
    rw [hb] at hfields
    cases hc : c.fields with
    | nil => rfl
    | cons n ns =>
      rw [hc] at hfields
      cases hfields
  | cons v vs =>
    rw [hb] at hfields
    cases hc : c.fields with
    | nil =>
      rw [hc] at hfields
      cases hfields
    | cons n ns =>
      rw [hc] at hfields
      rw [List.isEmpty_cons, List.isEmpty_cons, if_neg Bool.false_ne_true,
        if_neg Bool.false_ne_true, Value.textJoined_of_forall₂ (fun _ _ => Value.text_of_namesField)
        hfields, ← Name.toList_intercalate, String.ofList_toList]

theorem tableClause : ∃ t, b.tableClause = .ok t ∧
    spaced t = (c.table.toList.map PlainClause.source).flatMap PlainClause.text := by
  unfold Builder.tableClause
  rw [h.table]
  cases c.table with
  | none => exact ⟨"", rfl, rfl⟩
  | some n =>
    refine ⟨"FROM" ++ " " ++ Identifier.quote n.val, ?_, ?_⟩
    · simp only [Option.map_some, Name.text_fragment, except_ok_bind]
      rfl
    · rw [spaced_clause (d := .source n) (l := .source) rfl (by decide +kernel) rfl]
      simp

theorem joinsClause : ∃ t, b.joinsClause = .ok t ∧
    spaced t = (c.joins.map PlainClause.join).flatMap PlainClause.text := by
  obtain ⟨ts, hts, hne, hspaced⟩ := Join.texts_of_is h.joins
  refine ⟨joinWords ts, ?_, by rw [spaced_joinWords, hspaced]⟩
  rw [Builder.joinsClause, hts, except_ok_bind, intercalate_eq_joinWords hne]
  rfl

theorem filterClause : ∃ t, b.filterClause = .ok t ∧
    spaced t = (PlainStatement.listed .filters c.filters).flatMap PlainClause.text := by
  have hcondition : b.conditionText =
      .ok (Connective.and.joined (c.filters.map fun f => String.ofList f.text)) := by
    have htexts := mapM_of_forall₂ (fun _ _ hf => Filter.text_of_is hf) h.filters
    rw [Builder.conditionText, htexts]
    rfl
  have hlength := h.filters.length_eq
  unfold Builder.filterClause PlainStatement.listed
  cases hc : c.filters with
  | nil =>
    rw [hc] at hlength
    rw [List.length_eq_zero_iff.mp hlength]
    exact ⟨"", rfl, rfl⟩
  | cons f fs =>
    have hb : b.filters.isEmpty = false := by
      rw [hc] at hlength
      exact List.isEmpty_eq_false_iff.mpr (List.ne_nil_of_length_eq_add_one hlength)
    rw [hb, hcondition, ← hc]
    refine ⟨"WHERE" ++ " " ++ Connective.and.joined (c.filters.map fun f => String.ofList f.text),
      rfl, ?_⟩
    have hne : c.filters ≠ [] := by simp [hc]
    rw [spaced_clause (d := .filters c.filters) (l := .filters) rfl (by decide +kernel)
      (PlainFilter.toList_joined _ hne)]
    simp [hc]

omit h in
theorem listClause (keyword : String) {vs : List Value} {ns : List Name}
    (hvs : List.Forall₂ Value.NamesColumn vs ns) (clause : List Name → PlainClause) {l : Lead}
    (hl : ∀ ns, (clause ns).lead = l) (hkeyword : l.text = ' ' :: (keyword.toList ++ [' ']))
    (hbody : ∀ ns, (clause ns).body = Name.listText ns) :
    ∃ t, Builder.listClause keyword vs = .ok t ∧
      spaced t = (PlainStatement.listed clause ns).flatMap PlainClause.text := by
  unfold Builder.listClause PlainStatement.listed
  cases hvs with
  | nil => exact ⟨"", rfl, rfl⟩
  | @cons v n vs ns hv hvs =>
    rw [Value.textJoined_of_forall₂ (fun _ _ => Value.text_of_namesColumn) (.cons hv hvs)]
    refine ⟨keyword ++ " " ++ ", ".intercalate ((n :: ns).map fun n => Identifier.quote n.val),
      rfl, ?_⟩
    rw [spaced_clause (hl (n :: ns)) hkeyword (by rw [Name.toList_intercalate, hbody])]
    simp

omit h in
theorem valueClause (keyword : String) {n : Option Int} (hn : ∀ m, n = some m → Decimal.Fits m)
    (clause : Int → PlainClause) {l : Lead} (hl : ∀ n, (clause n).lead = l)
    (hkeyword : l.text = ' ' :: (keyword.toList ++ [' ']))
    (hbody : ∀ n, (clause n).body = n.repr.toList) :
    ∃ t, Builder.valueClause keyword (n.map .int) = .ok t ∧
      spaced t = (n.toList.map clause).flatMap PlainClause.text := by
  cases n with
  | none => exact ⟨"", rfl, rfl⟩
  | some n =>
    refine ⟨_, Builder.valueClause_int_eq_ok_iff.mpr ⟨hn n rfl, rfl⟩, ?_⟩
    rw [spaced_clause (hl n) hkeyword (hbody n).symm]
    simp

theorem effectiveLimit : b.effectiveLimit = .ok ((c.shownLimit o).map .int) := by
  unfold Builder.effectiveLimit PlainStatement.shownLimit
  rw [h.limit]
  cases c.limit with
  | some n => rfl
  | none =>
    rw [Builder.properOptions, h.options]
    simp only [Option.map_none, except_ok_bind]
    cases o.defaultLimit <;> rfl

/-- **A builder renders the text of the statement that it holds**, if there is one. -/
theorem selectText (hfits : c.Fits o) : b.selectText = .ok (String.ofList (c.text o)) := by
  obtain ⟨source, hsource, hsourceText⟩ := h.tableClause
  obtain ⟨joins, hjoins, hjoinsText⟩ := h.joinsClause
  obtain ⟨filters, hfilters, hfiltersText⟩ := h.filterClause
  obtain ⟨groups, hgroups, hgroupsText⟩ := listClause "GROUP BY" h.groups
    .groups (l := .groups) (fun _ => rfl) (by decide +kernel) (fun _ => rfl)
  obtain ⟨order, horder, horderText⟩ := listClause "ORDER BY" h.order
    .order (l := .order) (fun _ => rfl) (by decide +kernel) (fun _ => rfl)
  obtain ⟨limit, hlimit, hlimitText⟩ := valueClause "LIMIT" hfits.limit
    .limit (l := .limit) (fun _ => rfl) (by decide +kernel) (fun _ => rfl)
  obtain ⟨offset, hoffset, hoffsetText⟩ := valueClause "OFFSET" hfits.offset
    .offset (l := .offset) (fun _ => rfl) (by decide +kernel) (fun _ => rfl)
  have hparts : b.selectParts = .ok ["SELECT", String.ofList (Name.listText c.shownFields), source,
      joins, filters, groups, order, limit, offset] := by
    simp only [Builder.selectParts, h.effectiveLimit, h.fieldsText, hsource, hjoins, hfilters,
      hgroups, horder, hlimit, h.offset, hoffset, except_ok_bind]
    rfl
  have hwords : (joinWords ["SELECT", String.ofList (Name.listText c.shownFields), source,
      joins, filters, groups, order, limit, offset]).toList = c.text o := by
    have hfields : spaced (String.ofList (Name.listText c.shownFields)) =
        ' ' :: Name.listText c.shownFields := by
      have hne := (Name.listText_endsDark c.shownFields_ne_nil).ne_nil
      rw [spaced_of_ne_empty (by simpa using hne), String.toList_ofList]
    have hselect : spaced "SELECT" ++ [' '] = ' ' :: "SELECT ".toList := by decide +kernel
    have htext : ' ' :: c.text o = (spaced "SELECT" ++ [' ']) ++
        (Name.listText c.shownFields ++ (c.clauses o).flatMap PlainClause.text) := by
      rw [hselect, List.cons_append]
      rfl
    refine toList_of_spaced ?_
    rw [htext, spaced_joinWords]
    simp only [List.flatMap_cons, List.flatMap_nil, hfields, hsourceText, hjoinsText, hfiltersText,
      hgroupsText, horderText, hlimitText, hoffsetText, PlainStatement.clauses,
      List.flatMap_append, List.append_assoc, List.cons_append, List.nil_append, List.append_nil]
  rw [Builder.selectText, hparts]
  refine congrArg Except.ok (String.toList_inj.mp ?_)
  rw [Builder.assemble, toList_trim, hwords, String.toList_ofList]
  exact trimList_eq_self (by decide) (c.endsDark o)

/-- What is rendered shows no integer that is too long. -/
theorem fits_of_selectText {sql : String} (hsql : b.selectText = .ok sql) : c.Fits o := by
  obtain ⟨parts, hparts, -⟩ := Except.map_eq_ok.mp hsql
  obtain ⟨v, -, -, -, -, -, -, limit, offset, hv, -, -, -, -, -, -, hlimit, hoffset, -⟩ :=
    Builder.clauses_of_selectParts hparts
  obtain rfl := Except.ok.inj (h.effectiveLimit.symm.trans hv)
  rw [h.offset] at hoffset
  constructor
  · intro n hn
    rw [hn] at hlimit
    exact (Builder.valueClause_int_eq_ok_iff.mp hlimit).1
  · intro n hn
    rw [hn] at hoffset
    exact (Builder.valueClause_int_eq_ok_iff.mp hoffset).1

end Builder.Holds

/-- **The text of a statement determines its clauses.** A builder that holds a statement of names
renders it, unless its limit or its offset is too long to be written; and if two of them render the
same text then the same are the table, the fields, the joins, the comparisons with their
placeholders, the groups, the order, the limit that is shown, and the offset. -/
theorem clauses_eq_of_selectText_eq {b b' : Builder} {o o' : Options} {c c' : PlainStatement}
    (h : b.Holds o c) (h' : b'.Holds o' c') :
    ((∃ sql, b.selectText = .ok sql) ↔ c.Fits o) ∧
      ∀ sql, b.selectText = .ok sql → b'.selectText = .ok sql →
        c.table = c'.table ∧ c.shownFields = c'.shownFields ∧ c.joins = c'.joins ∧
          c.filters = c'.filters ∧ c.groups = c'.groups ∧ c.order = c'.order ∧
          c.shownLimit o = c'.shownLimit o' ∧ c.offset = c'.offset := by
  refine ⟨⟨fun ⟨_, hsql⟩ => h.fits_of_selectText hsql, fun hfits => ⟨_, h.selectText hfits⟩⟩,
    fun sql hsql hsql' => ?_⟩
  have htext := (h.selectText (h.fits_of_selectText hsql)).symm.trans hsql
  have htext' := (h'.selectText (h'.fits_of_selectText hsql')).symm.trans hsql'
  obtain ⟨hfields, hclauses⟩ :=
    PlainStatement.eq_of_text (String.ofList_injective (Except.ok.inj (htext.trans htext'.symm)))
  obtain ⟨htable, hrest⟩ := PlainStatement.slots_eq_of_clauses_eq hclauses
  exact ⟨htable, hfields, hrest⟩

/-- The first placeholder of a supply. -/
def namingPlaceholder : Placeholder :=
  ((Supply.ofStream Supply.counting).fresh .filter (.int 5)).1

/-- A builder whose names are made of what stands between names. -/
def namingBuilder (o : Options) (fields : List Value) (limit : Option Int) : Builder where
  options := .options o
  table := some (.column "a, b")
  fields := fields
  joins := [⟨.inner, .joinKind .leftOuter, .column " JOIN ", some "*",
    some (.filter (.simple (.ofString "x.y" (by decide)) (some (.column "ON")) "="))⟩]
  filters := [
    .simple (.ofString "AND" (by decide))
      (some (.placeholder namingPlaceholder (.int 5))) "=",
    .simple (.ofString ")" (by decide)) none "=",
    .simple (.ofString "" (by decide)) (some .null) "IS"]
  groups := [.fragment (.column "*.t") [2]]
  order := []
  limit := limit.map .int
  offset := none
  extra := []

/-- The statement in it. -/
def namingStatement (fields : List Name) (limit : Option Int) : PlainStatement where
  table := some (.ofString "a, b" (by decide))
  fields := fields
  joins := [⟨.leftOuter, .ofString " JOIN " (by decide), some (.wildcard),
    some (.ofString "x.y" (by decide), .ofString "ON" (by decide))⟩]
  filters := [
    ⟨.ofString "AND" (by decide), .bound namingPlaceholder⟩,
    ⟨.ofString ")" (by decide), .bare⟩,
    ⟨.ofString "" (by decide), .absent⟩]
  groups := [.ofString "*.t" (by decide)]
  order := []
  limit := limit
  offset := none

theorem namingBuilder_holds (o : Options) {fields : List Value} {names : List Name}
    (h : List.Forall₂ Value.NamesField fields names) (limit : Option Int) :
    (namingBuilder o fields limit).Holds o (namingStatement names limit) where
  options := rfl
  table := rfl
  fields := h
  joins := .cons ⟨.inner, rfl⟩ .nil
  filters := .cons ⟨.int 5, rfl⟩ (.cons rfl (.cons rfl .nil))
  groups := .cons ⟨[2], rfl⟩ .nil
  order := .nil
  limit := rfl
  offset := rfl

/-- Fields that are not given are the wildcard, and a limit that is not given is the default one;
nothing else is told by other means. -/
theorem clauses_eq_of_selectText_eq_naming :
    (namingBuilder .default [] (some 3)).selectText =
        .ok ("SELECT * FROM \"a, b\" LEFT OUTER JOIN \" JOIN \" * ON \"x\".\"y\" = \"ON\" " ++
          "WHERE (\"AND\" = :where00000001 AND \")\" AND \"\" IS NULL) " ++
          "GROUP BY *.\"t\" LIMIT 3") ∧
      (namingStatement [] (some 3)).shownFields =
        (namingStatement [.wildcard] none).shownFields ∧
      (namingStatement [] (some 3)).shownLimit .default =
        (namingStatement [.wildcard] none).shownLimit ⟨"gone_at", some 3, none⟩ := by
  have htext : (namingBuilder .default [] (some 3)).selectText =
      .ok ("SELECT * FROM \"a, b\" LEFT OUTER JOIN \" JOIN \" * ON \"x\".\"y\" = \"ON\" " ++
        "WHERE (\"AND\" = :where00000001 AND \")\" AND \"\" IS NULL) " ++
        "GROUP BY *.\"t\" LIMIT 3") := by
    decide +kernel
  have hfields : List.Forall₂ Value.NamesField [.fragment (.column "*") [1]]
      [.wildcard] := .cons (.inr ⟨[1], rfl⟩) .nil
  have h := namingBuilder_holds .default .nil (some 3)
  have h' := namingBuilder_holds ⟨"gone_at", some 3, none⟩ hfields none
  have htext' : (namingBuilder ⟨"gone_at", some 3, none⟩ [.fragment (.column "*") [1]]
      none).selectText = (namingBuilder .default [] (some 3)).selectText := by
    decide +kernel
  obtain ⟨-, hclauses⟩ := clauses_eq_of_selectText_eq h h'
  obtain ⟨-, hshown, -, -, -, -, hlimit, -⟩ := hclauses _ htext (htext'.trans htext)
  exact ⟨htext, hshown, hlimit⟩

end BoundSql

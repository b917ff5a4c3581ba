import BoundSql.Proofs.Deletion
import BoundSql.Proofs.Delimiting

/-!
# Operands that render as nothing

A fragment may have the empty text. A connective without conditions has it, and so has one whose
single condition has it, at any depth. Such a fragment is no absent one: whether a keyword is
written is decided by the list or by the slot that the operand stands in, before anything is
rendered. So an empty operand is left out together with its keyword where it is the only one of a
connective, and in no other place (`empty_operand_dropped_iff`). Among several conditions the
connective stands beside nothing, a comparison keeps its operator and a join its `ON`, and a
statement whose single filter is empty ends its condition at `WHERE`, also if it deletes rows.

Two texts are told apart by their lengths. Every item of a list with separators adds its own length
and that of a separator, so an empty item is seen by the separator.
-/

set_option autoImplicit false

namespace BoundSql

/-! ## The lengths of joined texts -/

section Lengths

variable (separator : String)

/-- The length of items that are followed by a separator each. -/
def lengthWith : List String → Nat
  | [] => 0
  | item :: rest => item.length + separator.length + lengthWith rest

@[simp] theorem lengthWith_append (xs ys : List String) :
    lengthWith separator (xs ++ ys) = lengthWith separator xs + lengthWith separator ys := by
  induction xs with
  | nil => simp [lengthWith]
  | cons x rest ih => simp only [List.cons_append, lengthWith, ih, Nat.add_assoc]

@[simp] theorem lengthWith_cons (x : String) (xs : List String) :
    lengthWith separator (x :: xs) = x.length + separator.length + lengthWith separator xs := rfl

/-- There is one separator less than there are items. -/
theorem length_intercalate {items : List String} (h : items ≠ []) :
    (separator.intercalate items).length + separator.length = lengthWith separator items := by
  induction items with
  | nil => exact absurd rfl h
  | cons x rest ih =>
    cases rest with
    | nil => simp [lengthWith]
    | cons y rest =>
      have hrest := ih (List.cons_ne_nil y rest)
      rw [String.intercalate_cons_cons, lengthWith_cons, ← hrest]
      simp only [String.length_append]
      omega

/-- An item that is not empty shows in the text. -/
theorem intercalate_insert_ne {item : String} (h : item ≠ "") (us vs : List String) :
    separator.intercalate (us ++ item :: vs) ≠ separator.intercalate (us ++ vs) := by
  by_cases hnone : us ++ vs = []
  · obtain ⟨rfl, rfl⟩ := List.append_eq_nil_iff.mp hnone
    simpa using h
  · intro heq
    have hitem : item.length ≠ 0 := mt String.length_eq_zero_iff.mp h
    have hlong := length_intercalate separator (show us ++ item :: vs ≠ [] by simp)
    have hshort := length_intercalate separator hnone
    rw [heq, lengthWith_append, lengthWith_cons] at hlong
    rw [lengthWith_append] at hshort
    omega

theorem lengthWith_present_le (items : List String) :
    lengthWith separator (items.filter (· ≠ "")) ≤ lengthWith separator items := by
  induction items with
  | nil => exact Nat.le_refl _
  | cons x rest ih =>
    rw [List.filter_cons]
    split <;> simp only [lengthWith_cons] <;> omega

/-- Each empty item takes a separator with it. -/
theorem lengthWith_present {items : List String} (h : "" ∈ items) :
    lengthWith separator (items.filter (· ≠ "")) + separator.length ≤
      lengthWith separator items := by
  obtain ⟨xs, ys, rfl⟩ := List.append_of_mem h
  have hxs := lengthWith_present_le separator xs
  have hys := lengthWith_present_le separator ys
  rw [List.filter_append, List.filter_cons_of_neg (by simp), lengthWith_append, lengthWith_append,
    lengthWith_cons]
  omega

end Lengths

/-! ## Connectives -/

namespace Connective

variable (c : Connective)

/-- The keyword of a connective with a space on each side. -/
def separator : String := " " ++ c.term ++ " "

theorem two_le_length_separator : 2 ≤ c.separator.length := by
  rw [separator, String.length_append, String.length_append, show " ".length = 1 from rfl]
  omega

/-- A connective has the empty text only if it has no condition, or an empty one and no other. -/
theorem joined_eq_empty_iff (texts : List String) :
    c.joined texts = "" ↔ texts = [] ∨ texts = [""] := by
  match texts with
  | [] => simp [joined]
  | [t] => simp [joined]
  | t :: u :: rest => simp [joined]

/-- Two brackets stand around more than one condition. -/
theorem length_joined {texts : List String} (h : 1 < texts.length) :
    (c.joined texts).length + c.separator.length = lengthWith c.separator texts + 2 := by
  obtain ⟨t, u, rest, rfl⟩ : ∃ t u rest, texts = t :: u :: rest := by
    match texts, h with
    | t :: u :: rest, _ => exact ⟨t, u, rest, rfl⟩
  have hlength := length_intercalate c.separator (List.cons_ne_nil t (u :: rest))
  rw [show c.joined (t :: u :: rest) = "(" ++ c.separator.intercalate (t :: u :: rest) ++ ")"
    from rfl, String.length_append, String.length_append, ← hlength, show "(".length = 1 from rfl,
    show ")".length = 1 from rfl]
  omega

theorem length_joined_le (texts : List String) :
    (c.joined texts).length ≤ lengthWith c.separator texts := by
  have hseparator := c.two_le_length_separator
  match texts with
  | [] => exact Nat.zero_le _
  | [t] =>
    rw [joined, lengthWith_cons]
    omega
  | t :: u :: rest =>
    have hlength := c.length_joined (show 1 < (t :: u :: rest).length by simp)
    omega

/-- **Empty conditions are as good as absent ones only where no other condition is given.** -/
theorem joined_present_iff (texts : List String) :
    c.joined (texts.filter (· ≠ "")) = c.joined texts ↔ texts.length ≤ 1 ∨ "" ∉ texts := by
  constructor
  · intro heq
    by_contra hnot
    obtain ⟨hmany, hempty⟩ := not_or.mp hnot
    -- The separator of the empty condition makes the text too long.
    have hlong := c.length_joined (Nat.lt_of_not_le hmany)
    have hshort := c.length_joined_le (texts.filter (· ≠ ""))
    have hless := lengthWith_present c.separator (not_not.mp hempty)
    rw [heq] at hshort
    omega
  · rintro (hfew | hnone)
    · match texts, hfew with
      | [], _ => rfl
      | [t], _ => by_cases ht : t = "" <;> simp [ht, joined]
    · rw [List.filter_eq_self.mpr fun t ht => by simpa using ne_of_mem_of_not_mem ht hnone]

end Connective

/-- Whether a value has the empty text. -/
def Value.rendersEmpty (v : Value) : Bool := v.text.toOption == some ""

namespace Value

theorem rendersEmpty_iff {v : Value} : v.rendersEmpty = true ↔ v.text = .ok "" := by
  unfold rendersEmpty
  cases v.text <;> simp [Except.toOption]

/-- What is left of the conditions without the empty ones has the texts that are not empty. -/
theorem renderAll_present {conditions : List Value} {texts : List String}
    (h : renderAll .bare conditions = .ok texts) :
    renderAll .bare (conditions.filter fun v => !v.rendersEmpty) =
      .ok (texts.filter (· ≠ "")) := by
  induction conditions generalizing texts with
  | nil =>
    cases h
    rfl
  | cons v rest ih =>
    obtain ⟨t, ht, h⟩ := Except.bind_eq_ok.mp h
    obtain ⟨ts, hts, h⟩ := Except.bind_eq_ok.mp h
    cases h
    have hrest := ih hts
    cases hv : v.rendersEmpty with
    | true =>
      have hempty : t = "" := Except.ok.inj (ht.symm.trans (rendersEmpty_iff.mp hv))
      rw [List.filter_cons_of_neg (by simp [hv]), hrest, List.filter_cons_of_neg (by simp [hempty])]
    | false =>
      have hne : t ≠ "" := by
        rintro rfl
        rw [rendersEmpty_iff.mpr ht] at hv
        cases hv
      rw [List.filter_cons_of_pos (by simp [hv]), List.filter_cons_of_pos (by simp [hne]),
        renderAll, ht, hrest]
      rfl

theorem any_rendersEmpty {conditions : List Value} {texts : List String}
    (h : renderAll .bare conditions = .ok texts) :
    "" ∈ texts ↔ ∃ v ∈ conditions, v.rendersEmpty = true := by
  induction conditions generalizing texts with
  | nil =>
    cases h
    simp
  | cons v rest ih =>
    obtain ⟨t, ht, h⟩ := Except.bind_eq_ok.mp h
    obtain ⟨ts, hts, h⟩ := Except.bind_eq_ok.mp h
    cases h
    have hv : v.rendersEmpty = true ↔ "" = t := by
      rw [rendersEmpty_iff, show v.text = .ok t from ht, Except.ok.injEq, eq_comm]
    rw [List.mem_cons, ih hts, List.exists_mem_cons_iff, hv]

end Value

/-- **A connective renders as if its empty conditions were absent only** where it has none of them,
or no other condition. -/
theorem Fragment.group_present_iff {c : Connective} {conditions : List Value} {sql : String}
    (h : (Fragment.group c conditions).text = .ok sql) :
    (Fragment.group c (conditions.filter fun v => !v.rendersEmpty)).text = .ok sql ↔
      conditions.length ≤ 1 ∨ ∀ v ∈ conditions, v.rendersEmpty = false := by
  obtain ⟨texts, htexts, hsql⟩ := Except.map_eq_ok.mp h
  have hlength : conditions.length = texts.length :=
    (Except.forall₂_of_mapM_eq_ok (Value.renderAll_eq_mapM .bare conditions ▸ htexts)).length_eq
  rw [Fragment.text, Value.renderAll_present htexts, ← hsql, hlength]
  refine Iff.trans ?_ ((c.joined_present_iff texts).trans (or_congr_right ?_))
  · exact ⟨Except.ok.inj, congrArg Except.ok⟩
  · rw [Value.any_rendersEmpty htexts]
    simp

/-! ## Comparisons -/

/-- What does not count as present can be left out. -/
theorem joinPresent_without {v : Value} (hv : v.isTruthy = false) (xs ys : List Value) :
    joinPresent (xs ++ v :: ys) = joinPresent (xs ++ ys) := by
  simp [joinPresent, hv]

theorem Value.ne_empty_of_word? {v : Value} {w : String} (hv : v.isTruthy = true)
    (h : v.word? = .ok w) : w ≠ "" := by
  rintro rfl
  cases v with
  | str s =>
    cases h
    cases hv
  | _ => cases h

/-- What counts as present cannot. -/
theorem joinPresent_without_ne {v : Value} (hv : v.isTruthy = true) {xs ys : List Value}
    {sql : String} (h : joinPresent (xs ++ v :: ys) = .ok sql) :
    joinPresent (xs ++ ys) ≠ .ok sql := by
  intro h'
  obtain ⟨words, hwords, hsql⟩ := Except.map_eq_ok.mp h
  obtain ⟨words', hwords', hsql'⟩ := Except.map_eq_ok.mp h'
  rw [List.filter_append, List.filter_cons_of_pos hv, List.mapM_append, List.mapM_cons] at hwords
  rw [List.filter_append, List.mapM_append] at hwords'
  obtain ⟨us, hus, hwords⟩ := Except.bind_eq_ok.mp hwords
  obtain ⟨us', hus', hwords'⟩ := Except.bind_eq_ok.mp hwords'
  obtain ⟨ts, hts, hwords⟩ := Except.bind_eq_ok.mp hwords
  obtain ⟨ts', hts', hwords'⟩ := Except.bind_eq_ok.mp hwords'
  obtain ⟨w, hw, hts⟩ := Except.bind_eq_ok.mp hts
  obtain ⟨vs, hvs, hts⟩ := Except.bind_eq_ok.mp hts
  obtain rfl : us = us' := Except.ok.inj (hus.symm.trans hus')
  obtain rfl : vs = ts' := Except.ok.inj (hvs.symm.trans hts')
  cases hts
  cases hwords
  cases hwords'
  exact intercalate_insert_ne " " (Value.ne_empty_of_word? hv hw) us vs (hsql.trans hsql'.symm)

/-- **An empty right side leaves its operator behind.** -/
theorem Filter.right_empty_iff {c : Filter} {r : Fragment} {sql : String}
    (hr : c.right = some r) (hempty : r.text = .ok "") (h : c.text = .ok sql) :
    Filter.text { c with right := none } = .ok sql ↔ c.operator.isTruthy = false := by
  obtain ⟨left, right, operator, before, after⟩ := c
  obtain rfl : right = some r := hr
  obtain ⟨l, hl, h⟩ := Except.bind_eq_ok.mp h
  have hkept : joinPresent ([before, .str l] ++ operator :: [after]) = .ok sql := by
    rw [← h, Fragment.text?, hempty]
    exact (joinPresent_without rfl [before, .str l, operator] [after]).symm
  have hdropped : Filter.text { left, right := none, operator, before, after } =
      joinPresent ([before, .str l] ++ [after]) := by
    rw [Filter.text, hl]
    rfl
  rw [hdropped]
  cases hoperator : operator.isTruthy with
  | false => exact iff_of_true ((joinPresent_without hoperator _ _).symm.trans hkept) rfl
  | true => exact iff_of_false (joinPresent_without_ne hoperator hkept) (by simp)

/-! ## Joins and branches -/

/-- A keyword stays at the end although nothing follows. -/
theorem joinWords_keyword {words : List String} {u w : String} (hu : u ∈ words) (hne : u ≠ "")
    (hw : w ≠ "") : joinWords (words ++ [w, ""]) = joinWords words ++ (" " ++ w) := by
  have hsome : words.filter (fun w => !w.isEmpty) ≠ [] :=
    List.ne_nil_of_mem (List.mem_filter.mpr ⟨hu, by simpa using hne⟩)
  rw [joinWords, List.filter_append, List.filter_cons_of_pos (by simpa using hw),
    List.filter_cons_of_neg (by simp), List.filter_nil,
    String.intercalate_append_of_ne_nil hsome (List.cons_ne_nil _ _), String.intercalate_singleton,
    String.append_assoc]
  rfl

/-- **An empty condition of a join leaves its `ON` behind.** -/
theorem Join.condition_empty {j : Join} {f : Fragment} {sql : String}
    (hf : j.condition = some f) (hempty : f.text = .ok "") (h : j.text = .ok sql) :
    ∃ rest, Join.text { j with condition := none } = .ok rest ∧ sql = rest ++ " ON" := by
  obtain ⟨family, kind, table, label, condition⟩ := j
  obtain rfl : condition = some f := hf
  obtain ⟨direction, hdirection, h⟩ := Except.bind_eq_ok.mp h
  obtain ⟨t, ht, h⟩ := Except.bind_eq_ok.mp h
  rw [Fragment.text?, hempty] at h
  have hdirection' : Join.direction ⟨family, kind, table, label, none⟩ = .ok direction :=
    hdirection
  refine ⟨joinWords [direction.before, "JOIN", direction.after, t,
    (label.map Identifier.quote).getD ""], ?_, ?_⟩
  · rw [Join.text, hdirection', ht]
    rfl
  · rw [← Except.ok.inj h, show " ON" = " " ++ "ON" from rfl]
    exact joinWords_keyword (u := "JOIN") (by simp) (by decide) (by decide)

/-- So does an empty condition of a branch. -/
theorem Branch.condition_empty {b : Branch} (h : b.condition.text = .ok "") :
    b.text = .ok ("WHEN  THEN " ++ b.result.text) := by
  obtain ⟨condition, result⟩ := b
  rw [Branch.text, show condition.text = .ok "" from h]
  rfl

/-! ## Statements -/

namespace Builder

/-- The condition of a statement is empty if there is no filter, or an empty one and no other. -/
theorem conditionText_eq_empty_iff (b : Builder) :
    b.conditionText = .ok "" ↔ b.filters = [] ∨ ∃ c, b.filters = [c] ∧ c.text = .ok "" := by
  rw [conditionText]
  constructor
  · intro h
    obtain ⟨texts, htexts, hjoined⟩ := Except.map_eq_ok.mp h
    have hall := Except.forall₂_of_mapM_eq_ok htexts
    rcases (Connective.joined_eq_empty_iff _ _).mp hjoined with rfl | rfl
    · exact .inl (List.forall₂_nil_right_iff.mp hall)
    · obtain ⟨c, rest, hc, hrest, hfilters⟩ := List.forall₂_cons_right_iff.mp hall
      rw [List.forall₂_nil_right_iff.mp hrest] at hfilters
      exact .inr ⟨c, hfilters, hc⟩
  · rintro (h | ⟨c, h, hc⟩)
    · rw [h]
      rfl
    · rw [h, List.mapM_cons, hc]
      rfl

/-- **A statement ends its condition at the keyword** exactly if its only filter is empty. -/
theorem filterClause_eq_keyword_iff (b : Builder) :
    b.filterClause = .ok "WHERE " ↔ ∃ c, b.filters = [c] ∧ c.text = .ok "" := by
  by_cases hb : b.filters = []
  · simp [filterClause, hb]
  · rw [filterClause_of_filters hb]
    refine Iff.trans ?_ (b.conditionText_eq_empty_iff.trans (or_iff_right hb))
    constructor
    · intro h
      obtain ⟨condition, hcondition, hclause⟩ := Except.map_eq_ok.mp h
      rw [hcondition, show condition = "" by simpa using hclause]
    · intro h
      rw [h]
      rfl

end Builder

/-- A space at the end is trimmed. -/
theorem Text.trimList_space {c : Char} {cs : List Char} (hc : isBlank c = false)
    (h : EndsDark (c :: cs)) : trimList (c :: (cs ++ [' '])) = c :: cs := by
  have hself := trimList_eq_self hc h
  rw [trimList, List.dropWhile_cons_of_neg (by simp [hc])] at hself ⊢
  rw [← List.cons_append, List.reverse_append, List.reverse_singleton, List.singleton_append,
    List.dropWhile_cons_of_pos (by decide), hself]

/-- What deletes rows under an empty condition ends at the keyword. -/
theorem deletion_empty (source : Option String) :
    deletion source "" = "DELETE" ++ source.elim "" (" FROM " ++ ·) ++ " WHERE" := by
  have hdark : Text.EndsDark
      ('D' :: ("ELETE".toList ++ (source.elim "" (" FROM " ++ ·)).toList ++ " WHERE".toList)) :=
    Text.EndsDark.append ('D' :: ("ELETE".toList ++ (source.elim "" (" FROM " ++ ·)).toList))
      ⟨'E', by decide, by decide⟩
  rw [deletion, ← String.toList_inj, Text.toList_trim]
  refine Eq.trans ?_ ((Text.trimList_space (by decide) hdark).trans ?_)
  · simp
  · simp

/-- **Where an empty operand is left out.** A connective renders as if its empty conditions were
absent exactly where it has none of them or at most one condition; otherwise its keyword stands
beside nothing. The operator of a comparison stays where the right side is empty, unless there is no
operator. `ON` stays, and so does `WHEN`. A statement keeps its `WHERE` without a condition exactly
if its only filter is empty, and then a statement that deletes rows ends there. -/
theorem empty_operand_dropped_iff (k : Connective) (conditions : List Value) (c : Filter) (j : Join)
    (d : Branch) (b : Builder) :
    (∀ sql, (Fragment.group k conditions).text = .ok sql →
      ((Fragment.group k (conditions.filter fun v => !v.rendersEmpty)).text = .ok sql ↔
        conditions.length ≤ 1 ∨ ∀ v ∈ conditions, v.rendersEmpty = false)) ∧
    (∀ r sql, c.right = some r → r.text = .ok "" → c.text = .ok sql →
      (Filter.text { c with right := none } = .ok sql ↔ c.operator.isTruthy = false)) ∧
    (∀ f sql, j.condition = some f → f.text = .ok "" → j.text = .ok sql →
      ∃ rest, Join.text { j with condition := none } = .ok rest ∧ sql = rest ++ " ON") ∧
    (d.condition.text = .ok "" → d.text = .ok ("WHEN  THEN " ++ d.result.text)) ∧
    (b.filterClause = .ok "WHERE " ↔ ∃ c, b.filters = [c] ∧ c.text = .ok "") ∧
    ∀ source sql, b.filterClause = .ok "WHERE " → Fragment.text? b.table = .ok source →
      b.deleteText = .ok sql →
      sql = "DELETE" ++ source.elim "" (" FROM " ++ ·) ++ " WHERE" := by
  refine ⟨fun _ => Fragment.group_present_iff, fun _ _ => Filter.right_empty_iff,
    fun _ _ => Join.condition_empty, Branch.condition_empty, b.filterClause_eq_keyword_iff,
    fun source sql hclause hsource hdelete => ?_⟩
  obtain ⟨hne, source', condition, hsource', hcondition, rfl⟩ :=
    Builder.deletion_of_deleteText hdelete
  cases hsource.symm.trans hsource'
  rw [Builder.filterClause_of_filters hne, hcondition] at hclause
  obtain rfl : condition = "" := by simpa using Except.ok.inj hclause
  exact deletion_empty source

/-- A table, and a filter that is a connective without conditions. -/
def hollowDialogue : Session :=
  (Turn.takeAllWithin 0
    [⟨"root", .call .table [.atom (.str "t")] []⟩,
     ⟨"root", .call .filter [.call (.group .and) [] []] []⟩]
    (.start Supply.counting .info (.options .default))).2

/-- Among two conditions the empty one stays, and so do the operator of a comparison, the `ON` of a
join and the `WHERE` of the only filter. -/
theorem empty_operand_dropped_iff_hollow :
    (Fragment.group .and [.fragment (.group .or []) [], .str "x"]).text = .ok "( AND x)" ∧
      (Fragment.group .and [.str "x"]).text ≠ .ok "( AND x)" ∧
      (Filter.mk (.column "a") none (.str "=") (.str "") (.str "")).text ≠ .ok "\"a\" =" ∧
      (∃ rest, (Join.mk .plain (.joinKind .plain) (.column "t") none none).text = .ok rest ∧
        "JOIN \"t\" ON" = rest ++ " ON") ∧
      (hollowDialogue.builder 0).filterClause = .ok "WHERE " ∧
      ∀ sql, (hollowDialogue.builder 0).deleteText = .ok sql →
        sql = "DELETE FROM \"t\" WHERE" := by
  let c : Filter := ⟨.column "a", some (.group .or []), .str "=", .str "", .str ""⟩
  let j : Join := ⟨.plain, .joinKind .plain, .column "t", none, some (.group .and [])⟩
  obtain ⟨hgroup, hright, hcondition, -, -, hdelete⟩ := empty_operand_dropped_iff .and
    [.fragment (.group .or []) [], .str "x"] c j ⟨c, ⟨"", none, []⟩⟩ (hollowDialogue.builder 0)
  have htext : (Fragment.group .and [.fragment (.group .or []) [], .str "x"]).text =
      .ok "( AND x)" := by decide +kernel
  have hfilter : (hollowDialogue.builder 0).filterClause = .ok "WHERE " := by decide +kernel
  have hsource : Fragment.text? (hollowDialogue.builder 0).table = .ok (some "\"t\"") := by
    decide +kernel
  refine ⟨htext, fun h => ?_, fun h => ?_, ?_, hfilter,
    fun sql hsql => hdelete _ sql hfilter hsource hsql⟩
  · obtain hfew | hnone := (hgroup _ htext).mp h
    · exact absurd hfew (by decide)
    · exact absurd (hnone _ List.mem_cons_self) (by decide +kernel)
  · exact absurd ((hright _ "\"a\" =" rfl rfl (by decide +kernel)).mp h) (by decide)
  · exact hcondition _ "JOIN \"t\" ON" rfl rfl (by decide +kernel)

/-- A statement that deletes rows can be rendered without a condition. -/
theorem delete_without_condition :
    ¬ ∀ (s : Session) (sql : String), s.ReachedFrom (.options .default) →
      ((Command.delete.runNoted (Callback.run 0) 0).exec s).1.map Reply.statement? =
        .ok (some sql) →
      (s.builder 0).conditionText ≠ .ok "" := by
  intro h
  exact h hollowDialogue "DELETE FROM \"t\" WHERE" ⟨_, _, _, _, rfl⟩ (by decide +kernel)
    (by decide +kernel)

end BoundSql

import BoundSql.Proofs.Decoding
import BoundSql.Proofs.Making
import BoundSql.Proofs.Operands

/-!
# The grammar of choices

A choice is documented as `CASE`, then its branches, each `WHEN <condition> THEN (<statement>)`,
then at most one `ELSE (<statement>)`, and then `END AS` with the quoted name. The constructors look
at the classes of the parts and not at their shapes, so two kinds of choices are accepted that are
written otherwise: an operand is written as the nested statement that it is, with its label after
the closing bracket; and a choice may have no branch at all. All other choices follow the grammar
(`choice_follows_grammar_iff`).

`choiceText` is the text of a choice for any way of writing its operands, so the documented text and
the real one differ in that way only, and are told apart by their lengths.
-/

set_option autoImplicit false

namespace BoundSql

/-! ## Words -/

/-- A quoted name is not empty, not even that of the empty name. -/
theorem Identifier.quote_ne_empty (name : String) : Identifier.quote name ≠ "" := by
  have hsegment : ∀ segment, Identifier.quoteSegment segment ≠ [] := by
    intro segment
    unfold Identifier.quoteSegment
    split
    · rename_i h
      simp [h, Identifier.wildcard]
    · simp
  obtain ⟨segment, rest, hsegments⟩ :=
    List.exists_cons_of_ne_nil (Identifier.segments_ne_nil name)
  intro h
  have hlist := congrArg String.toList h
  rw [Identifier.quote, String.toList_ofList, hsegments, List.map_cons,
    Text.intercalate_cons] at hlist
  exact hsegment segment (List.append_eq_nil_iff.mp hlist).1

/-! ## The text of a choice -/

/-- A nested statement in brackets, and nothing else. -/
def SubSelect.bracketed (s : SubSelect) : String := "(" ++ s.sql ++ ")"

/-- What stands after the closing bracket of a nested statement. -/
def SubSelect.suffix (s : SubSelect) : String :=
  match s.label with
  | none => ""
  | some label => " AS " ++ Identifier.quote label

theorem SubSelect.text_eq_bracketed (s : SubSelect) : s.text = s.bracketed ++ s.suffix := by
  unfold text bracketed suffix
  cases s.label with
  | none => simp
  | some label =>
    show "(" ++ s.sql ++ ") AS " ++ _ = "(" ++ s.sql ++ ")" ++ (" AS " ++ _)
    rw [show ") AS " = ")" ++ " AS " from rfl]
    simp only [String.append_assoc]

theorem SubSelect.suffix_eq_empty_iff (s : SubSelect) : s.suffix = "" ↔ s.label = none := by
  unfold suffix
  cases s.label <;> simp

/-- A branch with the text of its condition. -/
def Branch.rendered (b : Branch) : Except Fault (String × SubSelect) :=
  return (← b.condition.text, b.result)

/-- The words of a choice whose operands are written by `operand`. -/
def choiceWords (operand : SubSelect → String) (name : String)
    (branches : List (String × SubSelect)) (last : Option SubSelect) : List String :=
  "CASE" :: (branches.map (fun b => "WHEN " ++ b.1 ++ " THEN " ++ operand b.2) ++
    last.toList.map (fun s => "ELSE " ++ operand s) ++ ["END AS", Identifier.quote name])

/-- The text of a choice whose operands are written by `operand`. -/
def choiceText (operand : SubSelect → String) (name : String)
    (branches : List (String × SubSelect)) (last : Option SubSelect) : String :=
  " ".intercalate (choiceWords operand name branches last)

/-- The nested statements of a choice. -/
def choiceOperands (branches : List (String × SubSelect)) (last : Option SubSelect) :
    List SubSelect :=
  branches.map (·.2) ++ last.toList

/-- The text follows the documented grammar: there is a branch, and every operand is a statement in
brackets. -/
def Fragment.FollowsGrammar (f : Fragment) (sql : String) : Prop :=
  ∃ name branches last rendered, f = .choice name branches last ∧ branches ≠ [] ∧
    branches.mapM Branch.rendered = .ok rendered ∧
    sql = choiceText SubSelect.bracketed name rendered last

theorem Branch.texts_eq (bs : List Branch) :
    Branch.texts bs =
      List.map (fun b : String × SubSelect => "WHEN " ++ b.1 ++ " THEN " ++ b.2.text) <$>
        bs.mapM Branch.rendered := by
  induction bs with
  | nil => rfl
  | cons b rest ih =>
    obtain ⟨condition, result⟩ := b
    simp only [Branch.texts, Branch.text, ih, List.mapM_cons, Branch.rendered]
    cases condition.text with
    | error fault => rfl
    | ok t => cases rest.mapM Branch.rendered <;> rfl

theorem choiceWords_ne_empty (operand : SubSelect → String) (name : String)
    (branches : List (String × SubSelect)) (last : Option SubSelect) :
    ∀ w ∈ choiceWords operand name branches last, w ≠ "" := by
  intro w hw
  simp only [choiceWords, List.mem_cons, List.mem_append, List.mem_map] at hw
  rcases hw with rfl | (⟨b, -, rfl⟩ | ⟨s, -, rfl⟩) | rfl | rfl | hnone
  · decide
  · simp
  · simp
  · decide
  · exact Identifier.quote_ne_empty name
  · cases hnone

/-- **The text of a choice**: its operands are written as the nested statements that they are. -/
theorem Fragment.text_choice (name : String) (branches : List Branch) (last : Option SubSelect) :
    (Fragment.choice name branches last).text =
      (fun rendered => choiceText SubSelect.text name rendered last) <$>
        branches.mapM Branch.rendered := by
  simp only [Fragment.text, Branch.texts_eq]
  cases branches.mapM Branch.rendered with
  | error fault => rfl
  | ok rendered =>
    have hbranches : ∀ w ∈ rendered.map
        (fun b : String × SubSelect => "WHEN " ++ b.1 ++ " THEN " ++ b.2.text), w ≠ "" := by
      intro w hw
      obtain ⟨b, -, rfl⟩ := List.mem_map.mp hw
      simp
    have hwords := intercalate_eq_joinWords (choiceWords_ne_empty SubSelect.text name rendered last)
    -- Branches and last statement are joined beforehand, and are here taken apart again.
    have hfirst := joinWords_joinWords ["CASE"] (rendered.map
      fun b : String × SubSelect => "WHEN " ++ b.1 ++ " THEN " ++ b.2.text)
      [joinWords (last.toList.map fun s => "ELSE " ++ s.text), "END AS", Identifier.quote name]
    have hsecond := joinWords_joinWords ("CASE" :: rendered.map
      fun b : String × SubSelect => "WHEN " ++ b.1 ++ " THEN " ++ b.2.text)
      (last.toList.map fun s => "ELSE " ++ s.text) ["END AS", Identifier.quote name]
    refine congrArg Except.ok ?_
    refine Eq.trans ?_ ((hfirst.trans hsecond).trans hwords.symm)
    rw [intercalate_eq_joinWords hbranches]
    cases last with
    | none => rfl
    | some s =>
      have hlast : joinWords ((some s).toList.map fun s => "ELSE " ++ s.text) = "ELSE " ++ s.text := by
        simp [joinWords]
      rw [hlast]
      rfl

/-! ## Telling the two texts apart -/

/-- The length of a text is that of its two parts, for all texts of a list together. -/
theorem lengthWith_map_append {α : Type} (f g : α → String) (xs : List α) :
    lengthWith "" (xs.map fun x => f x ++ g x) =
      lengthWith "" (xs.map f) + lengthWith "" (xs.map g) := by
  induction xs with
  | nil => rfl
  | cons x rest ih =>
    simp only [List.map_cons, lengthWith_cons, ih, String.length_append, String.length_empty]
    omega

theorem eq_empty_of_lengthWith_eq_zero {ws : List String} (h : lengthWith "" ws = 0) :
    ∀ w ∈ ws, w = "" := by
  induction ws with
  | nil => simp
  | cons w rest ih =>
    simp only [lengthWith_cons, String.length_empty] at h
    have hw : w = "" := String.length_eq_zero_iff.mp (by omega)
    exact List.forall_mem_cons.mpr ⟨hw, ih (by omega)⟩

/-- The operands make up what the words of a choice have beside its other words. -/
theorem lengthWith_choiceWords (operand : SubSelect → String) (name : String)
    (branches : List (String × SubSelect)) (last : Option SubSelect) :
    lengthWith " " (choiceWords operand name branches last) =
      lengthWith " " (choiceWords (fun _ => "") name branches last) +
        lengthWith "" ((choiceOperands branches last).map operand) := by
  have hbranches : lengthWith " " (branches.map fun b => "WHEN " ++ b.1 ++ " THEN " ++ operand b.2) =
      lengthWith " " (branches.map fun b => "WHEN " ++ b.1 ++ " THEN " ++ "") +
        lengthWith "" (branches.map fun b => operand b.2) := by
    induction branches with
    | nil => rfl
    | cons b rest ih =>
      simp only [List.map_cons, lengthWith_cons, ih, String.length_append, String.length_empty]
      omega
  have hlast : lengthWith " " (last.toList.map fun s => "ELSE " ++ operand s) =
      lengthWith " " (last.toList.map fun _ => "ELSE " ++ "") +
        lengthWith "" (last.toList.map operand) := by
    cases last with
    | none => rfl
    | some s =>
      simp only [Option.toList_some, List.map_cons, List.map_nil, lengthWith_cons, lengthWith,
        String.length_append, String.length_empty]
      omega
  simp only [choiceWords, choiceOperands, lengthWith_cons, lengthWith_append, hbranches, hlast,
    List.map_append, List.map_map, Function.comp_def]
  omega

/-- **The two texts are equal just where no operand has a label.** -/
theorem choiceText_eq_iff (name : String) (branches : List (String × SubSelect))
    (last : Option SubSelect) :
    choiceText SubSelect.text name branches last =
        choiceText SubSelect.bracketed name branches last ↔
      ∀ s ∈ choiceOperands branches last, s.label = none := by
  constructor
  · intro heq
    have hne : ∀ operand, choiceWords operand name branches last ≠ [] :=
      fun operand => List.cons_ne_nil _ _
    have htext := length_intercalate " " (hne SubSelect.text)
    have hbracketed := length_intercalate " " (hne SubSelect.bracketed)
    rw [← choiceText, lengthWith_choiceWords] at htext hbracketed
    have hoperand : SubSelect.text = fun s => s.bracketed ++ s.suffix :=
      funext SubSelect.text_eq_bracketed
    have hlengths := lengthWith_map_append SubSelect.bracketed SubSelect.suffix
      (choiceOperands branches last)
    rw [← hoperand] at hlengths
    have hzero : lengthWith "" ((choiceOperands branches last).map SubSelect.suffix) = 0 := by
      rw [heq] at htext
      omega
    intro s hs
    have hsuffix := eq_empty_of_lengthWith_eq_zero hzero _ (List.mem_map_of_mem hs)
    exact s.suffix_eq_empty_iff.mp hsuffix
  · intro hplain
    have hoperand : ∀ s ∈ choiceOperands branches last, s.text = s.bracketed := by
      intro s hs
      rw [s.text_eq_bracketed, s.suffix_eq_empty_iff.mpr (hplain s hs), String.append_empty]
    simp only [choiceOperands, List.mem_append, List.mem_map] at hoperand
    have hbranches : branches.map (fun b => "WHEN " ++ b.1 ++ " THEN " ++ b.2.text) =
        branches.map (fun b => "WHEN " ++ b.1 ++ " THEN " ++ b.2.bracketed) :=
      List.map_congr_left fun b hb => by rw [hoperand b.2 (.inl ⟨b, hb, rfl⟩)]
    have hlast : last.toList.map (fun s => "ELSE " ++ s.text) =
        last.toList.map (fun s => "ELSE " ++ s.bracketed) :=
      List.map_congr_left fun s hs => by rw [hoperand s (.inr hs)]
    rw [choiceText, choiceText, choiceWords, choiceWords, hbranches, hlast]

theorem Branch.map_result_of_rendered {bs : List Branch} {rendered : List (String × SubSelect)}
    (h : bs.mapM Branch.rendered = .ok rendered) : rendered.map (·.2) = bs.map Branch.result := by
  have hall := Except.forall₂_of_mapM_eq_ok h
  clear h
  induction hall with
  | nil => rfl
  | cons hb _ ih =>
    obtain ⟨t, -, hb⟩ := Except.bind_eq_ok.mp hb
    cases hb
    rw [List.map_cons, List.map_cons, ih]

/-! ## Choices that are accepted -/

/-- **Which choices follow their grammar.** A choice is made of any branches and of any last
statement, and its text is determined by the conditions: there is one if and only if they all have
one. It follows the documented grammar if and only if the choice has a branch, and no nested
statement in it has a label. -/
theorem choice_follows_grammar_iff {name branches last : Value} {f : Fragment}
    (h : Fragment.ofChoice name branches last = .ok f) :
    ∃ n items bs s, name = .str n ∧ branches.items = .ok items ∧
      List.Forall₂ (fun v b => v.fragment? = some (.branch b)) items bs ∧
      last.asFallback? = .ok s ∧ f = .choice n bs s ∧
      (∀ sql, f.text = .ok sql ↔ ∃ rendered, bs.mapM Branch.rendered = .ok rendered ∧
        sql = choiceText SubSelect.text n rendered s) ∧
      ∀ sql, f.text = .ok sql → (f.FollowsGrammar sql ↔
        bs ≠ [] ∧ ∀ operand ∈ bs.map Branch.result ++ s.toList, operand.label = none) := by
  obtain ⟨items, hitems, h⟩ := Except.bind_eq_ok.mp h
  obtain ⟨bs, hbs, h⟩ := Except.bind_eq_ok.mp h
  obtain ⟨s, hs, h⟩ := Except.bind_eq_ok.mp h
  obtain ⟨n, hn, h⟩ := Except.bind_eq_ok.mp h
  cases h
  have htext : ∀ sql, (Fragment.choice n bs s).text = .ok sql ↔
      ∃ rendered, bs.mapM Branch.rendered = .ok rendered ∧
        sql = choiceText SubSelect.text n rendered s := by
    intro sql
    rw [Fragment.text_choice, Except.map_eq_ok]
    exact exists_congr fun rendered => and_congr_right' eq_comm
  refine ⟨n, items, bs, s, Value.eq_str_of_name hn, hitems, ?_, hs, rfl, htext, ?_⟩
  · exact (Except.forall₂_of_mapM_eq_ok hbs).imp fun _ _ => Value.fragment?_of_asBranch
  · intro sql hsql
    obtain ⟨rendered, hrendered, rfl⟩ := (htext sql).mp hsql
    have hoperands : choiceOperands rendered s = bs.map Branch.result ++ s.toList := by
      rw [choiceOperands, Branch.map_result_of_rendered hrendered]
    rw [← hoperands, ← choiceText_eq_iff n]
    constructor
    · rintro ⟨n', bs', s', rendered', hf, hne, hrendered', heq⟩
      cases hf
      cases hrendered.symm.trans hrendered'
      exact ⟨hne, heq⟩
    · rintro ⟨hne, heq⟩
      exact ⟨n, bs, s, rendered, rfl, hne, hrendered, heq⟩

/-- A branch whose statement has a label. -/
def labelledBranch : Branch :=
  ⟨⟨.column "a", none, .str "=", .str "", .str ""⟩, ⟨"SELECT 1", some "x", []⟩⟩

/-- The choice of this branch, and the one of no branch. -/
def labelledChoice : Fragment := .choice "n" [labelledBranch] none
def hollowChoice : Fragment := .choice "n" [] none

/-- The label stands after the closing bracket, so the choice does not follow its grammar. -/
theorem choice_follows_grammar_iff_labelled :
    Fragment.ofChoice (.str "n") (.list [.fragment (.branch labelledBranch) []]) .null =
        .ok labelledChoice ∧
      ∀ sql, labelledChoice.text = .ok sql → ¬ labelledChoice.FollowsGrammar sql := by
  have hmade : Fragment.ofChoice (.str "n") (.list [.fragment (.branch labelledBranch) []]) .null =
      .ok labelledChoice := rfl
  obtain ⟨n, items, bs, s, -, -, -, -, hf, -, hiff⟩ := choice_follows_grammar_iff hmade
  cases hf
  refine ⟨hmade, fun sql hsql hfollows => ?_⟩
  have hlabel := ((hiff sql hsql).mp hfollows).2 labelledBranch.result List.mem_cons_self
  cases hlabel

/-- Choices that are accepted do not always follow their grammar, neither with a label nor without
a branch. -/
theorem choices_off_grammar :
    (Fragment.ofChoice (.str "n") (.list [.fragment (.branch labelledBranch) []]) .null =
        .ok labelledChoice ∧
      labelledChoice.text = .ok "CASE WHEN \"a\" THEN (SELECT 1) AS \"x\" END AS \"n\"" ∧
      ¬ labelledChoice.FollowsGrammar "CASE WHEN \"a\" THEN (SELECT 1) AS \"x\" END AS \"n\"") ∧
    Fragment.ofChoice (.str "n") (.list []) .null = .ok hollowChoice ∧
      hollowChoice.text = .ok "CASE END AS \"n\"" ∧
      ¬ hollowChoice.FollowsGrammar "CASE END AS \"n\"" := by
  refine ⟨⟨rfl, by decide +kernel, ?_⟩, rfl, by decide +kernel, ?_⟩
  · rintro ⟨n, bs, s, rendered, hf, -, hrendered, hsql⟩
    cases hf
    have hone : [labelledBranch].mapM Branch.rendered = .ok [("\"a\"", labelledBranch.result)] := by
      rfl
    cases hone.symm.trans hrendered
    revert hsql
    decide +kernel
  · rintro ⟨n, bs, s, rendered, hf, hne, -, -⟩
    cases hf
    exact hne rfl

end BoundSql

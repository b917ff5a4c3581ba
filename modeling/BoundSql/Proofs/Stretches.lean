import BoundSql.Proofs.Decoding
import BoundSql.Proofs.Leaves

/-!
# The stretches of a text

The text of a fragment consists of stretches: of what its class writes itself, of values that a
caller has given it to be written as they are, and of the texts of its leaves.
`Fragment.stretches` writes the text down in this way, and then nothing is lost: put together, the
stretches are the text, and there are some if and only if there is a text
(`Fragment.text_eq_spell`).

This says where the leaves stand in the text. One level of the tree is looked at at a time: a
fragment writes its children in their order, with other stretches around them
(`Fragment.stretches_around`). So the leaves stand in the text in the order in which they are found
in the tree (`Fragment.leaves_of_stretches`), and what is written beside them are strings and
numbers, if nothing else has been given (`Fragment.proper_of_stretches`).
-/

set_option autoImplicit false

namespace BoundSql

/-- A stretch of the text of a fragment. -/
inductive Stretch where
  /-- What a class writes itself: keywords, brackets, quoted names and separators. -/
  | own (s : String)
  /-- A value that is written as it is. -/
  | value (v : Value) (s : String)
  /-- A leaf. -/
  | leaf (f : Fragment) (s : String)

namespace Stretch

/-- The text of a stretch. -/
def text : Stretch → String
  | .own s | .value _ s | .leaf _ s => s

/-- The leaf that a stretch is the text of. -/
def leaf? : Stretch → Option Fragment
  | .leaf f _ => some f
  | _ => none

/-- The text that stretches make. -/
def spell : List Stretch → String
  | [] => ""
  | x :: xs => x.text ++ spell xs

/-- Rows of stretches with a separator between two. -/
def between (separator : String) (rows : List (List Stretch)) : List Stretch :=
  [.own separator].intercalate rows

/-- Rows of stretches with a space between two that are not empty, and one in front if something
has been written already. A row without a text may still have leaves. -/
def spaceOut (started : Bool) : List (List Stretch) → List Stretch
  | [] => []
  | row :: rest =>
      if (spell row).isEmpty then row ++ spaceOut started rest
      else (if started then [.own " "] else []) ++ row ++ spaceOut true rest

end Stretch

open Stretch Text

/-- A keyword that a caller has given; what does not count as present is not written. -/
def Value.keyword (v : Value) : Except Fault (List Stretch) :=
  if v.isTruthy then return [.value v (← v.word?)] else .ok []

/-- The stretch of a nested statement. -/
def SubSelect.stretch (s : SubSelect) : Stretch := .leaf (.subSelect s) s.text

/-- What stands after the branches of a choice. -/
def SubSelect.otherwise : Option SubSelect → List Stretch
  | none => []
  | some s => [.own "ELSE ", s.stretch]

/-- Rows of stretches joined by a keyword. -/
def Connective.stretches (c : Connective) : List (List Stretch) → List Stretch
  | [] => []
  | [row] => row
  | rows => .own "(" :: between (" " ++ c.term ++ " ") rows ++ [.own ")"]

mutual

/-- The stretches of the text of a fragment. -/
def Fragment.stretches : Fragment → Except Fault (List Stretch)
  | .column name => .ok [.own (Identifier.quote name)]
  | .placeholder p v => .ok [.leaf (.placeholder p v) (token p.name)]
  | .null => .ok [.own "NULL"]
  | .raw parts => do return between " " (← Value.stretchesEach parts)
  | .cast operand type => do
      return (← operand.stretches) ++ [.own "::", .value type (← type.text)]
  | .function name args => do
      return [.value name (← name.text), .own "("]
        ++ between ", " (← Fragment.stretchesEach args) ++ [.own ")"]
  | .filter c => c.stretches
  | .projection target label => do
      let target ← target.stretches
      match label with
      | .null => return target
      | label => return target ++ [.own " as ", .value label (← label.text)]
  | .group c conditions => do return c.stretches (← Value.stretchesEach conditions)
  | .subSelect s => .ok [s.stretch]
  | .union members modifier bound => do
      let union := Fragment.union members modifier bound
      return [.leaf union (← union.text)]
  | .join j => j.stretches
  | .branch b => b.stretches
  | .fallback s => .ok [.own "ELSE ", s.stretch]
  | .choice name branches last => do
      let branches ← Branch.stretchesEach branches
      return spaceOut false [[.own "CASE"], between " " branches, SubSelect.otherwise last,
        [.own "END AS"], [.own (Identifier.quote name)]]
termination_by structural f => f

/-- The stretches of each fragment. -/
def Fragment.stretchesEach : List Fragment → Except Fault (List (List Stretch))
  | [] => .ok []
  | f :: rest => do return (← f.stretches) :: (← Fragment.stretchesEach rest)
termination_by structural fs => fs

/-- The stretches of a fragment that may be absent. -/
def Fragment.stretches? : Option Fragment → Except Fault (Option (List Stretch))
  | none => .ok none
  | some f => do return some (← f.stretches)
termination_by structural f => f

/-- The stretches of an item of a list. -/
def Value.stretches : Value → Except Fault (List Stretch)
  | .fragment f _ => f.stretches
  | v => do return [.value v (← v.text)]
termination_by structural v => v

/-- The stretches of each item of a list. -/
def Value.stretchesEach : List Value → Except Fault (List (List Stretch))
  | [] => .ok []
  | v :: rest => do return (← v.stretches) :: (← Value.stretchesEach rest)
termination_by structural vs => vs

/-- The stretches of a comparison. -/
def Filter.stretches : Filter → Except Fault (List Stretch)
  | ⟨left, right, operator, before, after⟩ => do
      let left ← left.stretches
      let right ← Fragment.stretches? right
      let before ← before.keyword
      let rightPart : List (List Stretch) ← match right with
        | none => pure []
        | some right => pure [← operator.keyword, right]
      let after ← after.keyword
      return spaceOut false (before :: left :: (rightPart ++ [after]))
termination_by structural c => c

/-- The stretches of a join. -/
def Join.stretches : Join → Except Fault (List Stretch)
  | ⟨family, kind, table, label, condition⟩ => do
      let kind ← (Join.mk family kind table label condition).direction
      let table ← table.stretches
      let condition ← Fragment.stretches? condition
      return spaceOut false
        ([[.own kind.before], [.own "JOIN"], [.own kind.after], table,
            [.own ((label.map Identifier.quote).getD "")]]
          ++ match condition with
            | none => []
            | some condition => [[.own "ON"], condition])
termination_by structural j => j

/-- The stretches of a branch. -/
def Branch.stretches : Branch → Except Fault (List Stretch)
  | ⟨condition, result⟩ => do
      return .own "WHEN " :: (← condition.stretches) ++ [.own " THEN ", result.stretch]
termination_by structural b => b

/-- The stretches of each branch. -/
def Branch.stretchesEach : List Branch → Except Fault (List (List Stretch))
  | [] => .ok []
  | b :: rest => do return (← b.stretches) :: (← Branch.stretchesEach rest)
termination_by structural bs => bs

end

/-! ## Stretches make the text -/

namespace Stretch

@[simp] theorem text_own (s : String) : (own s).text = s := rfl

@[simp] theorem text_value (v : Value) (s : String) : (value v s).text = s := rfl

@[simp] theorem text_leaf (f : Fragment) (s : String) : (leaf f s).text = s := rfl

@[simp] theorem spell_nil : spell [] = "" := rfl

@[simp] theorem spell_cons (x : Stretch) (xs : List Stretch) :
    spell (x :: xs) = x.text ++ spell xs := rfl

@[simp] theorem spell_append (xs ys : List Stretch) : spell (xs ++ ys) = spell xs ++ spell ys := by
  induction xs with
  | nil => simp
  | cons x xs ih => simp [ih, String.append_assoc]

@[simp] theorem spell_between (separator : String) (rows : List (List Stretch)) :
    spell (between separator rows) = separator.intercalate (rows.map spell) := by
  induction rows with
  | nil => rfl
  | cons row rest ih =>
    cases rest with
    | nil => simp [between]
    | cons row' rest =>
      rw [between, List.intercalate_cons_cons, spell_append, spell_append, ← between, ih,
        List.map_cons, List.map_cons, List.map_cons, String.intercalate_cons_cons]
      simp

theorem spaced_append {s t : String} (h : s ≠ "") : spaced (s ++ t) = spaced s ++ t.toList := by
  have hne : s ++ t ≠ "" := by simp [h]
  rw [spaced_of_ne_empty hne, spaced_of_ne_empty h, String.toList_append, List.cons_append]

@[simp] theorem spell_spaceOut (rows : List (List Stretch)) :
    spell (spaceOut false rows) = joinWords (rows.map spell) := by
  have behind : ∀ rows, (spell (spaceOut true rows)).toList = (rows.map spell).flatMap spaced := by
    intro rows
    induction rows with
    | nil => rfl
    | cons row rest ih =>
      rw [spaceOut, List.map_cons, List.flatMap_cons, ← ih]
      split
      · rename_i h
        simp [spaced, String.isEmpty_iff.mp h]
      · rename_i h
        simp [spaced, h]
  apply spaced_injective
  rw [spaced_joinWords]
  induction rows with
  | nil => rfl
  | cons row rest ih =>
    rw [spaceOut, List.map_cons, List.flatMap_cons]
    split
    · rename_i h
      rw [spell_append, String.isEmpty_iff.mp h, String.empty_append, ih]
      rfl
    · rename_i h
      rw [List.append_assoc, ← behind, ← spaced_append (mt String.isEmpty_iff.mpr h),
        ← spell_append]
      rfl

end Stretch

theorem Connective.spell_stretches (c : Connective) (rows : List (List Stretch)) :
    spell (c.stretches rows) = c.joined (rows.map spell) := by
  rcases rows with _ | ⟨row, _ | ⟨row', rest⟩⟩
  · rfl
  · rfl
  · change spell (.own "(" :: between (" " ++ c.term ++ " ") (row :: row' :: rest) ++ [.own ")"]) =
      "(" ++ (" " ++ c.term ++ " ").intercalate ((row :: row' :: rest).map spell) ++ ")"
    simp only [spell_cons, spell_append, spell_between, spell_nil, text_own, String.append_empty]

@[simp] theorem SubSelect.text_stretch (s : SubSelect) : s.stretch.text = s.text := rfl

theorem Value.spell_keyword (v : Value) :
    spell <$> v.keyword = if v.isTruthy then v.word? else .ok "" := by
  unfold keyword
  split
  · simp
  · rfl

theorem Value.spell_keyword_str (s : String) : spell <$> (Value.str s).keyword = pure s := by
  rw [Value.spell_keyword]
  split
  · rfl
  · have hs : s = "" := by simpa [Value.isTruthy] using ‹¬ (Value.str s).isTruthy = true›
    rw [hs]
    rfl

/-- Keywords are written with a space between two. -/
theorem joinPresent_eq_spell (parts : List Value) :
    joinPresent parts = joinWords <$> parts.mapM fun v => spell <$> v.keyword := by
  have words : (parts.filter Value.isTruthy).mapM Value.word? =
      (List.filter fun w => !w.isEmpty) <$> parts.mapM fun v => spell <$> v.keyword := by
    induction parts with
    | nil => rfl
    | cons v rest ih =>
      rw [List.mapM_cons, List.filter_cons, Value.spell_keyword]
      generalize (rest.mapM fun v => spell <$> v.keyword) = r at ih
      cases hv : v.isTruthy with
      | false =>
        rw [if_neg Bool.false_ne_true, if_neg Bool.false_ne_true, ih]
        cases r <;> rfl
      | true =>
        rw [if_pos rfl, if_pos rfl, List.mapM_cons, ih]
        cases v with
        | str s =>
          have hs : s ≠ "" := by simpa [Value.isTruthy] using hv
          cases r with
          | error fault => rfl
          | ok ws =>
            change Except.ok (s :: ws.filter fun w => !w.isEmpty) =
              .ok ((s :: ws).filter fun w => !w.isEmpty)
            simp [hs]
        | _ => rfl
  rw [joinPresent, words, bind_map_left]
  exact bind_pure_comp _ _

mutual

/-- **A text is the text of its stretches**, and there is one exactly if there are stretches. -/
theorem Fragment.text_eq_spell : (f : Fragment) → f.text = spell <$> f.stretches
  | .column name => by simp [Fragment.text, Fragment.stretches]
  | .placeholder p v => by simp [Fragment.text, Fragment.stretches]
  | .null => by simp [Fragment.text, Fragment.stretches]
  | .subSelect s => by simp [Fragment.text, Fragment.stretches]
  | .fallback s => by simp [Fragment.text, Fragment.stretches]
  | .union members modifier bound => by simp [Fragment.stretches]
  | .raw parts => by simp [Fragment.text, Fragment.stretches, Value.renderAll_eq_spell parts]
  | .cast operand type => by
    simp [Fragment.text, Fragment.stretches, operand.text_eq_spell, Value.text, String.append_assoc]
  | .function name args => by
    simp [Fragment.text, Fragment.stretches, Fragment.texts_eq_spell args, Value.text,
      String.append_assoc]
  | .filter c => by simp only [Fragment.text, Fragment.stretches, c.text_eq_spell]
  | .projection target label => by
    have ih := target.text_eq_spell
    cases label <;> simp [Fragment.text, Fragment.stretches, ih, Value.text, String.append_assoc]
  | .group c conditions => by
    simp [Fragment.text, Fragment.stretches, Value.renderAll_eq_spell conditions,
      Connective.spell_stretches]
  | .join j => by simp only [Fragment.text, Fragment.stretches, j.text_eq_spell]
  | .branch b => by simp only [Fragment.text, Fragment.stretches, b.text_eq_spell]
  | .choice name branches last => by
    simp only [Fragment.text, Fragment.stretches, Branch.texts_eq_spell branches, bind_map_left,
      map_bind]
    refine bind_congr fun rows => ?_
    cases last <;> simp [SubSelect.otherwise]
termination_by structural f => f

theorem Fragment.texts_eq_spell : (fs : List Fragment) →
    Fragment.texts fs = List.map spell <$> Fragment.stretchesEach fs
  | [] => rfl
  | f :: rest => by
    simp [Fragment.texts, Fragment.stretchesEach, f.text_eq_spell, Fragment.texts_eq_spell rest]
termination_by structural fs => fs

theorem Fragment.text?_eq_spell : (f : Option Fragment) →
    Fragment.text? f = Option.map spell <$> Fragment.stretches? f
  | none => rfl
  | some f => by simp [Fragment.text?, Fragment.stretches?, f.text_eq_spell]
termination_by structural f => f

theorem Value.render_eq_spell : (v : Value) → v.render .bare = spell <$> v.stretches
  | .fragment f _ => by simp [Value.render, Value.stretches, f.text_eq_spell]
  | .null | .bool _ | .int _ | .float _ | .nan _ | .str _ | .bytes _ | .list _ | .tuple _
  | .dict _ | .joinKind _ | .options _ | .callback .. | .compiled .. => by
    simp [Value.stretches, Value.text]
termination_by structural v => v

theorem Value.renderAll_eq_spell : (items : List Value) →
    Value.renderAll .bare items = List.map spell <$> Value.stretchesEach items
  | [] => rfl
  | v :: rest => by
    simp [Value.renderAll, Value.stretchesEach, v.render_eq_spell, Value.renderAll_eq_spell rest]
termination_by structural items => items

theorem Filter.text_eq_spell : (c : Filter) → c.text = spell <$> c.stretches
  | ⟨left, right, operator, before, after⟩ => by
    simp only [Filter.text, Filter.stretches, left.text_eq_spell, Fragment.text?_eq_spell right,
      bind_map_left, map_bind]
    -- Both sides have been written; what is left are the keywords.
    refine bind_congr fun xs => bind_congr fun ys => ?_
    cases ys <;> simp [joinPresent_eq_spell, Value.spell_keyword_str]
termination_by structural c => c

theorem Join.text_eq_spell : (j : Join) → j.text = spell <$> j.stretches
  | ⟨family, kind, table, label, condition⟩ => by
    simp only [Join.text, Join.stretches, table.text_eq_spell, Fragment.text?_eq_spell condition,
      bind_map_left, map_bind]
    refine bind_congr fun k => bind_congr fun xs => bind_congr fun ys => ?_
    cases ys <;> simp
termination_by structural j => j

theorem Branch.text_eq_spell : (b : Branch) → b.text = spell <$> b.stretches
  | ⟨condition, result⟩ => by
    simp [Branch.text, Branch.stretches, condition.text_eq_spell, String.append_assoc]
termination_by structural b => b

theorem Branch.texts_eq_spell : (bs : List Branch) →
    Branch.texts bs = List.map spell <$> Branch.stretchesEach bs
  | [] => rfl
  | b :: rest => by
    simp [Branch.texts, Branch.stretchesEach, b.text_eq_spell, Branch.texts_eq_spell rest]
termination_by structural bs => bs

end

/-! ## Children between other stretches -/

/-- Whether a value is a string. -/
def Value.isStr : Value → Bool
  | .str _ => true
  | _ => false

/-- Whether a value is a string or a number; truth values are numbers. -/
def Value.isWritable : Value → Bool
  | .bool _ | .int _ | .float _ | .nan _ | .str _ => true
  | _ => false

theorem Value.isWritable_of_isStr {v : Value} (h : v.isStr = true) : v.isWritable = true := by
  cases v with
  | str s => rfl
  | _ => cases h

/-- Whether what a fragment is given beside its children is in order: names, types and labels are
strings, and items of lists are strings, numbers or fragments. -/
def Fragment.isRegular : Fragment → Bool
  | .raw parts | .group _ parts => parts.all fun v => v.isWritable || v.fragment?.isSome
  | .cast _ type => type.isStr
  | .function name _ => name.isStr
  | .projection _ label => label.toOption.all Value.isStr
  | _ => true

namespace Stretch

/-- What is written as it is are strings and numbers, and leaves are written with their texts. -/
def Proper : Stretch → Prop
  | .own _ => True
  | .value v s => v.isWritable = true ∧ v.text = .ok s
  | .leaf f s => f.isLeaf = true ∧ f.text = .ok s

end Stretch

/-- A value that a fragment can write, and how, if the fragment is in order. -/
def Fragment.MayWrite (f : Fragment) (v : Value) (s : String) : Prop :=
  f.isRegular = true → (Stretch.value v s).Proper

namespace Stretch

/-- The stretches are those of the rows, one row after the other, and others that are not of leaves;
the values among these satisfy `W`. -/
inductive Around (W : Value → String → Prop) : List (List Stretch) → List Stretch → Prop where
  | nil : Around W [] []
  | row (row : List Stretch) {rows : List (List Stretch)} {xs : List Stretch}
      (h : Around W rows xs) : Around W (row :: rows) (row ++ xs)
  | own (s : String) {rows : List (List Stretch)} {xs : List Stretch} (h : Around W rows xs) :
      Around W rows (.own s :: xs)
  | value {v : Value} {s : String} (hv : W v s) {rows : List (List Stretch)} {xs : List Stretch}
      (h : Around W rows xs) : Around W rows (.value v s :: xs)

/-- Each row of the second list consists of some rows of the first one and other stretches. -/
inductive Chunks (W : Value → String → Prop) :
    List (List Stretch) → List (List Stretch) → Prop where
  | nil : Chunks W [] []
  | cons {rows rest : List (List Stretch)} {chunk : List Stretch} {chunks : List (List Stretch)}
      (h : Around W rows chunk) (hs : Chunks W rest chunks) :
      Chunks W (rows ++ rest) (chunk :: chunks)

variable {W : Value → String → Prop} {rows rows' : List (List Stretch)} {xs ys : List Stretch}

namespace Around

theorem single (row : List Stretch) : Around W [row] row := by
  simpa using Around.row (W := W) row .nil

theorem append (h : Around W rows xs) (h' : Around W rows' ys) :
    Around W (rows ++ rows') (xs ++ ys) := by
  induction h with
  | nil => exact h'
  | row row _ ih =>
    rw [List.append_assoc]
    exact .row row ih
  | own s _ ih => exact .own s ih
  | value hv _ ih => exact .value hv ih

theorem closed (s : String) (h : Around W rows xs) : Around W rows (xs ++ [.own s]) := by
  simpa using h.append (.own s .nil)

theorem leaves (h : Around W rows xs) :
    xs.filterMap leaf? = rows.flatMap fun row => row.filterMap leaf? := by
  induction h with
  | nil => rfl
  | row row _ ih => rw [List.filterMap_append, ih, List.flatMap_cons]
  | own _ _ ih => exact ih
  | value _ _ ih => exact ih

theorem proper (h : Around W rows xs) (hW : ∀ v s, W v s → (Stretch.value v s).Proper)
    (hrows : ∀ row ∈ rows, ∀ x ∈ row, x.Proper) : ∀ x ∈ xs, x.Proper := by
  induction h with
  | nil => nofun
  | row row _ ih =>
    obtain ⟨hrow, hrows⟩ := List.forall_mem_cons.mp hrows
    exact List.forall_mem_append.mpr ⟨hrow, ih hrows⟩
  | own s _ ih => exact List.forall_mem_cons.mpr ⟨trivial, ih hrows⟩
  | value hv _ ih => exact List.forall_mem_cons.mpr ⟨hW _ _ hv, ih hrows⟩

end Around

namespace Chunks

variable {chunks chunks' : List (List Stretch)}

theorem append (h : Chunks W rows chunks) (h' : Chunks W rows' chunks') :
    Chunks W (rows ++ rows') (chunks ++ chunks') := by
  induction h with
  | nil => exact h'
  | cons h _ ih =>
    rw [List.append_assoc]
    exact .cons h ih

theorem one (h : Around W rows xs) : Chunks W rows [xs] := by
  simpa using Chunks.cons h .nil

theorem row (row : List Stretch) : Chunks W [row] [row] := .one (.single row)

theorem between (separator : String) (h : Chunks W rows chunks) :
    Around W rows (Stretch.between separator chunks) := by
  induction h with
  | nil => exact .nil
  | @cons rows rest chunk chunks h hs ih =>
    cases chunks with
    | nil =>
      cases hs
      simpa [Stretch.between] using h
    | cons chunk' chunks =>
      rw [Stretch.between, List.intercalate_cons_cons, List.append_assoc]
      exact h.append (.own separator ih)

theorem spaceOut (started : Bool) (h : Chunks W rows chunks) :
    Around W rows (Stretch.spaceOut started chunks) := by
  induction h generalizing started with
  | nil => exact .nil
  | cons h _ ih =>
    rw [Stretch.spaceOut]
    split
    · exact h.append (ih started)
    · cases started with
      | false => exact h.append (ih true)
      | true => exact .own " " (h.append (ih true))

theorem joined (c : Connective) (h : Chunks W rows chunks) :
    Around W rows (c.stretches chunks) := by
  rcases chunks with _ | ⟨chunk, _ | ⟨chunk', rest⟩⟩
  · cases h
    exact .nil
  · cases h with
    | cons h hs =>
      cases hs
      simpa [Connective.stretches] using h
  · exact .own "(" ((h.between _).closed ")")

end Chunks

end Stretch

/-- These are the stretches of the fragments. -/
def Fragment.StretchRows (fs : List Fragment) (rows : List (List Stretch)) : Prop :=
  List.Forall₂ (fun f row => f.stretches = .ok row) fs rows

section Children

variable {W : Value → String → Prop}

theorem Fragment.stretchRows_of_each {fs : List Fragment} {rows : List (List Stretch)}
    (h : Fragment.stretchesEach fs = .ok rows) : StretchRows fs rows ∧ Chunks W rows rows := by
  induction fs generalizing rows with
  | nil => cases h; exact ⟨.nil, .nil⟩
  | cons f fs ih =>
    obtain ⟨row, hrow, h⟩ := Except.bind_eq_ok.mp h
    obtain ⟨rest, hrest, h⟩ := Except.bind_eq_ok.mp h
    cases h
    obtain ⟨hrows, hchunks⟩ := ih hrest
    exact ⟨.cons hrow hrows, .append (.row row) hchunks⟩

/-- Branches are written as the fragments that they are. -/
theorem Branch.stretchesEach_eq (bs : List Branch) :
    Branch.stretchesEach bs = Fragment.stretchesEach (bs.map .branch) := by
  induction bs with
  | nil => rfl
  | cons b bs ih =>
    simp only [stretchesEach, List.map_cons, Fragment.stretchesEach, Fragment.stretches, ih]

theorem Value.stretchRows_of_each {items : List Value} {chunks : List (List Stretch)}
    (hitems : ∀ v ∈ items, v.fragment? = none → ∀ s, v.text = .ok s → W v s)
    (h : Value.stretchesEach items = .ok chunks) :
    ∃ rows, Fragment.StretchRows (items.filterMap Value.fragment?) rows ∧ Chunks W rows chunks := by
  induction items generalizing chunks with
  | nil => cases h; exact ⟨[], .nil, .nil⟩
  | cons v items ih =>
    obtain ⟨chunk, hchunk, h⟩ := Except.bind_eq_ok.mp h
    obtain ⟨rest, hrest, h⟩ := Except.bind_eq_ok.mp h
    cases h
    obtain ⟨hv, hitems⟩ := List.forall_mem_cons.mp hitems
    obtain ⟨rows, hrows, hchunks⟩ := ih hitems hrest
    cases v with
    | fragment f _ => exact ⟨chunk :: rows, .cons hchunk hrows, .append (.row chunk) hchunks⟩
    | _ =>
      obtain ⟨s, hs, hchunk⟩ := Except.bind_eq_ok.mp hchunk
      cases hchunk
      exact ⟨rows, hrows, .append (.one (.value (hv rfl s hs) .nil)) hchunks⟩

theorem Value.around_keyword {v : Value} (hv : ∀ s, v = .str s → W v s) {xs : List Stretch}
    (h : v.keyword = .ok xs) : Around W [] xs := by
  unfold keyword at h
  split at h
  · obtain ⟨s, hs, h⟩ := Except.bind_eq_ok.mp h
    cases h
    cases v with
    | str _ =>
      cases hs
      exact .value (hv s rfl) .nil
    | _ => cases hs
  · cases h
    exact .nil

/-- The children of a comparison or a join. -/
theorem Fragment.stretchRows_pair {f : Fragment} {f' : Option Fragment} {row : List Stretch}
    {row' : Option (List Stretch)} (h : f.stretches = .ok row) (h' : stretches? f' = .ok row') :
    StretchRows (f :: f'.toList) (row :: row'.toList) := by
  cases f' with
  | none => cases h'; exact .cons h .nil
  | some f' =>
    obtain ⟨xs, hxs, h'⟩ := Except.bind_eq_ok.mp h'
    cases h'
    exact .cons h (.cons hxs .nil)

end Children

namespace Fragment

/-- The items of a list are its fragments, between other values. -/
theorem stretchRows_of_items {f : Fragment} {items : List Value} {chunks : List (List Stretch)}
    (hf : f.isRegular = items.all fun v => v.isWritable || v.fragment?.isSome)
    (h : Value.stretchesEach items = .ok chunks) :
    ∃ rows, StretchRows (items.filterMap Value.fragment?) rows ∧ Chunks f.MayWrite rows chunks := by
  refine Value.stretchRows_of_each (fun v hv hnone s hs hregular => ⟨?_, hs⟩) h
  rw [hf] at hregular
  simpa [hnone] using List.all_eq_true.mp hregular v hv

/-- A comparison writes its sides, between keywords. -/
theorem filter_around {c : Filter} {xs : List Stretch} (h : c.stretches = .ok xs) :
    ∃ rows, StretchRows (filter c).children rows ∧ Around (filter c).MayWrite rows xs := by
  obtain ⟨left, right, operator, before, after⟩ := c
  obtain ⟨row, hrow, h⟩ := Except.bind_eq_ok.mp h
  obtain ⟨row', hrow', h⟩ := Except.bind_eq_ok.mp h
  obtain ⟨bs, hbs, h⟩ := Except.bind_eq_ok.mp h
  refine ⟨_, stretchRows_pair hrow hrow', ?_⟩
  have other : ∀ {v : Value} {ys : List Stretch}, v.keyword = .ok ys →
      Chunks (filter ⟨left, right, operator, before, after⟩).MayWrite [] [ys] :=
    fun hys => .one (Value.around_keyword (fun s hs _ => by subst hs; exact ⟨rfl, rfl⟩) hys)
  cases row' with
  | none =>
    obtain ⟨_, hnone, h⟩ := Except.bind_eq_ok.mp h
    cases hnone
    obtain ⟨as, has, h⟩ := Except.bind_eq_ok.mp h
    cases h
    exact (((other hbs).append (.row row)).append (other has)).spaceOut false
  | some row' =>
    obtain ⟨os, hos, h⟩ := Except.bind_eq_ok.mp h
    obtain ⟨_, hsome, h⟩ := Except.bind_eq_ok.mp h
    cases hsome
    obtain ⟨as, has, h⟩ := Except.bind_eq_ok.mp h
    cases h
    exact ((((other hbs).append (.row row)).append ((other hos).append (.row row'))).append
      (other has)).spaceOut false

/-- A join writes its table and then its condition. -/
theorem join_around {j : Join} {xs : List Stretch} (h : j.stretches = .ok xs) :
    ∃ rows, StretchRows (join j).children rows ∧ Around (join j).MayWrite rows xs := by
  obtain ⟨family, kind, table, label, condition⟩ := j
  obtain ⟨k, -, h⟩ := Except.bind_eq_ok.mp h
  obtain ⟨row, hrow, h⟩ := Except.bind_eq_ok.mp h
  obtain ⟨row', hrow', h⟩ := Except.bind_eq_ok.mp h
  cases h
  refine ⟨_, stretchRows_pair hrow hrow', ?_⟩
  have own : ∀ s, Chunks (join ⟨family, kind, table, label, condition⟩).MayWrite [] [[.own s]] :=
    fun s => .one (.own s .nil)
  cases row' with
  | none =>
    exact ((((own k.before).append (own "JOIN")).append (own k.after)).append
      ((Chunks.row row).append (own _))).spaceOut false
  | some row' =>
    exact (((((own k.before).append (own "JOIN")).append (own k.after)).append
      ((Chunks.row row).append (own _))).append ((own "ON").append (.row row'))).spaceOut false

/-- A choice writes its branches and then the statement that it falls back on. -/
theorem choice_around {name : String} {branches : List Branch} {last : Option SubSelect}
    {xs : List Stretch} (h : (choice name branches last).stretches = .ok xs) :
    ∃ rows, StretchRows (choice name branches last).children rows ∧
      Around (choice name branches last).MayWrite rows xs := by
  obtain ⟨rows, hrows, h⟩ := Except.bind_eq_ok.mp h
  cases h
  rw [Branch.stretchesEach_eq] at hrows
  obtain ⟨hrows, hchunks⟩ := stretchRows_of_each (W := (choice name branches last).MayWrite) hrows
  have own : ∀ s, Chunks (choice name branches last).MayWrite [] [[.own s]] :=
    fun s => .one (.own s .nil)
  have hlast : ∃ rows, StretchRows (last.map fallback).toList rows ∧
      Around (choice name branches last).MayWrite rows (SubSelect.otherwise last) := by
    cases last with
    | none => exact ⟨[], .nil, .nil⟩
    | some s => exact ⟨[SubSelect.otherwise (some s)], .cons rfl .nil, .single _⟩
  obtain ⟨rows', hrows', hlast⟩ := hlast
  refine ⟨rows ++ rows', List.rel_append hrows hrows', ?_⟩
  simpa using ((((own "CASE").append (.one (hchunks.between " "))).append (.one hlast)).append
    ((own "END AS").append (own (Identifier.quote name)))).spaceOut false

/-- **A fragment writes its children in their order**, and no other leaf. -/
theorem stretches_around {f : Fragment} (hf : f.isLeaf = false) {xs : List Stretch}
    (h : f.stretches = .ok xs) : ∃ rows, StretchRows f.children rows ∧
      Around f.MayWrite rows xs := by
  cases f with
  | placeholder | subSelect | union => cases hf
  | column | null =>
    cases h
    exact ⟨[], .nil, .own _ .nil⟩
  | raw parts =>
    obtain ⟨chunks, hchunks, h⟩ := Except.bind_eq_ok.mp h
    cases h
    obtain ⟨rows, hrows, hchunks⟩ := stretchRows_of_items (f := .raw parts) rfl hchunks
    exact ⟨rows, hrows, hchunks.between " "⟩
  | group c conditions =>
    obtain ⟨chunks, hchunks, h⟩ := Except.bind_eq_ok.mp h
    cases h
    obtain ⟨rows, hrows, hchunks⟩ := stretchRows_of_items (f := .group c conditions) rfl hchunks
    exact ⟨rows, hrows, hchunks.joined c⟩
  | cast operand type =>
    obtain ⟨row, hrow, h⟩ := Except.bind_eq_ok.mp h
    obtain ⟨s, hs, h⟩ := Except.bind_eq_ok.mp h
    cases h
    exact ⟨[row], .cons hrow .nil,
      .row row (.own "::" (.value (fun hr => ⟨Value.isWritable_of_isStr hr, hs⟩) .nil))⟩
  | function name args =>
    obtain ⟨s, hs, h⟩ := Except.bind_eq_ok.mp h
    obtain ⟨rows, hrows, h⟩ := Except.bind_eq_ok.mp h
    cases h
    obtain ⟨hrows, hchunks⟩ := stretchRows_of_each (W := (function name args).MayWrite) hrows
    exact ⟨rows, hrows,
      .value (fun hr => ⟨Value.isWritable_of_isStr hr, hs⟩)
        (.own "(" ((hchunks.between ", ").closed ")"))⟩
  | filter c => exact filter_around h
  | projection target label =>
    rw [stretches] at h
    obtain ⟨row, hrow, h⟩ := Except.bind_eq_ok.mp h
    refine ⟨[row], .cons hrow .nil, ?_⟩
    split at h
    · cases h
      exact .single _
    · obtain ⟨s, hs, h⟩ := Except.bind_eq_ok.mp h
      cases h
      refine .row row (.own " as " (.value (fun hregular => ⟨?_, hs⟩) .nil))
      cases label with
      | null => exact absurd rfl ‹_›
      | str s => rfl
      | _ => cases hregular
  | join j => exact join_around h
  | branch b =>
    obtain ⟨condition, result⟩ := b
    obtain ⟨row, hrow, h⟩ := Except.bind_eq_ok.mp h
    cases h
    exact ⟨[row, [result.stretch]], .cons hrow (.cons rfl .nil),
      .own "WHEN " (.row row (.own " THEN " (.single _)))⟩
  | fallback s =>
    cases h
    exact ⟨[[s.stretch]], .cons rfl .nil, .own "ELSE " (.single _)⟩
  | choice name branches last => exact choice_around h

theorem stretches_of_isLeaf {f : Fragment} (hf : f.isLeaf = true) {xs : List Stretch}
    (h : f.stretches = .ok xs) : ∃ s, xs = [.leaf f s] ∧ f.text = .ok s := by
  cases f with
  | placeholder | subSelect =>
    cases h
    exact ⟨_, rfl, rfl⟩
  | union members modifier bound =>
    obtain ⟨s, hs, h⟩ := Except.bind_eq_ok.mp h
    cases h
    exact ⟨s, rfl, hs⟩
  | _ => cases hf

/-- **The leaves stand in the text in the order in which they are found in the tree.** -/
theorem leaves_of_stretches {f : Fragment} {xs : List Stretch} (h : f.stretches = .ok xs) :
    xs.filterMap leaf? = f.leaves := by
  have heverywhere := f.everywhere_of_forall (P := fun _ => True) fun _ => trivial
  induction heverywhere generalizing xs with
  | @intro f _ _ ih =>
    cases hf : f.isLeaf with
    | true =>
      obtain ⟨s, rfl, -⟩ := stretches_of_isLeaf hf h
      rw [leaves_of_isLeaf hf]
      rfl
    | false =>
      obtain ⟨rows, hrows, haround⟩ := stretches_around hf h
      rw [leaves_of_not_isLeaf hf, haround.leaves]
      generalize f.children = gs at hrows ih
      clear haround
      induction hrows with
      | nil => rfl
      | cons hrow _ ihrows =>
        obtain ⟨ihrow, ihrest⟩ := List.forall_mem_cons.mp ih
        rw [List.flatMap_cons, List.flatMap_cons, ihrow hrow, ihrows ihrest]

/-- Nothing is written as it is but strings and numbers. -/
theorem proper_of_stretches {f : Fragment} (hf : f.Everywhere fun g => g.isRegular = true)
    {xs : List Stretch} (h : f.stretches = .ok xs) : ∀ x ∈ xs, x.Proper := by
  induction hf generalizing xs with
  | @intro f here _ ih =>
    cases hf : f.isLeaf with
    | true =>
      obtain ⟨s, rfl, hs⟩ := stretches_of_isLeaf hf h
      exact List.forall_mem_singleton.mpr ⟨hf, hs⟩
    | false =>
      obtain ⟨rows, hrows, haround⟩ := stretches_around hf h
      refine haround.proper (fun v s hv => hv here) fun row hrow => ?_
      obtain ⟨g, hg, hgrow⟩ := exists_left_of_forall₂ hrows hrow
      exact ih g hg hgrow

end Fragment

end BoundSql

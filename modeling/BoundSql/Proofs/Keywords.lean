import BoundSql.Fragment.Text

/-!
# Keyword positions

Almost everything that a fragment is put together from has a text. What need not have one are the
values in keyword positions: the operator of a comparison and what stands around it, the modifier of
a union and the direction of a join. Besides these, integers can be too long to be written.

A fragment or a value is *worded* if all keyword positions that its text shows hold keywords, and
all integers that it shows can be written. What no text shows does not count: the values behind
placeholders, and what nested statements have bound. Rendering fails only on what is not worded, and
only for causes that are of this kind (`Fault.OfWording`). Both are shown at once, by recursion
along with rendering (`Fragment.text_failsUnless`), and either may be used without the other: what
is worded has a text (`FailsUnless.returns`), and a rendering that fails does so on its wording
(`FailsUnless.failsOnWording`).
-/

set_option autoImplicit false

namespace BoundSql

/-! ## Keyword positions -/

/-- A value that may stand in a keyword position: a text, or nothing. -/
def Value.IsWord : Value → Prop
  | .str _ | .null => True
  | _ => False

/-- The limits in options can be written. -/
structure Options.Worded (o : Options) : Prop where
  defaultLimit : ∀ n : Nat, o.defaultLimit = some n → Decimal.Fits n
  maxLimit : ∀ n : Nat, o.maxLimit = some n → Decimal.Fits n

mutual

/-- All keyword positions in a value hold keywords, those of the fragments that its text shows; and
all integers in it can be written. -/
def Value.Worded : Value → Prop
  | .int n => Decimal.Fits n
  | .options o => o.Worded
  | .list items | .tuple items => Value.AllWorded items
  | .dict entries => Value.EntriesWorded entries
  | .fragment f _ => f.Worded
  | .compiled _ params => Value.EntriesWorded params
  | _ => True
termination_by structural v => v

/-- The items of a list are worded. -/
def Value.AllWorded : List Value → Prop
  | [] => True
  | v :: rest => v.Worded ∧ Value.AllWorded rest
termination_by structural vs => vs

/-- The entries of a map are worded. -/
def Value.EntriesWorded : List (Value × Value) → Prop
  | [] => True
  | e :: rest => Value.EntryWorded e ∧ Value.EntriesWorded rest
termination_by structural es => es

/-- Both sides of an entry are worded. -/
def Value.EntryWorded : Value × Value → Prop
  | (k, v) => k.Worded ∧ v.Worded
termination_by structural e => e

/-- All keyword positions in a fragment hold keywords, and all integers can be written. The value
behind a placeholder and what nested statements have bound are no part of the text. -/
def Fragment.Worded : Fragment → Prop
  | .column _ | .placeholder .. | .null | .subSelect _ | .fallback _ => True
  | .raw parts | .group _ parts => Value.AllWorded parts
  | .cast operand type => operand.Worded ∧ type.Worded
  | .function name args => name.Worded ∧ Fragment.AllWorded args
  | .filter c => c.Worded
  | .projection column label => column.Worded ∧ label.Worded
  | .union _ modifier _ => modifier.IsWord
  | .join j => j.Worded
  | .branch b => b.Worded
  | .choice _ branches _ => Branch.AllWorded branches
termination_by structural f => f

/-- The fragments of a list are worded. -/
def Fragment.AllWorded : List Fragment → Prop
  | [] => True
  | f :: rest => f.Worded ∧ Fragment.AllWorded rest
termination_by structural fs => fs

/-- A fragment that may be absent is worded. -/
def Fragment.Worded? : Option Fragment → Prop
  | none => True
  | some f => f.Worded
termination_by structural f => f

/-- The operator of a comparison and what stands around it are words, and its sides are worded. -/
def Filter.Worded : Filter → Prop
  | ⟨left, right, operator, before, after⟩ =>
      left.Worded ∧ Fragment.Worded? right ∧ operator.IsWord ∧ before.IsWord ∧ after.IsWord
termination_by structural c => c

/-- The direction of a join is one, and its parts are worded. -/
def Join.Worded : Join → Prop
  | ⟨_, kind, table, _, condition⟩ =>
      (∃ k, kind = .joinKind k) ∧ table.Worded ∧ Fragment.Worded? condition
termination_by structural j => j

/-- The condition of a branch is worded. -/
def Branch.Worded : Branch → Prop
  | ⟨condition, _⟩ => condition.Worded
termination_by structural b => b

/-- The branches of a list are worded. -/
def Branch.AllWorded : List Branch → Prop
  | [] => True
  | b :: rest => b.Worded ∧ Branch.AllWorded rest
termination_by structural bs => bs

end

theorem Value.allWorded_iff {vs : List Value} : Value.AllWorded vs ↔ ∀ v ∈ vs, v.Worded := by
  induction vs with
  | nil => simp [Value.AllWorded]
  | cons v rest ih => simp [Value.AllWorded, ih]

theorem Fragment.allWorded_iff {fs : List Fragment} :
    Fragment.AllWorded fs ↔ ∀ f ∈ fs, f.Worded := by
  induction fs with
  | nil => simp [Fragment.AllWorded]
  | cons f rest ih => simp [Fragment.AllWorded, ih]

theorem Branch.allWorded_iff {bs : List Branch} : Branch.AllWorded bs ↔ ∀ b ∈ bs, b.Worded := by
  induction bs with
  | nil => simp [Branch.AllWorded]
  | cons b rest ih => simp [Branch.AllWorded, ih]

theorem Fragment.worded?_iff {f : Option Fragment} :
    Fragment.Worded? f ↔ ∀ g, f = some g → g.Worded := by
  cases f <;> simp [Fragment.Worded?]

/-! ## Faults of a rendering -/

/-- There is a result. -/
def Returns {α : Type} (r : Except Fault α) : Prop := ∃ x, r = .ok x

/-- What is wrong with a wording: a keyword position holds no keyword, or an integer is too long. -/
inductive Fault.OfWording : Fault → Prop where
  | notText : OfWording .notText
  | notAJoinKind : OfWording .notAJoinKind
  | integerTooLong : OfWording .integerTooLong

/-- If there is no result, then because something is wrong with the wording. -/
def FailsOnWording {α : Type} (r : Except Fault α) : Prop :=
  ∀ fault, r = .error fault → fault.OfWording

/-- If there is no result, then because of the wording, and what is rendered is not worded. -/
def FailsUnless {α : Type} (worded : Prop) (r : Except Fault α) : Prop :=
  ∀ fault, r = .error fault → ¬ worded ∧ fault.OfWording

section Rules

variable {α β : Type} {r : Except Fault α} {f : α → Except Fault β}

namespace Returns

theorem ok (x : α) : Returns (.ok x) := ⟨x, rfl⟩

theorem bind (hr : Returns r) (hf : ∀ x, Returns (f x)) : Returns (r >>= f) := by
  obtain ⟨x, rfl⟩ := hr
  exact hf x

end Returns

namespace FailsOnWording

theorem ok (x : α) : FailsOnWording (.ok x) := fun _ h => by cases h

theorem bind (hr : FailsOnWording r) (hf : ∀ x, FailsOnWording (f x)) :
    FailsOnWording (r >>= f) := by
  intro fault h
  cases r with
  | error fault' => exact hr fault (by cases h; rfl)
  | ok x => exact hf x fault h

end FailsOnWording

namespace FailsUnless

variable {worded part : Prop}

theorem ok (x : α) : FailsUnless worded (.ok x) := fun _ h => by cases h

/-- What contains a part that is not worded is not worded. -/
theorem mono (hr : FailsUnless part r) (h : worded → part) : FailsUnless worded r :=
  fun fault hfault => ⟨fun hworded => (hr fault hfault).1 (h hworded), (hr fault hfault).2⟩

theorem bind (hr : FailsUnless worded r) (hf : ∀ x, FailsUnless worded (f x)) :
    FailsUnless worded (r >>= f) := by
  intro fault h
  cases r with
  | error fault' => exact hr fault (by cases h; rfl)
  | ok x => exact hf x fault h

theorem mapM (xs : List α) (hf : ∀ x ∈ xs, FailsUnless worded (f x)) :
    FailsUnless worded (xs.mapM f) := by
  induction xs with
  | nil =>
    rw [List.mapM_nil]
    exact .ok _
  | cons x xs ih =>
    rw [List.mapM_cons]
    refine (hf x List.mem_cons_self).bind fun _ => ?_
    exact (ih fun y hy => hf y (List.mem_cons_of_mem _ hy)).bind fun _ => .ok _

theorem returns (hr : FailsUnless worded r) (h : worded) : Returns r := by
  cases r with
  | error fault => exact absurd h (hr fault rfl).1
  | ok x => exact .ok x

theorem failsOnWording (hr : FailsUnless worded r) : FailsOnWording r :=
  fun fault hfault => (hr fault hfault).2

end FailsUnless

end Rules

/-! ## Rendering -/

/-- Words that are present are texts. -/
theorem joinPresent_failsUnless (parts : List Value) :
    FailsUnless (∀ v ∈ parts, v.IsWord) (joinPresent parts) := by
  refine (FailsUnless.mapM _ fun v hv => ?_).bind fun _ => .ok _
  obtain ⟨hmem, htruthy⟩ := List.mem_filter.mp hv
  cases v with
  | str s => exact .ok s
  | null => cases htruthy
  | _ =>
    intro fault h
    cases h
    exact ⟨fun hwords => hwords _ hmem, .notText⟩

theorem Join.direction_failsUnless (j : Join) :
    FailsUnless (∃ k, j.kind = .joinKind k) j.direction := by
  unfold Join.direction
  split
  · exact .ok _
  · rename_i hkind
    intro fault h
    cases h
    exact ⟨fun ⟨k, hk⟩ => hkind k hk, .notAJoinKind⟩

theorem Decimal.text_failsUnless (n : Int) : FailsUnless (Decimal.Fits n) (Decimal.text n) := by
  unfold Decimal.text
  split
  · exact .ok _
  · rename_i hfits
    intro fault h
    cases h
    exact ⟨hfits, .integerTooLong⟩

theorem limitText_failsUnless (limit : Option Nat) :
    FailsUnless (∀ n : Nat, limit = some n → Decimal.Fits n) (limitText limit) := by
  cases limit with
  | none => exact .ok _
  | some n => exact (Decimal.text_failsUnless n).mono fun h => h n rfl

theorem Options.text_failsUnless (o : Options) (form : Form) :
    FailsUnless o.Worded (o.text form) :=
  ((limitText_failsUnless o.defaultLimit).mono Options.Worded.defaultLimit).bind fun _ =>
    ((limitText_failsUnless o.maxLimit).mono Options.Worded.maxLimit).bind fun _ => .ok _

mutual

theorem Value.render_failsUnless (form : Form) : (v : Value) →
    FailsUnless v.Worded (v.render form)
  | .null | .bool _ | .float _ | .nan _ | .str _ | .bytes _ | .joinKind _ | .callback .. => .ok _
  | .int n => Decimal.text_failsUnless n
  | .options o => o.text_failsUnless form
  | .list items | .tuple items =>
      (Value.renderAll_failsUnless .quoted items).bind fun _ => .ok _
  | .dict entries => (Value.renderEntries_failsUnless entries).bind fun _ => .ok _
  | .fragment f _ => f.text_failsUnless.bind fun _ => .ok _
  | .compiled _ params => (Value.renderEntries_failsUnless params).bind fun _ => .ok _
termination_by structural v => v

theorem Value.renderAll_failsUnless (form : Form) : (vs : List Value) →
    FailsUnless (Value.AllWorded vs) (Value.renderAll form vs)
  | [] => .ok _
  | v :: rest => ((v.render_failsUnless form).mono And.left).bind fun _ =>
      ((Value.renderAll_failsUnless form rest).mono And.right).bind fun _ => .ok _
termination_by structural vs => vs

theorem Value.renderEntries_failsUnless : (es : List (Value × Value)) →
    FailsUnless (Value.EntriesWorded es) (Value.renderEntries es)
  | [] => .ok _
  | e :: rest => ((Value.renderEntry_failsUnless e).mono And.left).bind fun _ =>
      ((Value.renderEntries_failsUnless rest).mono And.right).bind fun _ => .ok _
termination_by structural es => es

theorem Value.renderEntry_failsUnless : (e : Value × Value) →
    FailsUnless (Value.EntryWorded e) (Value.renderEntry e)
  | (k, v) => ((k.render_failsUnless .quoted).mono And.left).bind fun _ =>
      ((v.render_failsUnless .quoted).mono And.right).bind fun _ => .ok _
termination_by structural e => e

/-- **A fragment that has no text is not worded**, and that is the cause of the fault. -/
theorem Fragment.text_failsUnless : (f : Fragment) → FailsUnless f.Worded f.text
  | .column _ | .placeholder .. | .null | .subSelect _ | .fallback _ => .ok _
  | .raw parts => (Value.renderAll_failsUnless .bare parts).bind fun _ => .ok _
  | .cast operand type => (operand.text_failsUnless.mono And.left).bind fun _ =>
      ((type.render_failsUnless .bare).mono And.right).bind fun _ => .ok _
  | .function name args => ((name.render_failsUnless .bare).mono And.left).bind fun _ =>
      ((Fragment.texts_failsUnless args).mono And.right).bind fun _ => .ok _
  | .filter c => c.text_failsUnless
  | .projection column label => by
      have hlabel := label.render_failsUnless .bare
      rw [Fragment.text]
      refine (column.text_failsUnless.mono And.left).bind fun _ => ?_
      split
      · exact .ok _
      · exact (hlabel.mono And.right).bind fun _ => .ok _
  | .group _ conditions => (Value.renderAll_failsUnless .bare conditions).bind fun _ => .ok _
  | .union _ modifier _ => by
      refine ((joinPresent_failsUnless [.str "UNION", modifier]).mono fun h => ?_).bind
        fun _ => .ok _
      exact List.forall_mem_cons.mpr ⟨trivial, List.forall_mem_singleton.mpr h⟩
  | .join j => j.text_failsUnless
  | .branch b => b.text_failsUnless
  | .choice _ branches _ => (Branch.texts_failsUnless branches).bind fun _ => .ok _
termination_by structural f => f

theorem Fragment.texts_failsUnless : (fs : List Fragment) →
    FailsUnless (Fragment.AllWorded fs) (Fragment.texts fs)
  | [] => .ok _
  | f :: rest => (f.text_failsUnless.mono And.left).bind fun _ =>
      ((Fragment.texts_failsUnless rest).mono And.right).bind fun _ => .ok _
termination_by structural fs => fs

theorem Fragment.text?_failsUnless : (f : Option Fragment) →
    FailsUnless (Fragment.Worded? f) (Fragment.text? f)
  | none => .ok _
  | some f => f.text_failsUnless.bind fun _ => .ok _
termination_by structural f => f

theorem Filter.text_failsUnless : (c : Filter) → FailsUnless c.Worded c.text
  | ⟨left, right, operator, before, after⟩ => by
      refine (left.text_failsUnless.mono fun h => h.1).bind fun l => ?_
      refine ((Fragment.text?_failsUnless right).mono fun h => h.2.1).bind fun r => ?_
      refine (joinPresent_failsUnless _).mono fun ⟨_, _, hoperator, hbefore, hafter⟩ => ?_
      have htext : ∀ t, (Value.str t).IsWord := fun _ => trivial
      -- The operator is a part only if there is a right side.
      cases r with
      | none => simp [hbefore, hafter, htext]
      | some r => simp [hbefore, hafter, hoperator, htext]
termination_by structural c => c

theorem Join.text_failsUnless : (j : Join) → FailsUnless j.Worded j.text
  | ⟨_, _, table, _, condition⟩ => by
      refine ((Join.direction_failsUnless _).mono fun h => h.1).bind fun _ => ?_
      refine (table.text_failsUnless.mono fun h => h.2.1).bind fun _ => ?_
      exact ((Fragment.text?_failsUnless condition).mono fun h => h.2.2).bind fun _ => .ok _
termination_by structural j => j

theorem Branch.text_failsUnless : (b : Branch) → FailsUnless b.Worded b.text
  | ⟨condition, _⟩ => condition.text_failsUnless.bind fun _ => .ok _
termination_by structural b => b

theorem Branch.texts_failsUnless : (bs : List Branch) →
    FailsUnless (Branch.AllWorded bs) (Branch.texts bs)
  | [] => .ok _
  | b :: rest => (b.text_failsUnless.mono And.left).bind fun _ =>
      ((Branch.texts_failsUnless rest).mono And.right).bind fun _ => .ok _
termination_by structural bs => bs

end

/-- **A worded fragment has a text.** -/
theorem Fragment.text_returns (f : Fragment) (h : f.Worded) : Returns f.text :=
  f.text_failsUnless.returns h

end BoundSql

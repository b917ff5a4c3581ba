import BoundSql.Proofs.Agree
import BoundSql.Proofs.RedactedTexts

/-!
# Making fragments from redacted values

Whatever takes a value apart, or makes a fragment of it, does the same to two values that are alike
after redaction: it fails with the same fault, or makes fragments that are alike. Where a value
stands for data the two need not be alike at all, as long as both are bound.

A function of values alone has one equation, which says that it commutes with redaction; what it
does to two values follows (`Alike.of_map`). Where a placeholder is drawn the two supplies are
compared too: they are alike if they hand out the same digits and have handed out the same
placeholders, whatever for (`Supply.redact`).
-/

set_option autoImplicit false

namespace BoundSql

/-- A function that commutes with redaction does so on lists. -/
theorem mapM_redact {α β : Type} {f : α → Except Fault β} {g : α → α} {r : β → β}
    (h : ∀ x, f (g x) = (f x).map r) (xs : List α) :
    (xs.map g).mapM f = (xs.mapM f).map (List.map r) := by
  induction xs with
  | nil => rfl
  | cons x rest ih =>
    rw [List.map_cons, List.mapM_cons, List.mapM_cons, h, ih]
    cases f x with
    | error fault => rfl
    | ok y => cases rest.mapM f <;> rfl

/-! ## Taking values apart -/

namespace Value

@[simp] theorem name_redact (v : Value) : (v.redact .plain).name = v.name := by
  cases v <;> rfl

@[simp] theorem name?_redact (v : Value) : (v.redact .plain).name? = v.name? := by
  cases v <;> rfl

theorem items?_redact (v : Value) :
    (v.redact .plain).items? = v.items?.map (List.map (redact .plain)) := by
  cases v with
  | list items | tuple items => exact congrArg some (redactEach_eq_map items)
  | str s =>
    show some _ = some _
    rw [List.map_map]
    rfl
  | bytes b =>
    show some _ = some _
    rw [List.map_map]
    rfl
  | dict entries =>
    show some (Entries.keys (redactEntries .plain entries)) =
      some ((Entries.keys entries).map (redact .plain))
    rw [redactEntries_eq_mapWith, Entries.keys_mapWith]
  | options o =>
    obtain ⟨_, defaultLimit, maxLimit⟩ := o
    cases defaultLimit <;> cases maxLimit <;> rfl
  | _ => rfl

theorem items_redact (v : Value) :
    (v.redact .plain).items = v.items.map (List.map (redact .plain)) := by
  unfold items
  rw [items?_redact]
  cases v.items? <;> rfl

theorem asColumn_redact (v : Value) :
    (v.redact .plain).asColumn = v.asColumn.map Fragment.redact := by
  cases v <;> rfl

theorem asBranch_redact (v : Value) :
    (v.redact .plain).asBranch = v.asBranch.map Branch.redact := by
  cases v with
  | fragment f origin => cases f <;> rfl
  | _ => rfl

theorem asFallback?_redact (v : Value) :
    (v.redact .plain).asFallback? = v.asFallback?.map SubSelect.redact? := by
  cases v with
  | fragment f origin => cases f <;> rfl
  | _ => rfl

theorem asCondition?_redact (family : JoinKind) (v : Value) :
    (v.redact .plain).asCondition? family = (v.asCondition? family).map Fragment.redact? := by
  cases v <;> rfl

end Value

/-! ## Fragments that draw no placeholder -/

namespace Fragment

theorem ofCast_redact (operand type : Value) :
    ofCast (operand.redact .plain) (type.redact .plain) = (ofCast operand type).map redact := by
  unfold ofCast
  rw [Value.asColumn_redact]
  cases operand.asColumn <;> rfl

theorem ofProjection_redact (target label : Value) :
    ofProjection (target.redact .plain) (label.redact .plain) =
      (ofProjection target label).map redact := by
  unfold ofProjection
  rw [Value.asColumn_redact]
  cases target.asColumn <;> rfl

end Fragment

theorem Filter.absent_redact (left : Value) :
    Filter.absent (left.redact .plain) = (Filter.absent left).map Filter.redact := by
  unfold Filter.absent
  rw [Value.asColumn_redact]
  cases left.asColumn <;> rfl

theorem Join.make_redact (family : JoinKind) (table condition label kind : Value) :
    Join.make family (table.redact .plain) (condition.redact .plain) (label.redact .plain)
        (kind.redact .plain) =
      (Join.make family table condition label kind).map Join.redact := by
  unfold Join.make
  rw [Value.asCondition?_redact, Value.isTruthy_redact, Value.asColumn_redact, Value.name?_redact]
  cases condition.asCondition? family with
  | error fault => rfl
  | ok c =>
    cases table.asColumn with
    | error fault => rfl
    | ok t =>
      cases label.name? with
      | error fault => rfl
      | ok l => cases hk : kind.isTruthy <;> rfl

theorem Branch.make_redact (condition result : Value) :
    Branch.make (condition.redact .plain) (result.redact .plain) =
      (Branch.make condition result).map Branch.redact := by
  cases condition with
  | fragment f origin =>
    cases f with
    | filter c =>
      cases result with
      | fragment g origin' => cases g <;> rfl
      | _ => rfl
    | _ => cases result <;> rfl
  | _ => cases result <;> rfl

namespace Fragment

theorem ofFallback_redact (result : Value) :
    ofFallback (result.redact .plain) = (ofFallback result).map redact := by
  cases result with
  | fragment f origin => cases f <;> rfl
  | _ => rfl

theorem ofChoice_redact (name branches last : Value) :
    ofChoice (name.redact .plain) (branches.redact .plain) (last.redact .plain) =
      (ofChoice name branches last).map redact := by
  unfold ofChoice
  rw [Value.items_redact]
  cases branches.items with
  | error fault => rfl
  | ok items =>
    show ((items.map (Value.redact .plain)).mapM Value.asBranch >>= fun bs => _) =
      (items.mapM Value.asBranch >>= fun bs => last.asFallback? >>= fun s =>
        name.name >>= fun n => pure (choice n bs s)).map redact
    rw [mapM_redact Value.asBranch_redact, Value.asFallback?_redact, Value.name_redact]
    cases items.mapM Value.asBranch with
    | error fault => rfl
    | ok bs =>
      cases last.asFallback? with
      | error fault => rfl
      | ok s =>
        cases name.name with
        | error fault => rfl
        | ok n =>
          show Except.ok (choice n (bs.map Branch.redact) (SubSelect.redact? s)) =
            Except.ok (choice n (Branch.redactEach bs) (SubSelect.redact? s))
          rw [Branch.redactEach_eq_map]

end Fragment

/-! ## Fragments that may draw placeholders -/

/-- A supply without what its placeholders were handed out for. -/
def Supply.redact (s : Supply) : Supply :=
  { s with issued := s.issued.map fun e => (e.1, blank) }

/-- Two supplies that are the same but for data. -/
def Supply.Alike (s s' : Supply) : Prop := s.redact = s'.redact

/-- A placeholder does not depend on what it is handed out for. -/
theorem Supply.fresh_redact (tag : Tag) (v : Value) (s : Supply) :
    s.redact.fresh tag blank = ((s.fresh tag v).1, (s.fresh tag v).2.redact) := by
  show (_, Supply.mk s.stream _ (s.issued.map _ ++ [_])) = (_, Supply.mk s.stream _ _)
  rw [issued_fresh, List.map_append]
  rfl

section Making

open BoundSql.Action

/-- **What is bound does not matter**, only that it is. -/
theorem Making.bound_agree (tag : Tag) (v w : Value) :
    Agree Supply.Alike (Making.bound tag v) (Making.bound tag w)
      fun f g => f.redact = g.redact := by
  intro s s' hs
  have hfresh : s.redact.fresh tag blank = s'.redact.fresh tag blank := by rw [hs]
  rw [Supply.fresh_redact tag v, Supply.fresh_redact tag w] at hfresh
  obtain ⟨hplaceholder, hsupply⟩ := Prod.mk.inj hfresh
  refine ⟨.ok ?_, hsupply⟩
  show Fragment.placeholder (s.fresh tag v).1 blank = .placeholder (s'.fresh tag w).1 blank
  rw [hplaceholder]

theorem Value.asOperand_agree (tag : Tag) {v w : Value} (h : v.redact .data = w.redact .data) :
    Agree Supply.Alike (v.asOperand tag) (w.asOperand tag) fun f g => f.redact = g.redact := by
  cases v with
  | fragment f _ =>
    cases w with
    | fragment g _ => exact .pure (Value.fragment.inj h).1
    | _ => cases h
  | _ =>
    cases w with
    | fragment g _ => cases h
    | _ => exact Making.bound_agree tag _ _

theorem Value.asOperand?_agree (tag : Tag) {v w : Value}
    (h : v.redact .operand = w.redact .operand) :
    Agree Supply.Alike (v.asOperand? tag) (w.asOperand? tag)
      fun f g => Fragment.redact? f = Fragment.redact? g := by
  have present : v.redact .data = w.redact .data →
      Agree Supply.Alike (some <$> v.asOperand tag) (some <$> w.asOperand tag)
        fun f g => Fragment.redact? f = Fragment.redact? g := fun h =>
    (Value.asOperand_agree tag h).map fun _ _ => congrArg some
  cases v with
  | null =>
    cases w with
    | null => exact .pure rfl
    | _ => cases h
  | fragment f _ =>
    cases w with
    | fragment g _ => exact present h
    | _ => cases h
  | _ =>
    cases w with
    | null | fragment _ _ => cases h
    | _ => exact present rfl

theorem Fragment.ofLiteral_agree (v w : Value) :
    Agree Supply.Alike (Fragment.ofLiteral v) (Fragment.ofLiteral w)
      fun f g => f.redact = g.redact :=
  Making.bound_agree .literal v w

theorem Fragment.ofFunction_agree {name name' : Value} {args args' : List Value}
    (hname : name.redact .plain = name'.redact .plain)
    (hargs : args.map (Value.redact .data) = args'.map (Value.redact .data)) :
    Agree Supply.Alike (Fragment.ofFunction name args) (Fragment.ofFunction name' args')
      fun f g => f.redact = g.redact := by
  refine (Agree.mapM (forall₂_of_map_eq hargs) fun v w =>
    Value.asOperand_agree .function).bind fun fs gs h => .pure ?_
  show Fragment.function _ (Fragment.redactEach fs) = .function _ (Fragment.redactEach gs)
  rw [Fragment.redactEach_eq_map, Fragment.redactEach_eq_map, map_eq_of_forall₂ h, hname]

theorem Filter.make_agree {left right operator before after : Value}
    {left' right' operator' before' after' : Value}
    (hleft : left.redact .plain = left'.redact .plain)
    (hright : right.redact .operand = right'.redact .operand)
    (hoperator : operator.redact .plain = operator'.redact .plain)
    (hbefore : before.redact .plain = before'.redact .plain)
    (hafter : after.redact .plain = after'.redact .plain) :
    Agree Supply.Alike (Filter.make left right operator before after)
      (Filter.make left' right' operator' before' after') fun c d => c.redact = d.redact := by
  have hcolumn : Alike (fun f g => f.redact = g.redact) left.asColumn left'.asColumn :=
    .of_map (by rw [← Value.asColumn_redact, hleft, Value.asColumn_redact])
  refine (Agree.ofExcept hcolumn).bind fun f g hf => ?_
  refine (Value.asOperand?_agree .filter hright).bind fun x y hx => .pure ?_
  show Filter.mk f.redact (Fragment.redact? x) _ _ _ = Filter.mk g.redact (Fragment.redact? y) _ _ _
  rw [hf, hx, hoperator, hbefore, hafter]

end Making

end BoundSql

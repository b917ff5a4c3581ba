import BoundSql.Proofs.RedactedCalls
import BoundSql.Proofs.RedactedRuns

/-!
# Scripts that are the same but for data

Two expressions that become one by redaction are evaluated side by side. Where both are data, each
gives a value of its own, and nothing else happens (`Position.Hides`); everywhere else they are of
one kind, and their parts are the same but for data. So the induction is on one of the two, and the
other one follows.

The one place where a value is looked into before it stands anywhere is a map. It is a call with
values bound by hand if one of its keys is a certain text, and the key may be the value of any
expression. Redaction of the expression goes by the keys that are written out, redaction of the
value by those that are there; where the two differ, the value is one that may be written, and
those show the same everywhere.
-/

set_option autoImplicit false

namespace BoundSql

open BoundSql.Action

/-! ## Data -/

theorem Position.Binds.sameAt {p : Position} {v w : Value} (hv : p.Binds v) (hw : p.Binds w) :
    v.SameAt p w := by
  have blanked : ∀ {v : Value}, p.Binds v → v.redact p = blank := by
    intro v hv
    cases p with
    | data =>
      cases v with
      | fragment _ _ => cases hv
      | _ => rfl
    | operand =>
      cases v with
      | fragment _ _ => cases hv.1
      | null => exact absurd rfl hv.2
      | _ => rfl
    | _ => exact hv.elim
  rw [Value.SameAt, blanked hv, blanked hw]

/-- Where something is hidden there is a value that is bound. -/
theorem Position.exists_binds_of_hides {p : Position} {e : Expr} (h : p.Hides e) :
    ∃ v, p.Binds v :=
  let ⟨v, _, hv⟩ := h (fun _ _ => throw .nestedTooDeep) 0 [] (.start Supply.counting .debug .null)
  ⟨v, hv⟩

theorem Position.hide_of_not_binds {p : Position} (h : ∀ v, ¬ p.Binds v) (e redacted : Expr) :
    p.hide e redacted = redacted :=
  if_neg fun he => (exists_binds_of_hides he).elim h

@[simp] theorem Position.hide_plain (e redacted : Expr) : Position.plain.hide e redacted = redacted :=
  hide_of_not_binds (fun _ => id) e redacted

/-- What stands for data is data. -/
theorem Position.hides_blankExpr {p : Position} (h : ∃ v, p.Binds v) : p.Hides blankExpr := by
  obtain ⟨v, h⟩ := h
  intro invoke self origin s
  refine ⟨blank, rfl, ?_⟩
  cases p with
  | data => rfl
  | operand => exact ⟨rfl, nofun⟩
  | _ => exact h.elim

theorem Expr.eq_blankExpr_of_redact {p : Position} {e : Expr} (h : e.redact p = blankExpr) :
    e = blankExpr := by
  cases e with
  | atom a => exact h
  | _ => cases h

section Scripts

variable {invoke invoke' : Invoke} {self : Nat}

/-- **Data is evaluated to data.** -/
theorem Expr.abreast_of_hide {p : Position} {e e' : Expr} {origin : Origin}
    (h : p.hide e (e.redact p) = p.hide e' (e'.redact p))
    (hagree : e.redact p = e'.redact p → Run.Abreast self (e.eval invoke self origin)
      (e'.eval invoke' self origin) (Value.SameAt p)) :
    Run.Abreast self (e.eval invoke self origin) (e'.eval invoke' self origin)
      (Value.SameAt p) := by
  have both : p.Hides e → p.Hides e' → Run.Abreast self (e.eval invoke self origin)
      (e'.eval invoke' self origin) (Value.SameAt p) := by
    intro he he' s s' hs _
    obtain ⟨v, hv, hb⟩ := he invoke self origin s
    obtain ⟨w, hw, hb'⟩ := he' invoke' self origin s'
    unfold Run.AbreastAt
    rw [hv, hw]
    exact ⟨.ok (hb.sameAt hb'), .refl hs⟩
  have blank : ∀ {e : Expr}, p.Hides e → p.Hides blankExpr := fun he =>
    Position.hides_blankExpr (Position.exists_binds_of_hides he)
  unfold Position.hide at h
  split at h
  · rename_i he
    split at h
    · exact both he ‹_›
    · exact both he (Expr.eq_blankExpr_of_redact h.symm ▸ blank he)
  · split at h
    · rename_i he'
      exact both (Expr.eq_blankExpr_of_redact h ▸ blank he') he'
    · exact hagree h

/-! ## Texts among the keys of a map -/

theorem Expr.isText_redact (p : Position) (e : Expr) (s : String) :
    (e.redact p).isText s = e.isText s := by
  cases e <;> rfl

theorem Expr.eq_of_isText {e : Expr} {s : String} (h : e.isText s = true) : e = .atom (.str s) := by
  unfold isText at h
  split at h
  · rw [eq_of_beq h]
  · cases h

theorem Expr.any_isText_of_redactEntries {p p' : Position} {es es' : List (Expr × Expr)}
    (h : redactEntries p es = redactEntries p' es') (s : String) :
    (es.any fun e => e.1.isText s) = es'.any fun e => e.1.isText s := by
  induction es generalizing es' with
  | nil =>
    cases es' with
    | nil => rfl
    | cons _ _ => cases h
  | cons e rest ih =>
    cases es' with
    | nil => cases h
    | cons e' rest' =>
      obtain ⟨k, v⟩ := e
      obtain ⟨k', v'⟩ := e'
      obtain ⟨he, hrest⟩ := List.cons.inj h
      have hkey : k.redact .plain = k'.redact .plain := congrArg Prod.fst he
      rw [List.any_cons, List.any_cons, ih hrest, ← isText_redact .plain k, hkey, isText_redact]

/-- A key that is written out as a text is there in the end. -/
theorem Expr.isSome_get?_of_evalEntries {origin : Origin} {i : Nat} {acc b : Bindings}
    {es : List (Expr × Expr)} {t : String} {s s' : Session}
    (h : (Expr.evalEntries invoke self origin i acc es).exec s = (.ok b, s'))
    (ht : (Entries.get? (.str t) acc).isSome = true ∨ (es.any fun e => e.1.isText t) = true) :
    (Entries.get? (.str t) b).isSome = true := by
  induction es generalizing i acc s with
  | nil =>
    cases h
    simpa using ht
  | cons e rest ih =>
    obtain ⟨⟨k, v⟩, s₁, hentry, h⟩ := Run.exec_bind_eq_ok h
    dsimp only at h
    have inserted : k = .str t → (Entries.get? (.str t) (Entries.insert k v acc)).isSome = true := by
      rintro rfl
      rw [Entries.get?_insert_self]
      rfl
    split at h
    · refine ih h ?_
      rcases ht with hacc | hany
      · left
        by_cases hk : (k == .str t) = true
        · exact inserted (Value.eq_of_beq_str hk)
        · rw [Entries.get?_insert_of_ne (by simpa using hk)]
          exact hacc
      · rw [List.any_cons, Bool.or_eq_true] at hany
        refine hany.imp (fun hkey => inserted ?_) id
        obtain ⟨key, value⟩ := e
        obtain rfl := eq_of_isText hkey
        obtain ⟨x, s₂, hx, hvalue⟩ := Run.exec_bind_eq_ok hentry
        cases hx
        obtain ⟨y, s₃, -, hpair⟩ := Run.exec_bind_eq_ok hvalue
        cases hpair
        rfl
    · cases h

/-! ## Expressions -/

/-- The value under a key that is not written out may be written. -/
theorem Value.sameAt_under {p : Position} {v w : Value} (h : v.SameAt (p.under false) w) (b : Bool) :
    v.SameAt (p.under b) w := by
  cases p with
  | field => exact Value.redact_congr _ h
  | _ => exact h

/-- Maps are the same at a place if their entries are, one level down. -/
theorem Value.sameAt_dict {p : Position} {c : Bool} {b b' : Bindings}
    (h : redactEntries (p.onMap c) b = redactEntries (p.onMap c) b')
    (hc : c = true → (Entries.get? Builder.callKey b).isSome = true) :
    (Value.dict b).SameAt p (.dict b') := by
  have hsome := isSome_call_of_redactEntries h
  have other : (∀ c' : Bool, p.onMap c' = p.onMap c) → (Value.dict b).SameAt p (.dict b') := by
    intro hp
    show p.cover (.dict (redactEntries (p.onMap _) b)) = p.cover (.dict (redactEntries (p.onMap _) b'))
    rw [hp (Entries.get? Builder.callKey b).isSome, hp (Entries.get? Builder.callKey b').isSome, h]
  cases p with
  | field =>
    cases c with
    | false =>
      have hplain : (Value.dict b).SameAt .plain (.dict b') := congrArg Value.dict h
      exact Value.redact_congr .field hplain
    | true =>
      show Value.dict (redactEntries _ b) = .dict (redactEntries _ b')
      rw [← hsome, hc rfl, h]
  | _ => exact other fun _ => rfl

variable (hi : invoke.Abreast invoke')
include hi

-- The linter does not look through the mutual recursion.
set_option linter.unusedSectionVars false in
mutual

/-- **Expressions that are the same but for data have values that are.** -/
theorem Expr.eval_abreast : (e : Expr) → ∀ {p : Position} {e' : Expr} (origin : Origin),
    e.redact p = e'.redact p →
    Run.Abreast self (e.eval invoke self origin) (e'.eval invoke' self origin) (Value.SameAt p)
  | .atom a, p, e', origin, h => by
    cases e' with
    | atom a' =>
      cases h
      exact .pure rfl
    | _ => cases h
  | .list items, p, e', origin, h => by
    cases e' with
    | list items' =>
      refine (Expr.evalAll_abreast items origin 0 (Expr.list.inj h)).bind fun vs ws hvs => .pure ?_
      exact congrArg (fun vs => p.cover (.list vs))
        (Value.redactEach_congr (hvs.forall₂ fun _ => .inl rfl))
    | _ => cases h
  | .tuple items, p, e', origin, h => by
    cases e' with
    | tuple items' =>
      refine (Expr.evalAll_abreast items origin 0 (Expr.tuple.inj h)).bind fun vs ws hvs => .pure ?_
      exact congrArg (fun vs => p.cover (.tuple vs))
        (Value.redactEach_congr (hvs.forall₂ fun _ => .inl rfl))
    | _ => cases h
  | .dict items, p, e', origin, h => by
    cases e' with
    | dict items' =>
      have hitems := Expr.dict.inj h
      rw [← Expr.any_isText_of_redactEntries hitems "fn_call"] at hitems
      have hempty : Value.redactEntries
          (p.onMap (items.any fun e => e.1.isText "fn_call")) [] = Value.redactEntries _ [] := rfl
      have hentries := Expr.evalEntries_abreast items origin 0 hempty hitems
      have hcall := hentries.with_left (P := fun b =>
        (items.any fun e => e.1.isText "fn_call") = true →
          (Entries.get? Builder.callKey b).isSome = true)
        fun s b s' hb hany => Expr.isSome_get?_of_evalEntries hb (.inr hany)
      exact hcall.bind fun b b' hb => .pure (Value.sameAt_dict hb.2 hb.1)
    | _ => cases h
  | .options data, p, e', origin, h => by
    cases e' with
    | options data' =>
      refine (Expr.eval_abreast data (0 :: origin) (Expr.options.inj h)).bind fun v w hv => ?_
      refine (Run.Abreast.ofExcept (.of_eq (Options.ofValue_eq_of_redact hv))).bind
        fun o _ ho => .pure ?_
      subst ho
      rfl
    | _ => cases h
  | .ref name, p, e', origin, h => by
    cases e' with
    | ref name' =>
      cases h
      exact (Run.Abreast.named name).mono fun _ _ => Value.redact_congr p
    | _ => cases h
  | .callback c, p, e', origin, h => by
    cases e' with
    | callback c' =>
      refine .pure ?_
      exact congrArg (fun c => p.cover (.callback c origin)) (Expr.callback.inj h)
    | _ => cases h
  | .call c args named, p, e', origin, h => by
    cases e' with
    | call c' args' named' =>
      obtain ⟨rfl, hargs, hnamed⟩ := Expr.call.inj h
      refine (Expr.evalAll_abreast args (0 :: origin) 0 hargs).bind fun vs ws hvs => ?_
      refine (Expr.evalNamed_abreast named (1 :: origin) 0 hnamed).bind fun es es' hes => ?_
      have ha : Arguments.Alike c.position c.namedPosition ⟨vs, es⟩ ⟨ws, es'⟩ := ⟨hvs, hes⟩
      have hk := Constructor.construction?_alike ha
      revert hk
      generalize c.construction? ⟨vs, es⟩ = k, c.construction? ⟨ws, es'⟩ = k'
      intro hk
      cases hk with
      | none => exact .throw _
      | some hk => exact (hk.run_abreast hi origin).mono fun _ _ => Value.redact_congr p
    | _ => cases h
termination_by structural e => e

theorem Expr.evalAll_abreast : (es : List Expr) → ∀ {place : Nat → Position} {es' : List Expr}
    (origin : Origin) (i : Nat), Expr.redactArgs place es = Expr.redactArgs place es' →
    Run.Abreast self (Expr.evalAll invoke self origin i es)
      (Expr.evalAll invoke' self origin i es') (Value.SameEach place)
  | [], place, es', origin, i, h => by
    cases es' with
    | nil => exact .pure (.nil _)
    | cons _ _ => cases h
  | e :: rest, place, es', origin, i, h => by
    cases es' with
    | nil => cases h
    | cons e' rest' =>
      obtain ⟨he, hrest⟩ := List.cons.inj h
      refine (Expr.abreast_of_hide he (Expr.eval_abreast e (i :: origin))).bind fun v w hv => ?_
      exact (Expr.evalAll_abreast rest origin (i + 1) hrest).bind fun vs ws hvs =>
        .pure (.cons hv hvs)
termination_by structural es => es

theorem Expr.evalNamed_abreast : (es : List (String × Expr)) → ∀ {named : String → Position}
    {es' : List (String × Expr)} (origin : Origin) (i : Nat),
    Expr.redactNamed named es = Expr.redactNamed named es' →
    Run.Abreast self (Expr.evalNamed invoke self origin i es)
      (Expr.evalNamed invoke' self origin i es') (Value.SameNamed named)
  | [], named, es', origin, i, h => by
    cases es' with
    | nil => exact .pure .nil
    | cons _ _ => cases h
  | e :: rest, named, es', origin, i, h => by
    cases es' with
    | nil => cases h
    | cons e' rest' =>
      obtain ⟨he, hrest⟩ := List.cons.inj h
      refine (Expr.evalNamedOne_abreast e (i :: origin) he).bind fun v w hv => ?_
      exact (Expr.evalNamed_abreast rest origin (i + 1) hrest).bind fun vs ws hvs =>
        .pure (.cons hv hvs)
termination_by structural es => es

theorem Expr.evalNamedOne_abreast : (e : String × Expr) → ∀ {named : String → Position}
    {e' : String × Expr} (origin : Origin),
    Expr.redactNamedOne named e = Expr.redactNamedOne named e' →
    Run.Abreast self (Expr.evalNamedOne invoke self origin e)
      (Expr.evalNamedOne invoke' self origin e')
      fun x x' => x.1 = x'.1 ∧ x.2.SameAt (named x.1) x'.2
  | (name, e), named, (name', e'), origin, h => by
    obtain ⟨rfl, he⟩ := Prod.mk.inj h
    exact (Expr.abreast_of_hide he (Expr.eval_abreast e origin)).bind fun v w hv => .pure ⟨rfl, hv⟩
termination_by structural e => e

theorem Expr.evalEntries_abreast : (es : List (Expr × Expr)) → ∀ {p : Position}
    {es' : List (Expr × Expr)} {acc acc' : Bindings} (origin : Origin) (i : Nat),
    Value.redactEntries p acc = Value.redactEntries p acc' →
    Expr.redactEntries p es = Expr.redactEntries p es' →
    Run.Abreast self (Expr.evalEntries invoke self origin i acc es)
      (Expr.evalEntries invoke' self origin i acc' es')
      fun b b' => Value.redactEntries p b = Value.redactEntries p b'
  | [], p, es', acc, acc', origin, i, hacc, h => by
    cases es' with
    | nil => exact .pure hacc
    | cons _ _ => cases h
  | e :: rest, p, es', acc, acc', origin, i, hacc, h => by
    cases es' with
    | nil => cases h
    | cons e' rest' =>
      obtain ⟨he, hrest⟩ := List.cons.inj h
      refine (Expr.evalEntry_abreast e (i :: origin) he).bind fun (k, v) (k', v') hkv => ?_
      obtain ⟨hk, hv⟩ := hkv
      have hkey : k.isKey = k'.isKey := by rw [← k.isKey_redact, hk, k'.isKey_redact]
      dsimp only
      rw [hkey]
      split
      · refine Expr.evalEntries_abreast rest origin (i + 1) ?_ hrest
        have hbeq : (k' == Builder.replacementsKey) = (k == Builder.replacementsKey) := by
          rw [← k'.redact_beq, ← hk, k.redact_beq]
        have hunder : Value.redactUnder p k v = Value.redactUnder p k' v' := by
          rw [Value.redactUnder, Value.redactUnder, hbeq]
          exact hv
        rw [← Value.insert_redactEntries, ← Value.insert_redactEntries, hacc, hunder, hk]
      · exact .throw _
termination_by structural es => es

theorem Expr.evalEntry_abreast : (e : Expr × Expr) → ∀ {p : Position} {e' : Expr × Expr}
    (origin : Origin), Expr.redactEntry p e = Expr.redactEntry p e' →
    Run.Abreast self (Expr.evalEntry invoke self origin e) (Expr.evalEntry invoke' self origin e')
      fun x x' => x.1.SameAt .plain x'.1 ∧
        x.2.SameAt (p.under (x.1 == Builder.replacementsKey)) x'.2
  | (k, v), p, (k', v'), origin, h => by
    obtain ⟨hk, hv⟩ := Prod.mk.inj h
    have htext : k.isText "replacements" = k'.isText "replacements" := by
      rw [← Expr.isText_redact .plain k, hk, Expr.isText_redact]
    rw [← htext] at hv
    have hvalue := Expr.abreast_of_hide hv (Expr.eval_abreast v (1 :: origin))
    cases hreplaced : k.isText "replacements" with
    | true =>
      obtain rfl := Expr.eq_of_isText hreplaced
      obtain rfl := Expr.eq_of_isText (htext ▸ hreplaced)
      rw [hreplaced] at hvalue
      have hkey : (Value.str "replacements" == Builder.replacementsKey) = true := BEq.rfl
      refine Run.Abreast.bind (Q := fun x x' => x = .str "replacements" ∧ x' = .str "replacements")
        (.pure ⟨rfl, rfl⟩) fun x x' hx => hvalue.bind fun y y' hy => .pure ?_
      obtain ⟨rfl, rfl⟩ := hx
      exact ⟨rfl, hkey.symm ▸ hy⟩
    | false =>
      rw [hreplaced] at hvalue
      exact (Expr.eval_abreast k (0 :: origin) hk).bind fun x x' hx => hvalue.bind fun y y' hy =>
        .pure ⟨hx, Value.sameAt_under hy _⟩
termination_by structural e => e

end

/-! ## Steps -/

theorem Expr.begin_abreast {p : Position} {e e' : Expr}
    (h : p.hide e (e.redact p) = p.hide e' (e'.redact p)) :
    Run.Abreast self (e.begin invoke self) (e'.begin invoke' self) (Value.SameAt p) :=
  Run.Abreast.origin.bind fun origin _ ho =>
    ho ▸ Expr.abreast_of_hide h (Expr.eval_abreast hi e origin)

theorem Expr.begin_abreast_args {args args' : List Expr} {place : Nat → Position}
    (h : Expr.redactArgs place args = Expr.redactArgs place args') :
    Run.Abreast self (args.mapM (Expr.begin invoke self)) (args'.mapM (Expr.begin invoke' self))
      (Value.SameEach place) := by
  induction args generalizing args' place with
  | nil =>
    cases args' with
    | nil =>
      rw [List.mapM_nil, List.mapM_nil]
      exact .pure (.nil _)
    | cons _ _ => cases h
  | cons e rest ih =>
    cases args' with
    | nil => cases h
    | cons e' rest' =>
      obtain ⟨he, hrest⟩ := List.cons.inj h
      rw [List.mapM_cons, List.mapM_cons]
      exact (Expr.begin_abreast hi he).bind fun v w hv => (ih hrest).bind fun vs ws hvs =>
        .pure (.cons hv hvs)

theorem Expr.begin_abreast_named {args args' : List (String × Expr)} {named : String → Position}
    (h : Expr.redactNamed named args = Expr.redactNamed named args') :
    Run.Abreast self
      (args.mapM fun (name, e) => return (name, ← e.begin invoke self))
      (args'.mapM fun (name, e) => return (name, ← e.begin invoke' self))
      (Value.SameNamed named) := by
  induction args generalizing args' with
  | nil =>
    cases args' with
    | nil =>
      rw [List.mapM_nil, List.mapM_nil]
      exact .pure .nil
    | cons _ _ => cases h
  | cons e rest ih =>
    cases args' with
    | nil => cases h
    | cons e' rest' =>
      obtain ⟨name, e⟩ := e
      obtain ⟨name', e'⟩ := e'
      obtain ⟨he, hrest⟩ := List.cons.inj h
      obtain ⟨rfl, he⟩ := Prod.mk.inj he
      rw [List.mapM_cons, List.mapM_cons]
      refine Run.Abreast.bind ((Expr.begin_abreast hi he).bind fun v w hv => ?_) fun x x' hx =>
        (ih hrest).bind fun vs ws hvs => .pure (.cons hx hvs)
      exact .pure ⟨rfl, hv⟩

/-- **Steps that are the same but for data have outcomes that are.** -/
theorem Step.run_abreast {t t' : Step} (h : t.redact = t'.redact) :
    Run.Abreast self (t.run invoke self) (t'.run invoke' self) Reply.Alike := by
  cases t with
  | call m args named =>
    cases t' with
    | call m' args' named' =>
      obtain ⟨rfl, hargs, hnamed⟩ := Step.call.inj h
      refine (Expr.begin_abreast_args hi hargs).bind fun vs ws hvs => ?_
      refine (Expr.begin_abreast_named hi hnamed).bind fun es es' hes => ?_
      have ha : Arguments.Alike m.position m.namedPosition ⟨vs, es⟩ ⟨ws, es'⟩ := ⟨hvs, hes⟩
      have hk := Method.command?_alike ha
      revert hk
      generalize m.command? ⟨vs, es⟩ = k, m.command? ⟨ws, es'⟩ = k'
      intro hk
      cases hk with
      | none => exact .throw _
      | some hk =>
        exact hk.runNoted_abreast hi self
    | bind _ _ => cases h
  | bind name e =>
    cases t' with
    | call _ _ _ => cases h
    | bind name' e' =>
      obtain ⟨rfl, he⟩ := Step.bind.inj h
      refine (Expr.begin_abreast hi (p := .plain) ?_).bind fun v w hv => ?_
      · rwa [Position.hide_plain, Position.hide_plain]
      · exact (Run.Abreast.bindName name hv).bind fun _ _ _ => .pure (.value hv)

theorem Step.runAll_abreast {steps steps' : List Step} (h : Step.redactAll steps = Step.redactAll steps')
    {reply reply' : Reply} (hreply : reply.Alike reply') :
    Run.Abreast self (Step.runAll invoke self reply steps) (Step.runAll invoke' self reply' steps')
      Reply.Alike := by
  induction steps generalizing steps' reply reply' with
  | nil =>
    cases steps' with
    | nil => exact .pure hreply
    | cons _ _ => cases h
  | cons t rest ih =>
    cases steps' with
    | nil => cases h
    | cons t' rest' =>
      obtain ⟨ht, hrest⟩ := List.cons.inj h
      exact (Step.run_abreast hi ht).bind fun r r' hr => ih hrest hr

/-! ## Callbacks -/

theorem Callback.runWith_abreast {c c' : Callback} (h : c.redact = c'.redact) :
    Run.Abreast self (c.runWith invoke self) (c'.runWith invoke' self) Reply.Alike := by
  obtain ⟨steps, answer, capture⟩ := c
  obtain ⟨steps', answer', capture'⟩ := c'
  obtain ⟨hsteps, hanswer, rfl⟩ := Callback.mk.inj h
  have body : Run.Abreast self (Callback.runWith invoke ⟨steps, answer, none⟩ self)
      (Callback.runWith invoke' ⟨steps', answer', none⟩ self) Reply.Alike := by
    refine (Step.runAll_abreast hi hsteps (.value rfl)).bind fun r r' hr => ?_
    cases answer with
    | none =>
      cases answer' with
      | none => exact .pure hr
      | some _ => cases hanswer
    | some e =>
      cases answer' with
      | none => cases hanswer
      | some e' =>
        refine (Expr.begin_abreast hi (p := .plain) ?_).bind fun v w hv => .pure (.value hv)
        rw [Position.hide_plain, Position.hide_plain]
        exact Option.some.inj hanswer
  cases capture with
  | none => exact body
  | some name => exact (Run.Abreast.capture name self).bind fun _ _ _ => body

end Scripts

/-- **Callbacks that are the same but for data have outcomes that are**, however deeply they are
nested. -/
theorem Callback.run_abreast (depth : Nat) : Invoke.Abreast (Callback.run depth) (Callback.run depth) := by
  induction depth with
  | zero => exact fun _ _ => .throw _
  | succ depth ih => exact fun h i => Callback.runWith_abreast ih h

end BoundSql

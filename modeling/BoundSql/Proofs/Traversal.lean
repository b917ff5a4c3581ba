import BoundSql.Proofs.Commands

/-!
# Relations between runs

Evaluation goes through expressions, steps and callbacks in one and the same way, whatever is to be
shown of it. `Run.Congruence` says what a relation between actions needs for that way: it is
respected by sequences and holds between the actions that scripts consist of. It then holds between
two evaluations of one expression, for two ways of running callbacks and two builders at hand, as
soon as it holds between what constructions do, and between two runs of one step as soon as it holds
between what commands do.

Constructions are taken apart further. All of them note what they are asked for and what they have
made, and the rest is up to nested statements, the builder at hand, and a maker that has no way to
the session; for a relation that holds between these parts (`Run.Parts`), nothing is left to show of
constructions, nor of the commands that nest statements.

A property of single actions is such a relation too, one that looks at one side only.
-/

set_option autoImplicit false

namespace BoundSql

/-- A relation that is respected by sequences and holds between the actions of scripts. -/
structure Run.Congruence (J : {α : Type} → Run α → Run α → Prop) : Prop where
  pure : ∀ {α : Type} (x : α), J (Pure.pure x) (Pure.pure x)
  throw : ∀ {α : Type} (fault : Fault), J (MonadExcept.throw fault : Run α) (MonadExcept.throw fault)
  ofExcept : ∀ {α : Type} (r : Except Fault α), J (Run.ofExcept r) (Run.ofExcept r)
  origin : J Run.origin Run.origin
  named : ∀ name, J (Run.named name) (Run.named name)
  bindName : ∀ name v, J (Run.bindName name v) (Run.bindName name v)
  bind : ∀ {α β : Type} {m m' : Run α} {f f' : α → Run β},
    J m m' → (∀ x, J (f x) (f' x)) → J (m >>= f) (m' >>= f')

/-- A relation that holds between the parts of what constructions do. -/
structure Run.Parts (J : {α : Type} → Run α → Run α → Prop) (invoke invoke' : Invoke)
    (i i' : Nat) : Prop where
  making : ∀ {α : Type} (m : Making α), J (Run.making m) (Run.making m)
  asked : ∀ c, J (Run.note (.construction c)) (Run.note (.construction c))
  made : ∀ f, J (Run.note (.fragment f)) (Run.note (.fragment f))
  builder : J (Run.builder i) (Run.builder i')
  nested : ∀ className options callback,
    J (runNested invoke className options callback) (runNested invoke' className options callback)

section Constructions

variable {J : {α : Type} → Run α → Run α → Prop} (hJ : Run.Congruence J)
  {invoke invoke' : Invoke} {self self' : Nat}

include hJ

/-! ## Nested statements -/

variable (hnested : ∀ className options callback,
  J (runNested invoke className options callback) (runNested invoke' className options callback))

include hnested

theorem makeSubSelect_congr (callback label options : Value) :
    J (makeSubSelect invoke callback label options) (makeSubSelect invoke' callback label options) :=
  hJ.bind (hJ.ofExcept _) fun _ =>
    hJ.bind (hnested "SubSelect" options callback) fun _ => hJ.pure _

/-- The relation holds between runs of all callbacks of a union, if it does for each. -/
theorem runMembers_congr (options : Value) (callbacks : List Value) :
    J (runMembers invoke options callbacks) (runMembers invoke' options callbacks) := by
  induction callbacks with
  | nil => exact hJ.pure _
  | cons callback rest ih =>
    exact hJ.bind (hnested "Union" options callback) fun _ => hJ.bind ih fun _ => hJ.pure _

theorem makeUnion_congr (callbacks modifier options : Value) :
    J (makeUnion invoke callbacks modifier options) (makeUnion invoke' callbacks modifier options) :=
  hJ.bind (hJ.ofExcept _) fun items =>
    hJ.bind (runMembers_congr hJ hnested options items) fun _ => hJ.pure _

omit hnested

/-! ## Constructions -/

variable (hp : Run.Parts J invoke invoke' self self')

include hp

theorem Construction.make_congr (c : Construction) :
    J (c.make invoke self) (c.make invoke' self') := by
  cases c with
  | literal v => exact hp.making (Fragment.ofLiteral v)
  | function name args => exact hp.making (Fragment.ofFunction name args)
  | null | raw _ | group _ _ => exact hJ.pure _
  | cast _ _ | projection _ _ | fallback _ | choice _ _ _ | asColumn _ => exact hJ.ofExcept _
  | column _ | join _ _ _ _ _ | branch _ _ => exact hJ.bind (hJ.ofExcept _) fun _ => hJ.pure _
  | filter _ _ _ _ _ => exact hJ.bind (hp.making _) fun _ => hJ.pure _
  | subSelect callback label options => exact makeSubSelect_congr hJ hp.nested callback label options
  | union callbacks modifier options => exact makeUnion_congr hJ hp.nested callbacks modifier options
  | ownSubSelect callback label =>
    exact hJ.bind hp.builder fun b => makeSubSelect_congr hJ hp.nested callback label b.options
  | ownUnion callbacks modifier =>
    exact hJ.bind hp.builder fun b => makeUnion_congr hJ hp.nested callbacks modifier b.options

/-- The relation holds between two ways of carrying a construction out. -/
theorem Construction.run_congr (origin : Origin) (c : Construction) :
    J (c.run invoke self origin) (c.run invoke' self' origin) := by
  refine hJ.bind (hp.asked c) fun _ => ?_
  have make : J (c.make invoke self) (c.make invoke' self') := c.make_congr hJ hp
  have made := hJ.bind make fun f =>
    hJ.bind (hp.made f) fun _ => hJ.pure (Value.fragment f origin)
  cases c with
  | asColumn v =>
    cases v with
    | fragment f known => exact hJ.pure _
    | _ => exact made
  | _ => exact made

end Constructions

section Scripts

variable {J : {α : Type} → Run α → Run α → Prop} (hJ : Run.Congruence J)
  {invoke invoke' : Invoke} {self self' : Nat}

include hJ

theorem Run.Congruence.mapM {ι α : Type} {f f' : ι → Run α} (h : ∀ i, J (f i) (f' i))
    (l : List ι) : J (l.mapM f) (l.mapM f') := by
  induction l with
  | nil =>
    rw [List.mapM_nil, List.mapM_nil]
    exact hJ.pure _
  | cons i l ih =>
    rw [List.mapM_cons, List.mapM_cons]
    exact hJ.bind (h i) fun _ => hJ.bind ih fun _ => hJ.pure _

variable (hc : ∀ (origin : Origin) (c : Construction),
  J (c.run invoke self origin) (c.run invoke' self' origin))

include hc

/-! ## Expressions -/

-- The linter does not look through the mutual recursion.
set_option linter.unusedSectionVars false in
mutual

/-- The relation holds between evaluations, by recursion on the expression. -/
theorem Expr.eval_congr (origin : Origin) : (e : Expr) →
    J (e.eval invoke self origin) (e.eval invoke' self' origin)
  | .atom a => hJ.pure _
  | .list items => hJ.bind (Expr.evalAll_congr origin 0 items) fun _ => hJ.pure _
  | .tuple items => hJ.bind (Expr.evalAll_congr origin 0 items) fun _ => hJ.pure _
  | .dict items => hJ.bind (Expr.evalEntries_congr origin 0 [] items) fun _ => hJ.pure _
  | .options data => hJ.bind (data.eval_congr (0 :: origin)) fun _ =>
      hJ.bind (hJ.ofExcept _) fun _ => hJ.pure _
  | .ref name => hJ.named name
  | .callback c => hJ.pure _
  | .call c args named => by
    refine hJ.bind (Expr.evalAll_congr (0 :: origin) 0 args) fun vs => ?_
    refine hJ.bind (Expr.evalNamed_congr (1 :: origin) 0 named) fun es => ?_
    cases c.construction? ⟨vs, es⟩ with
    | none => exact hJ.throw _
    | some k => exact hc origin k
termination_by structural e => e

theorem Expr.evalAll_congr (origin : Origin) : (i : Nat) → (es : List Expr) →
    J (Expr.evalAll invoke self origin i es) (Expr.evalAll invoke' self' origin i es)
  | _, [] => hJ.pure _
  | i, e :: rest => hJ.bind (e.eval_congr (i :: origin)) fun _ =>
      hJ.bind (Expr.evalAll_congr origin (i + 1) rest) fun _ => hJ.pure _
termination_by structural _ es => es

theorem Expr.evalNamed_congr (origin : Origin) : (i : Nat) → (es : List (String × Expr)) →
    J (Expr.evalNamed invoke self origin i es) (Expr.evalNamed invoke' self' origin i es)
  | _, [] => hJ.pure _
  | i, e :: rest => hJ.bind (Expr.evalNamedOne_congr (i :: origin) e) fun _ =>
      hJ.bind (Expr.evalNamed_congr origin (i + 1) rest) fun _ => hJ.pure _
termination_by structural _ es => es

theorem Expr.evalNamedOne_congr (origin : Origin) : (e : String × Expr) →
    J (Expr.evalNamedOne invoke self origin e) (Expr.evalNamedOne invoke' self' origin e)
  | (_, e) => hJ.bind (e.eval_congr origin) fun _ => hJ.pure _
termination_by structural e => e

theorem Expr.evalEntries_congr (origin : Origin) : (i : Nat) → (acc : Bindings) →
    (es : List (Expr × Expr)) →
    J (Expr.evalEntries invoke self origin i acc es) (Expr.evalEntries invoke' self' origin i acc es)
  | _, _, [] => hJ.pure _
  | i, acc, e :: rest => by
    refine hJ.bind (Expr.evalEntry_congr (i :: origin) e) fun (k, v) => ?_
    dsimp only
    split
    · exact Expr.evalEntries_congr origin (i + 1) _ rest
    · exact hJ.throw _
termination_by structural _ _ es => es

theorem Expr.evalEntry_congr (origin : Origin) : (e : Expr × Expr) →
    J (Expr.evalEntry invoke self origin e) (Expr.evalEntry invoke' self' origin e)
  | (k, v) => hJ.bind (k.eval_congr (0 :: origin)) fun _ =>
      hJ.bind (v.eval_congr (1 :: origin)) fun _ => hJ.pure _
termination_by structural e => e

end

theorem Expr.begin_congr (e : Expr) : J (e.begin invoke self) (e.begin invoke' self') :=
  hJ.bind hJ.origin fun origin => e.eval_congr hJ hc origin

/-! ## Steps and callbacks -/

/-- A command that runs callbacks is a construction that is given the builder at hand. -/
theorem Command.run_congr_of_nests {k : Command} (hk : k.nests = true) :
    J (k.run invoke self) (k.run invoke' self') := by
  cases k with
  | subSelect callback label =>
    exact hJ.bind (hc [] (.ownSubSelect callback label)) fun _ => hJ.pure _
  | union callbacks modifier =>
    exact hJ.bind (hc [] (.ownUnion callbacks modifier)) fun _ => hJ.pure _
  | _ => cases hk

variable (hk : ∀ k : Command,
  J (Run.note (.command self k) >>= fun _ => k.run invoke self)
    (Run.note (.command self' k) >>= fun _ => k.run invoke' self'))

include hk

/-- The relation holds between runs of a step. -/
theorem Step.run_congr (t : Step) : J (t.run invoke self) (t.run invoke' self') := by
  cases t with
  | call m args named =>
    refine hJ.bind (hJ.mapM (Expr.begin_congr hJ hc) args) fun vs => ?_
    refine hJ.bind (hJ.mapM (fun e => ?_) named) fun es => ?_
    · exact hJ.bind (e.2.begin_congr hJ hc) fun _ => hJ.pure _
    cases m.command? ⟨vs, es⟩ with
    | none => exact hJ.throw _
    | some k => exact hk k
  | bind name e =>
    exact hJ.bind (e.begin_congr hJ hc) fun v => hJ.bind (hJ.bindName name v) fun _ => hJ.pure _

theorem Step.runAll_congr (r : Reply) (steps : List Step) :
    J (Step.runAll invoke self r steps) (Step.runAll invoke' self' r steps) := by
  induction steps generalizing r with
  | nil => exact hJ.pure r
  | cons t rest ih => exact hJ.bind (t.run_congr hJ hc hk) ih

/-- The relation holds between runs of a callback, if the builders at hand can be captured. -/
theorem Callback.runWith_congr (hcapture : ∀ name, J (Run.capture name self) (Run.capture name self'))
    (c : Callback) : J (c.runWith invoke self) (c.runWith invoke' self') := by
  obtain ⟨steps, answer, capture⟩ := c
  have body : J (Callback.runWith invoke ⟨steps, answer, none⟩ self)
      (Callback.runWith invoke' ⟨steps, answer, none⟩ self') := by
    refine hJ.bind (Step.runAll_congr hJ hc hk _ steps) fun r => ?_
    cases answer with
    | none => exact hJ.pure _
    | some e => exact hJ.bind (e.begin_congr hJ hc) fun _ => hJ.pure _
  cases capture with
  | none => exact body
  | some name => exact hJ.bind (hcapture name) fun _ => body

end Scripts

end BoundSql

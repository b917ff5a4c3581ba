import BoundSql.Proofs.RenamedRuns

/-!
# Scripts in which names are replaced

One script is run twice. The expressions in it, the steps and the callbacks are the same in both
runs, and so are the places of builders and the origins of objects; only values differ, and those
only by their names. So the induction is on the script alone.

What a call asks for depends on the values of its arguments, and what is known of these is known at
the end of their evaluation only. Hence the rules for calls are about arguments that are renamed if
the promise holds, and the growth of sessions has been shown beforehand for all scripts.
-/

set_option autoImplicit false

namespace BoundSql

open BoundSql.Action

variable {ρ : Renaming}

section Scripts

variable {depth : Nat} {last last' o o' : Session} {place : Nat} {P : Prop}
  (hi : Invoke.Renames ρ last last' (Callback.run depth)) (hρ : ρ.Covers last.supply last'.supply)

include hi hρ

/-! ## Calls -/

/-- A constructor makes the renamed value of renamed arguments. -/
theorem Constructor.call_renames (c : Constructor) (origin : Origin) {a a' : Arguments}
    (h : P → Arguments.Renamed ρ a a') :
    Renames ρ last last' (Session.Together ρ o o' place) P
      (match c.construction? a with
        | some k => k.run (Callback.run depth) place origin
        | none => throw .badArguments)
      (match c.construction? a' with
        | some k => k.run (Callback.run depth) place origin
        | none => throw .badArguments) (Value.Renamed ρ) := by
  have grows : ∀ asked : Option Construction, Grows (match asked with
      | some k => k.run (Callback.run depth) place origin
      | none => throw .badArguments) := by
    intro asked
    cases asked with
    | none => exact le_refl
    | some k => exact k.run_grows depth place origin
  refine .assume (grows _) (grows _) fun hP => ?_
  have hasked := c.construction?_renamed (h hP)
  revert hasked
  generalize c.construction? a = k, c.construction? a' = k'
  intro hasked
  cases hasked with
  | none => exact .throw _
  | some hk => exact Construction.Renamed.run_renames hi hρ (fun _ => hk) origin

/-- A method has the renamed outcome for renamed arguments, if nothing is bound by hand. -/
theorem Method.call_renames (m : Method) (hplain : last.bindsByHand = false) {a a' : Arguments}
    (h : P → Arguments.Renamed ρ a a') :
    Renames ρ last last' (Session.Together ρ o o' place) P
      (match m.command? a with
        | some k => k.runNoted (Callback.run depth) place
        | none => throw .badArguments)
      (match m.command? a' with
        | some k => k.runNoted (Callback.run depth) place
        | none => throw .badArguments) (Reply.Renamed ρ) := by
  have grows : ∀ asked : Option Command, Grows (match asked with
      | some k => k.runNoted (Callback.run depth) place
      | none => throw .badArguments) := by
    intro asked
    cases asked with
    | none => exact le_refl
    | some k => exact k.runNoted_grows
  refine .assume (grows _) (grows _) fun hP => ?_
  have hasked := m.command?_renamed (h hP)
  revert hasked
  generalize m.command? a = k, m.command? a' = k'
  intro hasked
  cases hasked with
  | none => exact .throw _
  | some hk => exact hk.runNoted_renames hi hρ hplain

/-! ## Expressions -/

-- The linter does not look through the mutual recursion.
set_option linter.unusedSectionVars false in
mutual

/-- **An expression has the same value in both runs, but for the names.** -/
theorem Expr.eval_renames {P : Prop} (origin : Origin) : (e : Expr) →
    Renames ρ last last' (Session.Together ρ o o' place) P
      (e.eval (Callback.run depth) place origin) (e.eval (Callback.run depth) place origin)
      (Value.Renamed ρ)
  | .atom a => .pure fun _ => .atom a origin
  | .list items =>
    (Expr.evalAll_renames origin 0 items).bind fun _ _ => .pure fun h => .list h.2
  | .tuple items =>
    (Expr.evalAll_renames origin 0 items).bind fun _ _ => .pure fun h => .tuple h.2
  | .dict items =>
    (Expr.evalEntries_renames origin 0 (fun _ => .nil) items).bind fun _ _ =>
      .pure fun h => .dict h.2
  | .options data =>
    (data.eval_renames (0 :: origin)).bind fun _ _ =>
      (Renames.ofExcept fun h => Options.ofValue_renamed h.2).bind fun o _ =>
        .pure fun h => h.2 ▸ .options o
  | .ref name => Run.named_renames name
  | .callback c => .pure fun _ => .callback c origin
  | .call c args named =>
    (Expr.evalAll_renames (0 :: origin) 0 args).bind fun _ _ =>
      (Expr.evalNamed_renames (1 :: origin) 0 named).bind fun _ _ =>
        c.call_renames hi hρ origin fun h => ⟨h.1.2, h.2⟩
termination_by structural e => e

theorem Expr.evalAll_renames {P : Prop} (origin : Origin) : (i : Nat) → (es : List Expr) →
    Renames ρ last last' (Session.Together ρ o o' place) P
      (Expr.evalAll (Callback.run depth) place origin i es)
      (Expr.evalAll (Callback.run depth) place origin i es) (List.Forall₂ (Value.Renamed ρ))
  | _, [] => .pure fun _ => .nil
  | i, e :: rest =>
    (e.eval_renames (i :: origin)).bind fun _ _ =>
      (Expr.evalAll_renames origin (i + 1) rest).bind fun _ _ => .pure fun h => .cons h.1.2 h.2
termination_by structural _ es => es

theorem Expr.evalNamed_renames {P : Prop} (origin : Origin) :
    (i : Nat) → (es : List (String × Expr)) →
    Renames ρ last last' (Session.Together ρ o o' place) P
      (Expr.evalNamed (Callback.run depth) place origin i es)
      (Expr.evalNamed (Callback.run depth) place origin i es)
      (List.Forall₂ (Value.RenamedUnder ρ))
  | _, [] => .pure fun _ => .nil
  | i, e :: rest =>
    (Expr.evalNamedOne_renames (i :: origin) e).bind fun _ _ =>
      (Expr.evalNamed_renames origin (i + 1) rest).bind fun _ _ => .pure fun h => .cons h.1.2 h.2
termination_by structural _ es => es

theorem Expr.evalNamedOne_renames {P : Prop} (origin : Origin) : (e : String × Expr) →
    Renames ρ last last' (Session.Together ρ o o' place) P
      (Expr.evalNamedOne (Callback.run depth) place origin e)
      (Expr.evalNamedOne (Callback.run depth) place origin e) (Value.RenamedUnder ρ)
  | (_, e) => (e.eval_renames origin).bind fun _ _ => .pure fun h => ⟨rfl, h.2⟩
termination_by structural e => e

theorem Expr.evalEntries_renames {P : Prop} (origin : Origin) :
    (i : Nat) → {acc acc' : Bindings} → (P → List.Forall₂ (Value.RenamedEntry ρ) acc acc') →
    (es : List (Expr × Expr)) →
    Renames ρ last last' (Session.Together ρ o o' place) P
      (Expr.evalEntries (Callback.run depth) place origin i acc es)
      (Expr.evalEntries (Callback.run depth) place origin i acc' es)
      (List.Forall₂ (Value.RenamedEntry ρ))
  | _, _, _, hacc, [] => .pure hacc
  | i, acc, acc', hacc, e :: rest => by
    refine (Expr.evalEntry_renames (i :: origin) e).bind fun (k, v) (k', v') => ?_
    have grows : ∀ (acc : Bindings) (k v : Value), Grows (if k.isKey then
        Expr.evalEntries (Callback.run depth) place origin (i + 1) (Entries.insert k v acc) rest
        else throw .notAKey) := by
      intro acc k v
      split
      · exact Expr.evalEntries_grows depth place origin (i + 1) _ rest
      · exact le_refl
    refine .assume (grows acc k v) (grows acc' k' v') fun h => ?_
    obtain ⟨hP, hk, hv⟩ := h
    dsimp only
    rw [hk.isKey_eq]
    split
    · exact Expr.evalEntries_renames origin (i + 1)
        (fun _ => Value.insert_renamed hk hv (hacc hP)) rest
    · exact .throw _
termination_by structural _ _ _ _ es => es

theorem Expr.evalEntry_renames {P : Prop} (origin : Origin) : (e : Expr × Expr) →
    Renames ρ last last' (Session.Together ρ o o' place) P
      (Expr.evalEntry (Callback.run depth) place origin e)
      (Expr.evalEntry (Callback.run depth) place origin e)
      fun e e' => e.1.Renamed ρ e'.1 ∧ e.2.Renamed ρ e'.2
  | (k, v) => (k.eval_renames (0 :: origin)).bind fun _ _ =>
    (v.eval_renames (1 :: origin)).bind fun _ _ => .pure fun h => ⟨h.1.2, h.2⟩
termination_by structural e => e

end

theorem Expr.begin_renames (e : Expr) :
    Renames ρ last last' (Session.Together ρ o o' place) P (e.begin (Callback.run depth) place)
      (e.begin (Callback.run depth) place) (Value.Renamed ρ) := by
  refine Run.origin_renames.bind fun origin origin' => ?_
  refine .assume (e.eval_grows depth place origin) (e.eval_grows depth place origin') fun h => ?_
  obtain ⟨-, rfl⟩ := h
  exact Expr.eval_renames hi hρ origin e

/-! ## Steps and callbacks -/

variable (hplain : last.bindsByHand = false)

include hplain

theorem Step.run_renames (t : Step) :
    Renames ρ last last' (Session.Together ρ o o' place) P (t.run (Callback.run depth) place)
      (t.run (Callback.run depth) place) (Reply.Renamed ρ) := by
  cases t with
  | call m args named =>
    have same : ∀ {α : Type} (xs : List α), List.Forall₂ Eq xs xs := fun xs =>
      List.forall₂_same.mpr fun _ _ => rfl
    refine (Renames.mapM (Q := Value.Renamed ρ) (same args) fun e _ he => ?_).bind fun vs vs' => ?_
    · exact he ▸ e.begin_renames hi hρ
    refine (Renames.mapM (Q := Value.RenamedUnder ρ) (same named) fun e _ he => ?_).bind
      fun es es' => ?_
    · exact he ▸ (e.2.begin_renames hi hρ).bind fun _ _ => .pure fun h => ⟨rfl, h.2⟩
    exact m.call_renames hi hρ hplain fun h => ⟨h.1.2, h.2⟩
  | bind name e =>
    exact (e.begin_renames hi hρ).bind fun _ _ =>
      (Run.bindName_renames name And.right).bind fun _ _ => .pure fun h => .value h.1.2

theorem Step.runAll_renames {r r' : Reply} (hr : P → r.Renamed ρ r') (steps : List Step) :
    Renames ρ last last' (Session.Together ρ o o' place) P
      (Step.runAll (Callback.run depth) place r steps)
      (Step.runAll (Callback.run depth) place r' steps) (Reply.Renamed ρ) := by
  induction steps generalizing P r r' with
  | nil => exact .pure hr
  | cons t rest ih => exact (t.run_renames hi hρ hplain).bind fun _ _ => ih And.right

theorem Callback.runWith_renames (c : Callback) :
    Renames ρ last last' (Session.Together ρ o o' place) P
      (c.runWith (Callback.run depth) place) (c.runWith (Callback.run depth) place)
      (Reply.Renamed ρ) := by
  obtain ⟨steps, answer, capture⟩ := c
  have body : ∀ {P : Prop}, Renames ρ last last' (Session.Together ρ o o' place) P
      (Callback.runWith (Callback.run depth) ⟨steps, answer, none⟩ place)
      (Callback.runWith (Callback.run depth) ⟨steps, answer, none⟩ place) (Reply.Renamed ρ) := by
    intro P
    refine (Step.runAll_renames hi hρ hplain (fun _ => .value .null) steps).bind fun r r' => ?_
    cases answer with
    | none => exact .pure And.right
    | some e => exact (e.begin_renames hi hρ).bind fun _ _ => .pure fun h => .value h.2
  cases capture with
  | none => exact body
  | some name => exact (Run.capture_renames name place).bind fun _ _ => body

end Scripts

/-- **Callbacks have the same outcome in both runs, but for the names**, however deeply they are
nested. -/
theorem Callback.run_renames {last last' : Session} (hρ : ρ.Covers last.supply last'.supply)
    (hplain : last.bindsByHand = false) (depth : Nat) :
    Invoke.Renames ρ last last' (Callback.run depth) := by
  induction depth with
  | zero => exact fun _ _ _ _ => .throw _
  | succ depth ih => exact fun c _ _ _ => c.runWith_renames ih hρ hplain

end BoundSql

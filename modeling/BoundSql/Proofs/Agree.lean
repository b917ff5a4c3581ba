import BoundSql.Proofs.Action

/-!
# Two actions side by side

`Agree E m m' Q` compares two actions that start in states related by `E`. Read it as: either both
succeed, with results that `Q` relates, or both fail, with the same fault; and in either case `E`
relates the states that they leave behind.

The two need not be the same action, nor have results of the same type. What they must have in
common is the course they take, and that is what the rule for a sequence says: `Q` is all that the
rest may know of the two first results.
-/

set_option autoImplicit false

namespace BoundSql

/-- Two results are alike: `Q` relates them, or they are the same fault. -/
inductive Alike {α β : Type} (Q : α → β → Prop) : Except Fault α → Except Fault β → Prop where
  | ok {x : α} {y : β} (h : Q x y) : Alike Q (.ok x) (.ok y)
  | error (fault : Fault) : Alike Q (.error fault) (.error fault)

namespace Alike

variable {α β : Type} {Q : α → β → Prop} {r : Except Fault α} {r' : Except Fault β}

theorem mono {R : α → β → Prop} (h : Alike Q r r') (hQ : ∀ x y, Q x y → R x y) :
    Alike R r r' := by
  cases h with
  | ok h => exact .ok (hQ _ _ h)
  | error fault => exact .error fault

theorem eq_of_ok {x : α} (h : Alike Q (.ok x) r') : ∃ y, r' = .ok y ∧ Q x y := by
  cases h with
  | ok h => exact ⟨_, rfl, h⟩

theorem eq_of_error {fault : Fault} (h : Alike Q (.error fault) r') : r' = .error fault := by
  cases h
  rfl

/-- Results that become the same are alike. -/
theorem of_map {γ : Type} {f : α → γ} {g : β → γ} (h : r.map f = r'.map g) :
    Alike (fun x y => f x = g y) r r' := by
  cases r with
  | error fault =>
    cases r' with
    | error fault' =>
      cases h
      exact .error fault
    | ok y => cases h
  | ok x =>
    cases r' with
    | error fault => cases h
    | ok y => exact .ok (Except.ok.inj h)

/-- A result that is the same on both sides. -/
theorem of_eq {r r' : Except Fault α} (h : r = r') : Alike Eq r r' := by
  subst h
  cases r with
  | error fault => exact .error fault
  | ok x => exact .ok rfl

protected theorem eq {r r' : Except Fault α} (h : Alike Eq r r') : r = r' := by
  cases h with
  | ok h => rw [h]
  | error fault => rfl

end Alike

namespace Action

variable {σ α β γ δ : Type}

/-- The judgment that is explained at the top of this module. -/
def Agree (E : σ → σ → Prop) (m : Action σ α) (m' : Action σ β) (Q : α → β → Prop) : Prop :=
  ∀ s s', E s s' →
    Alike Q (m.outcome s).1 (m'.outcome s').1 ∧ E (m.outcome s).2 (m'.outcome s').2

namespace Agree

variable {E : σ → σ → Prop} {m : Action σ α} {m' : Action σ β} {Q : α → β → Prop}

theorem pure {x : α} {y : β} (h : Q x y) :
    Agree E (Pure.pure x) (Pure.pure y : Action σ β) Q := fun _ _ hE => ⟨.ok h, hE⟩

theorem throw (fault : Fault) :
    Agree E (MonadExcept.throw fault : Action σ α) (MonadExcept.throw fault : Action σ β) Q :=
  fun _ _ hE => ⟨.error fault, hE⟩

/-- Results that need no state. -/
theorem ofExcept {r : Except Fault α} {r' : Except Fault β} (h : Alike Q r r') :
    Agree E (ExceptT.mk (Pure.pure r) : Action σ α) (ExceptT.mk (Pure.pure r') : Action σ β) Q :=
  fun _ _ hE => ⟨h, hE⟩

theorem mono {R : α → β → Prop} (h : Agree E m m' Q) (hQ : ∀ x y, Q x y → R x y) :
    Agree E m m' R :=
  fun s s' hE => ⟨(h s s' hE).1.mono hQ, (h s s' hE).2⟩

/-- **The rule for a sequence.** -/
theorem bind {f : α → Action σ γ} {f' : β → Action σ δ} {R : γ → δ → Prop} (hm : Agree E m m' Q)
    (hf : ∀ x y, Q x y → Agree E (f x) (f' y) R) : Agree E (m >>= f) (m' >>= f') R := by
  intro s s' hE
  obtain ⟨hr, hE'⟩ := hm s s' hE
  rw [outcome_bind, outcome_bind]
  rcases hm : m.outcome s with ⟨r, t⟩
  rcases hm' : m'.outcome s' with ⟨r', t'⟩
  rw [hm, hm'] at hr hE'
  cases hr with
  | error fault => exact ⟨.error fault, hE'⟩
  | ok h => exact hf _ _ h t t' hE'

theorem map {f : α → γ} {f' : β → δ} {R : γ → δ → Prop} (hm : Agree E m m' Q)
    (h : ∀ x y, Q x y → R (f x) (f' y)) : Agree E (f <$> m) (f' <$> m') R := by
  rw [map_eq_pure_bind, map_eq_pure_bind]
  exact hm.bind fun x y hQ => .pure (h x y hQ)

/-- Actions on the items of two lists, one after the other. -/
theorem mapM {ι κ : Type} {f : ι → Action σ α} {f' : κ → Action σ β} {P : ι → κ → Prop}
    {l : List ι} {l' : List κ} (hl : List.Forall₂ P l l')
    (h : ∀ i j, P i j → Agree E (f i) (f' j) Q) :
    Agree E (l.mapM f) (l'.mapM f') (List.Forall₂ Q) := by
  induction hl with
  | nil =>
    rw [List.mapM_nil, List.mapM_nil]
    exact .pure .nil
  | cons hP _ ih =>
    rw [List.mapM_cons, List.mapM_cons]
    refine (h _ _ hP).bind fun x y hx => ih.bind fun xs ys hxs => .pure ?_
    exact .cons hx hxs

end Agree

end Action

/-- Lists that become the same have items that do. -/
theorem forall₂_of_map_eq {α β γ : Type} {f : α → γ} {g : β → γ} {xs : List α} {ys : List β}
    (h : xs.map f = ys.map g) : List.Forall₂ (fun x y => f x = g y) xs ys := by
  rw [← List.forall₂_eq_eq_eq, List.forall₂_map_left_iff, List.forall₂_map_right_iff] at h
  exact h

theorem map_eq_of_forall₂ {α β γ : Type} {f : α → γ} {g : β → γ} {xs : List α} {ys : List β}
    (h : List.Forall₂ (fun x y => f x = g y) xs ys) : xs.map f = ys.map g := by
  rw [← List.forall₂_eq_eq_eq, List.forall₂_map_left_iff, List.forall₂_map_right_iff]
  exact h

end BoundSql

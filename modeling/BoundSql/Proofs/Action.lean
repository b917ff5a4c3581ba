import BoundSql.Session
import Mathlib.Data.List.Forall2
import Mathlib.Order.Defs.PartialOrder

/-!
# What an action keeps

Making a fragment is an action on a supply, and running a script is an action on a session. Both
leave a state behind also when they fail, and in both the state only grows: what was issued or
entered into the history stays there. Growth is written `≤`, and it is the whole reason why the
statements of this library can be about *the session in the end*: what holds of the final history
holds of every history before it.

`Keeps last I P m Q` is the one judgment. Read it as: whatever the state, running `m` lets it grow;
and if `P` holds, the state is in the end still no larger than `last`, and the invariant `I` held
before, then `I` holds after, also after a fault, and a result satisfies `Q`.

Two choices make the rule for a sequence (`Keeps.bind`) work without side conditions. Since `last`
is fixed, `Q` need not mention the state that it was established in, and what was known stays
known. And since growth does not depend on `P`, the state between two actions is known to be no
larger than `last` before anything is known of the first result.
-/

set_option autoImplicit false

namespace BoundSql

/-- An action on a state, which leaves a state behind also when it fails. -/
abbrev Action (σ α : Type) : Type := ExceptT Fault (StateM σ) α

/-- Whatever is on the right of a relation between lists has something on the left. -/
theorem exists_left_of_forall₂ {α β : Type} {R : α → β → Prop} {xs : List α} {ys : List β}
    (h : List.Forall₂ R xs ys) {y : β} (hy : y ∈ ys) : ∃ x ∈ xs, R x y := by
  induction h with
  | nil => cases hy
  | cons hR _ ih =>
    rcases List.mem_cons.mp hy with rfl | hy
    · exact ⟨_, List.mem_cons_self, hR⟩
    · obtain ⟨x, hx, hR⟩ := ih hy
      exact ⟨x, List.mem_cons_of_mem _ hx, hR⟩

namespace Except

variable {ε α β : Type}

/-- A sequence without a fault is one whose parts have none. -/
theorem bind_eq_ok {x : Except ε α} {f : α → Except ε β} {y : β} :
    (x >>= f) = .ok y ↔ ∃ a, x = .ok a ∧ f a = .ok y := by
  cases x <;> simp [bind, Except.bind]

theorem map_eq_ok {x : Except ε α} {f : α → β} {y : β} :
    (f <$> x) = .ok y ↔ ∃ a, x = .ok a ∧ f a = y := by
  cases x <;> simp [Functor.map, Except.map]

theorem forall₂_of_mapM_eq_ok {f : α → Except ε β} {xs : List α} {ys : List β}
    (h : xs.mapM f = .ok ys) : List.Forall₂ (fun x y => f x = .ok y) xs ys := by
  induction xs generalizing ys with
  | nil =>
    rw [List.mapM_nil] at h
    cases h
    exact .nil
  | cons x xs ih =>
    rw [List.mapM_cons] at h
    obtain ⟨y, hy, h⟩ := bind_eq_ok.mp h
    obtain ⟨ys', hys, h⟩ := bind_eq_ok.mp h
    cases h
    exact .cons hy (ih hys)

end Except

namespace Action

variable {σ α β : Type}

/-- The outcome of an action and the state it leaves. -/
def outcome (m : Action σ α) (s : σ) : Except Fault α × σ := (ExceptT.run m).run s

theorem outcome_bind (m : Action σ α) (f : α → Action σ β) (s : σ) :
    outcome (m >>= f) s = match outcome m s with
      | (.ok x, s') => outcome (f x) s'
      | (.error fault, s') => (.error fault, s') := by
  change (match (m s) with | (r, s') => ExceptT.bindCont f r s') = _
  unfold outcome ExceptT.run StateT.run
  rcases m s with ⟨x | x, s'⟩ <;> rfl

/-- The judgment for one state to start from. -/
def KeepsAt [Preorder σ] (last : σ) (I : σ → Prop) (P : Prop) (m : Action σ α) (Q : α → Prop)
    (s : σ) : Prop :=
  s ≤ (m.outcome s).2 ∧ (P → (m.outcome s).2 ≤ last → I s →
    I (m.outcome s).2 ∧ ∀ x, (m.outcome s).1 = .ok x → Q x)

/-- The judgment that is explained at the top of this module. -/
def Keeps [Preorder σ] (last : σ) (I : σ → Prop) (P : Prop) (m : Action σ α) (Q : α → Prop) :
    Prop :=
  ∀ s, KeepsAt last I P m Q s

namespace Keeps

variable [Preorder σ] {last : σ} {I : σ → Prop} {P : Prop} {m : Action σ α} {Q : α → Prop}

theorem pure {x : α} (h : P → Q x) : Keeps last I P (Pure.pure x) Q := by
  intro s
  refine ⟨le_refl s, fun hP _ hI => ⟨hI, fun y hy => ?_⟩⟩
  cases hy
  exact h hP

theorem throw (fault : Fault) : Keeps last I P (MonadExcept.throw fault : Action σ α) Q := by
  intro s
  exact ⟨le_refl s, fun _ _ hI => ⟨hI, fun y hy => by cases hy⟩⟩

/-- A result that needs no state. -/
theorem ofExcept {r : Except Fault α} (h : P → ∀ x, r = .ok x → Q x) :
    Keeps last I P (ExceptT.mk (Pure.pure r) : Action σ α) Q := by
  intro s
  exact ⟨le_refl s, fun hP _ hI => ⟨hI, h hP⟩⟩

theorem mono {P' : Prop} {Q' : α → Prop} (h : Keeps last I P m Q) (hP : P' → P)
    (hQ : ∀ x, P' → Q x → Q' x) : Keeps last I P' m Q' := by
  intro s
  refine ⟨(h s).1, fun hP' hlast hI => ?_⟩
  obtain ⟨hI', hx⟩ := (h s).2 (hP hP') hlast hI
  exact ⟨hI', fun x hok => hQ x hP' (hx x hok)⟩

/-- The rule for a sequence whose second part depends on the state that the first one leaves. -/
theorem bind_at {f : α → Action σ β} {R : β → Prop} {s : σ} (hm : KeepsAt last I P m Q s)
    (hf : ∀ x s', m.outcome s = (.ok x, s') → KeepsAt last I (P ∧ Q x) (f x) R s') :
    KeepsAt last I P (m >>= f) R s := by
  unfold KeepsAt
  rw [outcome_bind]
  obtain ⟨hle, hkeep⟩ := hm
  rcases hr : m.outcome s with ⟨fault | x, s'⟩
  · rw [hr] at hle hkeep
    exact ⟨hle, fun hP hlast hI => ⟨(hkeep hP hlast hI).1, fun y hy => by cases hy⟩⟩
  · rw [hr] at hle hkeep
    obtain ⟨hgrow, hnext⟩ := hf x s' hr
    refine ⟨le_trans hle hgrow, fun hP hlast hI => ?_⟩
    obtain ⟨hI', hx⟩ := hkeep hP (le_trans hgrow hlast) hI
    exact hnext ⟨hP, hx x rfl⟩ hlast hI'

/-- **The rule for a sequence.** -/
theorem bind {f : α → Action σ β} {R : β → Prop} (hm : Keeps last I P m Q)
    (hf : ∀ x, Keeps last I (P ∧ Q x) (f x) R) : Keeps last I P (m >>= f) R :=
  fun s => bind_at (hm s) fun x s' _ => hf x s'

theorem map {f : α → β} {R : β → Prop} (hm : Keeps last I P m Q) (h : ∀ x, P → Q x → R (f x)) :
    Keeps last I P (f <$> m) R := by
  rw [map_eq_pure_bind]
  exact hm.bind fun x => .pure fun hP => h x hP.1 hP.2

/-- Actions on the items of a list, one after the other. -/
theorem mapM {f : α → Action σ β} {R : α → β → Prop} (l : List α)
    (h : ∀ x ∈ l, Keeps last I P (f x) (R x)) :
    Keeps last I P (l.mapM f) (List.Forall₂ R l) := by
  induction l with
  | nil =>
    rw [List.mapM_nil]
    exact .pure fun _ => .nil
  | cons x l ih =>
    rw [List.mapM_cons]
    refine (h x List.mem_cons_self).bind fun y => ?_
    have hl := ih fun x' hx' => h x' (List.mem_cons_of_mem _ hx')
    refine (hl.mono And.left fun _ _ => id).bind fun ys => .pure fun hall => ?_
    exact .cons hall.1.2 hall.2

/-- Actions that all have results of one kind. -/
theorem mapM_all {f : α → Action σ β} {Q : β → Prop} (l : List α)
    (h : ∀ x ∈ l, Keeps last I P (f x) Q) :
    Keeps last I P (l.mapM f) fun ys => ∀ y ∈ ys, Q y := by
  refine (mapM (R := fun _ => Q) l h).mono id fun ys _ hys y hy => ?_
  obtain ⟨_, -, hQ⟩ := exists_left_of_forall₂ hys hy
  exact hQ

end Keeps

end Action

end BoundSql

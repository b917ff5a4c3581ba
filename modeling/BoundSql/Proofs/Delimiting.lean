import BoundSql.Text.Blank
import Mathlib.Data.List.Basic

/-!
# Texts that show where they end

What was written can be read off a text that is put together of many if each of them, read from the
front of a longer text, shows which one it is and where it ends. `Delimits` says that of a way of
writing items. Most texts show their end only in front of certain others, which is why a condition
on what follows goes with it; the rules below say how the conditions of the parts make up that of
the whole.

At the end of the module are the texts that trimming leaves alone.
-/

set_option autoImplicit false

namespace BoundSql.Text

variable {α β : Type}

/-- Which item of `P` was written at the front of a longer text, and where its text ends, can be
read off that text, if what follows is in `K`. -/
def Delimits (P : α → Prop) (K : List Char → Prop) (write : α → List Char) : Prop :=
  ∀ ⦃x y : α⦄ ⦃r r' : List Char⦄, P x → P y → K r → K r' → write x ++ r = write y ++ r' →
    x = y ∧ r = r'

namespace Delimits

variable {P P' : α → Prop} {Q : β → Prop} {K E : List Char → Prop} {write : α → List Char}
  {write' : β → List Char}

theorem mono (h : Delimits P K write) (hP : ∀ x, P' x → P x) (hK : ∀ r, E r → K r) :
    Delimits P' E write :=
  fun _ _ _ _ hx hy hr hr' heq => h (hP _ hx) (hP _ hy) (hK _ hr) (hK _ hr') heq

/-- What is told apart by something that shows is told apart. -/
theorem comap (h : Delimits P K write) {f : β → α} (hf : ∀ x y, f x = f y → x = y) :
    Delimits (fun x => P (f x)) K (fun x => write (f x)) := by
  intro x y r r' hx hy hr hr' heq
  obtain ⟨hxy, hrest⟩ := h hx hy hr hr' heq
  exact ⟨hf x y hxy, hrest⟩

/-- Text in front. -/
theorem lead (h : Delimits P K write) (w : List Char) : Delimits P K (fun x => w ++ write x) := by
  intro x y r r' hx hy hr hr' heq
  simp only [List.append_assoc, List.append_cancel_left_eq] at heq
  exact h hx hy hr hr' heq

/-- Text behind, which shows where the item ends. -/
theorem trail (h : Delimits P K write) {w : List Char} (hw : ∀ r, K (w ++ r)) :
    Delimits P (fun _ => True) (fun x => write x ++ w) := by
  intro x y r r' hx hy _ _ heq
  rw [List.append_assoc, List.append_assoc] at heq
  obtain ⟨hxy, hrest⟩ := h hx hy (hw r) (hw r') heq
  exact ⟨hxy, List.append_cancel_left hrest⟩

/-- Two items, one after the other. -/
theorem pair (h : Delimits P K write) (h' : Delimits Q E write')
    (hK : ∀ y r, Q y → E r → K (write' y ++ r)) :
    Delimits (fun p : α × β => P p.1 ∧ Q p.2) E (fun p => write p.1 ++ write' p.2) := by
  rintro ⟨x, y⟩ ⟨x', y'⟩ r r' ⟨hx, hy⟩ ⟨hx', hy'⟩ hr hr' heq
  rw [List.append_assoc, List.append_assoc] at heq
  obtain ⟨hxx, hrest⟩ := h hx hx' (hK y r hy hr) (hK y' r' hy' hr') heq
  obtain ⟨hyy, hend⟩ := h' hy hy' hr hr' hrest
  exact ⟨Prod.ext hxx hyy, hend⟩

/-- An item that may be absent, if its text cannot be taken for what follows. -/
theorem option (h : Delimits P K write) (hne : ∀ x r r', P x → K r' → write x ++ r ≠ r') :
    Delimits (fun o : Option α => ∀ x ∈ o, P x) K (fun o => o.elim [] write) := by
  intro o o' r r' ho ho' hr hr' heq
  cases o with
  | none =>
    cases o' with
    | none => exact ⟨rfl, heq⟩
    | some y => exact absurd heq.symm (hne y r' r (ho' y rfl) hr)
  | some x =>
    cases o' with
    | none => exact absurd heq (hne x r r' (ho x rfl) hr')
    | some y =>
      obtain ⟨rfl, hrest⟩ := h (ho x rfl) (ho' y rfl) hr hr' heq
      exact ⟨rfl, hrest⟩

/-- Any number of items, one after the other, if none of them can be taken for what follows. -/
theorem flatMap (h : Delimits P K write) (hnext : ∀ x r, P x → K (write x ++ r))
    (hK : ∀ r, E r → K r) (hne : ∀ x r r', P x → E r' → write x ++ r ≠ r') :
    Delimits (fun l : List α => ∀ x ∈ l, P x) E (fun l => l.flatMap write) := by
  intro l l' r r' hl hl' hr hr' heq
  dsimp only at heq
  have follows : ∀ {l : List α} {r : List Char}, (∀ x ∈ l, P x) → E r →
      K (l.flatMap write ++ r) := by
    intro l r hl hr
    cases l with
    | nil => exact hK r hr
    | cons x l =>
      rw [List.flatMap_cons, List.append_assoc]
      exact hnext x _ (hl x List.mem_cons_self)
  induction l generalizing l' with
  | nil =>
    cases l' with
    | nil => exact ⟨rfl, heq⟩
    | cons y l' =>
      rw [List.flatMap_cons, List.append_assoc] at heq
      exact absurd heq.symm (hne y _ r (hl' y List.mem_cons_self) hr)
  | cons x l ih =>
    rw [List.flatMap_cons, List.append_assoc] at heq
    cases l' with
    | nil => exact absurd heq (hne x _ r' (hl x List.mem_cons_self) hr')
    | cons y l' =>
      rw [List.flatMap_cons, List.append_assoc] at heq
      obtain ⟨hx, hxs⟩ := List.forall_mem_cons.mp hl
      obtain ⟨hy, hys⟩ := List.forall_mem_cons.mp hl'
      obtain ⟨rfl, hitems⟩ := h hx hy (follows hxs hr) (follows hys hr') heq
      obtain ⟨rfl, hrest⟩ := ih hxs hys hitems
      exact ⟨rfl, hrest⟩

end Delimits

theorem intercalate_cons (w x : List Char) (l : List (List Char)) :
    w.intercalate (x :: l) = x ++ l.flatMap (w ++ ·) := by
  induction l generalizing x with
  | nil => simp
  | cons y l ih => rw [List.intercalate_cons_cons, ih, List.flatMap_cons, List.append_assoc,
      List.append_assoc]

/-- One item or more with a separator between two, if the separator shows where an item ends. -/
theorem Delimits.intercalate {P : α → Prop} {K E : List Char → Prop} {write : α → List Char}
    (h : Delimits P K write) {w : List Char} (hw : ∀ r, K (w ++ r)) (hK : ∀ r, E r → K r)
    (hne : ∀ r r', E r' → w ++ r ≠ r') :
    Delimits (fun l : List α => l ≠ [] ∧ ∀ x ∈ l, P x) E
      (fun l => w.intercalate (l.map write)) := by
  have rest := (h.lead w).flatMap (E := E)
    (fun x r _ => by rw [List.append_assoc]; exact hw _) hK
    (fun x r r' _ hr' => by rw [List.append_assoc]; exact hne _ r' hr')
  have whole := h.pair rest fun l r _ hr => by
    cases l with
    | nil => exact hK r hr
    | cons x l =>
      rw [List.flatMap_cons, List.append_assoc, List.append_assoc]
      exact hw _
  rintro l l' r r' ⟨hne, hl⟩ ⟨hne', hl'⟩ hr hr' heq
  obtain ⟨x, l, rfl⟩ := List.exists_cons_of_ne_nil hne
  obtain ⟨y, l', rfl⟩ := List.exists_cons_of_ne_nil hne'
  dsimp only at heq
  rw [List.map_cons, List.map_cons, intercalate_cons, intercalate_cons, List.flatMap_map,
    List.flatMap_map] at heq
  obtain ⟨heq, hrest⟩ := @whole (x, l) (y, l') r r' (List.forall_mem_cons.mp hl)
    (List.forall_mem_cons.mp hl') hr hr' heq
  cases heq
  exact ⟨rfl, hrest⟩

/-- A word ends where another kind of character comes. -/
theorem delimits_words (p : Char → Bool) :
    Delimits (fun w : List Char => ∀ c ∈ w, p c = true)
      (fun r => ∀ c ∈ r.head?, p c = false) id := by
  intro x y r r' hx hy hr hr' heq
  simp only [id_eq] at heq
  induction x generalizing y with
  | nil =>
    cases y with
    | nil => exact ⟨rfl, heq⟩
    | cons d y =>
      have hd := hr d (by rw [show r = d :: (y ++ r') from heq]; rfl)
      rw [hy d List.mem_cons_self] at hd
      cases hd
  | cons c x ih =>
    cases y with
    | nil =>
      have hc := hr' c (by rw [← show c :: (x ++ r) = r' from heq]; rfl)
      rw [hx c List.mem_cons_self] at hc
      cases hc
    | cons d y =>
      obtain ⟨rfl, hwords⟩ := List.cons.inj heq
      obtain ⟨rfl, hrest⟩ := ih (List.forall_mem_cons.mp hx).2 (List.forall_mem_cons.mp hy).2 hwords
      exact ⟨rfl, hrest⟩

/-! ## Texts that are trimmed -/

/-- The last character is not blank. -/
def EndsDark (cs : List Char) : Prop := ∃ c ∈ cs.getLast?, isBlank c = false

theorem EndsDark.ne_nil {cs : List Char} (h : EndsDark cs) : cs ≠ [] := by
  rintro rfl
  obtain ⟨c, hc, -⟩ := h
  cases hc

theorem EndsDark.append (xs : List Char) {ys : List Char} (h : EndsDark ys) :
    EndsDark (xs ++ ys) := by
  obtain ⟨c, hc, hdark⟩ := h
  refine ⟨c, ?_, hdark⟩
  rw [List.getLast?_append, Option.mem_def.mp hc]
  rfl

theorem EndsDark.flatMap {xs : List Char} (h : EndsDark xs) {write : α → List Char} {l : List α}
    (hl : ∀ x ∈ l, EndsDark (write x)) : EndsDark (xs ++ l.flatMap write) := by
  induction l generalizing xs with
  | nil => simpa using h
  | cons x l ih =>
    obtain ⟨hx, hl⟩ := List.forall_mem_cons.mp hl
    rw [List.flatMap_cons, ← List.append_assoc]
    exact ih (hx.append xs) hl

theorem EndsDark.intercalate (w : List Char) {write : α → List Char} {l : List α} (hne : l ≠ [])
    (hl : ∀ x ∈ l, EndsDark (write x)) : EndsDark (w.intercalate (l.map write)) := by
  obtain ⟨x, l, rfl⟩ := List.exists_cons_of_ne_nil hne
  obtain ⟨hx, hl⟩ := List.forall_mem_cons.mp hl
  rw [List.map_cons, intercalate_cons, List.flatMap_map]
  exact hx.flatMap fun y hy => (hl y hy).append w

/-- Trimming leaves alone what neither begins nor ends with a blank. -/
theorem trimList_eq_self {c : Char} {cs : List Char} (hc : isBlank c = false)
    (h : EndsDark (c :: cs)) : trimList (c :: cs) = c :: cs := by
  obtain ⟨d, hd, hdark⟩ := h
  obtain ⟨xs, hxs⟩ := List.getLast?_eq_some_iff.mp hd
  rw [trimList, List.dropWhile_cons_of_neg (by simp [hc]), hxs, List.reverse_append,
    List.reverse_singleton, List.singleton_append, List.dropWhile_cons_of_neg (by simp [hdark])]
  simp

end BoundSql.Text

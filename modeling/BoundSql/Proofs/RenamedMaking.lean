import BoundSql.Proofs.Making
import BoundSql.Proofs.RenamedTexts

/-!
# Making fragments from renamed values

Whatever takes a value apart, or makes a fragment of it, does the same to a renamed value: it fails
with the same fault, or makes the fragment, renamed.

Where a placeholder is drawn the names in the two runs differ, and the renaming has to pair them.
It cannot be said beforehand which names these are, but it can be said *in the end*, when all names
have been issued: the renaming pairs the `k`-th name of one run with the `k`-th of the other
(`Renaming.Covers`). So the judgment for two actions (`Action.Renames`) is about actions that end
before some final states, and for the same reasons as `Action.Keeps` it says two things: whatever
the states, both actions let them grow; and if `P` holds, the states are in the end no larger than
the final ones, and `E` related them before, then `E` relates them after, and the results are
related by `Q` or are the same fault, renamed.
-/

set_option autoImplicit false

namespace BoundSql

variable {ρ : Renaming}

/-! ## Taking values apart -/

namespace Value.Renamed

variable {v v' : Value}

theorem name (h : v.Renamed ρ v') : ρ.Results Eq v.name v'.name := by
  cases h with
  | str s => exact .ok rfl
  | _ => exact .fault _

theorem name? (h : v.Renamed ρ v') : ρ.Results Eq v.name? v'.name? := by
  have hname := h.name
  cases h with
  | null => exact .ok rfl
  | _ => exact hname.map fun _ _ => congrArg some

theorem items? (h : v.Renamed ρ v') :
    Option.Rel (List.Forall₂ (Value.Renamed ρ)) v.items? v'.items? := by
  have same : ∀ {α : Type} {f : α → Value}, (∀ x, (f x).Renamed ρ (f x)) → ∀ xs : List α,
      List.Forall₂ (Value.Renamed ρ) (xs.map f) (xs.map f) := by
    intro α f hf xs
    induction xs with
    | nil => exact .nil
    | cons x xs ih => exact .cons (hf x) ih
  cases h with
  | list h | tuple h => exact .some h
  | str s => exact .some (same (fun _ => .str _) s.toList)
  | bytes b => exact .some (same (fun _ => .int _) b)
  | dict h =>
    refine .some (List.forall₂_map_left_iff.mpr (List.forall₂_map_right_iff.mpr ?_))
    exact h.imp fun _ _ => Value.RenamedEntry.key
  | options o =>
    have limit : ∀ l : Option Nat, (ofLimit l).Renamed ρ (ofLimit l) := by
      intro l
      cases l with
      | none => exact .null
      | some n => exact .int n
    have field : ∀ (s : String) {w : Value}, w.Renamed ρ w →
        (Value.tuple [.str s, w]).Renamed ρ (.tuple [.str s, w]) := fun s _ hw =>
      .tuple (.cons (.str s) (.cons hw .nil))
    exact .some (.cons (field _ (.str _)) (.cons (field _ (limit _)) (.cons (field _ (limit _))
      .nil)))
  | _ => exact .none

theorem items (h : v.Renamed ρ v') :
    ρ.Results (List.Forall₂ (Value.Renamed ρ)) v.items v'.items := by
  have hitems := h.items?
  unfold Value.items
  revert hitems
  generalize v.items? = xs, v'.items? = xs'
  intro hitems
  cases hitems with
  | none => exact .fault _
  | some h => exact .ok h

theorem asColumn (h : v.Renamed ρ v') : ρ.Results (Fragment.Renamed ρ) v.asColumn v'.asColumn := by
  cases h with
  | fragment h _ => exact .ok h
  | str s => exact .ok (.column s)
  | _ => exact .fault _

theorem asBranch (h : v.Renamed ρ v') : ρ.Results (Branch.Renamed ρ) v.asBranch v'.asBranch := by
  cases h with
  | fragment h _ =>
    cases h with
    | branch h => exact .ok h
    | _ => exact .fault _
  | _ => exact .fault _

theorem asFallback? (h : v.Renamed ρ v') :
    ρ.Results (Option.Rel (SubSelect.Renamed ρ)) v.asFallback? v'.asFallback? := by
  cases h with
  | null => exact .ok .none
  | fragment h _ =>
    cases h with
    | fallback h => exact .ok (.some h)
    | _ => exact .fault _
  | _ => exact .fault _

theorem asCondition? (family : JoinKind) (h : v.Renamed ρ v') :
    ρ.Results (Option.Rel (Fragment.Renamed ρ)) (v.asCondition? family)
      (v'.asCondition? family) := by
  cases h with
  | null => exact .ok .none
  | fragment h _ => exact .ok (.some h)
  | _ => exact .fault _

end Value.Renamed

/-! ## Fragments that draw no placeholder -/

section Parts

variable {v v' w w' x x' y y' : Value}

theorem Fragment.ofCast_renamed (hv : v.Renamed ρ v') (hw : w.Renamed ρ w') :
    ρ.Results (Fragment.Renamed ρ) (Fragment.ofCast v w) (Fragment.ofCast v' w') :=
  hv.asColumn.bind fun _ _ hf => .ok (.cast hf hw)

theorem Fragment.ofProjection_renamed (hv : v.Renamed ρ v') (hw : w.Renamed ρ w') :
    ρ.Results (Fragment.Renamed ρ) (Fragment.ofProjection v w) (Fragment.ofProjection v' w') :=
  hv.asColumn.bind fun _ _ hf => .ok (.projection hf hw)

theorem Filter.absent_renamed (h : v.Renamed ρ v') :
    ρ.Results (Filter.Renamed ρ) (Filter.absent v) (Filter.absent v') :=
  h.asColumn.bind fun _ _ hf => .ok (.mk hf (.some .null) (.str _) (.str _) (.str _))

theorem Join.make_renamed (family : JoinKind) (htable : v.Renamed ρ v')
    (hcondition : w.Renamed ρ w') (hlabel : x.Renamed ρ x') (hkind : y.Renamed ρ y') :
    ρ.Results (Join.Renamed ρ) (Join.make family v w x y) (Join.make family v' w' x' y') := by
  have hdirection : Value.Renamed ρ (if y.isTruthy then y else .joinKind family)
      (if y'.isTruthy then y' else .joinKind family) := by
    rw [hkind.isTruthy_eq]
    split
    · exact hkind
    · exact .joinKind family
  refine (hcondition.asCondition? family).bind fun _ _ hc => htable.asColumn.bind fun _ _ ht =>
    hlabel.name?.bind fun l _ hl => ?_
  subst hl
  exact .ok (.mk family hdirection ht l hc)

theorem Branch.make_renamed (hcondition : v.Renamed ρ v') (hresult : w.Renamed ρ w') :
    ρ.Results (Branch.Renamed ρ) (Branch.make v w) (Branch.make v' w') := by
  cases hcondition with
  | fragment h _ =>
    cases h with
    | filter hc =>
      cases hresult with
      | fragment h _ =>
        cases h with
        | subSelect hs => exact .ok (.mk hc hs)
        | _ => exact .fault _
      | _ => exact .fault _
    | _ => exact .fault _
  | _ => exact .fault _

theorem Fragment.ofFallback_renamed (h : v.Renamed ρ v') :
    ρ.Results (Fragment.Renamed ρ) (Fragment.ofFallback v) (Fragment.ofFallback v') := by
  cases h with
  | fragment h _ =>
    cases h with
    | subSelect hs => exact .ok (.fallback hs)
    | _ => exact .fault _
  | _ => exact .fault _

theorem Fragment.ofChoice_renamed (hname : v.Renamed ρ v') (hbranches : w.Renamed ρ w')
    (hlast : x.Renamed ρ x') :
    ρ.Results (Fragment.Renamed ρ) (Fragment.ofChoice v w x) (Fragment.ofChoice v' w' x') := by
  refine hbranches.items.bind fun _ _ hitems => ?_
  refine (Renaming.Results.mapM hitems fun _ _ => Value.Renamed.asBranch).bind fun _ _ hbs => ?_
  refine hlast.asFallback?.bind fun _ _ hs => hname.name.bind fun n _ hn => ?_
  subst hn
  exact .ok (.choice n hbs hs)

end Parts

/-! ## Two actions -/

namespace Action

variable {σ α β : Type} [Preorder σ]

/-- Whatever the state, the action lets it grow. -/
def Grows (m : Action σ α) : Prop := ∀ s, s ≤ (m.outcome s).2

/-- The judgment for two states to start from. -/
structure RenamesAt (ρ : Renaming) (last last' : σ) (E : σ → σ → Prop) (P : Prop)
    (m m' : Action σ α) (Q : α → α → Prop) (s s' : σ) : Prop where
  grows : s ≤ (m.outcome s).2
  grows' : s' ≤ (m'.outcome s').2
  renames : P → (m.outcome s).2 ≤ last → (m'.outcome s').2 ≤ last' → E s s' →
    ρ.Results Q (m.outcome s).1 (m'.outcome s').1 ∧ E (m.outcome s).2 (m'.outcome s').2

/-- The judgment that is explained at the top of this module. -/
def Renames (ρ : Renaming) (last last' : σ) (E : σ → σ → Prop) (P : Prop) (m m' : Action σ α)
    (Q : α → α → Prop) : Prop :=
  ∀ s s', RenamesAt ρ last last' E P m m' Q s s'

namespace RenamesAt

variable {last last' : σ} {E : σ → σ → Prop} {P : Prop} {m m' : Action σ α} {Q : α → α → Prop}
  {s s' : σ}

/-- The rule for a sequence, at two states. -/
theorem bind {f f' : α → Action σ β} {R : β → β → Prop}
    (hm : RenamesAt ρ last last' E P m m' Q s s')
    (hf : ∀ x y, Renames ρ last last' E (P ∧ Q x y) (f x) (f' y) R) :
    RenamesAt ρ last last' E P (m >>= f) (m' >>= f') R s s' := by
  obtain ⟨hgrows, hgrows', hrel⟩ := hm
  have hend : ∀ {t : σ} {n : Action σ α} {g : α → Action σ β},
      (∀ x, (n.outcome t).2 ≤ ((g x).outcome (n.outcome t).2).2) →
      (n.outcome t).2 ≤ ((n >>= g).outcome t).2 := by
    intro t n g hg
    rw [outcome_bind]
    revert hg
    rcases n.outcome t with ⟨fault | x, u⟩ <;> intro hg
    · exact le_refl u
    · exact hg x
  have hnext := hend (t := s) fun x => (hf x x (m.outcome s).2 s').grows
  have hnext' := hend (t := s') fun y => (hf y y s (m'.outcome s').2).grows'
  refine ⟨le_trans hgrows hnext, le_trans hgrows' hnext', fun hP hlast hlast' hE => ?_⟩
  obtain ⟨hr, hout⟩ := hrel hP (le_trans hnext hlast) (le_trans hnext' hlast') hE
  rw [outcome_bind] at hlast hlast' ⊢
  rw [outcome_bind]
  revert hr hout hlast hlast'
  generalize m.outcome s = r, m'.outcome s' = r'
  obtain ⟨r, t⟩ := r
  obtain ⟨r', t'⟩ := r'
  intro hlast hlast' hr hout
  cases hr with
  | @ok x y hQ => exact (hf x y t t').renames ⟨hP, hQ⟩ hlast hlast' hout
  | error h => exact ⟨.error h, hout⟩

/-- Two states that are related in another way, by which they end up related in this one. -/
theorem of_rel {F : σ → σ → Prop} (h : RenamesAt ρ last last' F P m m' Q s s')
    (hF : E s s' → F s s') (hE : E s s' → ∀ {t t'}, F t t' → E t t') :
    RenamesAt ρ last last' E P m m' Q s s' := by
  refine ⟨h.grows, h.grows', fun hP hlast hlast' hs => ?_⟩
  obtain ⟨hr, hout⟩ := h.renames hP hlast hlast' (hF hs)
  exact ⟨hr, hE hs hout⟩

end RenamesAt

namespace Renames

variable {last last' : σ} {E : σ → σ → Prop} {P : Prop} {m m' : Action σ α} {Q : α → α → Prop}

theorem pure {x y : α} (h : P → Q x y) :
    Renames ρ last last' E P (Pure.pure x) (Pure.pure y) Q :=
  fun s s' => ⟨le_refl s, le_refl s', fun hP _ _ hE => ⟨.ok (h hP), hE⟩⟩

theorem throw (fault : Fault) :
    Renames ρ last last' E P (MonadExcept.throw fault) (MonadExcept.throw fault) Q :=
  fun s s' => ⟨le_refl s, le_refl s', fun _ _ _ hE => ⟨.fault fault, hE⟩⟩

/-- Results that need no state. -/
theorem ofExcept {r r' : Except Fault α} (h : P → ρ.Results Q r r') :
    Renames ρ last last' E P (ExceptT.mk (Pure.pure r)) (ExceptT.mk (Pure.pure r')) Q :=
  fun s s' => ⟨le_refl s, le_refl s', fun hP _ _ hE => ⟨h hP, hE⟩⟩

theorem grows (h : Renames ρ last last' E P m m' Q) : m.Grows := fun s => (h s s).grows

/-- What holds at the beginning can be taken for granted, if both actions let states grow anyway. -/
theorem assume (hm : m.Grows) (hm' : m'.Grows) (h : P → Renames ρ last last' E True m m' Q) :
    Renames ρ last last' E P m m' Q :=
  fun s s' => ⟨hm s, hm' s', fun hP => (h hP s s').renames trivial⟩

theorem mono {P' : Prop} {R : α → α → Prop} (h : Renames ρ last last' E P m m' Q) (hP : P' → P)
    (hQ : ∀ x y, P' → Q x y → R x y) : Renames ρ last last' E P' m m' R := by
  intro s s'
  refine ⟨(h s s').grows, (h s s').grows', fun hP' hlast hlast' hE => ?_⟩
  obtain ⟨hr, hout⟩ := (h s s').renames (hP hP') hlast hlast' hE
  exact ⟨hr.mono fun x y => hQ x y hP', hout⟩

/-- **The rule for a sequence.** -/
theorem bind {f f' : α → Action σ β} {R : β → β → Prop} (hm : Renames ρ last last' E P m m' Q)
    (hf : ∀ x y, Renames ρ last last' E (P ∧ Q x y) (f x) (f' y) R) :
    Renames ρ last last' E P (m >>= f) (m' >>= f') R :=
  fun s s' => (hm s s').bind hf

theorem map {f f' : α → β} {R : β → β → Prop} (hm : Renames ρ last last' E P m m' Q)
    (h : ∀ x y, P → Q x y → R (f x) (f' y)) :
    Renames ρ last last' E P (f <$> m) (f' <$> m') R := by
  rw [map_eq_pure_bind, map_eq_pure_bind]
  exact hm.bind fun x y => .pure fun hP => h x y hP.1 hP.2

/-- Actions on the items of two lists, one after the other. -/
theorem mapM {ι : Type} {S : ι → ι → Prop} {f f' : ι → Action σ α} {xs ys : List ι}
    (hxs : List.Forall₂ S xs ys) (h : ∀ x y, S x y → Renames ρ last last' E P (f x) (f' y) Q) :
    Renames ρ last last' E P (xs.mapM f) (ys.mapM f') (List.Forall₂ Q) := by
  induction hxs with
  | nil =>
    rw [List.mapM_nil, List.mapM_nil]
    exact .pure fun _ => .nil
  | cons hS _ ih =>
    rw [List.mapM_cons, List.mapM_cons]
    refine (h _ _ hS).bind fun v w => (ih.mono And.left fun _ _ _ => id).bind fun vs ws => ?_
    exact .pure fun hP => .cons hP.1.2 hP.2

end Renames

end Action

/-! ## Fragments that may draw placeholders -/

/-- In the end, the renaming pairs the `k`-th issued name with the `k`-th. -/
def Renaming.Covers (ρ : Renaming) (last last' : Supply) : Prop :=
  ∀ {k : Nat} {p p' : Placeholder} {v v' : Value}, last.issued[k]? = some (p, v) →
    last'.issued[k]? = some (p', v') → ρ.Pairs p p'

/-- A name that was issued, with its value, and the one that takes its place: of the same kind and
as long, and issued for the value, renamed. -/
structure Supply.RenamedIssue (ρ : Renaming) (e e' : Placeholder × Value) : Prop where
  pairs : ρ.Pairs e.1 e'.1
  tag : e.1.tag = e'.1.tag
  width : e.1.digits.length = Placeholder.width ∧ e'.1.digits.length = Placeholder.width
  value : e.2.Renamed ρ e'.2

/-- Two supplies that have issued the same but for the names. -/
def Supply.Renamed (ρ : Renaming) (s s' : Supply) : Prop :=
  List.Forall₂ (Supply.RenamedIssue ρ) s.issued s'.issued

section Making

open BoundSql.Action

variable {last last' : Supply} {P : Prop} (hρ : ρ.Covers last last')

include hρ

theorem Making.bound_renames (tag : Tag) {v v' : Value} (hv : v.Renamed ρ v') :
    Renames ρ last last' (Supply.Renamed ρ) P (Making.bound tag v) (Making.bound tag v')
      (Fragment.Renamed ρ) := by
  intro s s'
  refine ⟨List.prefix_append _ _, List.prefix_append _ _, fun _ hlast hlast' hs => ?_⟩
  have hpairs : ρ.Pairs (s.fresh tag v).1 (s'.fresh tag v').1 := by
    -- Both supplies have issued as many names before, so both names have this count in the end.
    have found : ∀ {s last : Supply} {e : Placeholder × Value}, s.issued ++ [e] <+: last.issued →
        last.issued[s.issued.length]? = some e := by
      rintro s last e ⟨later, h⟩
      simp [← h]
    exact hρ (found hlast) (List.Forall₂.length_eq hs ▸ found hlast')
  have hwidth : ∀ (s : Supply) (v : Value), (s.fresh tag v).1.digits.length = Placeholder.width :=
    fun s v => by simp [Supply.digits_fresh, Placeholder.width]
  exact ⟨.ok (.placeholder hpairs hv),
    List.rel_append hs (.cons ⟨hpairs, rfl, ⟨hwidth s v, hwidth s' v'⟩, hv⟩ .nil)⟩

theorem Value.Renamed.asOperand (tag : Tag) {v v' : Value} (h : v.Renamed ρ v') :
    Renames ρ last last' (Supply.Renamed ρ) P (v.asOperand tag) (v'.asOperand tag)
      (Fragment.Renamed ρ) := by
  have hbound := Making.bound_renames hρ (P := P) tag h
  cases h with
  | fragment h _ => exact .pure fun _ => h
  | _ => exact hbound

theorem Value.Renamed.asOperand? (tag : Tag) {v v' : Value} (h : v.Renamed ρ v') :
    Renames ρ last last' (Supply.Renamed ρ) P (v.asOperand? tag) (v'.asOperand? tag)
      (Option.Rel (Fragment.Renamed ρ)) := by
  have present : Renames ρ last last' (Supply.Renamed ρ) P (some <$> v.asOperand tag)
      (some <$> v'.asOperand tag) (Option.Rel (Fragment.Renamed ρ)) :=
    (h.asOperand hρ tag).map fun _ _ _ => .some
  cases h with
  | null => exact .pure fun _ => .none
  | _ => exact present

theorem Fragment.ofLiteral_renames {v v' : Value} (h : v.Renamed ρ v') :
    Renames ρ last last' (Supply.Renamed ρ) P (Fragment.ofLiteral v) (Fragment.ofLiteral v')
      (Fragment.Renamed ρ) :=
  Making.bound_renames hρ .literal h

theorem Fragment.ofFunction_renames {name name' : Value} {args args' : List Value}
    (hname : name.Renamed ρ name') (hargs : List.Forall₂ (Value.Renamed ρ) args args') :
    Renames ρ last last' (Supply.Renamed ρ) P (Fragment.ofFunction name args)
      (Fragment.ofFunction name' args') (Fragment.Renamed ρ) :=
  (Renames.mapM hargs fun _ _ h => h.asOperand hρ .function).bind fun _ _ =>
    .pure fun h => .function hname h.2

theorem Filter.make_renames {left left' right right' operator operator' before before' after
      after' : Value}
    (hleft : left.Renamed ρ left') (hright : right.Renamed ρ right')
    (hoperator : operator.Renamed ρ operator') (hbefore : before.Renamed ρ before')
    (hafter : after.Renamed ρ after') :
    Renames ρ last last' (Supply.Renamed ρ) P (Filter.make left right operator before after)
      (Filter.make left' right' operator' before' after') (Filter.Renamed ρ) :=
  (Renames.ofExcept fun _ => hleft.asColumn).bind fun _ _ =>
    (hright.asOperand? hρ .filter).bind fun _ _ =>
      .pure fun h => .mk h.1.2 h.2 hoperator hbefore hafter

end Making

end BoundSql

import BoundSql.Proofs.Rendering

/-!
# Constructions from worded parts

The keyword positions are arguments of three constructions: the operator of a comparison and what
stands around it, the modifier of a union and the direction of a join. Every other argument may be
any value. A construction from worded parts, with keywords in these positions, makes a worded
fragment (`Construction.Makes.worded`), so whatever was put together in this way can be rendered.
-/

set_option autoImplicit false

namespace BoundSql

/-! ## Constructions -/

/-- Where only a fragment is written as it is, and any other value is named or bound: the fragment,
if the value is one, is worded. -/
def Value.PartWorded (v : Value) : Prop := ∀ f, v.fragment? = some f → f.Worded

/-- What a construction is given for keyword positions are keywords or nothing, and the parts that
are written as they are are worded. -/
def Construction.Worded : Construction → Prop
  | .raw parts | .group _ parts => ∀ v ∈ parts, v.Worded
  | .cast operand type => operand.PartWorded ∧ type.Worded
  | .function name args => name.Worded ∧ ∀ v ∈ args, v.PartWorded
  | .filter left right operator before after =>
      left.PartWorded ∧ right.PartWorded ∧ operator.IsWord ∧ before.IsWord ∧ after.IsWord
  | .projection target label => target.PartWorded ∧ label.Worded
  | .union _ modifier _ | .ownUnion _ modifier => modifier.IsWord
  | .join _ table condition _ kind =>
      table.PartWorded ∧ condition.PartWorded ∧ (kind = .null ∨ ∃ k, kind = .joinKind k)
  | .branch condition _ => condition.PartWorded
  | .choice _ branches _ => ∀ items, branches.items = .ok items → ∀ v ∈ items, v.PartWorded
  | .asColumn v => v.PartWorded
  | .column _ | .literal _ | .null | .subSelect .. | .ownSubSelect .. | .fallback _ => True

section Makes

variable {issued : Placeholder → Value → Prop} {answered : Callback → String → Bindings → Prop}

theorem Value.Names.worded {v : Value} {f : Fragment} (h : v.Names f) (hv : v.PartWorded) :
    f.Worded := by
  cases h with
  | fragment f origin => exact hv f rfl
  | name s => trivial

theorem Value.Stands.worded {v : Value} {f : Fragment} (h : v.Stands issued f)
    (hv : v.PartWorded) : f.Worded := by
  cases h with
  | fragment f origin => exact hv f rfl
  | value => trivial

theorem Value.Compares.worded {v : Value} {f : Option Fragment} (h : v.Compares issued f)
    (hv : v.PartWorded) : Fragment.Worded? f := by
  cases h with
  | absent => trivial
  | present _ h => exact h.worded hv

/-- **Worded parts make worded fragments.** -/
theorem Construction.Makes.worded {c : Construction} {f : Fragment} (h : c.Makes issued answered f)
    (hc : c.Worded) : f.Worded := by
  cases h with
  | column | literal | null | subSelect | ownSubSelect | fallback => trivial
  | raw parts | group _ parts => exact Value.allWorded_iff.mpr hc
  | cast type h => exact ⟨h.worded hc.1, hc.2⟩
  | function name h =>
    refine ⟨hc.1, Fragment.allWorded_iff.mpr fun f hf => ?_⟩
    obtain ⟨v, hv, hstands⟩ := exists_left_of_forall₂ h hf
    exact hstands.worded (hc.2 v hv)
  | filter operator before after hl hr =>
    obtain ⟨hleft, hright, hwords⟩ := hc
    exact ⟨hl.worded hleft, hr.worded hright, hwords⟩
  | projection label h => exact ⟨h.worded hc.1, hc.2⟩
  | union | ownUnion => exact hc
  | join family condition kind ht hl =>
    obtain ⟨htable, hcondition, hkind⟩ := hc
    refine ⟨?_, ht.worded htable, Fragment.worded?_iff.mpr hcondition⟩
    -- An absent direction is replaced by that of the class.
    rcases hkind with rfl | ⟨k, rfl⟩
    · exact ⟨family, rfl⟩
    · exact ⟨k, rfl⟩
  | branch c s o o' => exact hc (.filter c) rfl
  | choice name hi hb hs =>
    refine Branch.allWorded_iff.mpr fun b hmem => ?_
    obtain ⟨v, hv, hbranch⟩ := exists_left_of_forall₂ hb hmem
    exact hc _ hi v hv (.branch b) hbranch
  | asColumn h => exact h.worded hc

end Makes

/-! ### What constructions make in a run -/

section Runs

open Run

variable {invoke : Invoke} {self : Nat} {s s' : Session}

/-- A construction that does not depend on how callbacks are run follows the rules, however they
are. -/
theorem Construction.makes_of_make {c : Construction} {f : Fragment}
    (h : (c.make invoke self).exec s = (.ok f, s'))
    (hc : c.make invoke self = c.make (Callback.run 0) self) :
    ∃ answered, c.Makes s'.supply.Issued answered f := by
  let last : Session := { s' with history := s'.history ++ [.construction c] }
  have hD := Discipline.void_lawful last
  have hasked : Event.construction c ∈ last.history :=
    List.mem_append_right _ (List.mem_singleton_self _)
  have hkeeps : Action.Keeps last Discipline.void.Holds True (c.make (Callback.run 0) self)
      (c.Makes last.supply.Issued (Discipline.void.Answered last)) :=
    Construction.make_keeps hD (Callback.run_sound hD 0) fun _ => hasked
  have hrun : Action.outcome (c.make invoke self) s = (.ok f, s') := h
  obtain ⟨-, hkeep⟩ := hkeeps s
  rw [← hc, hrun] at hkeep
  exact ⟨_, (hkeep trivial ⟨le_refl _, List.prefix_append _ _⟩ (Discipline.void_holds s)).2 f rfl⟩

/-- **What a construction makes of worded parts is worded.** -/
theorem Construction.worded_of_make {c : Construction} {f : Fragment}
    (h : (c.make invoke self).exec s = (.ok f, s')) (hc : c.Worded) : f.Worded := by
  cases c with
  | subSelect callback label options =>
    obtain ⟨l, t, -, h⟩ := exec_bind_eq_ok h
    obtain ⟨answer, u, -, h⟩ := exec_bind_eq_ok h
    cases h
    trivial
  | ownSubSelect callback label =>
    obtain ⟨b, t, -, h⟩ := exec_bind_eq_ok h
    obtain ⟨l, u, -, h⟩ := exec_bind_eq_ok h
    obtain ⟨answer, v, -, h⟩ := exec_bind_eq_ok h
    cases h
    trivial
  | union callbacks modifier options =>
    obtain ⟨items, t, -, h⟩ := exec_bind_eq_ok h
    obtain ⟨members, u, -, h⟩ := exec_bind_eq_ok h
    cases h
    exact hc
  | ownUnion callbacks modifier =>
    obtain ⟨b, t, -, h⟩ := exec_bind_eq_ok h
    obtain ⟨items, u, -, h⟩ := exec_bind_eq_ok h
    obtain ⟨members, v, -, h⟩ := exec_bind_eq_ok h
    cases h
    exact hc
  | _ =>
    obtain ⟨answered, hmakes⟩ := Construction.makes_of_make h rfl
    exact hmakes.worded hc

/-- A construction that returns has made a fragment, or was given it. -/
theorem Construction.worded_of_run {c : Construction} {origin : Origin} {v : Value}
    (h : (c.run invoke self origin).exec s = (.ok v, s')) (hc : c.Worded) :
    ∃ f o, v = .fragment f o ∧ f.Worded := by
  have made : ∀ {t : Session}, (c.make invoke self >>= fun f => Run.note (.fragment f) >>= fun _ =>
      pure (Value.fragment f origin)).exec t = (.ok v, s') →
      ∃ f o, v = .fragment f o ∧ f.Worded := by
    intro t h
    obtain ⟨f, u, hmake, h⟩ := exec_bind_eq_ok h
    cases h
    exact ⟨f, origin, rfl, Construction.worded_of_make hmake hc⟩
  obtain ⟨-, t, -, h⟩ := exec_bind_eq_ok h
  cases c with
  | asColumn given =>
    cases given with
    | fragment f known =>
      cases h
      exact ⟨f, known, rfl, hc f rfl⟩
    | _ => exact made h
  | _ => exact made h

end Runs

end BoundSql

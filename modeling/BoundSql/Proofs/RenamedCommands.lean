import BoundSql.Proofs.RenamedSessions

/-!
# Commands with renamed arguments

A renamed command, given to the builder at the same place of a renamed session, has the renamed
outcome and leaves a renamed session, as long as it binds nothing by hand. Only commands that run no
callback are dealt with here.
-/

set_option autoImplicit false

namespace BoundSql

open Run

variable {ρ : Renaming}

/-- Whether a command brings along values that are bound by hand. -/
def Command.bindsByHand : Command → Bool
  | .fields added | .select added | .compileSelect added => added.any Value.bindsByHand
  | _ => false

theorem Command.Renamed.bindsByHand_eq {k k' : Command} (h : k.Renamed ρ k') :
    k'.bindsByHand = k.bindsByHand := by
  have any : ∀ {vs vs' : List Value}, List.Forall₂ (Value.Renamed ρ) vs vs' →
      vs'.any Value.bindsByHand = vs.any Value.bindsByHand := by
    intro vs vs' h
    induction h with
    | nil => rfl
    | cons hv _ ih => rw [List.any_cons, List.any_cons, hv.bindsByHand_eq, ih]
  cases h with
  | fields h | select h | compileSelect h => exact any h
  | _ => rfl

/-- Whether a command brought along values that are bound by hand. -/
def Session.bindsByHand (s : Session) : Bool :=
  s.history.any fun
    | .command _ k => k.bindsByHand
    | _ => false

theorem Session.plain_of_mem {s : Session} (h : s.bindsByHand = false) {i : Nat} {k : Command}
    (hk : .command i k ∈ s.history) : k.bindsByHand = false :=
  Bool.eq_false_iff.mpr (List.any_eq_false.mp h _ hk)

theorem Session.Renamed.bindsByHand_eq {s s' : Session} (h : s.Renamed ρ s') :
    s'.bindsByHand = s.bindsByHand := by
  have hhistory := h.history
  unfold Session.bindsByHand
  revert hhistory
  generalize s.history = es, s'.history = es'
  intro hhistory
  induction hhistory with
  | nil => rfl
  | cons he _ ih =>
    rw [List.any_cons, List.any_cons, ih]
    cases he with
    | command _ hk => exact congrArg (· || _) hk.bindsByHand_eq
    | _ => rfl

section Steps

variable (self : Nat) {v v' : Value}

theorem setLimit_mirrors (h : v.Renamed ρ v') :
    Mirrors ρ (setLimit self v) (setLimit self v') Eq := by
  refine (Mirrors.builder self).bind fun b b' hb => ?_
  refine (Mirrors.ofExcept hb.properOptions).bind fun o _ ho => ?_
  subst ho
  refine (Mirrors.ofExcept (o.clamp_renamed h)).bind fun limit limit' hl => ?_
  rw [o.isClamped_renamed h]
  refine (Mirrors.ofExcept (.refl (Q := Eq) (fun _ => rfl) _)).bind fun clamped _ hc => ?_
  subst hc
  have set : Mirrors ρ (Run.modifyBuilder self fun b => { b with limit := limit.toOption })
      (Run.modifyBuilder self fun b => { b with limit := limit'.toOption }) Eq :=
    .modifyBuilder self fun _ _ hb => { hb with limit := hl.toOption }
  cases clamped with
  | false => exact set
  | true =>
    refine (Mirrors.keeps _).bind fun kept _ hk => ?_
    subst hk
    cases kept with
    | false => exact set
    | true =>
      rw [h.integerText_eq, hl.integerText_eq]
      refine (Mirrors.ofExcept (.refl (Q := Eq) (fun _ => rfl) _)).bind fun t _ ht => ?_
      refine (Mirrors.ofExcept (.refl (Q := Eq) (fun _ => rfl) _)).bind fun u _ hu => ?_
      subst ht hu
      exact (Mirrors.record _).bind fun _ _ _ => set

theorem runSelect_mirrors {vs vs' : List Value} (h : List.Forall₂ (Value.Renamed ρ) vs vs')
    (hplain : vs.any Value.bindsByHand = false) :
    Mirrors ρ (runSelect self vs) (runSelect self vs') ρ.Texts := by
  have hplain : ∀ v ∈ vs, v.bindsByHand = false := by simpa using hplain
  refine (Mirrors.editBuilder self fun b b' hb => hb.addFields h hplain).bind fun _ _ _ => ?_
  refine (Mirrors.builder self).bind fun b b' hb => ?_
  refine (Mirrors.ofExcept hb.selectText).bind fun _ _ ht => ?_
  rw [hb.length_bindings_eq]
  exact (Mirrors.record _).bind fun _ _ _ => .pure ht

theorem runDelete_mirrors : Mirrors ρ (runDelete self) (runDelete self) ρ.Texts := by
  rw [runDelete_eq]
  refine (Mirrors.builder self).bind fun b b' hb => ?_
  have refusal : Mirrors ρ (if b.filters.isEmpty then Run.record .refusedDelete else pure ())
      (if b.filters.isEmpty then Run.record .refusedDelete else pure ()) Eq := by
    split
    · exact .record _
    · exact .pure rfl
  rw [isEmpty_eq_of_forall₂ hb.filters, hb.length_bindings_eq]
  exact refusal.bind fun _ _ _ => (Mirrors.ofExcept hb.deleteText).bind fun _ _ ht =>
    (Mirrors.record _).bind fun _ _ _ => .pure ht

theorem joinOfArguments_renamed {args args' : List Value}
    (h : List.Forall₂ (Value.Renamed ρ) args args') :
    ρ.Results (Join.Renamed ρ) (joinOfArguments args) (joinOfArguments args') := by
  have many : ∀ (v₁ v₂ v₃ v₄ : Value) (rest : List Value),
      joinOfArguments (v₁ :: v₂ :: v₃ :: v₄ :: rest) = .error .badArguments := by
    intro v₁ v₂ v₃ v₄ rest
    unfold joinOfArguments
    split <;> simp_all
  match h with
  | .nil => exact .fault _
  | .cons h .nil =>
    cases h with
    | fragment h _ =>
      cases h with
      | join h => exact .ok h
      | _ => exact .fault _
    | _ => exact .fault _
  | .cons htable (.cons hcondition .nil) =>
    simp only [joinOfArguments]
    exact Join.make_renamed .plain htable hcondition .null .null
  | .cons htable (.cons hcondition (.cons hlabel .nil)) =>
    simp only [joinOfArguments]
    exact Join.make_renamed .plain htable hcondition hlabel .null
  | .cons _ (.cons _ (.cons _ (.cons _ _))) =>
    rw [many, many]
    exact .fault _

end Steps

/-! ## Comparisons -/

section Filters

open BoundSql.Action

variable {last last' : Supply} {s s' : Session} (self : Nat)

/-- Adds a comparison that is given, or makes one and adds it. -/
theorem addFilter_renamed {given given' : Value} {make make' : Value → Making Filter}
    (hgiven : given.Renamed ρ given')
    (hmake : Renames ρ last last' (Supply.Renamed ρ) True (make given) (make' given')
      (Filter.Renamed ρ))
    (hs : s.Renamed ρ s') (hlast : ((addFilter self given make).exec s).2.supply ≤ last)
    (hlast' : ((addFilter self given' make').exec s').2.supply ≤ last') :
    ρ.Results Eq ((addFilter self given make).exec s).1 ((addFilter self given' make').exec s').1 ∧
      ((addFilter self given make).exec s).2.Renamed ρ
        ((addFilter self given' make').exec s').2 := by
  have push : ∀ {c d : Filter}, c.Renamed ρ d → ∀ {t t' : Session}, t.Renamed ρ t' →
      (t.setBuilder self { t.builder self with filters := (t.builder self).filters ++ [c] }).Renamed
        ρ (t'.setBuilder self
          { t'.builder self with filters := (t'.builder self).filters ++ [d] }) := by
    intro c d hc t t' ht
    have hb := ht.builder self
    exact ht.setBuilder self { hb with filters := List.rel_append hb.filters (.cons hc .nil) }
  by_cases hg : ∃ c origin, given = .fragment (.filter c) origin
  · obtain ⟨c, origin, rfl⟩ := hg
    cases hgiven with
    | fragment h _ =>
      cases h with
      | filter hc => exact ⟨.ok rfl, push hc hs⟩
  · have hg' : ∀ c origin, given' ≠ .fragment (.filter c) origin := by
      rintro c origin rfl
      cases hgiven with
      | fragment h _ =>
        cases h with
        | filter hc => exact hg ⟨_, _, rfl⟩
    have hg : ∀ c origin, given ≠ .fragment (.filter c) origin := fun c o h => hg ⟨c, o, h⟩
    have hmade := (hmake s.supply s'.supply).renames trivial
    rw [exec_addFilter_of_made make s hg] at hlast ⊢
    rw [exec_addFilter_of_made make' s' hg'] at hlast' ⊢
    revert hmade hlast hlast'
    generalize outcome (make given) s.supply = r, outcome (make' given') s'.supply = r'
    obtain ⟨r, t⟩ := r
    obtain ⟨r', t'⟩ := r'
    intro hlast hlast' hmade
    -- Whatever the outcome is, the supply that it leaves is the one in the end.
    have ht : t ≤ last := by cases r <;> exact hlast
    have ht' : t' ≤ last' := by cases r' <;> exact hlast'
    obtain ⟨hr, hsupply⟩ := hmade ht ht' hs.supply
    cases hr with
    | ok hc => exact ⟨.ok rfl, push hc (t := { s with supply := t }) { hs with supply := hsupply }⟩
    | error hf => exact ⟨.error hf, { hs with supply := hsupply }⟩

/-- After a comparison has been added, the builder itself is the answer. -/
theorem addFilter_answer {m m' : Run Unit}
    (h : ρ.Results Eq (m.exec s).1 (m'.exec s').1 ∧ (m.exec s).2.Renamed ρ (m'.exec s').2) :
    ρ.Results (Reply.Renamed ρ) ((m >>= fun _ => pure .builder).exec s).1
        ((m' >>= fun _ => pure .builder).exec s').1 ∧
      ((m >>= fun _ => pure Reply.builder).exec s).2.Renamed ρ
        ((m' >>= fun _ => pure Reply.builder).exec s').2 := by
  rw [Run.exec_bind, Run.exec_bind]
  revert h
  generalize m.exec s = r, m'.exec s' = r'
  obtain ⟨r, t⟩ := r
  obtain ⟨r', t'⟩ := r'
  rintro ⟨hr, ht⟩
  cases hr with
  | ok _ => exact ⟨.ok .builder, ht⟩
  | error hf => exact ⟨.error hf, ht⟩

end Filters

theorem Builder.Renamed.absenceTarget {b b' : Builder} (h : b.Renamed ρ b') {target target' : Value}
    (ht : target.Renamed ρ target') :
    ρ.Results (Value.Renamed ρ) (b.absenceTarget target) (b'.absenceTarget target') := by
  have given : ρ.Results (Value.Renamed ρ) (.ok target) (.ok target') := .ok ht
  cases ht with
  | null => exact h.properOptions.map fun o _ ho => ho ▸ .str o.paranoidColumn
  | _ => exact given

/-! ## Commands -/

/-- **A renamed command has the renamed outcome**, if it binds nothing by hand and runs no
callback. -/
theorem Command.Renamed.run {last last' : Supply} (hρ : ρ.Covers last last') {k k' : Command}
    (h : k.Renamed ρ k') (hk : k.nests = false) (hplain : k.bindsByHand = false) (invoke : Invoke)
    (self : Nat) {s s' : Session} (hs : s.Renamed ρ s')
    (hlast : ((k.run invoke self).exec s).2.supply ≤ last)
    (hlast' : ((k'.run invoke self).exec s').2.supply ≤ last') :
    ρ.Results (Reply.Renamed ρ) ((k.run invoke self).exec s).1 ((k'.run invoke self).exec s').1 ∧
      ((k.run invoke self).exec s).2.Renamed ρ ((k'.run invoke self).exec s').2 := by
  have mirrors : ∀ {m m' : Run Reply}, Mirrors ρ m m' (Reply.Renamed ρ) →
      ρ.Results (Reply.Renamed ρ) (m.exec s).1 (m'.exec s').1 ∧
        (m.exec s).2.Renamed ρ (m'.exec s').2 := fun hm => hm s s' hs
  have edit : ∀ {f f' : Builder → Builder}, (∀ b b', b.Renamed ρ b' → (f b).Renamed ρ (f' b')) →
      Mirrors ρ (Run.modifyBuilder self f >>= fun _ => pure Reply.builder)
        (Run.modifyBuilder self f' >>= fun _ => pure Reply.builder) (Reply.Renamed ρ) := fun hf =>
    (Mirrors.modifyBuilder self hf).bind fun _ _ _ => .pure .builder
  cases h with
  | table h =>
    exact mirrors ((Mirrors.ofExcept h.asColumn).bind fun _ _ hf =>
      edit fun _ _ hb => { hb with table := .some hf })
  | @fields vs vs' h =>
    have hplain : ∀ v ∈ vs, v.bindsByHand = false := by simpa [bindsByHand] using hplain
    exact mirrors ((Mirrors.editBuilder self fun _ _ hb => hb.addFields h hplain).bind
      fun _ _ _ => .pure .builder)
  | filter hleft hright hoperator =>
    simp only [Command.run] at hlast hlast' ⊢
    rw [exec_bind_snd fun _ _ => rfl] at hlast hlast'
    exact addFilter_answer (addFilter_renamed self hleft
      (Filter.make_renames hρ hleft hright hoperator (.str _) (.str _)) hs hlast hlast')
  | join h =>
    exact mirrors ((Mirrors.ofExcept (joinOfArguments_renamed h)).bind fun _ _ hj =>
      edit fun _ _ hb => { hb with joins := List.rel_append hb.joins (.cons hj .nil) })
  | limit h => exact mirrors ((setLimit_mirrors self h).bind fun _ _ _ => .pure .builder)
  | offset h => exact mirrors (edit fun _ _ hb => { hb with offset := h.toOption })
  | order h =>
    exact mirrors (edit fun _ _ hb => { hb with order := List.rel_append hb.order h })
  | groupBy h =>
    exact mirrors (edit fun _ _ hb => { hb with groups := List.rel_append hb.groups h })
  | @paranoid v v' h =>
    have htarget := (hs.builder self).absenceTarget h
    cases ht : (s.builder self).absenceTarget v <;>
      cases ht' : (s'.builder self).absenceTarget v' <;> rw [ht, ht'] at htarget <;> cases htarget
    · rename_i hfault
      rw [exec_paranoid_fault ht, exec_paranoid_fault ht']
      exact ⟨.error hfault, hs⟩
    · rename_i hcolumn
      rw [exec_paranoid ht, exec_bind_snd fun _ _ => rfl] at hlast
      rw [exec_paranoid ht', exec_bind_snd fun _ _ => rfl] at hlast'
      rw [exec_paranoid ht, exec_paranoid ht']
      exact addFilter_answer (addFilter_renamed self hcolumn
        (.ofExcept fun _ => Filter.absent_renamed hcolumn) hs hlast hlast')
  | select h =>
    exact mirrors ((runSelect_mirrors self h hplain).bind fun _ _ ht => .pure (.text ht))
  | delete => exact mirrors ((runDelete_mirrors self).bind fun _ _ ht => .pure (.text ht))
  | compileSelect h =>
    exact mirrors ((runSelect_mirrors self h hplain).bind fun _ _ ht =>
      (Mirrors.builder self).bind fun _ _ hb => .pure (.compiled ht hb.bindings))
  | compileDelete =>
    exact mirrors ((runDelete_mirrors self).bind fun _ _ ht =>
      (Mirrors.builder self).bind fun _ _ hb => .pure (.compiled ht hb.bindings))
  | bindings =>
    exact mirrors ((Mirrors.builder self).bind fun _ _ hb => .pure (.bindings hb.bindings))
  | subSelect _ _ => cases hk
  | union _ _ => cases hk
  | clampLimit h =>
    refine mirrors ((Mirrors.builder self).bind fun b b' hb => ?_)
    refine (Mirrors.ofExcept hb.properOptions).bind fun o _ ho => ?_
    subst ho
    exact (Mirrors.ofExcept (o.clamp_renamed h)).bind fun _ _ hv => .pure (.value hv)
  | options => exact mirrors ((Mirrors.builder self).bind fun _ _ hb => .pure (.value hb.options))

end BoundSql

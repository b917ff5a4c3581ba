import BoundSql.Proofs.Clauses
import BoundSql.Proofs.Rendering

/-!
# What a failing call for fields leaves behind

Fields are added one after the other, each to the builder that the one before it left, and a field
that is a call first takes over the values that it brings along. Nothing is taken back where a field
fails, or where the statement cannot be rendered afterwards. So a call for fields is not all or
nothing: it leaves the fields before the fault in place, and what they and the failing one had
brought along by then (`failed_fields_remain`).

The fields of a call that fails fall into two lists, those that were `taken` and those that are
`left`. The failing field is the first one of the latter (`Builder.StopsAt`), and there is none if
it is the rendering that fails.
-/

set_option autoImplicit false

namespace BoundSql

namespace Builder

/-- The builder after a call that has added the fields in `taken`, and that has taken over what they
and the first one in `left` bring along. -/
def afterFields (taken left : List Value) (b : Builder) : Builder :=
  { b with
    fields := b.fields ++ taken.filterMap Value.asField?
    extra := (taken ++ left.take 1).foldl Value.absorbedInto b.extra }

/-- A call for fields adds those in `taken` and stops at the first one in `left`, which fails. -/
structure StopsAt (b : Builder) (taken left : List Value) (fault : Fault) : Prop where
  taken_added : (b.addFields taken).1 = none
  head_fails : ∃ v ∈ left.head?, ((b.afterFields taken []).addField v).1 = some fault

/-! ## One field -/

/-- Values that are bound by hand are kept up to the one that fails. -/
theorem bindExtra_snd (given : Value) (b : Builder) :
    (b.bindExtra given).2 = { b with
      extra := if given.isTruthy then (Bindings.absorb given b.extra).2 else b.extra } := by
  unfold bindExtra
  split <;> rfl

theorem pushText_fault {v : Value} {b b' : Builder} {fault : Fault}
    (h : b.pushText v = (some fault, b')) (habsorbed : v.absorbedInto b.extra = b.extra) :
    b' = { b with extra := v.absorbedInto b.extra } := by
  rw [habsorbed]
  unfold pushText at h
  split at h
  · cases h
  · cases h
    rfl

/-- **A field that fails is not added**, but the values that it brings along are taken over as far
as they go. -/
theorem addField_fault {v : Value} {b b' : Builder} {fault : Fault}
    (h : b.addField v = (some fault, b')) :
    b' = { b with extra := v.absorbedInto b.extra } := by
  cases v with
  | null | str _ | fragment _ _ => cases h
  | dict entries =>
    cases hcall : Entries.get? callKey entries with
    | none =>
      rw [addField, hcall] at h
      exact pushText_fault h (by simp [Value.absorbedInto, hcall])
    | some call =>
      rw [addField, hcall] at h
      dsimp only at h
      split at h
      · cases h
      · rename_i b₁ hextra
        cases h
        rw [show b' = _ from (congrArg Prod.snd hextra).symm.trans (bindExtra_snd _ b)]
        simp [Value.absorbedInto, hcall]
  | _ => exact pushText_fault h rfl

/-! ## All fields -/

/-- Once the first field is in, the others are added to what it leaves. -/
theorem afterFields_cons {v : Value} {b b₁ : Builder} (h : b.addField v = (none, b₁))
    (taken left : List Value) : b₁.afterFields taken left = b.afterFields (v :: taken) left := by
  rw [addField_eq h]
  unfold afterFields
  cases hv : v.asField? <;> simp [hv]

theorem afterFields_of_addFields {added : List Value} {b b' : Builder}
    (h : b.addFields added = (none, b')) : b' = b.afterFields added [] := by
  rw [addFields_eq h]
  simp [afterFields]

/-- **A call for fields that fails stops at one of them.** -/
theorem addFields_fault {added : List Value} {b b' : Builder} {fault : Fault}
    (h : b.addFields added = (some fault, b')) :
    ∃ taken left, added = taken ++ left ∧ b.StopsAt taken left fault ∧
      b' = b.afterFields taken left := by
  induction added generalizing b with
  | nil => cases h
  | cons v rest ih =>
    unfold addFields at h
    split at h
    · rename_i b₁ hv
      obtain ⟨taken, left, rfl, ⟨htaken, hfails⟩, rfl⟩ := ih h
      refine ⟨v :: taken, left, rfl, ⟨?_, ?_⟩, afterFields_cons hv taken left⟩
      · simpa only [addFields, hv] using htaken
      · rwa [afterFields_cons hv] at hfails
    · rename_i b₁ hv
      cases h
      refine ⟨[], v :: rest, rfl, ⟨rfl, v, rfl, ?_⟩, ?_⟩
      · simp [afterFields, hv]
      · rw [addField_fault hv]
        simp [afterFields]

/-- Fields show in the builder unless none of them shows at all. -/
theorem fields_afterFields_eq_iff (taken left : List Value) (b : Builder) :
    (b.afterFields taken left).fields = b.fields ↔ ∀ v ∈ taken, v.asField? = none := by
  simp [afterFields]

end Builder

/-! ## Calls -/

/-- Whether a command adds fields. -/
def Command.addsFields : Command → Bool
  | .fields _ | .select _ | .compileSelect _ => true
  | _ => false

section Calls

open Session

variable {invoke : Invoke} {i : Nat} {k : Command} {s s' : Session} {fault : Fault}

/-- Rendering rows fails at a field, or else after all fields have been added. -/
theorem builder_of_runSelect_fault {added : List Value} (hi : i < s.builders.length)
    (h : (runSelect i added).exec s = (.error fault, s')) :
    s'.builder i = ((s.builder i).addFields added).2 ∧
      (((s.builder i).addFields added).1 = some fault ∨
        ((s.builder i).addFields added).1 = none ∧ (s'.builder i).selectText = .error fault) := by
  rw [exec_runSelect] at h
  dsimp only at h
  split at h
  · rename_i hadd
    cases h
    exact ⟨builder_setBuilder_self hi _, .inl hadd⟩
  · rename_i hadd hsql
    cases h
    exact ⟨builder_setBuilder_self hi _, .inr ⟨hadd, hsql⟩⟩
  · cases h

/-- The same for each command that adds fields. Only one that renders can fail after that. -/
theorem Command.builder_of_fault (hk : k.addsFields = true) (hi : i < s.builders.length)
    (h : (k.run invoke i).exec s = (.error fault, s')) :
    s'.builder i = ((s.builder i).addFields k.fieldsGiven).2 ∧
      (((s.builder i).addFields k.fieldsGiven).1 = some fault ∨
        ((s.builder i).addFields k.fieldsGiven).1 = none ∧ k.selects = true ∧
          (s'.builder i).selectText = .error fault) := by
  cases k with
  | fields added =>
    obtain h | ⟨-, s₁, -, h⟩ := Run.exec_bind_eq_error h
    · rw [Run.exec_editBuilder] at h
      cases hadd : ((s.builder i).addFields added).1 with
      | none =>
        rw [hadd] at h
        cases h
      | some fault' =>
        rw [hadd] at h
        cases h
        exact ⟨builder_setBuilder_self hi _, .inl hadd⟩
    · cases h
  | select added =>
    obtain h | ⟨sql, s₁, -, h⟩ := Run.exec_bind_eq_error h
    · obtain ⟨hb, hfault⟩ := builder_of_runSelect_fault hi h
      exact ⟨hb, hfault.imp_right fun ⟨hadd, hsql⟩ => ⟨hadd, rfl, hsql⟩⟩
    · cases h
  | compileSelect added =>
    obtain h | ⟨sql, s₁, -, h⟩ := Run.exec_bind_eq_error h
    · obtain ⟨hb, hfault⟩ := builder_of_runSelect_fault hi h
      exact ⟨hb, hfault.imp_right fun ⟨hadd, hsql⟩ => ⟨hadd, rfl, hsql⟩⟩
    · cases h
  | _ => cases hk

/-- What is left of a failing call for fields, and where it failed. -/
theorem Command.afterFields_of_fault (hk : k.addsFields = true) (hi : i < s.builders.length)
    (h : (k.run invoke i).exec s = (.error fault, s')) :
    ∃ taken left, k.fieldsGiven = taken ++ left ∧
      s'.builder i = (s.builder i).afterFields taken left ∧
      ((s.builder i).StopsAt taken left fault ∨
        left = [] ∧ ((s.builder i).addFields taken).1 = none ∧ k.selects = true ∧
          (s'.builder i).selectText = .error fault) := by
  obtain ⟨hb, hstop | ⟨hadd, hselects, hsql⟩⟩ := k.builder_of_fault hk hi h
  · obtain ⟨taken, left, hgiven, hstops, hafter⟩ := Builder.addFields_fault (Prod.ext hstop rfl)
    exact ⟨taken, left, hgiven, hb.trans hafter, .inl hstops⟩
  · refine ⟨k.fieldsGiven, [], (List.append_nil _).symm, ?_, .inr ⟨rfl, hadd, hselects, hsql⟩⟩
    exact hb.trans (Builder.afterFields_of_addFields (Prod.ext hadd rfl))

/-- **What a failing call for fields leaves behind.** The fields before the one that fails have been
added for good, with all that they bring along, and with what the failing one brings along as far as
it could be taken over. All of them have been added where it is the rendering that fails. The fields
and the values bound by hand are as before if and only if no field that was taken shows and nothing
new was taken over. The other slots are as before in any case. -/
theorem failed_fields_remain (hk : k.addsFields = true) (hi : i < s.builders.length)
    (h : (k.runNoted invoke i).exec s = (.error fault, s')) :
    ∃ taken left, k.fieldsGiven = taken ++ left ∧
      s'.builder i = { s.builder i with
        fields := (s.builder i).fields ++ taken.filterMap Value.asField?
        extra := (taken ++ left.take 1).foldl Value.absorbedInto (s.builder i).extra } ∧
      ((s.builder i).StopsAt taken left fault ∨
        left = [] ∧ ((s.builder i).addFields taken).1 = none ∧ k.selects = true ∧
          (s'.builder i).selectText = .error fault) ∧
      ((s'.builder i).fields = (s.builder i).fields ∧ (s'.builder i).extra = (s.builder i).extra ↔
        (∀ v ∈ taken, v.asField? = none) ∧
          (taken ++ left.take 1).foldl Value.absorbedInto (s.builder i).extra =
            (s.builder i).extra) := by
  have hnoted : Session.builder { s with history := s.history ++ [.command i k] } i = s.builder i :=
    rfl
  obtain ⟨taken, left, hgiven, hb, hfault⟩ := Command.afterFields_of_fault
    (s := { s with history := s.history ++ [.command i k] }) hk hi h
  rw [hnoted] at hb hfault
  refine ⟨taken, left, hgiven, hb, hfault, ?_⟩
  rw [hb]
  exact and_congr_left' (Builder.fields_afterFields_eq_iff taken left (s.builder i))

/-- A session with nothing but a new builder. -/
def newSession : Session := .start Supply.counting .warning (.options .default)

/-- A column, and a comparison whose operator is no text, so that it cannot be rendered. -/
def comparedByNumber : Command :=
  .select [.str "a", .fragment (.filter ⟨.column "x", some .null, .int 5, .str "", .str ""⟩) []]

/-- The rendering fails, and both fields stay. -/
theorem failed_fields_remain_unrendered :
    ∃ s', (comparedByNumber.runNoted (Callback.run 0) 0).exec newSession = (.error .notText, s') ∧
      (s'.builder 0).fields = comparedByNumber.fieldsGiven.filterMap Value.asField? ∧
      (s'.builder 0).selectText = .error .notText := by
  have hrun : (comparedByNumber.runNoted (Callback.run 0) 0).exec newSession =
      (.error .notText, ((comparedByNumber.runNoted (Callback.run 0) 0).exec newSession).2) := rfl
  obtain ⟨taken, left, hgiven, hb, hstop | ⟨rfl, -, -, hsql⟩, -⟩ :=
    failed_fields_remain (by decide) (by decide) hrun
  · -- Neither of the two fields fails by itself.
    obtain ⟨v, hv, hfails⟩ := hstop.head_fails
    have hmem : v ∈ comparedByNumber.fieldsGiven := by
      rw [hgiven]
      exact List.mem_append_right _ (List.mem_of_mem_head? hv)
    obtain rfl | rfl : v = _ ∨ v = _ := by simpa [comparedByNumber] using hmem
    all_goals cases hfails
  · refine ⟨_, hrun, ?_, hsql⟩
    rw [hb, hgiven, List.append_nil]
    rfl

/-- A column, and a call whose values bound by hand are no map. -/
def columnAndFaultyCall : Command :=
  .fields [.str "a", .dict [(Builder.callKey, .fragment (.raw [.str "f()"]) []),
    (Builder.replacementsKey, .int 5)]]

/-- Calls for fields are not all or nothing: the column stays although the call fails. -/
theorem fields_not_all_or_nothing :
    ¬ ∀ (k : Command) (s s' : Session) (fault : Fault), k.addsFields = true →
      0 < s.builders.length → (k.runNoted (Callback.run 0) 0).exec s = (.error fault, s') →
      (s'.builder 0).fields = (s.builder 0).fields ∧ (s'.builder 0).extra = (s.builder 0).extra := by
  intro h
  have hfields := (h columnAndFaultyCall newSession _ .notIterable rfl Nat.zero_lt_one rfl).1
  exact absurd (congrArg List.length hfields) (by decide)

end Calls

end BoundSql

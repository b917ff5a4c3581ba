import BoundSql.Options.Validation
import BoundSql.Proofs.RenamedMaking

/-!
# Builders in which names are replaced

A renamed builder renders the renamed text and has bound the renamed values, and a field that is
added to it is added renamed. Nothing is bound by hand in it: a name that somebody wrote is no name
of the renaming, and stays as it is, so it may well be one of the names that take the places of
others. Whether a field would bind values by hand can be seen at the field
(`Value.bindsByHand`).

Options come out the same from a renamed map, or the same is wrong with them. Only a key that is a
fragment is shown by its text, and this text is renamed.
-/

set_option autoImplicit false

namespace BoundSql

variable {ρ : Renaming}

/-! ## Maps with any keys -/

namespace Value

variable {k k' v v' : Value} {es es' : Bindings}

theorem get?_renamed (hk : k.Renamed ρ k') (h : List.Forall₂ (RenamedEntry ρ) es es') :
    Option.Rel (Value.Renamed ρ) (Entries.get? k es) (Entries.get? k' es') := by
  induction h with
  | nil => exact .none
  | cons he _ ih =>
    cases he with
    | mk hj hv =>
      unfold Entries.get?
      rw [hj.beq_eq hk]
      split
      · exact .some hv
      · exact ih

theorem insert_renamed (hk : k.Renamed ρ k') (hv : v.Renamed ρ v')
    (h : List.Forall₂ (RenamedEntry ρ) es es') :
    List.Forall₂ (RenamedEntry ρ) (Entries.insert k v es) (Entries.insert k' v' es') := by
  induction h with
  | nil => exact .cons (.mk hk hv) .nil
  | cons he hrest ih =>
    cases he with
    | mk hj hw =>
      unfold Entries.insert
      rw [hj.beq_eq hk]
      split
      · exact .cons (.mk hj hv) hrest
      · exact .cons (.mk hj hw) ih

theorem merge_renamed {fs fs' : Bindings} (hf : List.Forall₂ (RenamedEntry ρ) fs fs')
    (h : List.Forall₂ (RenamedEntry ρ) es es') :
    List.Forall₂ (RenamedEntry ρ) (Entries.merge fs es) (Entries.merge fs' es') := by
  induction h generalizing fs fs' with
  | nil => exact hf
  | cons he _ ih =>
    cases he with
    | mk hk hv => exact ih (insert_renamed hk hv hf)

end Value

namespace Bindings

theorem entry_renamed {v v' : Value} (h : v.Renamed ρ v') :
    ρ.Results (Value.RenamedEntry ρ) (entry v) (entry v') := by
  refine h.items.bind fun _ _ hitems => ?_
  cases hitems with
  | nil => exact .fault _
  | cons hk hrest =>
    cases hrest with
    | nil => exact .fault _
    | cons hx hrest =>
      cases hrest with
      | cons _ _ => exact .fault _
      | nil =>
        dsimp only
        rw [hk.isKey_eq]
        split
        · exact .ok (.mk hk hx)
        · exact .fault _

/-- What has been taken over from two values, and the faults if they cannot be taken over whole. -/
structure RenamedAbsorbed (ρ : Renaming) (r r' : Option Fault × Bindings) : Prop where
  fault : Option.Rel (Fault.Renamed ρ) r.1 r'.1
  entries : List.Forall₂ (Value.RenamedEntry ρ) r.2 r'.2

theorem absorbPairs_renamed {vs vs' : List Value} (h : List.Forall₂ (Value.Renamed ρ) vs vs')
    {acc acc' : Bindings} (hacc : List.Forall₂ (Value.RenamedEntry ρ) acc acc') :
    RenamedAbsorbed ρ (absorbPairs vs acc) (absorbPairs vs' acc') := by
  induction h generalizing acc acc' with
  | nil => exact ⟨.none, hacc⟩
  | cons hv _ ih =>
    have hentry := entry_renamed hv
    unfold absorbPairs
    revert hentry
    generalize entry _ = r, entry _ = r'
    intro hentry
    cases hentry with
    | ok he =>
      cases he with
      | mk hk hx => exact ih (Value.insert_renamed hk hx hacc)
    | error hf => exact ⟨.some hf, hacc⟩

theorem absorb_renamed {v v' : Value} (h : v.Renamed ρ v') {acc acc' : Bindings}
    (hacc : List.Forall₂ (Value.RenamedEntry ρ) acc acc') :
    RenamedAbsorbed ρ (absorb v acc) (absorb v' acc') := by
  -- All but maps are taken over item by item.
  have sequence : (∀ es, v ≠ .dict es) → (∀ es, v' ≠ .dict es) →
      RenamedAbsorbed ρ (absorb v acc) (absorb v' acc') := by
    intro hv hv'
    have hitems := h.items
    generalize hr : v.items = r, hr' : v'.items = r' at hitems
    cases hitems with
    | ok hvs =>
      rw [absorb_of_items hv hr, absorb_of_items hv' hr']
      exact absorbPairs_renamed hvs hacc
    | error hf =>
      rw [absorb_of_fault hv hr, absorb_of_fault hv' hr']
      exact ⟨.some hf, hacc⟩
  cases h with
  | dict h => exact ⟨.none, Value.merge_renamed hacc h⟩
  | _ => exact sequence nofun nofun

theorem ofValue_renamed {v v' : Value} (h : v.Renamed ρ v') :
    ρ.Results (List.Forall₂ (Value.RenamedEntry ρ)) (ofValue v) (ofValue v') := by
  have habsorbed := absorb_renamed h .nil
  unfold ofValue
  revert habsorbed
  generalize absorb v [] = r, absorb v' [] = r'
  obtain ⟨fault, b⟩ := r
  obtain ⟨fault', b'⟩ := r'
  rintro ⟨hfault, hentries⟩
  cases hfault with
  | none => exact .ok hentries
  | some hf => exact .error hf

end Bindings

/-! ## Options -/

namespace Options

variable {v v' : Value}

theorem limitRule_renamed (h : v.Renamed ρ v') : limitRule v' = limitRule v := by
  cases h <;> rfl

theorem columnRule_renamed (h : v.Renamed ρ v') : columnRule v' = columnRule v := by
  cases h <;> rfl

theorem option_renamed {α : Type} (name : String) {rule : Value → Except IssueCause α}
    (hrule : ∀ {v v' : Value}, v.Renamed ρ v' → rule v' = rule v) (default : α)
    {data data' : Bindings} (h : List.Forall₂ (Value.RenamedEntry ρ) data data') :
    option name rule default data' = option name rule default data := by
  have hget := Value.get?_renamed (.str name) h
  unfold option
  revert hget
  generalize Entries.get? _ data = x, Entries.get? _ data' = x'
  intro hget
  cases hget with
  | none => rfl
  | some hv => exact congrArg (Except.mapError _) (hrule hv)

/-- A key that is a fragment is shown by its text. -/
theorem keyText_renamed (h : v.Renamed ρ v') : ρ.Texts (keyText v) (keyText v') := by
  have shown : ρ.Texts (v.quoted.toOption.getD ("<unprintable " ++ v.typeName ++ " object>"))
      (v'.quoted.toOption.getD ("<unprintable " ++ v'.typeName ++ " object>")) := by
    have hquoted : ρ.Results ρ.Texts v.quoted v'.quoted := h.render .quoted
    rw [h.typeName_eq]
    revert hquoted
    generalize v.quoted = r, v'.quoted = r'
    intro hquoted
    cases hquoted with
    | ok ht => exact ht
    | error _ => exact .refl _
  cases h with
  | bool b => exact .refl _
  | _ => exact shown

theorem keyIssue?_renamed (h : v.Renamed ρ v') :
    Option.Rel (Issue.Renamed ρ) (keyIssue? v) (keyIssue? v') := by
  have notText : Option.Rel (Issue.Renamed ρ) (some ⟨some (keyText v), .keyNotText⟩)
      (some ⟨some (keyText v'), .keyNotText⟩) := .some ⟨rfl, .some (keyText_renamed h)⟩
  cases h with
  | str s =>
    cases keyIssue? (.str s) with
    | none => exact .none
    | some issue => exact .some (.refl issue)
  | _ => exact notText

theorem keyIssues_renamed {data data' : Bindings}
    (h : List.Forall₂ (Value.RenamedEntry ρ) data data') :
    List.Forall₂ (Issue.Renamed ρ) (data.filterMap fun e => keyIssue? e.1)
      (data'.filterMap fun e => keyIssue? e.1) := by
  induction h with
  | nil => exact .nil
  | cons he _ ih =>
    have hissue := keyIssue?_renamed he.key
    rw [List.filterMap_cons, List.filterMap_cons]
    revert hissue
    generalize keyIssue? _ = x, keyIssue? _ = x'
    intro hissue
    cases hissue with
    | none => exact ih
    | some hissue => exact .cons hissue ih

theorem validate_renamed {data data' : Bindings}
    (h : List.Forall₂ (Value.RenamedEntry ρ) data data') :
    ρ.Results Eq ((validate data).mapError .badOptions)
      ((validate data').mapError .badOptions) := by
  have hkeys := keyIssues_renamed h
  unfold validate
  rw [option_renamed _ columnRule_renamed _ h, option_renamed _ limitRule_renamed _ h,
    option_renamed _ limitRule_renamed _ h]
  revert hkeys
  generalize (data.filterMap fun e => keyIssue? e.1) = keys,
    (data'.filterMap fun e => keyIssue? e.1) = keys'
  intro hkeys
  have failing : ∀ issues : List Issue, Fault.Renamed ρ (.badOptions (issues ++ keys))
      (.badOptions (issues ++ keys')) := fun issues =>
    .badOptions (List.rel_append (List.forall₂_same.mpr fun x _ => .refl x) hkeys)
  cases option "paranoid_column" columnRule default.paranoidColumn data with
  | error issue => exact .error (failing _)
  | ok column =>
    cases option "default_limit" limitRule default.defaultLimit data with
    | error issue => exact .error (failing _)
    | ok defaultLimit =>
      cases option "max_limit" limitRule default.maxLimit data with
      | error issue => exact .error (failing _)
      | ok maxLimit =>
        cases hkeys with
        | nil => exact .refl (fun _ => rfl) _
        | cons _ _ => exact .error (failing _)

/-- **A renamed map describes the same options**, or the same is wrong with it. -/
theorem ofValue_renamed (h : v.Renamed ρ v') : ρ.Results Eq (ofValue v) (ofValue v') :=
  (Bindings.ofValue_renamed h).bind fun _ _ => validate_renamed

/-! ### The greatest limit -/

theorem clamp_renamed (o : Options) (h : v.Renamed ρ v') :
    ρ.Results (Value.Renamed ρ) (o.clamp v) (o.clamp v') := by
  have hexceeds : ∀ n, v'.exceeds n = v.exceeds n := by
    intro n
    cases h <;> rfl
  unfold clamp
  cases o.maxLimit with
  | none => exact .ok h
  | some max =>
    dsimp only
    rw [hexceeds]
    cases v.exceeds max with
    | error fault => exact .fault fault
    | ok above =>
      cases above with
      | false => exact .ok h
      | true => exact .ok (.int _)

theorem isClamped_renamed (o : Options) (h : v.Renamed ρ v') : o.isClamped v' = o.isClamped v := by
  obtain ⟨_, _, maxLimit⟩ := o
  cases maxLimit <;> cases h <;> rfl

end Options

theorem Value.Renamed.integerText_eq {v v' : Value} (h : v.Renamed ρ v') :
    v'.integerText = v.integerText := by
  cases h <;> rfl

/-! ## Builders -/

/-- Two builders, the second renamed. -/
structure Builder.Renamed (ρ : Renaming) (b b' : Builder) : Prop where
  options : b.options.Renamed ρ b'.options
  table : Option.Rel (Fragment.Renamed ρ) b.table b'.table
  fields : List.Forall₂ (Value.Written ρ) b.fields b'.fields
  joins : List.Forall₂ (Join.Renamed ρ) b.joins b'.joins
  filters : List.Forall₂ (Filter.Renamed ρ) b.filters b'.filters
  groups : List.Forall₂ (Value.Renamed ρ) b.groups b'.groups
  order : List.Forall₂ (Value.Renamed ρ) b.order b'.order
  limit : Option.Rel (Value.Renamed ρ) b.limit b'.limit
  offset : Option.Rel (Value.Renamed ρ) b.offset b'.offset
  extra : Bindings.Renamed ρ b.extra b'.extra

theorem Value.Written.render {v v' : Value} (h : v.Written ρ v') :
    ρ.Results ρ.Texts (v.render .bare) (v'.render .bare) := by
  cases h with
  | value h => exact h.render .bare
  | text h => exact .ok h

theorem Value.textJoined_renamed (separator : String) {items items' : List Value}
    (h : List.Forall₂ (Value.Written ρ) items items') :
    ρ.Results ρ.Texts (textJoined separator items) (textJoined separator items') := by
  unfold textJoined
  rw [renderAll_eq_mapM, renderAll_eq_mapM]
  exact (Renaming.Results.mapM h fun _ _ => Written.render).bind fun _ _ hts =>
    .ok (.separated separator hts)

namespace Builder

theorem Renamed.empty {options options' : Value} (h : options.Renamed ρ options') :
    (Builder.empty options).Renamed ρ (.empty options') :=
  ⟨h, .none, .nil, .nil, .nil, .nil, .nil, .none, .none, .nil⟩

/-! ### Texts -/

theorem listClause_renamed (keyword : String) {items items' : List Value}
    (h : List.Forall₂ (Value.Renamed ρ) items items') :
    ρ.Results ρ.Texts (listClause keyword items) (listClause keyword items') := by
  unfold listClause
  rw [isEmpty_eq_of_forall₂ h]
  split
  · exact .ok (.refl "")
  · exact (Value.textJoined_renamed ", " (h.imp fun _ _ => .value)).bind fun _ _ ht =>
      .ok ((Renaming.Texts.refl _).append ht)

theorem valueClause_renamed (keyword : String) {v v' : Option Value}
    (h : Option.Rel (Value.Renamed ρ) v v') :
    ρ.Results ρ.Texts (valueClause keyword v) (valueClause keyword v') := by
  cases h with
  | none => exact .ok (.refl "")
  | some h => exact (h.render .bare).bind fun _ _ ht => .ok ((Renaming.Texts.refl _).append ht)

theorem assemble_renamed {ss ts : List String} (h : List.Forall₂ ρ.Texts ss ts) :
    ρ.Texts (assemble ss) (assemble ts) :=
  (Renaming.Texts.joinWords h).trim

namespace Renamed

variable {b b' : Builder} (h : b.Renamed ρ b')

include h

theorem properOptions : ρ.Results Eq b.properOptions b'.properOptions := by
  have hoptions := h.options
  unfold Builder.properOptions
  revert hoptions
  generalize b.options = v, b'.options = v'
  intro hoptions
  cases hoptions with
  | options o => exact .ok rfl
  | _ => exact .fault _

theorem fieldsText : ρ.Results ρ.Texts b.fieldsText b'.fieldsText := by
  unfold Builder.fieldsText
  rw [isEmpty_eq_of_forall₂ h.fields]
  split
  · exact .ok (.refl _)
  · exact Value.textJoined_renamed ", " h.fields

theorem tableClause : ρ.Results ρ.Texts b.tableClause b'.tableClause := by
  have htable := h.table
  unfold Builder.tableClause
  revert htable
  generalize b.table = f, b'.table = f'
  intro htable
  cases htable with
  | none => exact .ok (.refl "")
  | some hf => exact hf.text.bind fun _ _ ht => .ok ((Renaming.Texts.refl _).append ht)

theorem joinsClause : ρ.Results ρ.Texts b.joinsClause b'.joinsClause :=
  (Renaming.Results.mapM h.joins fun _ _ => Join.Renamed.text).bind fun _ _ hts =>
    .ok (.separated " " hts)

theorem conditionText : ρ.Results ρ.Texts b.conditionText b'.conditionText :=
  (Renaming.Results.mapM h.filters fun _ _ => Filter.Renamed.text).bind fun _ _ hts =>
    .ok (Connective.joined_renamed .and hts)

theorem filterClause : ρ.Results ρ.Texts b.filterClause b'.filterClause := by
  unfold Builder.filterClause
  rw [isEmpty_eq_of_forall₂ h.filters]
  split
  · exact .ok (.refl "")
  · exact h.conditionText.bind fun _ _ ht => .ok ((Renaming.Texts.refl _).append ht)

theorem effectiveLimit :
    ρ.Results (Option.Rel (Value.Renamed ρ)) b.effectiveLimit b'.effectiveLimit := by
  have hlimit := h.limit
  unfold Builder.effectiveLimit
  revert hlimit
  generalize b.limit = v, b'.limit = v'
  intro hlimit
  cases hlimit with
  | some hv => exact .ok (.some hv)
  | none =>
    refine h.properOptions.bind fun o _ ho => ?_
    subst ho
    obtain ⟨_, defaultLimit, _⟩ := o
    cases defaultLimit with
    | none => exact .ok .none
    | some n => exact .ok (.some (.int n))

/-- **A renamed builder renders the renamed statement.** -/
theorem selectText : ρ.Results ρ.Texts b.selectText b'.selectText := by
  refine Renaming.Results.map (Q := List.Forall₂ ρ.Texts) ?_ fun _ _ => assemble_renamed
  refine h.effectiveLimit.bind fun _ _ hlimit => h.fieldsText.bind fun _ _ hfields =>
    h.tableClause.bind fun _ _ htable => h.joinsClause.bind fun _ _ hjoins =>
      h.filterClause.bind fun _ _ hfilter => (listClause_renamed _ h.groups).bind
        fun _ _ hgroups => (listClause_renamed _ h.order).bind fun _ _ horder =>
          (valueClause_renamed _ hlimit).bind fun _ _ hlimit =>
            (valueClause_renamed _ h.offset).bind fun _ _ hoffset => .ok ?_
  exact .cons (.refl _) (.cons hfields (.cons htable (.cons hjoins (.cons hfilter (.cons hgroups
    (.cons horder (.cons hlimit (.cons hoffset .nil))))))))

theorem deleteText : ρ.Results ρ.Texts b.deleteText b'.deleteText := by
  unfold Builder.deleteText
  rw [isEmpty_eq_of_forall₂ h.filters]
  split
  · exact .fault _
  · exact h.tableClause.bind fun _ _ htable => h.filterClause.bind fun _ _ hfilter =>
      .ok (assemble_renamed (.cons (.refl _) (.cons htable (.cons hfilter .nil))))

/-! ### Maps -/

/-- **What a renamed builder has bound is renamed in its names**, in the same order. -/
theorem bindings : Bindings.Renamed ρ b.bindings b'.bindings := by
  have written : ∀ {v v' : Value}, v.Written ρ v' →
      Bindings.Renamed ρ v.bindings v'.bindings := by
    intro v v' hv
    cases hv with
    | value hv => exact hv.bindings
    | text _ => exact .nil
  have items : ∀ {vs vs' : List Value}, List.Forall₂ (Value.Written ρ) vs vs' →
      Bindings.Renamed ρ (Value.bindingsOf vs) (Value.bindingsOf vs') := by
    intro vs vs' hvs
    unfold Value.bindingsOf
    rw [Value.bindingsEach_eq_map, Value.bindingsEach_eq_map]
    refine Bindings.mergeAll_renamed (List.forall₂_map_left_iff.mpr
      (List.forall₂_map_right_iff.mpr ?_))
    exact hvs.imp fun _ _ => written
  have values : ∀ {vs vs' : List Value}, List.Forall₂ (Value.Renamed ρ) vs vs' →
      Bindings.Renamed ρ (Value.bindingsOf vs) (Value.bindingsOf vs') := fun hvs =>
    items (hvs.imp fun _ _ => .value)
  have joins : Bindings.Renamed ρ (Entries.mergeAll (b.joins.map Join.bindings))
      (Entries.mergeAll (b'.joins.map Join.bindings)) := by
    refine Bindings.mergeAll_renamed (List.forall₂_map_left_iff.mpr
      (List.forall₂_map_right_iff.mpr ?_))
    exact h.joins.imp fun _ _ => Join.Renamed.bindings
  have filters : Bindings.Renamed ρ (Entries.mergeAll (b.filters.map Filter.bindings))
      (Entries.mergeAll (b'.filters.map Filter.bindings)) := by
    refine Bindings.mergeAll_renamed (List.forall₂_map_left_iff.mpr
      (List.forall₂_map_right_iff.mpr ?_))
    exact h.filters.imp fun _ _ => Filter.Renamed.bindings
  exact Bindings.mergeAll_renamed (.cons h.extra (.cons (Fragment.bindings?_renamed h.table)
    (.cons (items h.fields) (.cons joins (.cons filters (.cons (values h.order)
      (.cons (values h.groups) .nil)))))))

theorem length_bindings_eq : b'.bindings.length = b.bindings.length :=
  (List.Forall₂.length_eq h.bindings).symm

/-! ### Fields -/

theorem pushField {v v' : Value} (hv : v.Written ρ v') :
    (b.pushField v).Renamed ρ (b'.pushField v') :=
  { h with fields := List.rel_append h.fields (.cons hv .nil) }

theorem pushField? {v v' : Value} (hv : v.Renamed ρ v') :
    (b.pushField? v).Renamed ρ (b'.pushField? v') := by
  have hpushed := h.pushField (.value hv)
  cases hv with
  | null => exact h
  | _ => exact hpushed

end Renamed

/-- What a field has made of a builder, and the fault if it could not be added. -/
structure RenamedEdit (ρ : Renaming) (r r' : Option Fault × Builder) : Prop where
  fault : Option.Rel (Fault.Renamed ρ) r.1 r'.1
  builder : r.2.Renamed ρ r'.2

end Builder

/-- Whether a value, added as a field, brings along values that are bound by hand. -/
def Value.bindsByHand : Value → Bool
  | .dict entries => (Entries.get? Builder.callKey entries).isSome &&
      ((Entries.get? Builder.replacementsKey entries).getD .null).isTruthy
  | _ => false

theorem Builder.callKey_renamed : callKey.Renamed ρ callKey := .str _

theorem Builder.replacementsKey_renamed : replacementsKey.Renamed ρ replacementsKey := .str _

open Builder in
theorem Value.Renamed.bindsByHand_eq {v v' : Value} (h : v.Renamed ρ v') :
    v'.bindsByHand = v.bindsByHand := by
  cases h with
  | @dict es es' hes =>
    have hcall : (Entries.get? Builder.callKey es').isSome =
        (Entries.get? Builder.callKey es).isSome := by
      have hget := get?_renamed (callKey_renamed (ρ := ρ)) hes
      cases hcall : Entries.get? Builder.callKey es <;> rw [hcall] at hget
      · rw [eq_none_of_rel hget]
      · obtain ⟨_, hcall', -⟩ := exists_of_rel_some hget
        rw [hcall']
        rfl
    have hgiven : ((Entries.get? Builder.replacementsKey es').getD .null).isTruthy =
        ((Entries.get? Builder.replacementsKey es).getD .null).isTruthy := by
      have hget := get?_renamed (replacementsKey_renamed (ρ := ρ)) hes
      cases hgiven : Entries.get? Builder.replacementsKey es <;> rw [hgiven] at hget
      · rw [eq_none_of_rel hget]
      · obtain ⟨_, hgiven', hv⟩ := exists_of_rel_some hget
        rw [hgiven']
        exact hv.isTruthy_eq
    exact congrArg₂ (· && ·) hcall hgiven
  | _ => rfl

/-- A call that binds nothing by hand is added like its text. -/
theorem Builder.addField_call {es : Bindings} {call : Value}
    (hcall : Entries.get? callKey es = some call) (hplain : (Value.dict es).bindsByHand = false)
    (b : Builder) : b.addField (.dict es) = (none, b.pushField? call) := by
  have hgiven : ((Entries.get? replacementsKey es).getD .null).isTruthy = false := by
    simpa [Value.bindsByHand, hcall] using hplain
  rw [addField, hcall]
  simp only [bindExtra, hgiven, Bool.false_eq_true, if_false]

namespace Builder.Renamed

variable {b b' : Builder}

theorem pushText (h : b.Renamed ρ b') {v v' : Value} (hv : v.Renamed ρ v') :
    RenamedEdit ρ (b.pushText v) (b'.pushText v') := by
  have htext : ρ.Results ρ.Texts v.text v'.text := hv.render .bare
  unfold Builder.pushText
  revert htext
  generalize v.text = r, v'.text = r'
  intro htext
  cases htext with
  | ok ht => exact ⟨.none, h.pushField (.text ht)⟩
  | error hf => exact ⟨.some hf, h⟩

/-- **A renamed field is added renamed**, if it binds nothing by hand. -/
theorem addField (h : b.Renamed ρ b') {v v' : Value} (hv : v.Renamed ρ v')
    (hplain : v.bindsByHand = false) : RenamedEdit ρ (b.addField v) (b'.addField v') := by
  have hplain' : v'.bindsByHand = false := by rw [hv.bindsByHand_eq, hplain]
  have text := h.pushText hv
  cases hv with
  | null => exact ⟨.none, h⟩
  | str s => exact ⟨.none, h.pushField (.value (.str _))⟩
  | fragment hf origin => exact ⟨.none, h.pushField (.value (.fragment hf origin))⟩
  | dict hes =>
    rename_i es es'
    have hget := Value.get?_renamed (callKey_renamed (ρ := ρ)) hes
    cases hcall : Entries.get? callKey es <;> rw [hcall] at hget
    · rw [Builder.addField, Builder.addField, hcall, eq_none_of_rel hget]
      exact text
    · obtain ⟨call', hcall', hc⟩ := exists_of_rel_some hget
      rw [addField_call hcall hplain, addField_call hcall' hplain']
      exact ⟨.none, h.pushField? hc⟩
  | _ => exact text

theorem addFields (h : b.Renamed ρ b') {vs vs' : List Value}
    (hvs : List.Forall₂ (Value.Renamed ρ) vs vs') (hplain : ∀ v ∈ vs, v.bindsByHand = false) :
    RenamedEdit ρ (b.addFields vs) (b'.addFields vs') := by
  induction hvs generalizing b b' with
  | nil => exact ⟨.none, h⟩
  | cons hv _ ih =>
    obtain ⟨hfirst, hrest⟩ := List.forall_mem_cons.mp hplain
    have hstep := h.addField hv hfirst
    unfold Builder.addFields
    revert hstep
    generalize b.addField _ = r, b'.addField _ = r'
    obtain ⟨fault, c⟩ := r
    obtain ⟨fault', c'⟩ := r'
    rintro ⟨hfault, hc⟩
    cases hfault with
    | none => exact ih hc hrest
    | some hf => exact ⟨.some hf, hc⟩

end Builder.Renamed

end BoundSql

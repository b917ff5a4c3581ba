import BoundSql.Builder
import BoundSql.Options.Validation
import BoundSql.Proofs.RedactedMaking

/-!
# Builders without the values behind their placeholders

Everything that a builder renders is the same after redaction, its map keeps the keys, and adding
the same field but for data to the same builder but for data has the same outcome. The options of a
builder may be written, so a map that options are read from is the same map throughout; only the
values that a field brings along by hand may differ.
-/

set_option autoImplicit false

namespace BoundSql

/-! ## Sequences of pairs -/

namespace Bindings

theorem entry_redact (v : Value) :
    entry (v.redact .plain) =
      (entry v).map fun e => (e.1.redact .plain, e.2.redact .plain) := by
  unfold entry
  rw [Value.items_redact]
  cases v.items with
  | error fault => rfl
  | ok items =>
    match items with
    | [k, x] =>
      show (if (k.redact .plain).isKey then _ else _) = Except.map _ (if k.isKey then _ else _)
      rw [Value.isKey_redact]
      cases k.isKey <;> rfl
    | [] | [_] | _ :: _ :: _ :: _ => rfl

/-- A map in which `g` says what shows of a value. -/
noncomputable def shown (g : Value → Value) (b : Bindings) : Bindings :=
  Entries.mapWith (Value.redact .plain) (fun _ => g) b

theorem shown_insert (g : Value → Value) {k k' v v' : Value} {acc acc' : Bindings}
    (hk : k.redact .plain = k'.redact .plain) (hv : g v = g v')
    (hacc : shown g acc = shown g acc') :
    shown g (Entries.insert k v acc) = shown g (Entries.insert k' v' acc') := by
  have step : ∀ (k v : Value) (acc : Bindings), shown g (Entries.insert k v acc) =
      Entries.insert (k.redact .plain) (g v) (shown g acc) := fun k v acc =>
    (Entries.insert_mapWith (g := fun _ => g) Value.redact_beq_redact (fun _ _ _ => rfl) k v
      acc).symm
  rw [step, step, hk, hv, hacc]

section Absorb

variable {g : Value → Value} (hg : ∀ {v w : Value}, v.redact .plain = w.redact .plain → g v = g w)

include hg

/-- Pairs that are alike are taken over alike, up to the same fault. -/
theorem shown_absorbPairs {vs ws : List Value} {acc acc' : Bindings}
    (h : List.Forall₂ (fun v w => v.redact .plain = w.redact .plain) vs ws)
    (hacc : shown g acc = shown g acc') :
    (absorbPairs vs acc).map id (shown g) = (absorbPairs ws acc').map id (shown g) := by
  induction h generalizing acc acc' with
  | nil => exact congrArg (none, ·) hacc
  | @cons v w vs ws hv _ ih =>
    have hentry : Alike (fun e e' => (e.1.redact .plain, e.2.redact .plain) =
        (e'.1.redact .plain, e'.2.redact .plain)) (entry v) (entry w) :=
      .of_map (by rw [← entry_redact v, hv, entry_redact w])
    unfold absorbPairs
    revert hentry
    generalize entry v = r, entry w = r'
    intro hentry
    cases hentry with
    | ok hkx =>
      obtain ⟨hk, hx⟩ := Prod.mk.inj hkx
      exact ih (shown_insert g hk (hg hx) hacc)
    | error fault => exact congrArg (some fault, ·) hacc

/-- Values that are no maps are taken over alike, if they are alike. -/
theorem shown_absorb_of_sequence {v w : Value} {acc acc' : Bindings}
    (hv : ∀ es, v ≠ .dict es) (hw : ∀ es, w ≠ .dict es)
    (h : v.redact .plain = w.redact .plain) (hacc : shown g acc = shown g acc') :
    (absorb v acc).map id (shown g) = (absorb w acc').map id (shown g) := by
  have hitems : Alike (fun vs ws => vs.map (Value.redact .plain) = ws.map (Value.redact .plain))
      v.items w.items := .of_map (by rw [← Value.items_redact v, h, Value.items_redact w])
  cases hr : v.items with
  | error fault =>
    rw [hr] at hitems
    rw [absorb_of_fault hv hr, absorb_of_fault hw hitems.eq_of_error]
    exact congrArg (some fault, ·) hacc
  | ok vs =>
    rw [hr] at hitems
    obtain ⟨ws, hr', hitems⟩ := hitems.eq_of_ok
    rw [absorb_of_items hv hr, absorb_of_items hw hr']
    exact shown_absorbPairs hg (forall₂_of_map_eq hitems) hacc

end Absorb

/-- A map that may be written is taken over alike if the values may be written too. -/
theorem shown_ofValue {v w : Value} (h : v.redact .plain = w.redact .plain) :
    (ofValue v).map (shown (Value.redact .plain)) =
      (ofValue w).map (shown (Value.redact .plain)) := by
  have habsorb : (absorb v []).map id (shown (Value.redact .plain)) =
      (absorb w []).map id (shown (Value.redact .plain)) := by
    cases v with
    | dict es =>
      cases w with
      | dict es' =>
        have hes : shown (Value.redact .plain) es = shown (Value.redact .plain) es' := by
          have h := Value.dict.inj h
          rwa [Value.redactEntries_eq_mapWith, Value.redactEntries_eq_mapWith] at h
        have merge : ∀ es, shown (Value.redact .plain) (Entries.merge [] es) =
            Entries.merge [] (shown (Value.redact .plain) es) := fun es =>
          (Entries.merge_mapWith (g := fun _ => Value.redact .plain) Value.redact_beq_redact
            (fun _ _ _ => rfl) [] es).symm
        exact congrArg (none, ·) (by rw [merge, merge, hes])
      | _ => cases h
    | _ =>
      cases w with
      | dict es' => cases h
      | _ => exact shown_absorb_of_sequence id nofun nofun h rfl
  unfold ofValue
  revert habsorb
  generalize absorb v [] = p, absorb w [] = q
  obtain ⟨fault, b⟩ := p
  obtain ⟨fault', b'⟩ := q
  intro h
  obtain ⟨rfl, hb⟩ := Prod.mk.inj h
  cases fault with
  | none => exact congrArg Except.ok hb
  | some fault => rfl

end Bindings

/-! ## Options -/

namespace Options

theorem columnRule_redact (v : Value) : columnRule (v.redact .plain) = columnRule v := by
  cases v <;> rfl

theorem limitRule_redact (v : Value) : limitRule (v.redact .plain) = limitRule v := by
  cases v <;> rfl

theorem keyText_redact (v : Value) : keyText (v.redact .plain) = keyText v := by
  have text : ∀ w : Value, (∀ b, w ≠ .bool b) →
      keyText w = w.quoted.toOption.getD ("<unprintable " ++ w.typeName ++ " object>") := by
    intro w hw
    unfold keyText
    split
    · exact absurd rfl (hw _)
    · rfl
  have hquoted : (v.redact .plain).quoted = v.quoted := v.render_redact .quoted
  cases v with
  | bool b => rfl
  | _ =>
    refine (text _ ?_).trans (.trans ?_ (text _ ?_).symm)
    · exact nofun
    · rw [hquoted, Value.typeName_redact]
    · exact nofun

theorem keyIssue?_redact (v : Value) : keyIssue? (v.redact .plain) = keyIssue? v := by
  have issue : ∀ w : Value, (∀ s, w ≠ .str s) →
      keyIssue? w = some ⟨some (keyText w), .keyNotText⟩ := by
    intro w hw
    unfold keyIssue?
    split
    · exact absurd rfl (hw _)
    · rfl
  cases v with
  | str s => rfl
  | _ =>
    refine (issue _ ?_).trans (.trans ?_ (issue _ ?_).symm)
    · exact nofun
    · rw [keyText_redact]
    · exact nofun

section Shown

variable (data : Bindings)

theorem option_shown {α : Type} {rule : Value → Except IssueCause α}
    (hrule : ∀ v, rule (v.redact .plain) = rule v) (name : String) (default : α) :
    option name rule default (data.shown (Value.redact .plain)) = option name rule default data := by
  have hget : Entries.get? (.str name) (data.shown (Value.redact .plain)) =
      (Entries.get? (.str name) data).map (Value.redact .plain) :=
    Entries.get?_mapWith (g := fun _ => Value.redact .plain) Value.redact_beq_redact
      (fun _ _ _ => rfl) (.str name) data
  unfold option
  rw [hget]
  cases Entries.get? (.str name) data with
  | none => rfl
  | some v =>
    show (rule (v.redact .plain)).mapError _ = _
    rw [hrule]

theorem validate_shown : validate (data.shown (Value.redact .plain)) = validate data := by
  have hkeys : ((data.shown (Value.redact .plain)).filterMap fun e => keyIssue? e.1) =
      data.filterMap fun e => keyIssue? e.1 := by
    rw [Bindings.shown, Entries.mapWith, List.filterMap_map]
    congr 1
    funext e
    exact keyIssue?_redact e.1
  unfold validate
  rw [option_shown data columnRule_redact, option_shown data limitRule_redact,
    option_shown data limitRule_redact, hkeys]

end Shown

/-- The options that a value describes may be written, and so may the value. -/
theorem ofValue_eq_of_redact {v w : Value} (h : v.redact .plain = w.redact .plain) :
    ofValue v = ofValue w := by
  unfold ofValue
  have hdata := Alike.of_map (Bindings.shown_ofValue h)
  revert hdata
  generalize Bindings.ofValue v = r, Bindings.ofValue w = r'
  intro hdata
  cases hdata with
  | error fault => rfl
  | ok hdata =>
    refine congrArg (Except.mapError Fault.badOptions) ?_
    rw [← validate_shown, hdata, validate_shown]

theorem clamp_redact (o : Options) (v : Value) :
    o.clamp (v.redact .plain) = (o.clamp v).map (Value.redact .plain) := by
  have hexceeds : ∀ n, (v.redact .plain).exceeds n = v.exceeds n := by
    intro n
    cases v <;> rfl
  unfold clamp
  cases o.maxLimit with
  | none => rfl
  | some max =>
    show ((v.redact .plain).exceeds max).map _ = ((v.exceeds max).map _).map _
    rw [hexceeds]
    cases v.exceeds max with
    | error fault => rfl
    | ok above => cases above <;> rfl

theorem isClamped_redact (o : Options) (v : Value) :
    o.isClamped (v.redact .plain) = o.isClamped v := by
  obtain ⟨_, _, maxLimit⟩ := o
  cases maxLimit <;> cases v <;> rfl

end Options

theorem Value.toOption_redact (v : Value) :
    (v.redact .plain).toOption = v.toOption.map (Value.redact .plain) := by
  cases v <;> rfl

theorem Value.integerText_redact (v : Value) :
    (v.redact .plain).integerText = v.integerText := by
  cases v <;> rfl

/-! ## Builders -/

/-- A builder without the values behind its placeholders. -/
noncomputable def Builder.redact (b : Builder) : Builder :=
  { options := b.options.redact .plain
    table := Fragment.redact? b.table
    fields := b.fields.map (Value.redact .plain)
    joins := b.joins.map Join.redact
    filters := b.filters.map Filter.redact
    groups := b.groups.map (Value.redact .plain)
    order := b.order.map (Value.redact .plain)
    limit := b.limit.map (Value.redact .plain)
    offset := b.offset.map (Value.redact .plain)
    extra := Value.redactBound b.extra }

namespace Builder

variable (b : Builder)

theorem properOptions_redact : b.redact.properOptions = b.properOptions := by
  obtain ⟨options, _, _, _, _, _, _, _, _, _⟩ := b
  cases options <;> rfl

/-! ### Texts -/

theorem fieldsText_redact : b.redact.fieldsText = b.fieldsText := by
  unfold fieldsText
  show (if (b.fields.map (Value.redact .plain)).isEmpty then _
    else Value.textJoined ", " (b.fields.map (Value.redact .plain))) = _
  rw [Value.textJoined_redact, List.isEmpty_map]

theorem tableClause_redact : b.redact.tableClause = b.tableClause := by
  obtain ⟨_, table, _, _, _, _, _, _, _, _⟩ := b
  cases table with
  | none => rfl
  | some f =>
    show (f.redact.text >>= fun t => pure ("FROM " ++ t)) = _
    rw [Fragment.text_redact]
    rfl

theorem joinsClause_redact : b.redact.joinsClause = b.joinsClause := by
  show ((b.joins.map Join.redact).mapM Join.text >>= fun ts => _) = _
  rw [List.mapM_map, show Join.text ∘ Join.redact = Join.text from funext Join.text_redact]
  rfl

theorem conditionText_redact : b.redact.conditionText = b.conditionText := by
  show ((b.filters.map Filter.redact).mapM Filter.text >>= fun ts => _) = _
  rw [List.mapM_map, show Filter.text ∘ Filter.redact = Filter.text from
    funext Filter.text_redact]
  rfl

theorem filterClause_redact : b.redact.filterClause = b.filterClause := by
  unfold filterClause
  rw [conditionText_redact]
  show (if (b.filters.map Filter.redact).isEmpty then _ else _) = _
  rw [List.isEmpty_map]

theorem listClause_redact (keyword : String) (items : List Value) :
    listClause keyword (items.map (Value.redact .plain)) = listClause keyword items := by
  unfold listClause
  rw [Value.textJoined_redact, List.isEmpty_map]

theorem valueClause_redact (keyword : String) (v : Option Value) :
    valueClause keyword (v.map (Value.redact .plain)) = valueClause keyword v := by
  cases v with
  | none => rfl
  | some v =>
    show ((v.redact .plain).text >>= fun t => pure (keyword ++ " " ++ t)) = _
    rw [Value.text_redact]
    rfl

theorem effectiveLimit_redact :
    b.redact.effectiveLimit = b.effectiveLimit.map (Option.map (Value.redact .plain)) := by
  have hoptions := b.properOptions_redact
  obtain ⟨_, _, _, _, _, _, _, limit, _, _⟩ := b
  cases limit with
  | some limit => rfl
  | none =>
    show (properOptions _ >>= fun o => pure (o.defaultLimit.map fun n => Value.int n)) =
      (properOptions _ >>= fun o => pure (o.defaultLimit.map fun n => Value.int n)).map _
    rw [hoptions]
    cases properOptions _ with
    | error fault => rfl
    | ok o =>
      obtain ⟨_, defaultLimit, _⟩ := o
      cases defaultLimit <;> rfl

theorem selectText_redact : b.redact.selectText = b.selectText := by
  unfold selectText selectParts
  rw [fieldsText_redact, tableClause_redact, joinsClause_redact, filterClause_redact,
    effectiveLimit_redact]
  cases b.effectiveLimit with
  | error fault => rfl
  | ok limit =>
    show assemble <$> (b.fieldsText >>= fun fields => b.tableClause >>= fun table =>
        b.joinsClause >>= fun joins => b.filterClause >>= fun filters =>
          listClause "GROUP BY" (b.groups.map (Value.redact .plain)) >>= fun groups =>
            listClause "ORDER BY" (b.order.map (Value.redact .plain)) >>= fun order =>
              valueClause "LIMIT" (limit.map (Value.redact .plain)) >>= fun limit =>
                valueClause "OFFSET" (b.offset.map (Value.redact .plain)) >>= fun offset =>
                  pure ["SELECT", fields, table, joins, filters, groups, order, limit, offset]) = _
    rw [listClause_redact, listClause_redact, valueClause_redact, valueClause_redact]
    rfl

theorem deleteText_redact : b.redact.deleteText = b.deleteText := by
  unfold deleteText
  rw [tableClause_redact, filterClause_redact]
  show (if (b.filters.map Filter.redact).isEmpty then _ else _) = _
  rw [List.isEmpty_map]

theorem isEmpty_filters_redact : b.redact.filters.isEmpty = b.filters.isEmpty :=
  List.isEmpty_map

/-! ### Maps -/

theorem bindings_redact : b.redact.bindings = Value.redactBound b.bindings := by
  show Entries.mergeAll
    [Value.redactBound b.extra,
     Fragment.bindings? (Fragment.redact? b.table),
     Value.bindingsOf (b.fields.map (Value.redact .plain)),
     Entries.mergeAll ((b.joins.map Join.redact).map Join.bindings),
     Entries.mergeAll ((b.filters.map Filter.redact).map Filter.bindings),
     Value.bindingsOf (b.order.map (Value.redact .plain)),
     Value.bindingsOf (b.groups.map (Value.redact .plain))] = _
  have hjoins : Join.bindings ∘ Join.redact = Value.redactBound ∘ Join.bindings :=
    funext Join.bindings_redact
  have hfilters : Filter.bindings ∘ Filter.redact = Value.redactBound ∘ Filter.bindings :=
    funext Filter.bindings_redact
  rw [Fragment.bindings?_redact?, Value.bindingsOf_redact, Value.bindingsOf_redact,
    Value.bindingsOf_redact, List.map_map, List.map_map, hjoins, hfilters, ← List.map_map,
    ← List.map_map, Value.mergeAll_redactBound, Value.mergeAll_redactBound]
  exact Value.mergeAll_redactBound [b.extra, Fragment.bindings? b.table,
    Value.bindingsOf b.fields, Entries.mergeAll (b.joins.map Join.bindings),
    Entries.mergeAll (b.filters.map Filter.bindings), Value.bindingsOf b.order,
    Value.bindingsOf b.groups]

theorem length_bindings_redact : b.redact.bindings.length = b.bindings.length := by
  rw [bindings_redact, Value.redactBound_eq_mapWith, Entries.mapWith, List.length_map]

/-! ### Fields -/

theorem pushField_redact (v : Value) :
    b.redact.pushField (v.redact .plain) = (b.pushField v).redact := by
  show Builder.mk _ _ (b.fields.map (Value.redact .plain) ++ [v.redact .plain]) _ _ _ _ _ _ _ =
    Builder.mk _ _ ((b.fields ++ [v]).map (Value.redact .plain)) _ _ _ _ _ _ _
  rw [List.map_append]
  rfl

theorem pushField?_redact (v : Value) :
    b.redact.pushField? (v.redact .plain) = (b.pushField? v).redact := by
  cases v with
  | null => rfl
  | _ => exact b.pushField_redact _

theorem pushText_redact (v : Value) :
    b.redact.pushText (v.redact .plain) = (b.pushText v).map id redact := by
  unfold pushText
  rw [Value.text_redact]
  cases v.text with
  | error fault => rfl
  | ok s => exact congrArg (none, ·) (b.pushField_redact (.str s))

variable {b} {b' : Builder}

/-- A map under which nothing is looked up holds its keys only. -/
theorem redactBound_eq_of_redactEntries {p : Position} {es es' : Bindings}
    (h : Value.redactEntries p es = Value.redactEntries p es') :
    Value.redactBound es = Value.redactBound es' := by
  have hkeys := congrArg (List.map fun e => (e.1, blank)) h
  simpa only [Value.redactEntries_eq_mapWith, Value.redactBound_eq_mapWith, Entries.mapWith,
    List.map_map, Function.comp_def] using hkeys

/-- Values bound by hand are taken over under the same names, whatever they are. -/
theorem absorb_alike {v w : Value} {acc acc' : Bindings} (h : v.redact .bound = w.redact .bound)
    (hacc : Value.redactBound acc = Value.redactBound acc') :
    (Bindings.absorb v acc).map id Value.redactBound =
      (Bindings.absorb w acc').map id Value.redactBound := by
  have hshown : Value.redactBound = Bindings.shown fun _ => blank :=
    funext Value.redactBound_eq_mapWith
  cases v with
  | dict es =>
    cases w with
    | dict es' =>
      have hes := redactBound_eq_of_redactEntries (Value.dict.inj h)
      refine congrArg (none, ·) ?_
      rw [← Value.merge_redactBound, ← Value.merge_redactBound, hacc, hes]
    | _ => cases h
  | _ =>
    cases w with
    | dict es' => cases h
    | _ =>
      rw [hshown] at hacc ⊢
      exact Bindings.shown_absorb_of_sequence (fun _ => rfl) nofun nofun h hacc

theorem isTruthy_of_bound {v w : Value} (h : v.redact .bound = w.redact .bound) :
    v.isTruthy = w.isTruthy := by
  have truthy : ∀ v : Value, (v.redact .bound).isTruthy = v.isTruthy := by
    intro v
    by_cases hv : ∃ es, v = .dict es
    · obtain ⟨es, rfl⟩ := hv
      cases es <;> rfl
    · rw [Value.redact_eq_plain (.inr rfl) (not_exists.mp hv), Value.isTruthy_redact]
  rw [← truthy v, h, truthy w]

theorem bindExtra_alike {v w : Value} (h : v.redact .bound = w.redact .bound)
    (hb : b.redact = b'.redact) :
    (b.bindExtra v).map id redact = (b'.bindExtra w).map id redact := by
  unfold bindExtra
  rw [isTruthy_of_bound h]
  cases w.isTruthy with
  | false => exact congrArg (none, ·) hb
  | true =>
    have hextra := absorb_alike h (congrArg Builder.extra hb)
    revert hextra
    generalize Bindings.absorb v b.extra = p, Bindings.absorb w b'.extra = q
    obtain ⟨fault, extra⟩ := p
    obtain ⟨fault', extra'⟩ := q
    intro hextra
    obtain ⟨rfl, hkeys⟩ := Prod.mk.inj hextra
    refine congrArg (fault, ·) ?_
    show ({ b.redact with extra := Value.redactBound extra } : Builder) =
      { b'.redact with extra := Value.redactBound extra' }
    rw [hb, hkeys]

theorem pushText_alike {v w : Value} (h : v.redact .plain = w.redact .plain)
    (hb : b.redact = b'.redact) :
    (b.pushText v).map id redact = (b'.pushText w).map id redact := by
  rw [← pushText_redact, ← pushText_redact, h, hb]

theorem addField_redact {v : Value} (hv : ∀ es, v ≠ .dict es) :
    b.redact.addField (v.redact .plain) = (b.addField v).map id redact := by
  have text : ∀ {w : Value}, (∀ c : Builder, c.addField w = c.pushText w) →
      (∀ c : Builder, c.addField (w.redact .plain) = c.pushText (w.redact .plain)) →
      b.redact.addField (w.redact .plain) = (b.addField w).map id redact := by
    intro w h h'
    rw [h, h', b.pushText_redact]
  cases v with
  | dict es => exact absurd rfl (hv es)
  | null => rfl
  | str s => exact congrArg (none, ·) (b.pushField_redact (.str (Identifier.quote s)))
  | fragment f origin => exact congrArg (none, ·) (b.pushField_redact (.fragment f origin))
  | _ => exact text (fun _ => rfl) fun _ => rfl

theorem addMap_alike {es es' : Bindings}
    (h : (Value.dict es).redact .field = (Value.dict es').redact .field)
    (hb : b.redact = b'.redact) :
    (b.addField (.dict es)).map id redact = (b'.addField (.dict es')).map id redact := by
  have hes := Value.dict.inj h
  have hsome := Value.isSome_call_of_redactEntries hes
  cases hcall : Entries.get? callKey es with
  | none =>
    rw [hcall] at hes hsome
    have hcall' : Entries.get? callKey es' = none := by simpa using hsome.symm
    rw [hcall'] at hes
    rw [addField, addField, hcall, hcall']
    exact pushText_alike (congrArg Value.dict hes) hb
  | some call =>
    rw [hcall] at hes hsome
    obtain ⟨call', hcall'⟩ := Option.isSome_iff_exists.mp hsome.symm
    rw [hcall'] at hes
    have hget : ∀ s, (Entries.get? (.str s) es).map (Value.redactUnder .field (.str s)) =
        (Entries.get? (.str s) es').map (Value.redactUnder .field (.str s)) := by
      intro s
      rw [← Value.get?_redactEntries, ← Value.get?_redactEntries]
      exact congrArg _ hes
    have hc : call.redact .plain = call'.redact .plain := by
      have hcalls := hget "fn_call"
      rw [show Value.str "fn_call" = callKey from rfl, hcall, hcall'] at hcalls
      exact Option.some.inj hcalls
    have hgiven : ((Entries.get? replacementsKey es).getD .null).redact .bound =
        ((Entries.get? replacementsKey es').getD .null).redact .bound := by
      have hmaps : (Entries.get? replacementsKey es).map (Value.redact .bound) =
          (Entries.get? replacementsKey es').map (Value.redact .bound) := hget "replacements"
      rw [← Option.getD_map (Value.redact .bound), ← Option.getD_map (Value.redact .bound), hmaps]
    have hextra := bindExtra_alike hgiven hb
    rw [addField, addField, hcall, hcall']
    revert hextra
    generalize b.bindExtra _ = p, b'.bindExtra _ = q
    obtain ⟨fault, c⟩ := p
    obtain ⟨fault', c'⟩ := q
    intro hextra
    obtain ⟨rfl, hbuilder⟩ := Prod.mk.inj hextra
    cases fault with
    | none =>
      refine congrArg (none, ·) ?_
      show (c.pushField? call).redact = (c'.pushField? call').redact
      rw [← pushField?_redact, ← pushField?_redact, hbuilder, hc]
    | some fault => exact congrArg (some fault, ·) hbuilder

/-- **Fields that are the same but for data are added alike**, with a fault or without. -/
theorem addField_alike {v w : Value} (h : v.redact .field = w.redact .field)
    (hb : b.redact = b'.redact) :
    (b.addField v).map id redact = (b'.addField w).map id redact := by
  by_cases hv : ∃ es, v = .dict es
  · obtain ⟨es, rfl⟩ := hv
    cases w with
    | dict es' => exact addMap_alike h hb
    | _ => cases h
  · have hw : ¬ ∃ es, w = .dict es := by
      rintro ⟨es', rfl⟩
      cases v with
      | dict es => exact hv ⟨es, rfl⟩
      | _ => cases h
    rw [Value.redact_eq_plain (.inl rfl) (not_exists.mp hv),
      Value.redact_eq_plain (.inl rfl) (not_exists.mp hw)] at h
    rw [← addField_redact (not_exists.mp hv), ← addField_redact (not_exists.mp hw), h, hb]

theorem addFields_alike {vs ws : List Value}
    (h : List.Forall₂ (fun v w => v.redact .field = w.redact .field) vs ws)
    (hb : b.redact = b'.redact) :
    (b.addFields vs).map id redact = (b'.addFields ws).map id redact := by
  induction h generalizing b b' with
  | nil => exact congrArg (none, ·) hb
  | @cons v w vs ws hv _ ih =>
    have hstep := addField_alike hv hb
    unfold addFields
    revert hstep
    generalize b.addField v = p, b'.addField w = q
    obtain ⟨fault, c⟩ := p
    obtain ⟨fault', c'⟩ := q
    intro hstep
    obtain ⟨rfl, hc⟩ := Prod.mk.inj hstep
    cases fault with
    | none => exact ih hc
    | some fault => exact congrArg (some fault, ·) hc

end Builder

end BoundSql

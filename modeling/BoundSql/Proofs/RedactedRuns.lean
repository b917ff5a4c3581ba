import BoundSql.Proofs.Abreast

/-!
# Runs that are the same but for data

Constructions and commands that are the same but for data, given in sessions that are, have outcomes
that are, and the same happens meanwhile, if that is so for the callbacks in them. A command that
runs no callback is a happening itself, so of such commands only the outcomes are compared.
-/

set_option autoImplicit false

namespace BoundSql

open BoundSql.Action

/-! ## Answers -/

theorem Reply.nestedText_redact (className : String) (v : Value) :
    (Reply.value (v.redact .plain)).nestedText className =
      (Reply.value v).nestedText className := by
  have other : ∀ w : Value, (∀ sql, w ≠ .str sql) → (Reply.value w).nestedText className =
      .error (.misuse (.answerNotStatement className w.typeName)) := fun w hw =>
    Reply.nestedText_of_ne (fun sql h => hw sql (Reply.value.inj h)) className
  by_cases hv : ∃ sql, v = .str sql
  · obtain ⟨sql, rfl⟩ := hv
    rfl
  · have hv' : ∀ sql, v.redact .plain ≠ .str sql := by
      intro sql h
      cases v with
      | str s => exact hv ⟨s, rfl⟩
      | _ => cases h
    rw [other _ hv', other _ (not_exists.mp hv), Value.typeName_redact]

theorem Reply.Alike.nestedText_eq {r r' : Reply} (h : r.Alike r') (className : String) :
    r.nestedText className = r'.nestedText className := by
  cases h with
  | value h => rw [← Reply.nestedText_redact, h, Reply.nestedText_redact]
  | _ => rfl

/-! ## Nested statements -/

/-- The answer of a callback is looked at once. -/
theorem runNested_callback (invoke : Invoke) (className : String) (options : Value) (c : Callback)
    (made : Origin) :
    runNested invoke className options (.callback c made) = do
      let nested ← Run.newBuilder (givenOptions options)
      let reply ← invoke c nested
      let sql ← Run.ofExcept (reply.nestedText className)
      let b ← Run.builder nested
      Run.note (.nested b sql)
      return (sql, b.bindings) := by
  refine bind_congr fun nested => bind_congr fun reply => ?_
  cases reply with
  | builder => rfl
  | value v => cases v <;> rfl

section Runs

variable {invoke invoke' : Invoke} {self : Nat} {s s' : Session} (hi : invoke.Abreast invoke')
include hi

theorem runNested_abreastAt (className : String) {options options' callback callback' : Value}
    (ho : OpensAlike self options options' s s') (h : callback.SameAt .plain callback')
    (hs : s.Alike s') :
    Run.AbreastAt (runNested invoke className options callback)
      (runNested invoke' className options' callback')
      (fun m m' => m.1 = m'.1 ∧ Value.redactBound m.2 = Value.redactBound m'.2) s s' := by
  have hnew := Run.newBuilder_abreastAt ho hs
  cases callback with
  | callback c made =>
    cases callback' with
    | callback c' made' =>
      rw [runNested_callback, runNested_callback]
      refine hnew.bind fun n _ t t' hn _ heq ht => ?_
      subst heq
      cases hn
      -- The new builder is at the same place in both runs, and the callbacks run there.
      refine Run.Abreast.bind (hi (Value.callback.inj h).1 s.builders.length) (fun r r' hr => ?_)
        _ t' ht.alike (by simp)
      refine (Run.Abreast.ofExcept (.of_eq (hr.nestedText_eq className))).bind fun sql _ hsql => ?_
      subst hsql
      refine (Run.Abreast.builder s.builders.length).bind fun b b' hb => ?_
      refine (Run.Abreast.note (.nested hb sql) rfl rfl).bind fun _ _ _ => .pure ⟨rfl, ?_⟩
      rw [← Builder.bindings_redact, hb, Builder.bindings_redact]
    | _ => cases h
  | _ =>
    cases callback' with
    | callback c' made' => cases h
    | _ => exact hnew.bind fun _ _ _ _ _ _ _ ht => .idle (Agree.throw _) ht.alike rfl rfl

theorem makeSubSelect_abreastAt {callback callback' label label' options options' : Value}
    (h : callback.SameAt .plain callback') (hlabel : label.SameAt .plain label')
    (ho : OpensAlike self options options' s s') (hs : s.Alike s') :
    Run.AbreastAt (makeSubSelect invoke callback label options)
      (makeSubSelect invoke' callback' label' options') (fun f f' => f.redact = f'.redact) s s' := by
  have hname : label.name? = label'.name? := by
    rw [← label.name?_redact, hlabel, label'.name?_redact]
  refine .bind_idle (Run.ofExcept_agree (.of_eq hname)) hs rfl rfl fun name _ _ _ heq => ?_
  subst heq
  refine (runNested_abreastAt hi "SubSelect" ho h hs).bind fun m m' t t' _ _ hm ht =>
    .pure ht.alike ?_
  show Fragment.subSelect ⟨m.1, name, Value.redactBound m.2⟩ = .subSelect ⟨m'.1, name, _⟩
  rw [hm.1, hm.2]

theorem runMembers_abreastAt {options options' : Value} {callbacks callbacks' : List Value}
    (h : List.Forall₂ (Value.SameAt .plain) callbacks callbacks')
    (ho : OpensAlike self options options' s s') (hs : s.Alike s') :
    Run.AbreastAt (runMembers invoke options callbacks) (runMembers invoke' options' callbacks')
      (List.Forall₂ fun m m' => m.1 = m'.1 ∧ Value.redactBound m.2 = Value.redactBound m'.2)
      s s' := by
  induction h generalizing s s' with
  | nil => exact .pure hs .nil
  | cons hc _ ih =>
    refine (runNested_abreastAt hi "Union" ho hc hs).bind fun m m' t t' _ _ hm habreast => ?_
    refine (ih (ho.of_abreast hs habreast) habreast.alike).bind fun ms ms' u u' _ _ hms hu => ?_
    exact .pure hu.alike (.cons hm hms)

theorem makeUnion_abreastAt {callbacks callbacks' modifier modifier' options options' : Value}
    (h : callbacks.SameAt .plain callbacks') (hm : modifier.SameAt .plain modifier')
    (ho : OpensAlike self options options' s s') (hs : s.Alike s') :
    Run.AbreastAt (makeUnion invoke callbacks modifier options)
      (makeUnion invoke' callbacks' modifier' options') (fun f f' => f.redact = f'.redact)
      s s' := by
  have hitems : Alike (fun vs ws => vs.map (Value.redact .plain) = ws.map (Value.redact .plain))
      callbacks.items callbacks'.items :=
    .of_map (by rw [← Value.items_redact, h, Value.items_redact])
  refine .bind_idle (Run.ofExcept_agree hitems) hs rfl rfl fun vs ws _ _ hvs => ?_
  refine (runMembers_abreastAt hi (forall₂_of_map_eq hvs) ho hs).bind fun ms ms' t t' _ _ hms ht =>
    .pure ht.alike ?_
  have htexts : ms.map (·.1) = ms'.map (·.1) := map_eq_of_forall₂ (hms.imp fun _ _ => And.left)
  have hbound : (ms.map (·.2)).map Value.redactBound = (ms'.map (·.2)).map Value.redactBound := by
    rw [List.map_map, List.map_map]
    exact map_eq_of_forall₂ (hms.imp fun _ _ => And.right)
  show Fragment.union (ms.map (·.1)) (modifier.redact .plain) (Value.redactBound _) =
    .union (ms'.map (·.1)) (modifier'.redact .plain) (Value.redactBound _)
  rw [htexts, hm, ← Value.mergeAll_redactBound, ← Value.mergeAll_redactBound, hbound]

/-! ## Constructions -/

theorem Construction.Alike.make_abreastAt {k k' : Construction} (h : k.Alike k')
    (hs : s.Alike s') (hself : self < s.builders.length) (hk : .construction k ∈ s.history)
    (hk' : .construction k' ∈ s'.history) :
    Run.AbreastAt (k.make invoke self) (k'.make invoke' self) (fun f f' => f.redact = f'.redact)
      s s' := by
  -- What is made without placeholders, by functions that commute with redaction.
  have made : ∀ {r r' : Except Fault Fragment}, r.map Fragment.redact = r'.map Fragment.redact →
      Run.AbreastAt (Run.ofExcept r) (Run.ofExcept r') (fun f f' => f.redact = f'.redact) s s' :=
    fun h => .idle (Run.ofExcept_agree (.of_map h)) hs rfl rfl
  -- What needs to know no more of the sessions than that the builder at hand is there.
  have anywhere : ∀ {m m' : Run Fragment},
      Run.Abreast self m m' (fun f f' => f.redact = f'.redact) →
      Run.AbreastAt m m' (fun f f' => f.redact = f'.redact) s s' := fun h => h s s' hs hself
  cases h with
  | column h =>
    rename_i name name'
    have hname : name.name = name'.name := by rw [← name.name_redact, h, name'.name_redact]
    exact anywhere ((Run.Abreast.ofExcept (.of_eq hname)).bind fun s _ hs => .pure (by rw [hs]))
  | literal v v' =>
    exact anywhere (.making (Fragment.ofLiteral_agree v v') (Fragment.le_ofLiteral v)
      (Fragment.le_ofLiteral v'))
  | null => exact .pure hs rfl
  | raw h => exact .pure hs (congrArg Fragment.raw (Value.redactEach_congr h))
  | cast h ht => exact made (by rw [← Fragment.ofCast_redact, h, ht, Fragment.ofCast_redact])
  | function h hargs =>
    exact anywhere (.making (Fragment.ofFunction_agree h (map_eq_of_forall₂ hargs))
      (Fragment.le_ofFunction _ _) (Fragment.le_ofFunction _ _))
  | group c h => exact .pure hs (congrArg (Fragment.group c) (Value.redactEach_congr h))
  | filter hleft hright hoperator hbefore hafter =>
    have hmake := Filter.make_agree hleft hright hoperator hbefore hafter
    have hmaking : Run.Abreast self _ _ _ := .making hmake (Filter.le_make _ _ _ _ _)
      (Filter.le_make _ _ _ _ _)
    exact anywhere (hmaking.bind fun c d hc => .pure (congrArg Fragment.filter hc))
  | projection h hlabel =>
    exact made (by rw [← Fragment.ofProjection_redact, h, hlabel, Fragment.ofProjection_redact])
  | subSelect h hlabel ho =>
    have hopens : OpensAlike self _ _ s s' := .of_construction ho hk hk' rfl rfl
    exact makeSubSelect_abreastAt hi h hlabel hopens hs
  | union h hm ho =>
    have hopens : OpensAlike self _ _ s s' := .of_construction ho hk hk' rfl rfl
    exact makeUnion_abreastAt hi h hm hopens hs
  | join family ht hc hlabel hkind =>
    refine anywhere ((Run.Abreast.ofExcept (.of_map ?_)).bind fun j j' hj =>
      .pure (congrArg Fragment.join hj))
    rw [← Join.make_redact, ht, hc, hlabel, hkind, Join.make_redact]
  | branch hc hr =>
    refine anywhere ((Run.Abreast.ofExcept (.of_map ?_)).bind fun b b' hb =>
      .pure (congrArg Fragment.branch hb))
    rw [← Branch.make_redact, hc, hr, Branch.make_redact]
  | fallback h => exact made (by rw [← Fragment.ofFallback_redact, h, Fragment.ofFallback_redact])
  | choice h hb hl =>
    exact made (by rw [← Fragment.ofChoice_redact, h, hb, hl, Fragment.ofChoice_redact])
  | asColumn h => exact made (by rw [← Value.asColumn_redact, h, Value.asColumn_redact])
  | ownSubSelect h hlabel =>
    refine .bind_idle (Run.builder_agree self) hs rfl rfl fun b b' hb hb' _ => ?_
    cases hb
    cases hb'
    exact makeSubSelect_abreastAt hi h hlabel (.own hs hself) hs
  | ownUnion h hm =>
    refine .bind_idle (Run.builder_agree self) hs rfl rfl fun b b' hb hb' _ => ?_
    cases hb
    cases hb'
    exact makeUnion_abreastAt hi h hm (.own hs hself) hs

/-- **Constructions that are the same but for data make values that are.** -/
theorem Construction.Alike.run_abreast {k k' : Construction} (h : k.Alike k') (origin : Origin) :
    Run.Abreast self (k.run invoke self origin) (k'.run invoke' self origin)
      (Value.SameAt .plain) := by
  intro s s' hs hself
  refine (Run.Abreast.note (.construction h) rfl rfl s s' hs hself).bind
    fun _ _ t t' ht ht' _ habreast => ?_
  cases ht
  cases ht'
  -- By now the construction is in the history, which is where a new builder has its options from.
  have noted : ∀ {f f' : Fragment}, f.redact = f'.redact → Run.Abreast self
      (do Run.note (.fragment f); return Value.fragment f origin)
      (do Run.note (.fragment f'); return Value.fragment f' origin) (Value.SameAt .plain) :=
    fun hf => (Run.Abreast.note (.fragment hf) rfl rfl).bind fun _ _ _ =>
      .pure (congrArg (Value.fragment · origin) hf)
  have made : Run.AbreastAt
      (do let f ← k.make invoke self; Run.note (.fragment f); return Value.fragment f origin)
      (do let f ← k'.make invoke' self; Run.note (.fragment f); return Value.fragment f origin)
      (Value.SameAt .plain)
      { s with history := s.history ++ [.construction k] }
      { s' with history := s'.history ++ [.construction k'] } := by
    refine (h.make_abreastAt hi habreast.alike hself (List.mem_append_right _ ?_)
      (List.mem_append_right _ ?_)).bind fun f f' t t' _ _ hf ht =>
        noted hf t t' ht.alike (Nat.lt_of_lt_of_le hself ht.length_le)
    · exact List.mem_singleton_self _
    · exact List.mem_singleton_self _
  cases h with
  | asColumn h =>
    rename_i v v'
    cases v with
    | fragment f known =>
      cases v' with
      | fragment f' known' => exact .pure habreast.alike h
      | _ => cases h
    | _ =>
      cases v' with
      | fragment f' known' => cases h
      | _ => exact made
  | _ => exact made

end Runs

/-! ## Commands -/

theorem Builder.properOptions_alike {b b' : Builder} (h : b.redact = b'.redact) :
    b.properOptions = b'.properOptions := by
  rw [← b.properOptions_redact, h, b'.properOptions_redact]

theorem Builder.absenceTarget_redact (b : Builder) (target : Value) :
    b.redact.absenceTarget (target.redact .plain) =
      (b.absenceTarget target).map (Value.redact .plain) := by
  cases target with
  | null =>
    simp only [Value.redact, absenceTarget, properOptions_redact]
    cases b.properOptions <;> rfl
  | _ => rfl

theorem Builder.absenceTarget_alike {b b' : Builder} (h : b.redact = b'.redact)
    {target target' : Value} (ht : target.SameAt .plain target') :
    Alike (Value.SameAt .plain) (b.absenceTarget target) (b'.absenceTarget target') :=
  .of_map (by rw [← b.absenceTarget_redact, h, ht, b'.absenceTarget_redact])

/-- What is added to lists that are alike. -/
theorem map_redact_append {α β : Type} {f : α → β} {xs xs' ys ys' : List α}
    (hx : xs.map f = xs'.map f) (hy : ys.map f = ys'.map f) :
    (xs ++ ys).map f = (xs' ++ ys').map f := by
  rw [List.map_append, List.map_append, hx, hy]

theorem map_redact_concat {α β : Type} {f : α → β} {xs xs' : List α} {y y' : α}
    (hx : xs.map f = xs'.map f) (hy : f y = f y') : (xs ++ [y]).map f = (xs' ++ [y']).map f :=
  map_redact_append hx (congrArg (fun z => [z]) hy)

theorem addFilter_of_made (self : Nat) {given : Value} (make : Value → Making Filter)
    (h : ∀ c origin, given ≠ .fragment (.filter c) origin) :
    addFilter self given make = Run.making (make given) >>= fun c =>
      Run.modifyBuilder self fun b => { b with filters := b.filters ++ [c] } := by
  unfold addFilter
  split
  · exact absurd rfl (h _ _)
  · rfl

theorem addFilter_agree (self : Nat) {given given' : Value} (make make' : Value → Making Filter)
    (h : given.SameAt .plain given')
    (hmake : Agree Supply.Alike (make given) (make' given') fun c d => c.redact = d.redact) :
    Agree Session.Alike (addFilter self given make) (addFilter self given' make') Eq := by
  have push : ∀ c d : Filter, c.redact = d.redact → Agree Session.Alike
      (Run.modifyBuilder self fun b => { b with filters := b.filters ++ [c] })
      (Run.modifyBuilder self fun b => { b with filters := b.filters ++ [d] }) Eq := by
    intro c d hc
    refine Run.modifyBuilder_agree self fun b b' hb => ?_
    have hfilters : (b.filters ++ [c]).map Filter.redact = (b'.filters ++ [d]).map Filter.redact :=
      map_redact_concat (congrArg Builder.filters hb) hc
    show { b.redact with filters := (b.filters ++ [c]).map Filter.redact } =
      { b'.redact with filters := (b'.filters ++ [d]).map Filter.redact }
    rw [hb, hfilters]
  by_cases hg : ∃ c origin, given = .fragment (.filter c) origin
  · obtain ⟨c, origin, rfl⟩ := hg
    cases given' with
    | fragment f origin' =>
      obtain ⟨hf, -⟩ := Value.fragment.inj h
      cases f with
      | filter d => exact push c d (Fragment.filter.inj hf)
      | _ => cases hf
    | _ => cases h
  · have hg' : ¬ ∃ c origin, given' = .fragment (.filter c) origin := by
      rintro ⟨d, origin, rfl⟩
      cases given with
      | fragment f origin' =>
        obtain ⟨hf, -⟩ := Value.fragment.inj h
        cases f with
        | filter c => exact hg ⟨c, origin', rfl⟩
        | _ => cases hf
      | _ => cases h
    rw [addFilter_of_made self make fun c o ho => hg ⟨c, o, ho⟩,
      addFilter_of_made self make' fun c o ho => hg' ⟨c, o, ho⟩]
    exact (Run.making_agree hmake).bind push

theorem joinOfArguments_redact (args : List Value) :
    joinOfArguments (args.map (Value.redact .plain)) = (joinOfArguments args).map Join.redact := by
  have many : ∀ (v₁ v₂ v₃ v₄ : Value) (rest : List Value),
      joinOfArguments (v₁ :: v₂ :: v₃ :: v₄ :: rest) = .error .badArguments := by
    intro v₁ v₂ v₃ v₄ rest
    unfold joinOfArguments
    split <;> simp_all
  match args with
  | [] => rfl
  | [v] =>
    cases v with
    | fragment f origin => cases f <;> rfl
    | _ => rfl
  | [table, condition] =>
    simp only [List.map, joinOfArguments]
    exact Join.make_redact .plain table condition .null .null
  | [table, condition, label] =>
    simp only [List.map, joinOfArguments]
    exact Join.make_redact .plain table condition label .null
  | _ :: _ :: _ :: _ :: _ =>
    rw [many]
    exact many _ _ _ _ _

theorem setLimit_agree (self : Nat) {number number' : Value} (h : number.SameAt .plain number') :
    Agree Session.Alike (setLimit self number) (setLimit self number') Eq := by
  refine (Run.builder_agree self).bind fun b b' hb => ?_
  refine (Run.ofExcept_agree (.of_eq (Builder.properOptions_alike hb))).bind fun o _ ho => ?_
  subst ho
  have hclamp : Alike (Value.SameAt .plain) (o.clamp number) (o.clamp number') :=
    .of_map (by rw [← o.clamp_redact, h, o.clamp_redact])
  have hclamped : o.isClamped number = o.isClamped number' := by
    rw [← o.isClamped_redact, h, o.isClamped_redact]
  have htext : ∀ {v w : Value}, v.SameAt .plain w → v.integerText = w.integerText := by
    intro v w hvw
    rw [← v.integerText_redact, hvw, w.integerText_redact]
  refine (Run.ofExcept_agree hclamp).bind fun limit limit' hl => ?_
  refine (Run.ofExcept_agree (.of_eq hclamped)).bind fun clamped _ hc => ?_
  subst hc
  have set : Agree Session.Alike
      (Run.modifyBuilder self fun b => { b with limit := limit.toOption })
      (Run.modifyBuilder self fun b => { b with limit := limit'.toOption }) Eq := by
    refine Run.modifyBuilder_agree self fun c c' hc => ?_
    show { c.redact with limit := limit.toOption.map (Value.redact .plain) } =
      { c'.redact with limit := limit'.toOption.map (Value.redact .plain) }
    rw [hc, ← limit.toOption_redact, hl, limit'.toOption_redact]
  cases clamped with
  | false => exact set
  | true =>
    refine (Run.keeps_agree _).bind fun kept _ hk => ?_
    subst hk
    cases kept with
    | false => exact set
    | true =>
      refine (Run.ofExcept_agree (.of_eq (htext h))).bind fun t _ ht => ?_
      refine (Run.ofExcept_agree (.of_eq (htext hl))).bind fun u _ hu => ?_
      subst ht hu
      exact (Run.record_agree _).bind fun _ _ _ => set

theorem runSelect_agree (self : Nat) {added added' : List Value}
    (h : List.Forall₂ (Value.SameAt .field) added added') :
    Agree Session.Alike (runSelect self added) (runSelect self added') Eq := by
  refine (Run.editBuilder_agree self fun b b' hb => Builder.addFields_alike h hb).bind
    fun _ _ _ => (Run.builder_agree self).bind fun b b' hb => ?_
  have htext : b.selectText = b'.selectText := by
    rw [← b.selectText_redact, hb, b'.selectText_redact]
  have hlength : b.bindings.length = b'.bindings.length := by
    rw [← b.length_bindings_redact, hb, b'.length_bindings_redact]
  refine (Run.ofExcept_agree (.of_eq htext)).bind fun sql _ hsql => ?_
  subst hsql
  rw [hlength]
  exact (Run.record_agree _).bind fun _ _ _ => .pure rfl

theorem runDelete_agree (self : Nat) :
    Agree Session.Alike (runDelete self) (runDelete self) Eq := by
  rw [runDelete_eq]
  refine (Run.builder_agree self).bind fun b b' hb => ?_
  have htext : b.deleteText = b'.deleteText := by
    rw [← b.deleteText_redact, hb, b'.deleteText_redact]
  have hlength : b.bindings.length = b'.bindings.length := by
    rw [← b.length_bindings_redact, hb, b'.length_bindings_redact]
  have hempty : b.filters.isEmpty = b'.filters.isEmpty := by
    rw [← b.isEmpty_filters_redact, hb, b'.isEmpty_filters_redact]
  have refusal : Agree Session.Alike
      (if b'.filters.isEmpty then Run.record .refusedDelete else pure ())
      (if b'.filters.isEmpty then Run.record .refusedDelete else pure ()) Eq := by
    split
    · exact Run.record_agree _
    · exact .pure rfl
  rw [hempty, hlength]
  refine refusal.bind fun _ _ _ => (Run.ofExcept_agree (.of_eq htext)).bind fun sql _ hsql => ?_
  subst hsql
  exact (Run.record_agree _).bind fun _ _ _ => .pure rfl

/-- **Commands that are the same but for data have outcomes that are.** -/
theorem Command.Alike.run_agree {k k' : Command} (h : k.Alike k') (hk : k.nests = false)
    (invoke invoke' : Invoke) (self : Nat) :
    Agree Session.Alike (k.run invoke self) (k'.run invoke' self) Reply.Alike := by
  have bound : ∀ {b b' : Builder}, b.redact = b'.redact →
      Value.redactBound b.bindings = Value.redactBound b'.bindings := by
    intro b b' hb
    rw [← b.bindings_redact, hb, b'.bindings_redact]
  cases h with
  | table h =>
    rename_i name name'
    have htable : BoundSql.Alike (fun f g => f.redact = g.redact)
        name.asColumn name'.asColumn :=
      .of_map (by rw [← name.asColumn_redact, h, name'.asColumn_redact])
    refine (Run.ofExcept_agree htable).bind fun f g hf => ?_
    refine (Run.modifyBuilder_agree self fun b b' hb => ?_).bind fun _ _ _ => .pure .builder
    show { b.redact with table := some f.redact } = { b'.redact with table := some g.redact }
    rw [hb, hf]
  | fields h =>
    exact (Run.editBuilder_agree self fun b b' hb => Builder.addFields_alike h hb).bind
      fun _ _ _ => .pure .builder
  | filter hleft hright hoperator =>
    rename_i left left' right right' operator operator'
    have hadd := addFilter_agree self
      (fun left => Filter.make left right operator (.str "") (.str ""))
      (fun left => Filter.make left right' operator' (.str "") (.str "")) hleft
      (Filter.make_agree hleft hright hoperator rfl rfl)
    exact hadd.bind fun _ _ _ => .pure .builder
  | join h =>
    rename_i args args'
    have hjoin : BoundSql.Alike (fun j j' => j.redact = j'.redact) (joinOfArguments args)
        (joinOfArguments args') :=
      .of_map (by rw [← joinOfArguments_redact, map_eq_of_forall₂ h, joinOfArguments_redact])
    refine (Run.ofExcept_agree hjoin).bind fun j j' hj => ?_
    refine (Run.modifyBuilder_agree self fun b b' hb => ?_).bind fun _ _ _ => .pure .builder
    have hjoins : (b.joins ++ [j]).map Join.redact = (b'.joins ++ [j']).map Join.redact :=
      map_redact_concat (congrArg Builder.joins hb) hj
    show { b.redact with joins := (b.joins ++ [j]).map Join.redact } =
      { b'.redact with joins := (b'.joins ++ [j']).map Join.redact }
    rw [hb, hjoins]
  | limit h => exact (setLimit_agree self h).bind fun _ _ _ => .pure .builder
  | offset h =>
    rename_i number number'
    refine (Run.modifyBuilder_agree self fun b b' hb => ?_).bind fun _ _ _ => .pure .builder
    show { b.redact with offset := number.toOption.map (Value.redact .plain) } =
      { b'.redact with offset := number'.toOption.map (Value.redact .plain) }
    rw [hb, ← number.toOption_redact, h, number'.toOption_redact]
  | order h =>
    rename_i clauses clauses'
    refine (Run.modifyBuilder_agree self fun b b' hb => ?_).bind fun _ _ _ => .pure .builder
    have horder := map_redact_append (congrArg Builder.order hb) (map_eq_of_forall₂ h)
    show { b.redact with order := (b.order ++ clauses).map (Value.redact .plain) } =
      { b'.redact with order := (b'.order ++ clauses').map (Value.redact .plain) }
    rw [hb, horder]
  | groupBy h =>
    rename_i clauses clauses'
    refine (Run.modifyBuilder_agree self fun b b' hb => ?_).bind fun _ _ _ => .pure .builder
    have hgroups := map_redact_append (congrArg Builder.groups hb) (map_eq_of_forall₂ h)
    show { b.redact with groups := (b.groups ++ clauses).map (Value.redact .plain) } =
      { b'.redact with groups := (b'.groups ++ clauses').map (Value.redact .plain) }
    rw [hb, hgroups]
  | paranoid h =>
    rw [run_paranoid, run_paranoid]
    refine (Run.builder_agree self).bind fun b b' hb => ?_
    refine (Run.ofExcept_agree (Builder.absenceTarget_alike hb h)).bind fun column column' hc => ?_
    have habsent : BoundSql.Alike (fun c d => c.redact = d.redact) (Filter.absent column)
        (Filter.absent column') :=
      .of_map (by rw [← Filter.absent_redact, hc, Filter.absent_redact])
    exact (addFilter_agree self _ _ hc (Agree.ofExcept habsent)).bind fun _ _ _ => .pure .builder
  | select h =>
    refine (runSelect_agree self h).bind fun sql _ hsql => .pure ?_
    subst hsql
    exact .value rfl
  | delete =>
    refine (runDelete_agree self).bind fun sql _ hsql => .pure ?_
    subst hsql
    exact .value rfl
  | compileSelect h =>
    refine (runSelect_agree self h).bind fun sql _ hsql => ?_
    subst hsql
    exact (Run.builder_agree self).bind fun b b' hb => .pure (.compiled sql (bound hb))
  | compileDelete =>
    refine (runDelete_agree self).bind fun sql _ hsql => ?_
    subst hsql
    exact (Run.builder_agree self).bind fun b b' hb => .pure (.compiled sql (bound hb))
  | bindings => exact (Run.builder_agree self).bind fun b b' hb => .pure (.bindings (bound hb))
  | subSelect h hlabel => cases hk
  | union h hm => cases hk
  | clampLimit h =>
    refine (Run.builder_agree self).bind fun b b' hb => ?_
    refine (Run.ofExcept_agree (.of_eq (Builder.properOptions_alike hb))).bind fun o _ ho => ?_
    subst ho
    refine (Run.ofExcept_agree (.of_map ?_)).bind fun v w hv => .pure (.value hv)
    rw [← o.clamp_redact, h, o.clamp_redact]
  | options =>
    exact (Run.builder_agree self).bind fun b b' hb =>
      .pure (.value (congrArg Builder.options hb))

theorem Command.Alike.nests_eq {k k' : Command} (h : k.Alike k') : k.nests = k'.nests := by
  cases h <;> rfl

/-- **Commands that are the same but for data are carried out abreast.** Each is a happening, or a
construction in all but name. -/
theorem Command.Alike.runNoted_abreast {invoke invoke' : Invoke} (hi : invoke.Abreast invoke')
    {k k' : Command} (h : k.Alike k') (self : Nat) :
    Run.Abreast self (k.runNoted invoke self) (k'.runNoted invoke' self) Reply.Alike := by
  cases hk : k.nests with
  | false =>
    intro s s' hs hself
    have hk' : k'.nests = false := h.nests_eq.symm.trans hk
    have hself' : self < s'.builders.length := hs.length_builders ▸ hself
    have hrun : Agree Session.Alike (k.runNoted invoke self) (k'.runNoted invoke' self)
        Reply.Alike :=
      (Run.note_agree (.command self h)).bind fun _ _ _ => h.run_agree hk invoke invoke' self
    obtain ⟨hr, ht⟩ := hrun s s' hs
    exact ⟨hr, ht, _, _, .called hself invoke hk, .called hself' invoke' hk',
      .cons (.called self h hr) .nil⟩
  | true =>
    have noted : Run.Abreast self (Run.note (.command self k)) (Run.note (.command self k')) Eq :=
      .note (.command self h) (by simp [Event.command?, hk])
        (by simp [Event.command?, ← h.nests_eq, hk])
    refine noted.bind fun _ _ _ => ?_
    cases h with
    | subSelect h hlabel =>
      exact ((Construction.Alike.ownSubSelect h hlabel).run_abreast hi []).bind
        fun _ _ hv => .pure (.value hv)
    | union h hm =>
      exact ((Construction.Alike.ownUnion h hm).run_abreast hi []).bind
        fun _ _ hv => .pure (.value hv)
    | _ => cases hk

end BoundSql

import BoundSql.Proofs.RenamedValues

/-!
# Texts and maps of what is renamed

The text of a renamed fragment is the renamed text, or the same fault, and what it binds is renamed
in the names and otherwise stands in the same order. Each induction follows the derivation that
something is renamed, and so the function that it is about.

A text is put together from values that are texts already, among them texts that were rendered
before. So what is joined is either a value, renamed, or a text, renamed (`Value.Written`).

For maps the renaming has to keep names apart: an entry replaces the one that has its name and no
other, before as after.
-/

set_option autoImplicit false

namespace BoundSql

variable {ρ : Renaming}

/-! ## What is written -/

/-- The second of two values that are written is the first one, renamed: as a value, or, if it is a
text that was rendered, in the references in it. -/
inductive Value.Written (ρ : Renaming) : Value → Value → Prop where
  | value {v v' : Value} (h : v.Renamed ρ v') : Written ρ v v'
  | text {s t : String} (h : ρ.Texts s t) : Written ρ (.str s) (.str t)

namespace Value.Written

variable {v v' : Value}

theorem isTruthy_eq (h : v.Written ρ v') : v'.isTruthy = v.isTruthy := by
  cases h with
  | value h => exact h.isTruthy_eq
  | text h => exact congrArg Bool.not h.isEmpty_eq.symm

theorem word? (h : v.Written ρ v') : ρ.Results ρ.Texts v.word? v'.word? := by
  cases h with
  | text h => exact .ok h
  | value h =>
    cases h with
    | str s => exact .ok (.refl s)
    | _ => exact .fault _

end Value.Written

theorem joinPresent_renamed {parts parts' : List Value}
    (h : List.Forall₂ (Value.Written ρ) parts parts') :
    ρ.Results ρ.Texts (joinPresent parts) (joinPresent parts') := by
  have hpresent : List.Forall₂ (Value.Written ρ) (parts.filter Value.isTruthy)
      (parts'.filter Value.isTruthy) := by
    refine List.rel_filter (fun v v' hv => ?_) h
    exact iff_of_eq (congrArg (· = true) hv.isTruthy_eq.symm)
  exact (Renaming.Results.mapM hpresent fun _ _ => Value.Written.word?).bind fun _ _ hwords =>
    .ok (.separated " " hwords)

theorem unionKeyword_renamed {modifier modifier' : Value} (h : modifier.Renamed ρ modifier') :
    ρ.Results ρ.Texts (unionKeyword modifier) (unionKeyword modifier') :=
  joinPresent_renamed (.cons (.value (.str "UNION")) (.cons (.value h) .nil))

theorem SubSelect.Renamed.text {s s' : SubSelect} (h : s.Renamed ρ s') :
    ρ.Texts s.text s'.text := by
  cases h with
  | mk hsql label hbound =>
    cases label with
    | none => exact ((Renaming.Texts.refl "(").append hsql).append (.refl _)
    | some label =>
      exact (((Renaming.Texts.refl "(").append hsql).append (.refl _)).append (.refl _)

theorem tupleText_renamed {ss ts : List String} (h : List.Forall₂ ρ.Texts ss ts) :
    ρ.Texts (tupleText ss) (tupleText ts) := by
  have many : ∀ {ss ts : List String}, List.Forall₂ ρ.Texts ss ts →
      ρ.Texts ("(" ++ ", ".intercalate ss ++ ")") ("(" ++ ", ".intercalate ts ++ ")") := fun h =>
    ((Renaming.Texts.refl _).append (.separated ", " h)).append (.refl _)
  cases h with
  | nil => exact many .nil
  | cons hs hrest =>
    cases hrest with
    | nil => exact ((Renaming.Texts.refl _).append hs).append (.refl _)
    | cons hs' hrest => exact many (.cons hs (.cons hs' hrest))

theorem Connective.joined_renamed (c : Connective) {ss ts : List String}
    (h : List.Forall₂ ρ.Texts ss ts) : ρ.Texts (c.joined ss) (c.joined ts) := by
  cases h with
  | nil => exact .refl _
  | cons hs hrest =>
    cases hrest with
    | nil => exact hs
    | cons hs' hrest =>
      exact ((Renaming.Texts.refl _).append (.separated _ (.cons hs (.cons hs' hrest)))).append
        (.refl _)

theorem braced_renamed {s t : String} (h : ρ.Texts s t) : ρ.Texts (braced s) (braced t) :=
  ((Renaming.Texts.refl _).append h).append (.refl _)

/-! ## Texts -/

mutual

/-- **The text of a renamed value is the text, renamed.** -/
theorem Value.Renamed.render (form : Form) : {v v' : Value} → v.Renamed ρ v' →
    ρ.Results ρ.Texts (v.render form) (v'.render form)
  | .list _, _, .list h => (Value.renderAll_renamed .quoted h).bind fun _ _ hts =>
    .ok (((Renaming.Texts.refl "[").append (.separated ", " hts)).append (.refl _))
  | .tuple _, _, .tuple h => (Value.renderAll_renamed .quoted h).bind fun _ _ hts =>
    .ok (tupleText_renamed hts)
  | .dict _, _, .dict h => (Value.renderEntries_renamed h).bind fun _ _ hts =>
    .ok (braced_renamed (.separated ", " hts))
  | .fragment _ _, _, .fragment h _ => h.text.bind fun _ _ hsql => by
    cases form with
    | bare => exact .ok hsql
    | quoted =>
      refine .ok (Renaming.Texts.append ?_ (.refl _))
      rw [h.className_eq]
      exact (Renaming.Texts.refl _).append hsql.quoted
  | .null, _, .null | .bool _, _, .bool _ | .int _, _, .int _ | .float _, _, .float _
  | .nan _, _, .nan _ | .str _, _, .str _ | .bytes _, _, .bytes _ | .joinKind _, _, .joinKind _
  | .options _, _, .options _ | .callback _ _, _, .callback _ _ =>
    Renaming.Results.refl Renaming.Texts.refl _
termination_by structural v => v

theorem Value.renderAll_renamed (form : Form) : {vs vs' : List Value} →
    List.Forall₂ (Value.Renamed ρ) vs vs' →
    ρ.Results (List.Forall₂ ρ.Texts) (Value.renderAll form vs) (Value.renderAll form vs')
  | [], _, .nil => .ok .nil
  | _ :: _, _, .cons h hs => (h.render form).bind fun _ _ ht =>
    (Value.renderAll_renamed form hs).bind fun _ _ hts => .ok (.cons ht hts)
termination_by structural vs => vs

theorem Value.renderEntries_renamed : {es es' : List (Value × Value)} →
    List.Forall₂ (Value.RenamedEntry ρ) es es' →
    ρ.Results (List.Forall₂ ρ.Texts) (Value.renderEntries es) (Value.renderEntries es')
  | [], _, .nil => .ok .nil
  | _ :: _, _, .cons h hs => h.render.bind fun _ _ ht =>
    (Value.renderEntries_renamed hs).bind fun _ _ hts => .ok (.cons ht hts)
termination_by structural es => es

theorem Value.RenamedEntry.render : {e e' : Value × Value} → Value.RenamedEntry ρ e e' →
    ρ.Results ρ.Texts (Value.renderEntry e) (Value.renderEntry e')
  | (_, _), _, .mk hk hv => (hk.render .quoted).bind fun _ _ ht =>
    (hv.render .quoted).bind fun _ _ hu => .ok ((ht.append (.refl _)).append hu)
termination_by structural e => e

/-- **The text of a renamed fragment is the text, renamed.** -/
theorem Fragment.Renamed.text : {f f' : Fragment} → f.Renamed ρ f' →
    ρ.Results ρ.Texts f.text f'.text
  | .column _, _, .column _ | .null, _, .null => .ok (.refl _)
  | .placeholder _ _, _, .placeholder hp _ => .ok (.token hp)
  | .raw _, _, .raw h => (Value.renderAll_renamed .bare h).bind fun _ _ hts =>
    .ok (.separated " " hts)
  | .cast _ _, _, .cast hf htype => hf.text.bind fun _ _ hsql =>
    (htype.render .bare).bind fun _ _ ht => .ok ((hsql.append (.refl _)).append ht)
  | .function _ _, _, .function hname hargs => (hname.render .bare).bind fun _ _ hname =>
    (Fragment.texts_renamed hargs).bind fun _ _ hargs =>
      .ok (((hname.append (.refl _)).append (.separated ", " hargs)).append (.refl _))
  | .filter _, _, .filter h => h.text
  | .projection _ _, _, .projection hf hlabel => by
    have hsql := hf.text
    have hl := hlabel.render .bare
    cases hlabel with
    | null => exact hsql.bind fun _ _ hsql => .ok hsql
    | _ =>
      exact hsql.bind fun _ _ hsql => hl.bind fun _ _ hl => .ok ((hsql.append (.refl _)).append hl)
  | .group _ _, _, .group c h => (Value.renderAll_renamed .bare h).bind fun _ _ hts =>
    .ok (c.joined_renamed hts)
  | .subSelect _, _, .subSelect h => .ok h.text
  | .union _ _ _, _, .union htexts hmodifier _ => by
    refine (unionKeyword_renamed hmodifier).bind fun k k' hk => ?_
    have hseparator : ρ.Texts (" " ++ k ++ " ") (" " ++ k' ++ " ") :=
      ((Renaming.Texts.refl " ").append hk).append (.refl " ")
    exact .ok (hseparator.intercalate htexts)
  | .join _, _, .join h => h.text
  | .branch _, _, .branch h => h.text
  | .fallback _, _, .fallback h => .ok ((Renaming.Texts.refl "ELSE ").append h.text)
  | .choice _ _ _, _, .choice name hbranches hlast => by
    refine (Branch.texts_renamed hbranches).bind fun _ _ hts => ?_
    refine .ok (.joinWords (.cons (.refl _) (.cons (.separated " " hts) (.cons ?_
      (.cons (.refl _) (.cons (.refl _) .nil))))))
    cases hlast with
    | none => exact .refl _
    | some h => exact (Renaming.Texts.refl "ELSE ").append h.text
termination_by structural f => f

theorem Fragment.texts_renamed : {fs fs' : List Fragment} →
    List.Forall₂ (Fragment.Renamed ρ) fs fs' →
    ρ.Results (List.Forall₂ ρ.Texts) (Fragment.texts fs) (Fragment.texts fs')
  | [], _, .nil => .ok .nil
  | _ :: _, _, .cons h hs => h.text.bind fun _ _ ht =>
    (Fragment.texts_renamed hs).bind fun _ _ hts => .ok (.cons ht hts)
termination_by structural fs => fs

theorem Fragment.text?_renamed : {f f' : Option Fragment} →
    Option.Rel (Fragment.Renamed ρ) f f' →
    ρ.Results (Option.Rel ρ.Texts) (Fragment.text? f) (Fragment.text? f')
  | none, _, .none => .ok .none
  | some _, _, .some h => h.text.bind fun _ _ ht => .ok (.some ht)
termination_by structural f => f

theorem Filter.Renamed.text : {c c' : Filter} → c.Renamed ρ c' → ρ.Results ρ.Texts c.text c'.text
  | ⟨_, _, _, _, _⟩, _, .mk hleft hright hoperator hbefore hafter => hleft.text.bind fun _ _ hl =>
    (Fragment.text?_renamed hright).bind fun _ _ hr => by
      refine joinPresent_renamed (.cons (.value hbefore) (.cons (.text hl) (List.rel_append ?_
        (.cons (.value hafter) .nil))))
      cases hr with
      | none => exact .nil
      | some hr => exact .cons (.value hoperator) (.cons (.text hr) .nil)
termination_by structural c => c

theorem Join.Renamed.text : {j j' : Join} → j.Renamed ρ j' → ρ.Results ρ.Texts j.text j'.text
  | ⟨_, _, _, _, _⟩, _, .mk _ hkind htable label hcondition => by
    have htable := htable.text
    have hcondition := Fragment.text?_renamed hcondition
    cases hkind with
    | joinKind k =>
      refine htable.bind fun _ _ ht => hcondition.bind fun _ _ hc => .ok (.joinWords ?_)
      refine List.rel_append (.cons (.refl _) (.cons (.refl _) (.cons (.refl _) (.cons ht
        (.cons (.refl _) .nil))))) ?_
      cases hc with
      | none => exact .nil
      | some hc => exact .cons (.refl "ON") (.cons hc .nil)
    | _ => exact .fault _
termination_by structural j => j

theorem Branch.Renamed.text : {b b' : Branch} → b.Renamed ρ b' → ρ.Results ρ.Texts b.text b'.text
  | ⟨_, _⟩, _, .mk hc hs => hc.text.bind fun _ _ ht =>
    .ok ((((Renaming.Texts.refl "WHEN ").append ht).append (.refl _)).append hs.text)
termination_by structural b => b

theorem Branch.texts_renamed : {bs bs' : List Branch} → List.Forall₂ (Branch.Renamed ρ) bs bs' →
    ρ.Results (List.Forall₂ ρ.Texts) (Branch.texts bs) (Branch.texts bs')
  | [], _, .nil => .ok .nil
  | _ :: _, _, .cons h hs => h.text.bind fun _ _ ht =>
    (Branch.texts_renamed hs).bind fun _ _ hts => .ok (.cons ht hts)
termination_by structural bs => bs

end

/-! ## Maps -/

namespace Bindings

variable {b b' c c' : Bindings}

/-- An entry replaces the one of its name, before as after. -/
theorem insert_renamed {e e' : Value × Value} (he : Value.RenamedBinding ρ e e')
    (hb : Renamed ρ b b') : Renamed ρ (Entries.insert e.1 e.2 b) (Entries.insert e'.1 e'.2 b') := by
  induction hb with
  | nil => exact .cons he .nil
  | @cons x x' b b' hx hb ih =>
    cases he with
    | @mk p p' hp v v' hv =>
      cases hx with
      | @mk q q' hq w w' hw =>
        have hsame : (Value.str q'.name == .str p'.name) = (Value.str q.name == .str p.name) := by
          rw [Value.beq_str, Value.beq_str, Bool.eq_iff_iff, beq_iff_eq, beq_iff_eq]
          exact (ρ.apart hq hp).symm
        unfold Entries.insert
        rw [hsame]
        split
        · exact .cons (.mk hq hv) hb
        · exact .cons (.mk hq hw) ih

theorem merge_renamed (hb : Renamed ρ b b') (hc : Renamed ρ c c') :
    Renamed ρ (Entries.merge b c) (Entries.merge b' c') := by
  induction hc generalizing b b' with
  | nil => exact hb
  | cons he _ ih => exact ih (insert_renamed he hb)

theorem mergeAll_renamed {bs bs' : List Bindings} (h : List.Forall₂ (Renamed ρ) bs bs') :
    Renamed ρ (Entries.mergeAll bs) (Entries.mergeAll bs') := by
  have onto : ∀ {b b' : Bindings}, Renamed ρ b b' →
      Renamed ρ (bs.foldl Entries.merge b) (bs'.foldl Entries.merge b') := by
    induction h with
    | nil => exact id
    | cons hc _ ih => exact fun hb => ih (merge_renamed hb hc)
  exact onto .nil

theorem mergeAll_pair_renamed (hb : Renamed ρ b b') (hc : Renamed ρ c c') :
    Renamed ρ (Entries.mergeAll [b, c]) (Entries.mergeAll [b', c']) :=
  mergeAll_renamed (.cons hb (.cons hc .nil))

end Bindings

theorem SubSelect.Renamed.bound {s s' : SubSelect} (h : s.Renamed ρ s') :
    Bindings.Renamed ρ s.bound s'.bound := by
  cases h with
  | mk _ _ hbound => exact hbound

mutual

/-- **What a renamed fragment binds is renamed in its names**, in the same order. -/
theorem Fragment.Renamed.bindings : {f f' : Fragment} → f.Renamed ρ f' →
    Bindings.Renamed ρ f.bindings f'.bindings
  | .column _, _, .column _ | .null, _, .null => .nil
  | .placeholder _ _, _, .placeholder hp hv => .cons (.mk hp hv) .nil
  | .raw _, _, .raw h | .group _ _, _, .group _ h =>
    Bindings.mergeAll_renamed (Value.bindingsEach_renamed h)
  | .cast _ _, _, .cast hf _ | .projection _ _, _, .projection hf _ => hf.bindings
  | .function _ _, _, .function _ hargs =>
    Bindings.mergeAll_renamed (Fragment.bindingsEach_renamed hargs)
  | .filter _, _, .filter h => h.bindings
  | .subSelect _, _, .subSelect h | .fallback _, _, .fallback h => h.bound
  | .union _ _ _, _, .union _ _ hbound => hbound
  | .join _, _, .join h => h.bindings
  | .branch _, _, .branch h => h.bindings
  | .choice _ _ _, _, .choice _ hbranches hlast => by
    refine Bindings.mergeAll_renamed (List.rel_append (Branch.bindingsEach_renamed hbranches) ?_)
    cases hlast with
    | none => exact .nil
    | some h => exact .cons h.bound .nil
termination_by structural f => f

theorem Fragment.bindingsEach_renamed : {fs fs' : List Fragment} →
    List.Forall₂ (Fragment.Renamed ρ) fs fs' →
    List.Forall₂ (Bindings.Renamed ρ) (Fragment.bindingsEach fs) (Fragment.bindingsEach fs')
  | [], _, .nil => .nil
  | _ :: _, _, .cons h hs => .cons h.bindings (Fragment.bindingsEach_renamed hs)
termination_by structural fs => fs

theorem Fragment.bindings?_renamed : {f f' : Option Fragment} →
    Option.Rel (Fragment.Renamed ρ) f f' →
    Bindings.Renamed ρ (Fragment.bindings? f) (Fragment.bindings? f')
  | none, _, .none => .nil
  | some _, _, .some h => h.bindings
termination_by structural f => f

theorem Value.Renamed.bindings : {v v' : Value} → v.Renamed ρ v' →
    Bindings.Renamed ρ v.bindings v'.bindings
  | .fragment _ _, _, .fragment h _ => h.bindings
  | .list _, _, .list _ | .tuple _, _, .tuple _ | .dict _, _, .dict _ | .null, _, .null
  | .bool _, _, .bool _ | .int _, _, .int _ | .float _, _, .float _ | .nan _, _, .nan _
  | .str _, _, .str _ | .bytes _, _, .bytes _ | .joinKind _, _, .joinKind _
  | .options _, _, .options _ | .callback _ _, _, .callback _ _ => .nil
termination_by structural v => v

theorem Value.bindingsEach_renamed : {vs vs' : List Value} →
    List.Forall₂ (Value.Renamed ρ) vs vs' →
    List.Forall₂ (Bindings.Renamed ρ) (Value.bindingsEach vs) (Value.bindingsEach vs')
  | [], _, .nil => .nil
  | _ :: _, _, .cons h hs => .cons h.bindings (Value.bindingsEach_renamed hs)
termination_by structural vs => vs

theorem Filter.Renamed.bindings : {c c' : Filter} → c.Renamed ρ c' →
    Bindings.Renamed ρ c.bindings c'.bindings
  | ⟨_, _, _, _, _⟩, _, .mk hleft hright _ _ _ =>
    Bindings.mergeAll_pair_renamed hleft.bindings (Fragment.bindings?_renamed hright)
termination_by structural c => c

theorem Join.Renamed.bindings : {j j' : Join} → j.Renamed ρ j' →
    Bindings.Renamed ρ j.bindings j'.bindings
  | ⟨_, _, _, _, _⟩, _, .mk _ _ htable _ hcondition =>
    Bindings.mergeAll_pair_renamed htable.bindings (Fragment.bindings?_renamed hcondition)
termination_by structural j => j

theorem Branch.Renamed.bindings : {b b' : Branch} → b.Renamed ρ b' →
    Bindings.Renamed ρ b.bindings b'.bindings
  | ⟨_, _⟩, _, .mk hc hs => Bindings.mergeAll_pair_renamed hc.bindings hs.bound
termination_by structural b => b

theorem Branch.bindingsEach_renamed : {bs bs' : List Branch} →
    List.Forall₂ (Branch.Renamed ρ) bs bs' →
    List.Forall₂ (Bindings.Renamed ρ) (Branch.bindingsEach bs) (Branch.bindingsEach bs')
  | [], _, .nil => .nil
  | _ :: _, _, .cons h hs => .cons h.bindings (Branch.bindingsEach_renamed hs)
termination_by structural bs => bs

end

end BoundSql

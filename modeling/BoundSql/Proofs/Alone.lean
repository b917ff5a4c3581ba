import BoundSql.Proofs.Nesting

/-!
# Nested statements by the runs of their callbacks alone

A nested statement is described without the session it is made in: run the callback on a builder of
its own (`Callback.alone`), put the text it answers with in brackets, and take over what that
builder has bound. For a union this is done callback by callback, and each run starts where the one
before it has left off (`Answers`); the first run that fails, or answers with no text, ends it.

What a session keeps of such a run is all of it (`Session.host`): its draws and records, and its
builders under the names they were given. Only the history holds more events than those of the run,
and nothing reads the history.
-/

set_option autoImplicit false

namespace BoundSql

/-- What a callback does by itself, on a builder with the given options, from where `s` is. -/
def Callback.alone (depth : Nat) (options : Value) (c : Callback) (s : Session) :
    Except Fault Reply × Session :=
  (Callback.run depth c Session.root).exec (s.alone options)

/-- The text that an answer has to be, to be a nested statement of the class `className`. -/
def Reply.nestedText (className : String) : Reply → Except Fault String
  | .value (.str sql) => .ok sql
  | reply => .error (.misuse (.answerNotStatement className reply.typeName))

theorem Reply.nestedText_of_ne {reply : Reply} (h : ∀ sql, reply ≠ .value (.str sql))
    (className : String) :
    reply.nestedText className =
      .error (.misuse (.answerNotStatement className reply.typeName)) := by
  unfold nestedText
  split
  · exact absurd rfl (h _)
  · rfl

theorem Reply.eq_of_nestedText {className : String} {r : Except Fault Reply} {sql : String}
    (h : (r >>= Reply.nestedText className) = .ok sql) : r = .ok (.value (.str sql)) := by
  obtain ⟨reply, rfl, hreply⟩ := Except.bind_eq_ok.mp h
  unfold nestedText at hreply
  split at hreply
  · cases hreply
    rfl
  · cases hreply

/-- Callbacks are run by themselves from left to right, each from where the one before it has left
off, and all of them answer with a text. What they answer comes with what their builders have bound
by then. -/
inductive Answers (depth : Nat) (options : Value) :
    Session → List Callback → List (String × Bindings) → Session → Prop where
  | nil (s : Session) : Answers depth options s [] [] s
  | cons {s u t : Session} {c : Callback} {sql : String} {cs : List Callback}
      {members : List (String × Bindings)}
      (head : c.alone depth options s = (.ok (.value (.str sql)), u))
      (tail : Answers depth options (s.host u) cs members t) :
      Answers depth options s (c :: cs) ((sql, (u.builder Session.root).bindings) :: members) t

namespace Construction

/-- The construction asks for the nested statement of a callback, with the options that it is given,
or those of the builder at hand. -/
def SubSelects (s : Session) (self : Nat) (options callback label : Value) (k : Construction) :
    Prop :=
  k = .subSelect callback label options ∨
    k = .ownSubSelect callback label ∧ (s.builder self).options = options

/-- The construction asks for the union of the nested statements of callbacks, likewise. -/
def Unites (s : Session) (self : Nat) (options callbacks modifier : Value) (k : Construction) :
    Prop :=
  k = .union callbacks modifier options ∨
    k = .ownUnion callbacks modifier ∧ (s.builder self).options = options

end Construction

/-- What stands between two members of a union; a modifier that is empty counts as absent. -/
def unionSeparator : Option String → String
  | none | some "" => " UNION "
  | some modifier => " UNION " ++ modifier ++ " "

theorem Fragment.text_union (members : List String) (modifier : Option String) (bound : Bindings) :
    (Fragment.union members (modifier.elim .null .str) bound).text =
      .ok ((unionSeparator modifier).intercalate members) := by
  match modifier with
  | none => rfl
  | some m =>
    by_cases hm : m = ""
    · subst hm
      rfl
    · have htruthy : (Value.str m).isTruthy = true := by simpa [Value.isTruthy] using hm
      have hkeyword : unionKeyword (.str m) = .ok ("UNION" ++ " " ++ m) := by
        have hunion : (Value.str "UNION").isTruthy = true := by decide
        simp only [unionKeyword, joinPresent, List.filter, hunion, htruthy]
        rfl
      have hseparator : unionSeparator (some m) = " " ++ ("UNION" ++ " " ++ m) ++ " " := by
        simp [unionSeparator, ← String.append_assoc]
      simp only [Fragment.text, Option.elim_some, hkeyword, hseparator]
      rfl

theorem SubSelect.text_eq (sql : String) (label : Option String) (bound : Bindings) :
    SubSelect.text ⟨sql, label, bound⟩ =
      "(" ++ sql ++ ")" ++ label.elim "" fun name => " AS " ++ Identifier.quote name := by
  cases label with
  | none => simp [text]
  | some name =>
    have hsplit : ") AS " = ")" ++ " AS " := rfl
    simp only [text, hsplit, Option.elim_some, String.append_assoc]

section Runs

variable {depth : Nat} {options : Value} {s : Session}

/-- A callback that is run on a new builder of a session. -/
theorem Callback.exec_beside (depth : Nat) (options : Value) (c : Callback) (s : Session) :
    (Callback.run depth c s.builders.length).exec
        { s with builders := s.builders ++ [.empty (givenOptions options)] } =
      ((c.alone depth options s).1, s.host (c.alone depth options s).2) := by
  obtain ⟨hreply, hsession, -⟩ :=
    Callback.run_hosted s depth c Session.root _ _ (s.hosts_alone options)
  exact Prod.ext hreply.eq.symm hsession

/-- **A nested run is the run of its callback alone**, beside the builders of the session. -/
theorem exec_runNested (className : String) (made : Origin) {c : Callback}
    {r : Except Fault Reply} {u : Session} (h : c.alone depth options s = (r, u)) :
    ∃ history, (runNested (Callback.run depth) className options (.callback c made)).exec s =
      ((r >>= Reply.nestedText className).map fun sql =>
        (sql, (u.builder Session.root).bindings), { s.host u with history }) := by
  have hrun := Callback.exec_beside depth options c s
  have hbuilder : (s.host u).builder s.builders.length = u.builder Session.root :=
    s.builder_host u Session.root
  rw [h] at hrun
  simp only [runNested, Run.exec_bind, Run.exec_newBuilder, hrun]
  cases r with
  | error fault => exact ⟨_, rfl⟩
  | ok reply =>
    cases reply with
    | builder => exact ⟨_, rfl⟩
    | value v =>
      cases v with
      | str sql =>
        simp only [Run.exec_bind, Run.exec_builder, Run.exec_note, hbuilder]
        exact ⟨_, rfl⟩
      | _ => exact ⟨_, rfl⟩

/-- A construction that makes something new is no more than the making of it, but for the
history. -/
theorem Construction.exec_run_of_make {invoke : Invoke} {self : Nat} {k : Construction}
    (hk : ∀ v, k ≠ .asColumn v) {r : Except Fault Fragment} {s' : Session}
    (h : (k.make invoke self).exec { s with history := s.history ++ [.construction k] } = (r, s'))
    (origin : Origin) :
    ∃ history, (k.run invoke self origin).exec s =
      (r.map fun f => .fragment f origin, { s' with history }) := by
  have hrun : (k.run invoke self origin).exec s = (do
        let f ← k.make invoke self
        Run.note (.fragment f)
        return Value.fragment f origin : Run Value).exec
          { s with history := s.history ++ [.construction k] } := by
    cases k with
    | asColumn v => exact absurd rfl (hk v)
    | _ => rfl
  rw [hrun, Run.exec_bind, h]
  cases r with
  | error fault => exact ⟨_, rfl⟩
  | ok f => exact ⟨_, rfl⟩

/-! ## Nested statements -/

/-- **A nested statement is made of what its callback does alone.** -/
theorem exec_subSelect {self : Nat} {k : Construction} {c : Callback} {made : Origin}
    {name : Option String} {r : Except Fault Reply} {u : Session}
    (hk : k.SubSelects s self options (.callback c made) (name.elim .null .str))
    (h : c.alone depth options s = (r, u)) (origin : Origin) :
    ∃ history, (k.run (Callback.run depth) self origin).exec s =
      ((r >>= Reply.nestedText "SubSelect").map fun sql =>
        .fragment (.subSelect ⟨sql, name, (u.builder Session.root).bindings⟩) origin,
        { s.host u with history }) := by
  have hname : (name.elim Value.null .str).name? = .ok name := by cases name <;> rfl
  obtain ⟨history, hnested⟩ := exec_runNested "SubSelect" made
    (s := { s with history := s.history ++ [.construction k] }) h
  have hmake : (k.make (Callback.run depth) self).exec
      { s with history := s.history ++ [.construction k] } =
        ((r >>= Reply.nestedText "SubSelect").map fun sql =>
          .subSelect ⟨sql, name, (u.builder Session.root).bindings⟩,
          { s.host u with history }) := by
    have hsame : (k.make (Callback.run depth) self).exec
        { s with history := s.history ++ [.construction k] } =
          (makeSubSelect (Callback.run depth) (.callback c made) (name.elim .null .str)
            options).exec { s with history := s.history ++ [.construction k] } := by
      rcases hk with rfl | ⟨rfl, rfl⟩ <;> rfl
    rw [hsame]
    simp only [makeSubSelect, hname, Run.exec_bind, Run.exec_ofExcept, hnested]
    cases r >>= Reply.nestedText "SubSelect" <;> rfl
  obtain ⟨history', hrun⟩ := k.exec_run_of_make
    (by rcases hk with rfl | ⟨rfl, -⟩ <;> exact fun v h => nomatch h) hmake origin
  refine ⟨history', hrun.trans ?_⟩
  cases r >>= Reply.nestedText "SubSelect" <;> rfl

/-! ## Unions -/

/-- Members that answer with texts are run as they are alone, and then the rest is run. -/
theorem Answers.exec_runMembers {cs : List (Callback × Origin)} {members : List (String × Bindings)}
    {t : Session} (h : Answers depth options s (cs.map (·.1)) members t) (rest : List Value)
    (history : List Event) :
    ∃ history', (runMembers (Callback.run depth) options
        (cs.map (fun c => .callback c.1 c.2) ++ rest)).exec { s with history } =
      ((members ++ ·) <$> runMembers (Callback.run depth) options rest).exec
        { t with history := history' } := by
  induction cs generalizing s members history with
  | nil =>
    cases h
    exact ⟨history, by simp⟩
  | cons c cs ih =>
    obtain ⟨c, made⟩ := c
    obtain _ | ⟨head, tail⟩ := h
    rename_i u sql members
    obtain ⟨history₁, hhead⟩ : ∃ history₁, (runNested (Callback.run depth) "Union" options
        (.callback c made)).exec { s with history } =
          (.ok (sql, (u.builder Session.root).bindings), { s.host u with history := history₁ }) :=
      exec_runNested "Union" made (s := { s with history }) head
    obtain ⟨history₂, htail⟩ := ih tail history₁
    refine ⟨history₂, ?_⟩
    simp only [List.map_cons, List.cons_append, runMembers, Run.exec_bind, hhead, htail,
      Run.exec_map]
    rcases (runMembers (Callback.run depth) options rest).exec _ with ⟨fault | more, s'⟩ <;> rfl

/-- The runs of callbacks alone all answer with texts, or one of them is the first that does not. -/
theorem answers_or_stops (depth : Nat) (options : Value) (cs : List Callback) (s : Session) :
    (∃ members t, Answers depth options s cs members t) ∨
    ∃ before c after members t, cs = before ++ c :: after ∧
      Answers depth options s before members t ∧
      ∀ sql, (c.alone depth options t).1 ≠ .ok (.value (.str sql)) := by
  induction cs generalizing s with
  | nil => exact .inl ⟨[], s, .nil s⟩
  | cons c cs ih =>
    by_cases hc : ∃ sql, (c.alone depth options s).1 = .ok (.value (.str sql))
    · obtain ⟨sql, hsql⟩ := hc
      have head : c.alone depth options s =
          (.ok (.value (.str sql)), (c.alone depth options s).2) := Prod.ext hsql rfl
      obtain ⟨members, t, h⟩ | ⟨before, c', after, members, t, rfl, h, hstop⟩ :=
        ih (s.host (c.alone depth options s).2)
      · exact .inl ⟨_, t, .cons head h⟩
      · exact .inr ⟨c :: before, c', after, _, t, rfl, .cons head h, hstop⟩
    · exact .inr ⟨[], c, cs, [], s, rfl, .nil s, fun sql h => hc ⟨sql, h⟩⟩

/-- A union begins with the runs of the members that answer with texts. -/
theorem exec_union {self : Nat} {k : Construction} {callbacks modifier : Value}
    {cs : List (Callback × Origin)} {rest : List Value} {members : List (String × Bindings)}
    {t : Session}
    (hk : k.Unites s self options callbacks modifier)
    (hitems : callbacks.items = .ok (cs.map (fun c => .callback c.1 c.2) ++ rest))
    (h : Answers depth options s (cs.map (·.1)) members t) (origin : Origin) :
    ∃ history history', (k.run (Callback.run depth) self origin).exec s =
      let (r, u) := (runMembers (Callback.run depth) options rest).exec { t with history }
      (r.map fun more => .fragment (.union ((members ++ more).map (·.1)) modifier
        (Entries.mergeAll ((members ++ more).map (·.2)))) origin, { u with history := history' }) := by
  obtain ⟨history, hmembers⟩ := h.exec_runMembers rest (s.history ++ [.construction k])
  rcases hrest : (runMembers (Callback.run depth) options rest).exec { t with history } with ⟨r, u⟩
  rw [Run.exec_map, hrest] at hmembers
  have hmake : (k.make (Callback.run depth) self).exec
      { s with history := s.history ++ [.construction k] } =
        (r.map fun more => .union ((members ++ more).map (·.1)) modifier
          (Entries.mergeAll ((members ++ more).map (·.2))), u) := by
    have hsame : (k.make (Callback.run depth) self).exec
        { s with history := s.history ++ [.construction k] } =
          (makeUnion (Callback.run depth) callbacks modifier options).exec
            { s with history := s.history ++ [.construction k] } := by
      rcases hk with rfl | ⟨rfl, rfl⟩ <;> rfl
    rw [hsame]
    simp only [makeUnion, hitems, Run.exec_bind, Run.exec_ofExcept, hmembers]
    cases r <;> rfl
  obtain ⟨history', hrun⟩ := k.exec_run_of_make
    (by rcases hk with rfl | ⟨rfl, -⟩ <;> exact fun v h => nomatch h) hmake origin
  refine ⟨history, history', hrun.trans ?_⟩
  rw [hrest]
  cases r <;> rfl

/-- A union ends with the first member that fails or answers with no text. -/
theorem exec_union_of_error {self : Nat} {k : Construction} {callbacks modifier : Value}
    {cs : List (Callback × Origin)} {before after : List Callback} {c : Callback}
    {members : List (String × Bindings)} {t u : Session} {r : Except Fault Reply} {fault : Fault}
    (hk : k.Unites s self options callbacks modifier)
    (hitems : callbacks.items = .ok (cs.map fun c => .callback c.1 c.2))
    (hcs : cs.map (·.1) = before ++ c :: after) (h : Answers depth options s before members t)
    (hc : c.alone depth options t = (r, u)) (hfault : (r >>= Reply.nestedText "Union") = .error fault)
    (origin : Origin) :
    ∃ history, (k.run (Callback.run depth) self origin).exec s =
      (.error fault, { t.host u with history }) := by
  obtain ⟨cs₁, cs₂, rfl, rfl, hcs₂⟩ := List.map_eq_append_iff.mp hcs
  obtain ⟨⟨c, made⟩, cs₃, rfl, rfl, rfl⟩ := List.map_eq_cons_iff.mp hcs₂
  rw [List.map_append] at hitems
  obtain ⟨history, history', hrun⟩ := exec_union hk hitems h origin
  obtain ⟨history₁, hnested⟩ := exec_runNested "Union" made
    (s := { t with history }) hc
  rw [hfault] at hnested
  refine ⟨history', hrun.trans ?_⟩
  simp only [List.map_cons, runMembers, Run.exec_bind, hnested]
  rfl

end Runs

/-- **A nested statement equals the stand-alone statement.** The text that a callback answers alone
stands in brackets, its faults are the faults of the nested statement, and any other answer is
refused; what is drawn, recorded, named and bound is the same. A union does so with one callback
after the other, up to the first that fails. -/
theorem nested_eq_alone (depth : Nat) (options : Value) (self : Nat) (origin : Origin)
    (s : Session) :
    (∀ {k : Construction} {c : Callback} {made : Origin} {name : Option String}
        {r : Except Fault Reply} {u : Session},
      k.SubSelects s self options (.callback c made) (name.elim .null .str) →
      c.alone depth options s = (r, u) →
      (∀ fault, r = .error fault → ∃ history,
        (k.run (Callback.run depth) self origin).exec s =
          (.error fault, { s.host u with history })) ∧
      (∀ sql, r = .ok (.value (.str sql)) → ∃ f history,
        (k.run (Callback.run depth) self origin).exec s =
          (.ok (.fragment f origin), { s.host u with history }) ∧
        f.text = .ok ("(" ++ sql ++ ")" ++
          name.elim "" fun label => " AS " ++ Identifier.quote label) ∧
        f.bindings = (u.builder Session.root).bindings) ∧
      ∀ reply, r = .ok reply → (∀ sql, reply ≠ .value (.str sql)) → ∃ history,
        (k.run (Callback.run depth) self origin).exec s =
          (.error (.misuse (.answerNotStatement "SubSelect" reply.typeName)),
            { s.host u with history })) ∧
    ∀ {k : Construction} {callbacks : Value} {cs : List (Callback × Origin)}
        {modifier : Option String},
      k.Unites s self options callbacks (modifier.elim .null .str) →
      callbacks.items = .ok (cs.map fun c => .callback c.1 c.2) →
      ((∃ v t, (k.run (Callback.run depth) self origin).exec s = (.ok v, t)) ↔
        ∃ members t, Answers depth options s (cs.map (·.1)) members t) ∧
      (∀ {members : List (String × Bindings)} {t : Session},
        Answers depth options s (cs.map (·.1)) members t → ∃ f history,
          (k.run (Callback.run depth) self origin).exec s =
            (.ok (.fragment f origin), { t with history }) ∧
          f.text = .ok ((unionSeparator modifier).intercalate (members.map (·.1))) ∧
          f.bindings = Entries.mergeAll (members.map (·.2))) ∧
      ∀ {before after : List Callback} {c : Callback} {members : List (String × Bindings)}
          {t u : Session} {r : Except Fault Reply},
        cs.map (·.1) = before ++ c :: after → Answers depth options s before members t →
        c.alone depth options t = (r, u) →
        (∀ fault, r = .error fault → ∃ history,
          (k.run (Callback.run depth) self origin).exec s =
            (.error fault, { t.host u with history })) ∧
        ∀ reply, r = .ok reply → (∀ sql, reply ≠ .value (.str sql)) → ∃ history,
          (k.run (Callback.run depth) self origin).exec s =
            (.error (.misuse (.answerNotStatement "Union" reply.typeName)),
              { t.host u with history }) := by
  refine ⟨fun {k c made name r u} hk h => ?_, fun {k callbacks cs modifier} hk hitems => ?_⟩
  · obtain ⟨history, hrun⟩ := exec_subSelect hk h origin
    refine ⟨?_, ?_, ?_⟩
    · rintro fault rfl
      exact ⟨history, hrun⟩
    · rintro sql rfl
      exact ⟨_, history, hrun, congrArg Except.ok (SubSelect.text_eq sql name _), rfl⟩
    · rintro reply rfl hne
      have hfault : (Except.ok reply >>= Reply.nestedText "SubSelect") =
        .error (.misuse (.answerNotStatement "SubSelect" reply.typeName)) :=
          Reply.nestedText_of_ne hne "SubSelect"
      rw [hfault] at hrun
      exact ⟨history, hrun⟩
  have answered : ∀ {members t}, Answers depth options s (cs.map (·.1)) members t →
      ∃ f history, (k.run (Callback.run depth) self origin).exec s =
          (.ok (.fragment f origin), { t with history }) ∧
        f.text = .ok ((unionSeparator modifier).intercalate (members.map (·.1))) ∧
        f.bindings = Entries.mergeAll (members.map (·.2)) := by
    intro members t h
    rw [← List.append_nil (cs.map fun c => Value.callback c.1 c.2)] at hitems
    obtain ⟨_, history, hrun⟩ := exec_union hk hitems h origin
    refine ⟨_, history, hrun, ?_, ?_⟩
    · simpa using Fragment.text_union _ modifier _
    · simp [Fragment.bindings]
  refine ⟨⟨?_, fun ⟨members, t, h⟩ => ?_⟩, answered, fun hcs h hc => ⟨?_, ?_⟩⟩
  · rintro ⟨v, t', hv⟩
    refine (answers_or_stops depth options (cs.map (·.1)) s).resolve_right ?_
    rintro ⟨before, c, after, members, t, hcs, h, hstop⟩
    rcases hr : (c.alone depth options t).1 >>= Reply.nestedText "Union" with fault | sql
    · obtain ⟨history, hrun⟩ := exec_union_of_error hk hitems hcs h rfl hr origin
      rw [hv] at hrun
      cases hrun
    · exact hstop sql (Reply.eq_of_nestedText hr)
  · obtain ⟨f, history, hrun, -⟩ := answered h
    exact ⟨_, _, hrun⟩
  · rintro fault rfl
    exact exec_union_of_error hk hitems hcs h hc rfl origin
  · rintro reply rfl hne
    exact exec_union_of_error hk hitems hcs h hc (Reply.nestedText_of_ne hne "Union") origin

/-- A statement with a nested one among its fields, whose builder is kept under a name. -/
def selecting : Callback :=
  ⟨[.call .table [.atom (.str "u")] [],
    .call .fields [.call .subSelect [.callback
      ⟨[.call .filter [.atom (.str "c"), .atom (.int 8)] [], .call .select [] []], none, none⟩] []] [],
    .call .filter [.atom (.str "b"), .atom (.int 7)] [],
    .call .select [] []], none, some "inner"⟩

/-- Steps that answer with the builder and not with its statement. -/
def unfinished : Callback := ⟨[.call .table [.atom (.str "v")] []], none, none⟩

/-- The root builder has bound a value. -/
def boundSession : Session :=
  (((Command.filter (.str "a") (.int 5) (.str "=")).run (Callback.run 0) 0).exec
    (.start Supply.counting .debug (.options .default))).2

theorem nested_eq_alone_twice :
    (∃ u f history, selecting.alone 2 .null boundSession =
        (.ok (.value (.str ("SELECT (SELECT * WHERE \"c\" = :where00000002) FROM \"u\" " ++
          "WHERE \"b\" = :where00000003"))), u) ∧
      ((Construction.subSelect (.callback selecting [1]) (.str "x") .null).run
        (Callback.run 2) 0 []).exec boundSession =
          (.ok (.fragment f []), { boundSession.host u with history }) ∧
      f.text = .ok ("(SELECT (SELECT * WHERE \"c\" = :where00000002) FROM \"u\" " ++
        "WHERE \"b\" = :where00000003) AS \"x\"") ∧
      f.bindings = (u.builder Session.root).bindings) ∧
    ∃ (t u : Session) (history : List Event),
      Answers 2 (boundSession.builder 0).options boundSession [selecting]
        [("SELECT (SELECT * WHERE \"c\" = :where00000002) FROM \"u\" " ++
          "WHERE \"b\" = :where00000003", (u.builder Session.root).bindings)] t ∧
      ((Construction.ownUnion (.list [.callback selecting [1], .callback unfinished [2]])
        (.str "ALL")).run (Callback.run 2) 0 []).exec boundSession =
          (.error (.misuse (.answerNotStatement "Union" "QueryBuilder")),
            { t.host (unfinished.alone 2 (boundSession.builder 0).options t).2 with history }) := by
  have hselects : ((selecting.alone 2 .null boundSession).1 >>= Reply.nestedText "SubSelect") =
      .ok ("SELECT (SELECT * WHERE \"c\" = :where00000002) FROM \"u\" " ++
        "WHERE \"b\" = :where00000003") := by
    decide +kernel
  have hmember : ((selecting.alone 2 (boundSession.builder 0).options boundSession).1 >>=
      Reply.nestedText "Union") =
        .ok ("SELECT (SELECT * WHERE \"c\" = :where00000002) FROM \"u\" " ++
          "WHERE \"b\" = :where00000003") := by
    decide +kernel
  constructor
  · rcases hrun : selecting.alone 2 .null boundSession with ⟨r, u⟩
    rw [hrun] at hselects
    obtain rfl := Reply.eq_of_nestedText hselects
    have hasked : (Construction.subSelect (.callback selecting [1]) (.str "x") .null).SubSelects
        boundSession 0 .null (.callback selecting [1]) ((some "x").elim .null .str) := .inl rfl
    obtain ⟨f, history, hmade, htext, hbound⟩ :=
      ((nested_eq_alone 2 .null 0 [] boundSession).1 hasked hrun).2.1 _ rfl
    exact ⟨u, f, history, rfl, hmade, htext, hbound⟩
  · rcases hrun : selecting.alone 2 (boundSession.builder 0).options boundSession with ⟨r, u⟩
    rw [hrun] at hmember
    obtain rfl := Reply.eq_of_nestedText hmember
    have hmembers := Answers.cons hrun (.nil _)
    have hrefused : (unfinished.alone 2 (boundSession.builder 0).options
        (boundSession.host u)).1 = .ok .builder := rfl
    have hasked : (Construction.ownUnion (.list [.callback selecting [1], .callback unfinished [2]])
        (.str "ALL")).Unites boundSession 0 (boundSession.builder 0).options
          (.list [.callback selecting [1], .callback unfinished [2]])
          ((some "ALL").elim .null .str) := .inr ⟨rfl, rfl⟩
    have hitems : (Value.list [.callback selecting [1], .callback unfinished [2]]).items =
        .ok ([(selecting, [1]), (unfinished, [2])].map fun c => .callback c.1 c.2) := rfl
    have hcs : [(selecting, [1]), (unfinished, [2])].map (·.1) = [selecting] ++ [unfinished] := rfl
    obtain ⟨history, hstopped⟩ :=
      (((nested_eq_alone 2 (boundSession.builder 0).options 0 [] boundSession).2
        hasked hitems).2.2 hcs hmembers (Prod.ext hrefused rfl)).2 .builder rfl
          (fun sql h => nomatch h)
    exact ⟨_, u, history, hmembers, hstopped⟩

end BoundSql

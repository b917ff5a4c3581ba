import BoundSql.Proofs.Clauses
import BoundSql.Proofs.Rendering
import BoundSql.Proofs.Validity

/-!
# The greatest limit over a run

Three places keep a statement below the greatest limit: options are acceptable only if the default
limit keeps to it, a call for a limit lowers the number to it, and nested builders have the options
of the builder that asks for them. Here they come together. A builder that descends from the root
has the options of the root (`Session.Follows.options_of_descends`); its limit is what the last
integer that it was given is lowered to (`Session.Follows.limit_eq`); and so the number in its
statement, wherever it is taken from, is no greater than the greatest limit.

A call with an integer is refused only if the integer is lowered and cannot be written, so that
there is no text for the record of it (`Session.Follows.limit_returns`). A call that is refused
leaves the limit as it was.
-/

set_option autoImplicit false

namespace BoundSql

/-! ## Builders that share options -/

/-- The root builder, and those that were opened on behalf of one that descends from it. -/
inductive Descends (L : List Happening) : Nat → Prop where
  | root : Descends L Session.root
  | nested {i j : Nat} (h : Descends L i) (hmem : .opened j (some i) ∈ L) : Descends L j

theorem Descends.append {L : List Happening} {i : Nat} (h : Descends L i) (M : List Happening) :
    Descends (L ++ M) i := by
  induction h with
  | root => exact .root
  | nested _ hmem ih => exact .nested ih (List.mem_append_left _ hmem)

theorem givenOptions_options (o : Options) : givenOptions (.options o) = .options o := rfl

namespace Session

/-- A builder that was opened on behalf of another one has its options. -/
theorem Trace.options_of_opened {s t : Session} {L : List Happening} (h : s.Trace L t)
    {i j : Nat} (hmem : .opened j (some i) ∈ L) : i < t.builders.length ∧ j < t.builders.length ∧
      (t.builder j).options = givenOptions (t.builder i).options := by
  induction h with
  | start => cases hmem
  | aside _ _ hb ih =>
    simp only [hb, builder_of_builders_eq hb]
    exact ih hmem
  | @opened L t c options hL hc ho ih =>
    obtain ⟨hi, hj, hopts⟩ := ih (by simpa using hmem)
    rw [builder_append hi, builder_append hj, List.length_append]
    exact ⟨Nat.lt_succ_of_lt hi, Nat.lt_succ_of_lt hj, hopts⟩
  | @inherited L t i' hL hi' ih =>
    rcases List.mem_append.mp hmem with hmem | hmem
    · obtain ⟨hi, hj, hopts⟩ := ih hmem
      rw [builder_append hi, builder_append hj, List.length_append]
      exact ⟨Nat.lt_succ_of_lt hi, Nat.lt_succ_of_lt hj, hopts⟩
    · cases List.mem_singleton.mp hmem
      rw [builder_append hi', builder_append_self, List.length_append]
      exact ⟨Nat.lt_succ_of_lt hi', Nat.lt_succ_self _, rfl⟩
  | @called L t u invoke j' k r hL hj' hk hr ih =>
    obtain ⟨hi, hj, hopts⟩ := ih (by simpa using hmem)
    have hcall : t.Trace [.called j' k r] u := .called .start hj' hk hr
    rw [(hcall.grows hi).options, (hcall.grows hj).options]
    exact ⟨Nat.lt_of_lt_of_le hi hcall.length_le, Nat.lt_of_lt_of_le hj hcall.length_le, hopts⟩

/-- **Options are handed down**, to any depth. -/
theorem Follows.options_of_descends {o : Options} {L : List Happening} {s : Session}
    (h : s.Follows (.options o) L) {i : Nat} (hi : Descends L i) :
    i < s.builders.length ∧ (s.builder i).options = .options o := by
  obtain ⟨stream, threshold, h⟩ := h
  induction hi with
  | root => exact ⟨Nat.lt_of_lt_of_le Nat.zero_lt_one h.length_le, (h.grows Nat.zero_lt_one).options⟩
  | nested _ hmem ih =>
    obtain ⟨-, hj, hopts⟩ := h.options_of_opened hmem
    exact ⟨hj, by rw [hopts, ih.2, givenOptions_options]⟩

/-- Where no construction gives options of its own, all builders descend from the root. -/
theorem Follows.descends {options : Value} {L : List Happening} {s : Session}
    (h : s.Follows options L)
    (hown : ∀ c, .construction c ∈ s.history → c.options? = none) {i : Nat}
    (hi : i < s.builders.length) : Descends L i := by
  obtain ⟨stream, threshold, h⟩ := h
  induction h generalizing i with
  | start =>
    obtain rfl : i = Session.root := Nat.lt_one_iff.mp hi
    exact .root
  | aside _ hgrow hb ih => exact ih (fun c hc => hown c (hgrow.2.subset hc)) (hb ▸ hi)
  -- A builder without a parent was opened by a construction with options of its own.
  | opened _ hc ho => cases (hown _ hc).symm.trans ho
  | @inherited L t j _ hj ih =>
    have hold : ∀ {i}, i < t.builders.length →
        Descends (L ++ [.opened t.builders.length (some j)]) i := fun hi => (ih hown hi).append _
    by_cases hit : i < t.builders.length
    · exact hold hit
    · obtain rfl : i = t.builders.length := by
        rw [List.length_append, List.length_singleton] at hi
        omega
      exact .nested (hold hj) (List.mem_append_right _ (List.mem_singleton_self _))
  | called _ _ hk hr ih =>
    obtain ⟨hgrow, -, b, -, hb⟩ := runNoted_changed hk hr
    rw [hb, List.length_set] at hi
    exact (ih (fun c hc => hown c (hgrow.2.subset hc)) hi).append _

end Session

/-! ## The limit of a builder -/

/-- The number that a command gives as a limit. -/
def Command.limit? : Command → Option Value
  | .limit v => some v
  | _ => none

/-- The number that a call has set as the limit: none, if it was refused. -/
def limitSet? : Command × Except Fault Reply → Option Value
  | (k, .ok _) => k.limit?
  | (_, .error _) => none

/-- The limits that were set on the builder at a place, in the order of the calls. -/
def limitsAt (L : List Happening) (i : Nat) : List Value := (callsAt L i).filterMap limitSet?

/-- The limits that the builder at a place was asked to set, in the order of the commands. -/
def limitsAsked (commands : List (Nat × Command)) (i : Nat) : List Value :=
  commands.filterMap fun c => if c.1 = i then c.2.limit? else none

/-- Where no call for a limit is refused, the limits that were set are those that were asked for. -/
theorem limitsAt_eq_limitsAsked {L : List Happening} {i : Nat}
    (h : ∀ v r, .called i (.limit v) r ∈ L → ∃ reply, r = .ok reply) :
    limitsAt L i = limitsAsked (L.filterMap Happening.command?) i := by
  rw [limitsAt, callsAt, limitsAsked, List.filterMap_filterMap, List.filterMap_filterMap]
  refine List.filterMap_congr fun happening hmem => ?_
  cases happening with
  | opened => rfl
  | called j k r =>
    by_cases hj : j = i
    · subst hj
      simp only [Happening.callAt?, Happening.command?, if_true, Option.bind_some]
      cases k with
      | limit v =>
        obtain ⟨reply, rfl⟩ := h v r hmem
        rfl
      | _ => cases r <;> rfl
    · simp [Happening.callAt?, Happening.command?, hj]

theorem Command.Changes.limit_eq {issued : Placeholder → Value → Prop}
    {answered : Callback → String → Bindings → Prop} {k : Command} {b b' : Builder}
    (h : k.Changes issued answered b b') (hk : k.limit? = none) : b'.limit = b.limit := by
  cases h with
  | fields added | select added | compileSelect added =>
    obtain ⟨_, _, hb, -⟩ := b.fielded_addFields added
    rw [hb]
  | limit => cases hk
  | _ => rfl

/-- An integer is refused as a limit only if it is lowered and cannot be written. -/
theorem setLimit_int_returns {i : Nat} {s : Session} {o : Options}
    (ho : (s.builder i).options = .options o) {n : Int} (hn : o.atMost n = n ∨ Decimal.Fits n) :
    ((setLimit i (.int n)).exec s).1 = .ok () := by
  have hproper : (s.builder i).properOptions = .ok o := by rw [Builder.properOptions, ho]
  simp only [setLimit, Run.exec_bind, Run.exec_builder, Run.exec_ofExcept, hproper,
    Options.clamp_int, Options.isClamped_int]
  by_cases hsame : o.atMost n = n
  · simp [hsame]
  · have hfits : Decimal.Fits n := hn.resolve_left hsame
    have hlowered : Decimal.Fits (o.atMost n) := hfits.of_natAbs_le (o.natAbs_atMost_le n)
    simp only [hsame, ne_eq, not_false_eq_true, decide_true, if_true, Run.exec_bind, Run.exec_keeps,
      Value.integerText, Decimal.text_of_fits hfits, Decimal.text_of_fits hlowered]
    split <;> rfl

section Calls

variable {invoke : Invoke} {i : Nat} {s s' : Session} {v : Value}

/-- A call for a limit that returns has set it, and one that is refused has failed to. -/
theorem exec_limit {r : Except Fault Reply}
    (h : ((Command.limit v).runNoted invoke i).exec s = (r, s')) :
    ∃ r', (setLimit i v).exec { s with history := s.history ++ [.command i (.limit v)] } =
      (r', s') ∧ r = r'.map fun _ => .builder := by
  refine ⟨((setLimit i v).exec { s with history := s.history ++ [.command i (.limit v)] }).1, ?_⟩
  simp only [Command.runNoted, Command.run, Run.exec_bind, Run.exec_note] at h
  rcases hset : (setLimit i v).exec
      { s with history := s.history ++ [.command i (.limit v)] } with ⟨fault | _, t⟩ <;>
    rw [hset] at h <;> cases h <;> exact ⟨rfl, rfl⟩

/-- A call with an integer that returns sets the limit to what the integer is lowered to. -/
theorem builder_of_limit {o : Options} {n : Int} {reply : Reply} (hi : i < s.builders.length)
    (ho : (s.builder i).options = .options o)
    (h : ((Command.limit (.int n)).runNoted invoke i).exec s = (.ok reply, s')) :
    s'.builder i = { s.builder i with limit := some (.int (o.atMost n)) } := by
  obtain ⟨fault | _, hset, hreply⟩ := exec_limit h
  · cases hreply
  · exact builder_of_setLimit
      (s := { s with history := s.history ++ [.command i (.limit (.int n))] }) hi ho hset

/-- A call for a limit that is refused leaves the builders as they are. -/
theorem builders_of_refused_limit {fault : Fault}
    (h : ((Command.limit v).runNoted invoke i).exec s = (.error fault, s')) :
    s'.builders = s.builders := by
  obtain ⟨fault | _, hset, hreply⟩ := exec_limit h
  · obtain ⟨fault', hrun⟩ | ⟨_, _, -, -, _, hrun, -⟩ := exec_setLimit i v
        { s with history := s.history ++ [.command i (.limit v)] }
    · rw [hset] at hrun
      cases hrun
      rfl
    · cases hset.symm.trans hrun
  · cases hreply

theorem limitSet?_eq_some {k : Command} {r : Except Fault Reply} (h : limitSet? (k, r) = some v) :
    k = .limit v ∧ ∃ reply, r = .ok reply := by
  cases r with
  | error fault => cases h
  | ok reply =>
    cases k <;> cases h
    exact ⟨rfl, reply, rfl⟩

/-- A call that sets no limit keeps the one that is there. -/
theorem limit_of_limitSet?_eq_none {k : Command} {r : Except Fault Reply}
    (hi : i < s.builders.length) (hk : k.nests = false)
    (hr : (k.runNoted invoke i).exec s = (r, s')) (h : limitSet? (k, r) = none) :
    (s'.builder i).limit = (s.builder i).limit := by
  cases hlimit : k.limit? with
  | none =>
    obtain ⟨-, -, b, hchange, hb⟩ := Session.runNoted_changed hk hr
    rw [Session.builder_of_set hi hb, hchange.limit_eq hlimit]
  | some v =>
    obtain rfl : k = .limit v := by
      cases k <;> cases hlimit
      rfl
    cases r with
    | ok reply => cases h
    | error fault => rw [Session.builder_of_builders_eq (builders_of_refused_limit hr)]

end Calls

namespace Session

/-- A call for a limit is refused only if the integer is lowered and cannot be written. -/
theorem Follows.limit_returns {options : Value} {L : List Happening} {s : Session}
    (h : s.Follows options L) {i : Nat} (hi : i < s.builders.length) {o : Options}
    (ho : (s.builder i).options = .options o) {n : Int} {r : Except Fault Reply}
    (hmem : .called i (.limit (.int n)) r ∈ L) (hn : o.atMost n = n ∨ Decimal.Fits n) :
    ∃ reply, r = .ok reply := by
  let P : List (Command × Except Fault Reply) → Builder → Prop := fun cs b =>
    b.options = .options o → (.limit (.int n), r) ∈ cs → ∃ reply, r = .ok reply
  -- By induction on the calls on this builder: the call is an earlier one, or the last one.
  refine h.induct (P := P) (fun _ _ hmem => by cases hmem) ?_ i hi ho (mem_callsAt.mpr hmem)
  intro invoke t u j k r' cs hj hk hr ih ho hmem
  obtain ⟨-, -, b, hchange, hb⟩ := runNoted_changed hk hr
  rw [builder_of_set hj hb, hchange.grows.options] at ho
  rcases List.mem_append.mp hmem with hmem | hmem
  · exact ih ho hmem
  · obtain ⟨rfl, rfl⟩ := Prod.mk.inj (List.mem_singleton.mp hmem)
    obtain ⟨r', hset, rfl⟩ := exec_limit hr
    have hreturns := setLimit_int_returns
      (s := { t with history := t.history ++ [.command j (.limit (.int n))] }) ho hn
    rw [hset] at hreturns
    rw [show r' = .ok () from hreturns]
    exact ⟨_, rfl⟩

/-- **The limit of a builder is what the last integer it was given is lowered to.** -/
theorem Follows.limit_eq {options : Value} {L : List Happening} {s : Session}
    (h : s.Follows options L) {i : Nat} (hi : i < s.builders.length) {o : Options}
    (ho : (s.builder i).options = .options o) {ns : List Int}
    (hns : limitsAt L i = ns.map Value.int) :
    (s.builder i).limit = ns.getLast?.map fun n => .int (o.atMost n) := by
  let P : List (Command × Except Fault Reply) → Builder → Prop := fun cs b =>
    b.options = .options o → ∀ ns : List Int, cs.filterMap limitSet? = ns.map Value.int →
      b.limit = ns.getLast?.map fun n => .int (o.atMost n)
  refine h.induct (P := P) ?_ ?_ i hi ho ns hns
  · intro options _ ns hns
    obtain rfl : ns = [] := List.map_eq_nil_iff.mp hns.symm
    rfl
  · intro invoke t u j k r cs hj hk hr ih ho ns hns
    obtain ⟨-, -, b, hchange, hb⟩ := runNoted_changed hk hr
    rw [builder_of_set hj hb, hchange.grows.options] at ho
    -- A call that was refused leaves the limit, like one that is not for a limit.
    cases hset : limitSet? (k, r) with
    | none =>
      have hkept : (u.builder j).limit = (t.builder j).limit :=
        limit_of_limitSet?_eq_none hj hk hr hset
      rw [hkept]
      exact ih ho ns (by simpa [hset] using hns)
    | some v =>
      obtain ⟨rfl, reply, rfl⟩ := limitSet?_eq_some hset
      rcases List.eq_nil_or_concat ns with rfl | ⟨before, n, rfl⟩
      · simp [hset] at hns
      · obtain ⟨-, rfl⟩ : _ ∧ v = .int n := by
          rw [List.filterMap_append, List.concat_eq_append, List.map_append] at hns
          exact List.append_singleton_inj.mp hns
        rw [builder_of_limit hj ho hr]
        simp

end Session

/-! ## The number in the statement -/

theorem Options.limitsAgree_of_ofValue {data : Value} {o : Options}
    (h : Options.ofValue data = .ok o) : o.limitsAgree = true := by
  obtain ⟨entries, -, h⟩ := Except.bind_eq_ok.mp h
  cases hv : validate entries with
  | error issues =>
    rw [hv] at h
    cases h
  | ok p =>
    rw [hv] at h
    cases h
    exact (acceptable_of_validate hv).2

/-- The number in a statement: what the last integer that was given is lowered to, or else the
default limit. -/
def Options.limitNumber (o : Options) : (last : Option Int) → Option Int
  | some n => some (o.atMost n)
  | none => o.defaultLimit.map Int.ofNat

theorem Options.limitNumber_le {o : Options} {greatest : Nat} (hmax : o.maxLimit = some greatest)
    (hagree : o.limitsAgree = true) {last : Option Int} {n : Int}
    (h : o.limitNumber last = some n) : n ≤ greatest := by
  cases last with
  | some m =>
    cases h
    simp only [atMost, hmax]
    omega
  | none =>
    obtain ⟨d, hd, rfl⟩ := Option.map_eq_some_iff.mp h
    exact Int.ofNat_le.mpr ((limitsAgree_iff o).mp hagree d greatest hd hmax)

/-- The clause of a limit, if there is one. -/
def limitClause (number : Option Int) : String :=
  number.elim "" fun n => "LIMIT " ++ Int.repr n

namespace Builder

theorem effectiveLimit_eq {b : Builder} {o : Options} {last : Option Int}
    (ho : b.options = .options o) (hlimit : b.limit = last.map fun n => .int (o.atMost n)) :
    b.effectiveLimit = .ok ((o.limitNumber last).map Value.int) := by
  rw [effectiveLimit, hlimit, properOptions, ho]
  cases last with
  | some n => rfl
  | none =>
    obtain ⟨column, defaultLimit, maxLimit⟩ := o
    cases defaultLimit <;> rfl

/-- The clause of the limit is that of the effective one, at its place among the parts. -/
theorem limitClause_of_selectText {b : Builder} {sql : String} {number : Option Int}
    (h : b.selectText = .ok sql) (hlimit : b.effectiveLimit = .ok (number.map Value.int)) :
    ∃ parts, b.selectParts = .ok parts ∧ sql = assemble parts ∧
      parts[7]? = some (limitClause number) := by
  obtain ⟨parts, -, limit, clause, hparts, hsql, -, -, heffective, hclause, hget⟩ :=
    b.parts_of_selectText h
  rw [hlimit] at heffective
  cases heffective
  refine ⟨parts, hparts, hsql, hget.trans ?_⟩
  cases number with
  | none =>
    cases hclause
    rfl
  | some n =>
    obtain ⟨-, rfl⟩ := valueClause_int_eq_ok_iff.mp hclause
    rfl

end Builder

/-- **The greatest limit holds over every run.** Every dialogue is a list of happenings, whose
commands are those that were given. Let the options of the root be read from a map and have a
greatest limit, and let a builder descend from the root. A call for a limit that gives it an integer
returns, unless the integer exceeds the greatest limit and has too many digits for the record of
that. Where integers were set as its limits, if any, every statement it renders to select rows has
the clause of one number or no such clause: the last of these integers, lowered to the greatest
limit; the default limit, if there were none. The number is no greater than the greatest limit. -/
theorem limit_le_maxLimit {data : Value} {o : Options} {greatest : Nat}
    (ho : Options.ofValue data = .ok o) (hmax : o.maxLimit = some greatest) :
    (∀ s : Session, s.ReachedFrom (.options o) →
      ∃ L, s.Follows (.options o) L ∧ L.filterMap Happening.command? = s.commands) ∧
    (∀ {L : List Happening} {s : Session} {i : Nat} {n : Int} {r : Except Fault Reply},
      s.Follows (.options o) L → Descends L i → .called i (.limit (.int n)) r ∈ L →
      n ≤ greatest ∨ Decimal.Fits n → ∃ reply, r = .ok reply) ∧
    ∀ {L : List Happening} {s s' : Session} {i : Nat} {k : Command} {invoke : Invoke}
      {reply : Reply} {ns : List Int}, s.Follows (.options o) L → Descends L i →
      limitsAt L i = ns.map Value.int → k.selects = true →
      (k.runNoted invoke i).exec s = (.ok reply, s') →
      ∃ sql parts number, reply.statement? = some sql ∧
        (s'.builder i).selectParts = .ok parts ∧ sql = Builder.assemble parts ∧
        parts[7]? = some (limitClause number) ∧
        number = (match ns.getLast? with
          | some n => some (min n greatest)
          | none => o.defaultLimit.map Int.ofNat) ∧
        ∀ n, number = some n → n ≤ greatest := by
  have hatMost : ∀ n, o.atMost n = min n greatest := fun n => by rw [Options.atMost, hmax]
  refine ⟨fun s hs => hs.trace, fun {L s i n r} hL hi hmem hn => ?_,
    fun {L s s' i k invoke reply ns} hL hi hns hk hrun => ?_⟩
  · obtain ⟨hlength, hoptions⟩ := hL.options_of_descends hi
    refine hL.limit_returns hlength hoptions hmem (hn.imp_left fun hle => ?_)
    rw [hatMost, Int.min_eq_left hle]
  obtain ⟨hlength, hoptions⟩ := hL.options_of_descends hi
  obtain ⟨sql, hsql, htext⟩ := Command.statement_of_selects hk hrun
  -- Selecting changes neither the limit nor the options.
  have hnests := Command.nests_of_renders (.inl hk)
  have hnone : k.limit? = none := by cases k <;> first | rfl | cases hk
  obtain ⟨-, -, b, hchange, hb⟩ := Session.runNoted_changed hnests hrun
  have hb := Session.builder_of_set hlength hb
  have heffective : (s'.builder i).effectiveLimit =
      .ok ((o.limitNumber ns.getLast?).map Value.int) := by
    refine Builder.effectiveLimit_eq ?_ ?_
    · rw [hb, hchange.grows.options, hoptions]
    · rw [hb, hchange.limit_eq hnone, hL.limit_eq hlength hoptions hns]
  obtain ⟨parts, hparts, heq, hclause⟩ := Builder.limitClause_of_selectText htext heffective
  refine ⟨sql, parts, _, hsql, hparts, heq, hclause, ?_, fun n hn =>
    Options.limitNumber_le hmax (Options.limitsAgree_of_ofValue ho) hn⟩
  cases ns.getLast? with
  | some n => simp [Options.limitNumber, hatMost]
  | none => rfl

/-- A default limit of three and a greatest one of ten. -/
def guardedOptions : Options := ⟨"deleted_at", some 3, some 10⟩

/-- The integer that a value is. -/
def Value.integer? : Value → Option Int
  | .int n => some n
  | _ => none

/-- The options that a construction gives to what it opens. -/
def Event.options? : Event → Option Value
  | .construction c => c.options?
  | _ => none

/-- The root is given a limit and asks for a nested statement, whose builder asks for a union. The
builder of the first member is given too great a limit, and later a table that is none. -/
def limitedDialogue : Session :=
  let deep : Expr := .callback
    ⟨[.call .limit [.atom (.int 25)] [], .call .select [] []], none, some "deep"⟩
  let plain : Expr := .callback ⟨[.call .select [] []], none, none⟩
  (Turn.takeAllWithin 2
    [⟨"root", .call .limit [.atom (.int 4)] []⟩,
     ⟨"root", .call .subSelect [.callback
        ⟨[.call .limit [.atom (.int 2)] [], .call .union [.list [deep, plain]] [],
          .call .select [] []], none, none⟩] []⟩,
     ⟨"deep", .call .table [.atom (.int 5)] []⟩]
    (.start Supply.counting .info (.options guardedOptions))).2

theorem limit_le_maxLimit_nested :
    Options.ofValue (.dict [(.str "default_limit", .int 3), (.str "max_limit", .int 10)]) =
        .ok guardedOptions ∧
      limitedDialogue.ReachedFrom (.options guardedOptions) ∧
      ∃ L, limitedDialogue.Follows (.options guardedOptions) L ∧
        L.filterMap Happening.command? = limitedDialogue.commands ∧ Descends L 2 ∧
        limitsAt L 2 = [25].map Value.int ∧
        (((Command.select []).runNoted (Callback.run 0) 2).exec limitedDialogue).1.map
          Reply.statement? = .ok (some "SELECT * LIMIT 10") ∧
        ∃ parts number, Builder.assemble parts = "SELECT * LIMIT 10" ∧
          parts[7]? = some (limitClause number) ∧ number = some (min 25 10) := by
  have ho : Options.ofValue
      (.dict [(.str "default_limit", .int 3), (.str "max_limit", .int 10)]) =
        .ok guardedOptions := by
    decide +kernel
  have hs : limitedDialogue.ReachedFrom (.options guardedOptions) := ⟨_, _, _, _, rfl⟩
  have htext : (((Command.select []).runNoted (Callback.run 0) 2).exec limitedDialogue).1.map
      Reply.statement? = .ok (some "SELECT * LIMIT 10") := by
    decide +kernel
  obtain ⟨L, hL, hcommands⟩ := (limit_le_maxLimit ho rfl).1 _ hs
  have hdescends : Descends L 2 := by
    have hown : limitedDialogue.history.all (fun e => e.options?.isNone) = true := by
      decide +kernel
    refine hL.descends (fun c hc => ?_) (by decide +kernel)
    exact Option.isNone_iff_eq_none.mp (List.all_eq_true.mp hown _ hc)
  have hasked : limitsAsked (L.filterMap Happening.command?) 2 = [.int 25] := by
    have hintegers :
        (limitsAsked limitedDialogue.commands 2).map Value.integer? = [some 25] := by
      decide +kernel
    obtain ⟨v, hv, hn⟩ := List.map_eq_singleton_iff.mp hintegers
    rw [hcommands, hv]
    cases v <;> cases hn
    rfl
  have hlimits : limitsAt L 2 = [25].map Value.int := by
    refine (limitsAt_eq_limitsAsked fun v r hmem => ?_).trans hasked
    have hv : v ∈ limitsAsked (L.filterMap Happening.command?) 2 :=
      List.mem_filterMap.mpr ⟨_, List.mem_filterMap.mpr ⟨_, hmem, rfl⟩, rfl⟩
    rw [hasked, List.mem_singleton] at hv
    subst hv
    exact (limit_le_maxLimit ho rfl).2.1 hL hdescends hmem (.inr (by decide))
  refine ⟨ho, hs, L, hL, hcommands, hdescends, hlimits, htext, ?_⟩
  rcases hrun : ((Command.select []).runNoted (Callback.run 0) 2).exec limitedDialogue with ⟨r, s'⟩
  rw [hrun] at htext
  cases r with
  | error fault => cases htext
  | ok reply =>
    obtain ⟨sql, parts, number, hsql, -, rfl, hclause, hnumber, -⟩ :=
      (limit_le_maxLimit ho rfl).2.2 hL hdescends hlimits rfl hrun
    rw [Except.map, hsql] at htext
    exact ⟨parts, number, Option.some.inj (Except.ok.inj htext), hclause, hnumber⟩

end BoundSql

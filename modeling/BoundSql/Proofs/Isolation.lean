import BoundSql.Proofs.NonInterference
import BoundSql.Proofs.Provenance
import BoundSql.Proofs.Standing
import BoundSql.Proofs.Traversal

/-!
# Builders keep to themselves

A step is for one builder, and all others are left alone by it, whatever its arguments are and
whether it fails or not. Only callbacks could do otherwise, since one is run while arguments are
evaluated; `Run.Leaves` says which builders an action leaves alone, and a step leaves alone whatever
its callbacks do (`Step.run_leaves`). The callbacks of a script are given a builder that is new,
and have no way to another one, so they leave alone all that were there (`Callback.run_leaves`).

What is finished stays as it is: the fragments that have been made, and what the turns of a dialogue
have answered. A nested statement in particular keeps the text and the map that its builder had when
the callback answered, whatever that builder is given afterwards (`isolated`).
-/

set_option autoImplicit false

namespace BoundSql

/-! ## Actions that leave builders alone -/

namespace Run

variable {α β : Type} {n : Nat} {J : Nat → Prop}

/-- Of the first `n` builders, the action leaves those at the places in `J` as they are. -/
def Leaves (n : Nat) (J : Nat → Prop) (m : Run α) : Prop :=
  ∀ s : Session, n ≤ s.builders.length →
    n ≤ (m.exec s).2.builders.length ∧ ∀ j < n, J j → (m.exec s).2.builder j = s.builder j

namespace Leaves

/-- An action that leaves all builders as they are. -/
theorem aside {m : Run α} (h : ∀ s, (m.exec s).2.builders = s.builders) : Leaves n J m := by
  intro s hn
  exact ⟨(h s).symm ▸ hn, fun j _ _ => Session.builder_of_builders_eq (h s) j⟩

theorem pure (x : α) : Leaves n J (Pure.pure x) := .aside fun _ => rfl

theorem throw (fault : Fault) : Leaves n J (MonadExcept.throw fault : Run α) := .aside fun _ => rfl

theorem ofExcept (r : Except Fault α) : Leaves n J (Run.ofExcept r) := .aside fun _ => rfl

theorem making (m : Making α) : Leaves n J (Run.making m) := .aside fun _ => rfl

theorem builder (i : Nat) : Leaves n J (Run.builder i) := .aside fun _ => rfl

theorem note (e : Event) : Leaves n J (Run.note e) := .aside fun _ => rfl

theorem named (name : String) : Leaves n J (Run.named name) := .aside fun _ => rfl

theorem origin : Leaves n J Run.origin := .aside fun _ => rfl

theorem bindName (name : String) (v : Value) : Leaves n J (Run.bindName name v) :=
  .aside fun _ => rfl

theorem capture (name : String) (i : Nat) : Leaves n J (Run.capture name i) := .aside fun _ => rfl

theorem bind {m : Run α} {f : α → Run β} (hm : Leaves n J m) (hf : ∀ x, Leaves n J (f x)) :
    Leaves n J (m >>= f) := by
  intro s hn
  rw [exec_bind]
  obtain ⟨hn', hsame⟩ := hm s hn
  rcases hr : m.exec s with ⟨fault | x, s'⟩ <;> rw [hr] at hn' hsame
  · exact ⟨hn', hsame⟩
  · obtain ⟨hn'', hsame'⟩ := hf x s' hn'
    exact ⟨hn'', fun j hj hJ => (hsame' j hj hJ).trans (hsame j hj hJ)⟩

/-- Builders are left alone by the evaluation of scripts. -/
theorem congruence : Run.Congruence fun m _ => Leaves n J m where
  pure := .pure
  throw := .throw
  ofExcept := .ofExcept
  origin := .origin
  named := .named
  bindName := .bindName
  bind := .bind

/-- A new builder comes after all that were there. -/
theorem newBuilder {options : Value} {f : Nat → Run α} (h : ∀ i, n ≤ i → Leaves n J (f i)) :
    Leaves n J (Run.newBuilder options >>= f) := by
  intro s hn
  have hlength : n ≤ (s.builders ++ [Builder.empty options]).length := by
    rw [List.length_append]
    exact Nat.le_add_right_of_le hn
  obtain ⟨hn', hsame⟩ := h s.builders.length hn
    { s with builders := s.builders ++ [.empty options] } hlength
  exact ⟨hn', fun j hj hJ =>
    (hsame j hj hJ).trans (Session.builder_append (Nat.lt_of_lt_of_le hj hn) _)⟩

end Leaves

end Run

/-- Of the first `n` builders, callbacks that are run on later ones leave those at the places in `J`
as they are. -/
def Invoke.Leaves (n : Nat) (J : Nat → Prop) (invoke : Invoke) : Prop :=
  ∀ c i, n ≤ i → Run.Leaves n J (invoke c i)

section Scripts

variable {n : Nat} {J : Nat → Prop} {invoke : Invoke} {self : Nat}

/-- A command that runs no callback changes the builder at hand. -/
theorem Command.run_leaves_of_not_nests {k : Command} (hk : k.nests = false) (hself : ¬ J self) :
    Run.Leaves n J (k.run invoke self) := by
  intro s hn
  obtain ⟨-, b, -, heq⟩ := Command.run_changed hk (fun _ _ _ => True) (le_of_eq rfl :
    ((k.run invoke self).exec s).2.supply ≤ _)
  have hbuilders : ((k.run invoke self).exec s).2.builders = s.builders.set self b := by
    rw [heq]
    rfl
  refine ⟨by rw [hbuilders, List.length_set]; exact hn, fun j _ hJ => ?_⟩
  have hne : self ≠ j := by
    rintro rfl
    exact hself hJ
  exact Session.builder_of_set_ne hne hbuilders

variable (hi : invoke.Leaves n J)
include hi

/-! ### Nested statements -/

theorem runNested_leaves (className : String) (options callback : Value) :
    Run.Leaves n J (runNested invoke className options callback) := by
  refine .newBuilder fun i hn => ?_
  cases callback with
  | callback c origin =>
    refine (hi c i hn).bind fun r => ?_
    split
    · exact (Run.Leaves.builder i).bind fun _ => (Run.Leaves.note _).bind fun _ => .pure _
    · exact .throw _
  | _ => exact .throw _

/-! ### Constructions and commands -/

theorem Invoke.Leaves.parts : Run.Parts (fun m _ => Run.Leaves n J m) invoke invoke self self where
  making := .making
  asked _ := .note _
  made _ := .note _
  builder := .builder self
  nested := runNested_leaves hi

theorem Construction.run_leaves (origin : Origin) (c : Construction) :
    Run.Leaves n J (c.run invoke self origin) :=
  c.run_congr Run.Leaves.congruence hi.parts origin

theorem Command.run_leaves (k : Command) (hself : ¬ J self) :
    Run.Leaves n J (k.run invoke self) := by
  cases hk : k.nests with
  | false => exact k.run_leaves_of_not_nests hk hself
  | true =>
    exact @Command.run_congr_of_nests _ Run.Leaves.congruence invoke invoke self self
      (Construction.run_leaves hi) k hk

/-! ### Steps and callbacks -/

/-- **A step leaves alone what its callbacks leave alone**, other than the builder at hand. -/
theorem Step.run_leaves (t : Step) (hself : ¬ J self) : Run.Leaves n J (t.run invoke self) :=
  @Step.run_congr _ Run.Leaves.congruence invoke invoke self self (Construction.run_leaves hi)
    (fun k => (Run.Leaves.note _).bind fun _ => k.run_leaves hi hself) t

theorem Callback.runWith_leaves (c : Callback) (hself : ¬ J self) :
    Run.Leaves n J (c.runWith invoke self) :=
  @Callback.runWith_congr _ Run.Leaves.congruence invoke invoke self self
    (Construction.run_leaves hi)
    (fun k => (Run.Leaves.note _).bind fun _ => k.run_leaves hi hself) (.capture · self) c

end Scripts

/-- **The callbacks of a script leave all builders alone that were there before**, however deeply
they are nested. -/
theorem Callback.run_leaves (n depth : Nat) : Invoke.Leaves n (· < n) (Callback.run depth) := by
  induction depth with
  | zero => exact fun _ _ _ => .throw _
  | succ depth ih => exact fun c i hn => c.runWith_leaves ih (Nat.not_lt.mpr hn)

/-! ## New builders -/

/-- The builder at a place was opened on the way from one session to another, with empty slots. -/
def Session.OpensAt (place : Nat) (s t : Session) : Prop :=
  ∃ L M u options, s.Trace L u ∧ u.builders.length = place ∧
    Session.Trace { u with builders := u.builders ++ [.empty options] } M t

namespace Session

theorem OpensAt.trans {place : Nat} {s t u : Session} {L : List Happening}
    (h : s.OpensAt place t) (h' : t.Trace L u) : s.OpensAt place u := by
  obtain ⟨L, M, v, options, hL, hplace, hM⟩ := h
  exact ⟨L, _, v, options, hL, hplace, hM.trans h'⟩

/-- A place that is new is the place of the builder that is opened, or it was new before. -/
theorem Trace.opensAt_concat {s t : Session} {L : List Happening} {place : Nat} {options : Value}
    (h : s.Trace L t) (ih : place < t.builders.length → s.OpensAt place t) {happening : Happening}
    (hopen : t.Trace [happening] { t with builders := t.builders ++ [.empty options] })
    (hplace : place < (t.builders ++ [Builder.empty options]).length) :
    s.OpensAt place { t with builders := t.builders ++ [.empty options] } := by
  rw [List.length_append, List.length_singleton] at hplace
  rcases Nat.lt_succ_iff_lt_or_eq.mp hplace with hlt | rfl
  · exact (ih hlt).trans hopen
  · exact ⟨L, [], t, options, h, rfl, .start⟩

/-- **Every builder that is new started with empty slots.** -/
theorem Trace.opensAt {s t : Session} {L : List Happening} (h : s.Trace L t) {place : Nat}
    (hnew : s.builders.length ≤ place) (hplace : place < t.builders.length) :
    s.OpensAt place t := by
  induction h with
  | start => exact absurd hplace (Nat.not_lt.mpr hnew)
  | aside h hgrow hb ih => exact (ih (hb ▸ hplace)).trans (.aside .start hgrow hb)
  | opened h hc ho ih => exact h.opensAt_concat ih (.opened .start hc ho) hplace
  | inherited h hi ih => exact h.opensAt_concat ih (.inherited .start hi) hplace
  | called h hi hk hr ih =>
    obtain ⟨-, -, b, -, hb⟩ := runNoted_changed hk hr
    rw [hb, List.length_set] at hplace
    exact (ih hplace).trans (.called .start hi hk hr)

theorem fragments_prefix {s t : Session} (h : s ≤ t) : s.fragments <+: t.fragments :=
  h.2.filterMap _

end Session

/-! ## Snapshots -/

/-- What a callback answered on a new builder, on the way from `s` to `t`: a statement, and a map
that is the one of this builder in `t`. -/
structure Session.Snapshot (invoke : Invoke) (options callback : Value) (s t : Session)
    (sql : String) (bound : Bindings) : Prop where
  answer : ∃ c origin, callback = .callback c origin ∧
    ((invoke c s.builders.length).exec
      { s with builders := s.builders ++ [.empty (givenOptions options)] }).1 =
        .ok (.value (.str sql))
  place : s.builders.length < t.builders.length
  bound : bound = (t.builder s.builders.length).bindings

/-- What callbacks answered one after the other, each on a new builder. -/
inductive Session.Snapshots (invoke : Invoke) (options : Value) :
    Session → List Value → List (String × Bindings) → Session → Prop where
  | nil (s : Session) : Snapshots invoke options s [] [] s
  | cons {s t u : Session} {callback : Value} {callbacks : List Value} {sql : String}
      {bound : Bindings} {members : List (String × Bindings)}
      (first : s.Snapshot invoke options callback t sql bound)
      (rest : Snapshots invoke options t callbacks members u) :
      Snapshots invoke options s (callback :: callbacks) ((sql, bound) :: members) u

/-- **A nested statement that returns** is what its callback answered on a new builder. What the
callback left is left, but for the note of the answer. -/
theorem runNested_eq_ok {invoke : Invoke} {className : String} {options callback : Value}
    {s t : Session} {sql : String} {bound : Bindings}
    (h : (runNested invoke className options callback).exec s = (.ok (sql, bound), t)) :
    ∃ c origin u, callback = .callback c origin ∧
      (invoke c s.builders.length).exec
        { s with builders := s.builders ++ [.empty (givenOptions options)] } =
          (.ok (.value (.str sql)), u) ∧
      bound = (u.builder s.builders.length).bindings ∧
      t = { u with history := u.history ++ [.nested (u.builder s.builders.length) sql] } := by
  obtain ⟨place, opened, hnew, h⟩ := Run.exec_bind_eq_ok h
  cases hnew
  cases callback with
  | callback c origin =>
    obtain ⟨reply, u, hcall, h⟩ := Run.exec_bind_eq_ok h
    split at h
    · cases h
      exact ⟨c, origin, u, rfl, hcall, rfl, rfl⟩
    · cases h
  | _ => cases h

section Snapshots

variable {invoke : Invoke} (hi : invoke.Traced)
include hi

/-- **What a nested statement is made of is a snapshot.** -/
theorem snapshot_of_runNested {className : String} {options callback : Value} {s t : Session}
    {sql : String} {bound : Bindings}
    (h : (runNested invoke className options callback).exec s = (.ok (sql, bound), t)) :
    s.Snapshot invoke options callback t sql bound := by
  obtain ⟨c, origin, u, rfl, hcall, rfl, rfl⟩ := runNested_eq_ok h
  have hplace : s.builders.length <
      (s.builders ++ [Builder.empty (givenOptions options)]).length := by simp
  obtain ⟨⟨L, hL⟩, -⟩ := hi c s.builders.length
    { s with builders := s.builders ++ [.empty (givenOptions options)] } hplace
  rw [hcall] at hL
  exact ⟨⟨c, origin, rfl, congrArg Prod.fst hcall⟩,
    Nat.lt_of_lt_of_le hplace hL.trace.length_le, rfl⟩

theorem snapshots_of_runMembers {options : Value} {callbacks : List Value} {s t : Session}
    {members : List (String × Bindings)}
    (h : (runMembers invoke options callbacks).exec s = (.ok members, t)) :
    Session.Snapshots invoke options s callbacks members t := by
  induction callbacks generalizing s members with
  | nil =>
    cases h
    exact .nil _
  | cons callback rest ih =>
    obtain ⟨⟨sql, bound⟩, u, hfirst, h⟩ := Run.exec_bind_eq_ok h
    obtain ⟨others, v, hrest, h⟩ := Run.exec_bind_eq_ok h
    cases h
    exact .cons (snapshot_of_runNested hi hfirst) (ih hrest)

/-- **A nested statement is the snapshot of its builder.** -/
theorem snapshot_of_makeSubSelect {options callback label : Value} {s t : Session} {f : Fragment}
    (h : (makeSubSelect invoke callback label options).exec s = (.ok f, t)) :
    ∃ x, f = .subSelect x ∧ s.Snapshot invoke options callback t x.sql x.bound := by
  obtain ⟨name, u, hname, h⟩ := Run.exec_bind_eq_ok h
  obtain rfl : s = u := congrArg Prod.snd hname
  obtain ⟨⟨sql, bound⟩, u, hnested, h⟩ := Run.exec_bind_eq_ok h
  cases h
  exact ⟨_, rfl, snapshot_of_runNested hi hnested⟩

/-- **A union is made of the snapshots of its builders.** -/
theorem snapshots_of_makeUnion {options callbacks modifier : Value} {s t : Session} {f : Fragment}
    (h : (makeUnion invoke callbacks modifier options).exec s = (.ok f, t)) :
    ∃ items members, callbacks.items = .ok items ∧
      f = .union (members.map (·.1)) modifier (Entries.mergeAll (members.map (·.2))) ∧
      Session.Snapshots invoke options s items members t := by
  obtain ⟨items, u, hitems, h⟩ := Run.exec_bind_eq_ok h
  obtain rfl : s = u := congrArg Prod.snd hitems
  obtain ⟨members, u, hmembers, h⟩ := Run.exec_bind_eq_ok h
  cases h
  exact ⟨items, members, congrArg Prod.fst hitems, rfl, snapshots_of_runMembers hi hmembers⟩

end Snapshots

/-! ## Steps and turns -/

/-- What a step on the builder at `self` has to do with all the rest, on the way from `s` to `t`. -/
structure Session.Spares (self : Nat) (s t : Session) : Prop where
  /-- The other builders hold what they held. -/
  others : ∀ i < s.builders.length, i ≠ self → t.builder i = s.builder i
  /-- The fragments that had been made stay as they are. -/
  fragments : s.fragments <+: t.fragments
  /-- The builders that are new started with empty slots. -/
  opened : ∀ i, s.builders.length ≤ i → i < t.builders.length → s.OpensAt i t

theorem Step.run_others (depth : Nat) (step : Step) (self : Nat) (s : Session) {i : Nat}
    (h : i < s.builders.length) (hne : i ≠ self) :
    ((step.run (Callback.run depth) self).exec s).2.builder i = s.builder i := by
  have hi : Invoke.Leaves s.builders.length (fun j => j < s.builders.length ∧ j ≠ self)
      (Callback.run depth) := by
    intro c place hplace t ht
    obtain ⟨hlength, hsame⟩ := Callback.run_leaves s.builders.length depth c place hplace t ht
    exact ⟨hlength, fun j hj hJ => hsame j hj hJ.1⟩
  exact (step.run_leaves hi (fun hJ => hJ.2 rfl) s (Nat.le_refl _)).2 i h ⟨h, hne⟩

/-- **A step spares all the rest.** -/
theorem Step.run_spares (depth : Nat) (step : Step) {self : Nat} {s : Session}
    (hself : self < s.builders.length) :
    s.Spares self ((step.run (Callback.run depth) self).exec s).2 := by
  obtain ⟨⟨L, hL⟩, -⟩ := step.run_traced (Callback.run_traced depth) s hself
  exact ⟨fun i h hne => step.run_others depth self s h hne, Session.fragments_prefix hL.trace.le,
    fun i hnew hi => hL.trace.opensAt hnew hi⟩

/-- A turn for another builder leaves this one alone. -/
theorem Turn.takeWithin_others (depth : Nat) (t : Turn) {s : Session} {i : Nat}
    (h : i < s.builders.length) (hne : s.target t.target ≠ .ok i) :
    (t.takeWithin depth s).2.builder i = s.builder i := by
  unfold Turn.takeWithin
  split
  · rfl
  · rename_i self hself
    have hi : i ≠ self := by
      rintro rfl
      exact hne hself
    exact t.step.run_others depth self s.unlogged h hi

theorem Turn.takeAllWithin_inReach (depth : Nat) (turns : List Turn) {s : Session}
    (hs : s.InReach) : (Turn.takeAllWithin depth turns s).2.InReach := by
  induction turns generalizing s with
  | nil => exact hs
  | cons t rest ih => exact ih (t.takeWithin_trace depth hs).2

/-- None of the turns is for the builder at a place, when it comes to be taken. -/
def Turn.NoneFor (depth i : Nat) : List Turn → Session → Prop
  | [], _ => True
  | t :: rest, s => s.target t.target ≠ .ok i ∧ NoneFor depth i rest (t.takeWithin depth s).2

/-- **Turns for other builders leave this one alone.** -/
theorem Turn.takeAllWithin_others {depth i : Nat} {turns : List Turn} {s : Session}
    (hs : s.InReach) (h : i < s.builders.length) (hnone : Turn.NoneFor depth i turns s) :
    (Turn.takeAllWithin depth turns s).2.builder i = s.builder i := by
  induction turns generalizing s with
  | nil => rfl
  | cons t rest ih =>
    obtain ⟨⟨L, hL⟩, hs'⟩ := t.takeWithin_trace depth hs
    exact (ih hs' (Nat.lt_of_lt_of_le h hL.trace.length_le) hnone.2).trans
      (t.takeWithin_others depth h hnone.1)

theorem Turn.takeAllWithin_append (depth : Nat) (turns later : List Turn) (s : Session) :
    Turn.takeAllWithin depth (turns ++ later) s =
      ((Turn.takeAllWithin depth turns s).1 ++
          (Turn.takeAllWithin depth later (Turn.takeAllWithin depth turns s).2).1,
        (Turn.takeAllWithin depth later (Turn.takeAllWithin depth turns s).2).2) := by
  induction turns generalizing s with
  | nil => rfl
  | cons t rest ih => simp [Turn.takeAllWithin, ih]

/-- **Builders and finished values are isolated.** Of the builders that are there, a step leaves all
others alone that its callbacks leave alone, and the callbacks of a script leave alone all that were
there before. What is finished stays as it is, in the turn of a dialogue and in all later ones; new
builders start with empty slots; and nested statements and unions are made of snapshots of their
builders. -/
theorem isolated (depth : Nat) :
    (∀ {n : Nat} {J : Nat → Prop} {invoke : Invoke} {self : Nat} (step : Step),
      invoke.Leaves n J → ¬ J self → Run.Leaves n J (step.run invoke self)) ∧
    (∀ {s : Session} {self : Nat} (step : Step), self < s.builders.length →
      s.Spares self ((step.run (Callback.run depth) self).exec s).2) ∧
    (∀ {s t : Session} {callback label options : Value} {f : Fragment},
      (makeSubSelect (Callback.run depth) callback label options).exec s = (.ok f, t) →
      ∃ x, f = .subSelect x ∧
        s.Snapshot (Callback.run depth) options callback t x.sql x.bound) ∧
    (∀ {s t : Session} {callbacks modifier options : Value} {f : Fragment},
      (makeUnion (Callback.run depth) callbacks modifier options).exec s = (.ok f, t) →
      ∃ items members, callbacks.items = .ok items ∧
        f = .union (members.map (·.1)) modifier (Entries.mergeAll (members.map (·.2))) ∧
        Session.Snapshots (Callback.run depth) options s items members t) ∧
    ∀ {s t u : Session} {turns later : List Turn} {reports reports' : List Report}, s.InReach →
      Turn.takeAllWithin depth turns s = (reports, t) →
      Turn.takeAllWithin depth (turns ++ later) s = (reports', u) →
      reports <+: reports' ∧ t.fragments <+: u.fragments ∧
        ∀ i < t.builders.length, Turn.NoneFor depth i later t → u.builder i = t.builder i := by
  refine ⟨fun step hi hself => step.run_leaves hi hself,
    fun step hself => step.run_spares depth hself,
    fun h => snapshot_of_makeSubSelect (Callback.run_traced depth) h,
    fun h => snapshots_of_makeUnion (Callback.run_traced depth) h, ?_⟩
  intro s t u turns later reports reports' hs hturns hlater
  rw [Turn.takeAllWithin_append, hturns] at hlater
  cases hlater
  have ht := Turn.takeAllWithin_inReach depth turns hs
  rw [hturns] at ht
  obtain ⟨L, hL⟩ := Turn.takeAllWithin_trace depth later ht
  exact ⟨List.prefix_append _ _, Session.fragments_prefix hL.trace.le,
    fun i hi hnone => Turn.takeAllWithin_others ht hi hnone⟩

/-- Steps that keep their builder within reach. -/
def keptCallback : Callback :=
  ⟨[.call .filter [.atom (.str "c"), .atom (.int 8)] [], .call .select [] []], none, some "kept"⟩

/-- A turn that nests a statement, and one that extends the builder of this statement. -/
def nestingTurn : Turn := ⟨"root", .call .fields [.call .subSelect [.callback keptCallback] []] []⟩
def outgrowingTurn : Turn := ⟨"kept", .call .filter [.atom (.str "d"), .atom (.int 9)] []⟩

/-- What these turns lead to, and what they start from. -/
def barrenSession : Session := .start Supply.counting .debug (.options .default)
def nestingSession : Session := (Turn.takeAllWithin 2 [nestingTurn] barrenSession).2
def outgrownSession : Session :=
  (Turn.takeAllWithin 2 ([nestingTurn] ++ [outgrowingTurn]) barrenSession).2

theorem isolated_outgrown :
    (Run.Leaves 1 (· = 0) (outgrowingTurn.step.run (Callback.run 2) 1) ∧
      barrenSession.Spares 0 ((nestingTurn.step.run (Callback.run 2) 0).exec barrenSession).2) ∧
    (∃ x t,
      barrenSession.Snapshot (Callback.run 2) .null (.callback keptCallback []) t x.sql x.bound ∧
      (Fragment.subSelect x).text = .ok "(SELECT * WHERE \"c\" = :where00000001)") ∧
    (∃ members t, Session.Snapshots (Callback.run 2) .null barrenSession
        [.callback keptCallback []] members t ∧
      (Fragment.union (members.map (·.1)) .null (Entries.mergeAll (members.map (·.2)))).text =
        .ok "SELECT * WHERE \"c\" = :where00000001") ∧
    outgrownSession.builder 0 = nestingSession.builder 0 ∧
    nestingSession.fragments <+: outgrownSession.fragments ∧
    (outgrownSession.builder 0).selectText =
      .ok "SELECT (SELECT * WHERE \"c\" = :where00000001)" ∧
    (outgrownSession.builder 1).selectText =
      .ok "SELECT * WHERE (\"c\" = :where00000001 AND \"d\" = :where00000002)" := by
  obtain ⟨hstep, hspares, hsubSelect, hunion, hturns⟩ := isolated 2
  have hone : 0 < barrenSession.builders.length := by decide +kernel
  have htwo : 0 < nestingSession.builders.length := by decide +kernel
  have hreach : barrenSession.InReach := .start _ _ _
  have hnone : Turn.NoneFor 2 0 [outgrowingTurn] nestingSession := by
    have htarget : nestingSession.target outgrowingTurn.target ≠ .ok 0 := by decide +kernel
    exact ⟨htarget, trivial⟩
  have hleaves : Invoke.Leaves 1 (· = 0) (Callback.run 2) := by
    intro c i hi s hs
    obtain ⟨hlength, hsame⟩ := Callback.run_leaves 1 2 c i hi s hs
    exact ⟨hlength, fun j hj _ => hsame j hj hj⟩
  have hothers := hstep outgrowingTurn.step hleaves (show ¬ 1 = 0 by decide)
  refine ⟨⟨hothers, hspares nestingTurn.step hone⟩, ?_, ?_, ?_⟩
  · have hsql : (((makeSubSelect (Callback.run 2) (.callback keptCallback []) .null .null).exec
        barrenSession).1 >>= Fragment.text) = .ok "(SELECT * WHERE \"c\" = :where00000001)" := by
      decide +kernel
    rcases hrun : (makeSubSelect (Callback.run 2) (.callback keptCallback []) .null .null).exec
      barrenSession with ⟨fault | f, t⟩ <;> rw [hrun] at hsql
    · cases hsql
    · obtain ⟨x, rfl, hx⟩ := hsubSelect hrun
      exact ⟨x, t, hx, hsql⟩
  · have hsql : (((makeUnion (Callback.run 2) (.list [.callback keptCallback []]) .null .null).exec
        barrenSession).1 >>= Fragment.text) = .ok "SELECT * WHERE \"c\" = :where00000001" := by
      decide +kernel
    rcases hrun : (makeUnion (Callback.run 2) (.list [.callback keptCallback []]) .null .null).exec
      barrenSession with ⟨fault | f, t⟩ <;> rw [hrun] at hsql
    · cases hsql
    · obtain ⟨items, members, hitems, rfl, hx⟩ := hunion hrun
      cases hitems
      exact ⟨members, t, hx, hsql⟩
  · have hnested : Turn.takeAllWithin 2 [nestingTurn] barrenSession =
        ((Turn.takeAllWithin 2 [nestingTurn] barrenSession).1, nestingSession) := (Prod.eta _).symm
    have houtgrown : Turn.takeAllWithin 2 ([nestingTurn] ++ [outgrowingTurn]) barrenSession =
        ((Turn.takeAllWithin 2 ([nestingTurn] ++ [outgrowingTurn]) barrenSession).1,
          outgrownSession) := (Prod.eta _).symm
    obtain ⟨-, hfragments, hbuilders⟩ := hturns hreach hnested houtgrown
    exact ⟨hbuilders 0 htwo hnone, hfragments, by decide +kernel, by decide +kernel⟩

end BoundSql

import BoundSql.Proofs.Commands
import BoundSql.Proofs.Templates
import BoundSql.Proofs.Traversal
import BoundSql.Script.Turn

/-!
# The account of generated names

Every name that a run generates is asked for by one event of its history, and what an event asks for
can be read off the event (`Event.draws`): a construction of a literal asks for one name, a call of
a function for one for each argument that is data, a comparison for one if its left side is accepted
and its right side is data. Nothing else asks for names, whether it renders, reads what is bound or
takes a finished comparison.

So the supply in the end is the one in the beginning after the draws that the history asks for, one
after the other and no more (`Session.Accounted`). This is an equation between the supply and the
history at every point of a run between two events; only inside of a construction, or of a call that
makes a comparison, is the event entered already and the name still to come. It is for this reason
that the rule for an event and the action after it (`Run.Accounts.asking`) takes the two together.

Names with equally many digits are told apart by their first difference, and since no tag is a
beginning of another tag, no name is a beginning of another name.
-/

set_option autoImplicit false

namespace BoundSql

/-! ## What is drawn for -/

/-- A name is drawn for a value that stands for data: each one that is no fragment. -/
def Value.draws (tag : Tag) : Value → List (Tag × Value)
  | .fragment .. => []
  | v => [(tag, v)]

/-- Where data may be absent, the absence draws no name. -/
def Value.draws? (tag : Tag) : Value → List (Tag × Value)
  | .null => []
  | v => v.draws tag

/-- A comparison draws for its right side, once its left side is accepted. -/
def Filter.draws (left right : Value) : List (Tag × Value) :=
  match left.asColumn with
  | .ok _ => right.draws? .filter
  | .error _ => []

/-- What a construction draws names for, in this order. -/
def Construction.draws : Construction → List (Tag × Value)
  | .literal v => [(.literal, v)]
  | .function _ args => args.flatMap (Value.draws .function)
  | .filter left right _ _ _ => Filter.draws left right
  | _ => []

/-- What a command draws names for: those that make a comparison do as its construction does. -/
def Command.draws : Command → List (Tag × Value)
  | .filter (.fragment (.filter _) _) _ _ => []
  | .filter left right _ => Filter.draws left right
  | _ => []

/-- What an event draws names for. -/
def Event.draws : Event → List (Tag × Value)
  | .construction c => c.draws
  | .command _ k => k.draws
  | .fragment _ | .nested _ _ => []

/-! ## Draws from the supply -/

namespace Supply

/-- The supply after draws for all that is asked for, one after the other. -/
def drawAll (s : Supply) (asked : List (Tag × Value)) : Supply :=
  asked.foldl (fun s a => (s.fresh a.1 a.2).2) s

@[simp] theorem drawAll_nil (s : Supply) : s.drawAll [] = s := rfl

theorem drawAll_cons (s : Supply) (a : Tag × Value) (rest : List (Tag × Value)) :
    s.drawAll (a :: rest) = (s.fresh a.1 a.2).2.drawAll rest := rfl

theorem drawAll_append (s : Supply) (asked asked' : List (Tag × Value)) :
    s.drawAll (asked ++ asked') = (s.drawAll asked).drawAll asked' :=
  List.foldl_append

/-- The placeholder that is made at a position of a stream. -/
def placeholderAt (stream : Nat → Fin 16) (position : Nat) (tag : Tag) : Placeholder :=
  ⟨tag, (List.range Placeholder.width).map fun i => stream (position + i)⟩

/-- **Each draw takes the digits that follow those of the draw before it.** -/
theorem issued_drawAll (s : Supply) (asked : List (Tag × Value)) :
    (s.drawAll asked).issued = s.issued ++ asked.mapIdx fun k a =>
      (placeholderAt s.stream (s.position + Placeholder.width * k) a.1, a.2) := by
  induction asked generalizing s with
  | nil => simp
  | cons a rest ih =>
    have hposition : ∀ k, s.position + Placeholder.width + Placeholder.width * k =
        s.position + Placeholder.width * (k + 1) := by
      intro k
      rw [Nat.mul_succ]
      omega
    rw [drawAll_cons, ih, issued_fresh, List.mapIdx_cons, List.append_assoc]
    simp only [stream_fresh, position_fresh, hposition, Nat.mul_zero, Nat.add_zero]
    rfl

/-- The placeholders that are drawn from a whole stream. -/
theorem issued_drawAll_ofStream (stream : Nat → Fin 16) (asked : List (Tag × Value)) :
    ((ofStream stream).drawAll asked).issued = asked.mapIdx fun k a =>
      (placeholderAt stream (Placeholder.width * k) a.1, a.2) := by
  rw [issued_drawAll]
  simp [ofStream]

end Supply

section Making

open BoundSql.Action

theorem Value.outcome_asOperand (tag : Tag) (v : Value) (s : Supply) :
    ∃ f, outcome (v.asOperand tag) s = (.ok f, s.drawAll (v.draws tag)) := by
  cases v with
  | fragment f origin => exact ⟨f, rfl⟩
  | _ => exact ⟨_, rfl⟩

theorem Value.outcome_asOperand? (tag : Tag) (v : Value) (s : Supply) :
    ∃ f, outcome (v.asOperand? tag) s = (.ok f, s.drawAll (v.draws? tag)) := by
  cases v with
  | null => exact ⟨none, rfl⟩
  | _ => exact ⟨some _, rfl⟩

theorem Value.outcome_mapM_asOperand (tag : Tag) (args : List Value) (s : Supply) :
    ∃ fs, outcome (args.mapM (Value.asOperand tag)) s =
      (.ok fs, s.drawAll (args.flatMap (Value.draws tag))) := by
  induction args generalizing s with
  | nil => exact ⟨[], rfl⟩
  | cons v rest ih =>
    obtain ⟨f, hf⟩ := v.outcome_asOperand tag s
    obtain ⟨fs, hfs⟩ := ih (s.drawAll (v.draws tag))
    refine ⟨f :: fs, ?_⟩
    rw [List.mapM_cons, outcome_bind, hf]
    dsimp only
    rw [outcome_bind, hfs, List.flatMap_cons, Supply.drawAll_append]
    rfl

theorem Fragment.supply_ofFunction (name : Value) (args : List Value) (s : Supply) :
    (outcome (Fragment.ofFunction name args) s).2 =
      s.drawAll (args.flatMap (Value.draws .function)) := by
  obtain ⟨fs, hfs⟩ := Value.outcome_mapM_asOperand .function args s
  rw [Fragment.ofFunction, outcome_bind, hfs]
  rfl

theorem Filter.supply_make (left right operator before after : Value) (s : Supply) :
    (outcome (Filter.make left right operator before after) s).2 =
      s.drawAll (Filter.draws left right) := by
  obtain ⟨f, hf⟩ := right.outcome_asOperand? .filter s
  rw [Filter.make, Filter.draws, outcome_bind]
  cases left.asColumn with
  | error fault => rfl
  | ok l =>
    show (outcome (right.asOperand? .filter >>= _) s).2 = s.drawAll (right.draws? .filter)
    rw [outcome_bind, hf]
    rfl

end Making

/-! ## Actions between two events -/

namespace Run

variable {α β : Type} {asked : List (Tag × Value)}

/-- Whatever the session, the action draws for what is asked for, and enters no event. -/
def Asks (asked : List (Tag × Value)) (m : Run α) : Prop :=
  ∀ s, (m.exec s).2.supply = s.supply.drawAll asked ∧ (m.exec s).2.history = s.history

namespace Asks

/-- An action that has nothing to do with names. -/
theorem nothing {m : Run α} (h : ∀ s, (m.exec s).2.supply = s.supply)
    (h' : ∀ s, (m.exec s).2.history = s.history) : Asks [] m :=
  fun s => ⟨h s, h' s⟩

theorem pure (x : α) : Asks [] (Pure.pure x) := .nothing (fun _ => rfl) fun _ => rfl

theorem ofExcept (r : Except Fault α) : Asks [] (Run.ofExcept r) :=
  .nothing (fun _ => rfl) fun _ => rfl

theorem builder (i : Nat) : Asks [] (Run.builder i) := .nothing (fun _ => rfl) fun _ => rfl

theorem modifyBuilder (i : Nat) (f : Builder → Builder) : Asks [] (Run.modifyBuilder i f) :=
  .nothing (fun _ => rfl) fun _ => rfl

theorem editBuilder (i : Nat) (f : Builder → Option Fault × Builder) :
    Asks [] (Run.editBuilder i f) :=
  .nothing (fun _ => rfl) fun _ => rfl

theorem keeps (level : Level) : Asks [] (Run.keeps level) := .nothing (fun _ => rfl) fun _ => rfl

theorem record (r : Record) : Asks [] (Run.record r) := by
  have h : ∀ s : Session, (s.addRecord r).supply = s.supply ∧ (s.addRecord r).history = s.history := by
    intro s
    unfold Session.addRecord
    split <;> exact ⟨rfl, rfl⟩
  exact .nothing (fun s => (h s).1) fun s => (h s).2

theorem making {m : Making α} (h : ∀ s, (Action.outcome m s).2 = s.drawAll asked) :
    Asks asked (Run.making m) :=
  fun s => ⟨h s.supply, rfl⟩

/-- What follows an action must ask for nothing, as it is not run after a fault. -/
theorem bind {m : Run α} {f : α → Run β} (hm : Asks asked m) (hf : ∀ x, Asks [] (f x)) :
    Asks asked (m >>= f) := by
  intro s
  rw [exec_bind]
  obtain ⟨hsupply, hhistory⟩ := hm s
  rcases hr : m.exec s with ⟨fault | x, s'⟩ <;> rw [hr] at hsupply hhistory
  · exact ⟨hsupply, hhistory⟩
  · obtain ⟨hsupply', hhistory'⟩ := hf x s'
    exact ⟨hsupply'.trans hsupply, hhistory'.trans hhistory⟩

end Asks

end Run

/-! ### Commands -/

section Commands

open Run

variable {self : Nat}

/-- A finished comparison is added, and nothing is asked for. -/
theorem addFilter_asks_of_filter (c : Filter) (origin : Origin) (make : Value → Making Filter) :
    Asks [] (addFilter self (.fragment (.filter c) origin) make) :=
  (Asks.pure c).bind fun _ => .modifyBuilder _ _

theorem addFilter_asks {given : Value} {make : Value → Making Filter} {asked : List (Tag × Value)}
    (hgiven : ∀ c origin, given ≠ .fragment (.filter c) origin)
    (hmake : ∀ s, (Action.outcome (make given) s).2 = s.drawAll asked) :
    Asks asked (addFilter self given make) := by
  intro s
  rw [exec_addFilter_of_made make s hgiven]
  have hsupply := hmake s.supply
  rcases hr : Action.outcome (make given) s.supply with ⟨fault | c, supply⟩ <;> rw [hr] at hsupply
  · exact ⟨hsupply, rfl⟩
  · exact ⟨hsupply, rfl⟩

theorem setLimit_asks (number : Value) : Asks [] (setLimit self number) := by
  refine (Asks.builder self).bind fun b => (Asks.ofExcept _).bind fun o =>
    (Asks.ofExcept _).bind fun limit => (Asks.ofExcept _).bind fun clamped => ?_
  have set : Asks [] (Run.modifyBuilder self fun b => { b with limit := limit.toOption }) :=
    .modifyBuilder self _
  cases clamped with
  | false => exact set
  | true =>
    refine (Asks.keeps .info).bind fun kept => ?_
    cases kept with
    | false => exact set
    | true =>
      exact (Asks.ofExcept _).bind fun _ => (Asks.ofExcept _).bind fun _ =>
        (Asks.record _).bind fun _ => set

theorem runSelect_asks (fields : List Value) : Asks [] (runSelect self fields) :=
  (Asks.editBuilder self _).bind fun _ => (Asks.builder self).bind fun _ =>
    (Asks.ofExcept _).bind fun _ => (Asks.record _).bind fun _ => .pure _

theorem runDelete_asks : Asks [] (runDelete self) := by
  have refusal : ∀ b : Builder,
      Asks [] (if b.filters.isEmpty then Run.record .refusedDelete else pure ()) := by
    intro b
    split
    · exact .record _
    · exact .pure _
  rw [runDelete_eq]
  exact (Asks.builder self).bind fun b => (refusal b).bind fun _ =>
    (Asks.ofExcept _).bind fun _ => (Asks.record _).bind fun _ => .pure _

/-- A comparison with what is absent is made of fragments. -/
theorem addFilter_asks_absent (given : Value) :
    Asks [] (addFilter self given fun given => .ofExcept (Filter.absent given)) := by
  by_cases h : ∃ c origin, given = .fragment (.filter c) origin
  · obtain ⟨c, origin, rfl⟩ := h
    exact addFilter_asks_of_filter c origin _
  · exact addFilter_asks (fun c origin hgiven => h ⟨c, origin, hgiven⟩) fun _ => rfl

theorem Command.draws_filter {left : Value} (h : ∀ c origin, left ≠ .fragment (.filter c) origin)
    (right operator : Value) :
    (Command.filter left right operator).draws = Filter.draws left right := by
  unfold Command.draws
  split
  · rename_i c origin _ _ heq
    cases heq
    exact absurd rfl (h c origin)
  · rename_i heq
    cases heq
    rfl
  · rename_i hother
    exact absurd rfl (hother _ _ _)

/-- **What a command asks for.** Only one that makes a comparison asks for a name. -/
theorem Command.run_asks (invoke : Invoke) {k : Command} (hk : k.nests = false) :
    Asks k.draws (k.run invoke self) := by
  cases k with
  | subSelect _ _ | union _ _ => cases hk
  | table _ | join _ =>
    exact (Asks.ofExcept _).bind fun _ => (Asks.modifyBuilder self _).bind fun _ => .pure _
  | offset _ | order _ | groupBy _ => exact (Asks.modifyBuilder self _).bind fun _ => .pure _
  | fields added => exact (Asks.editBuilder self _).bind fun _ => .pure _
  | filter left right operator =>
    by_cases h : ∃ c origin, left = .fragment (.filter c) origin
    · obtain ⟨c, origin, rfl⟩ := h
      exact (addFilter_asks_of_filter c origin _).bind fun _ => .pure _
    · have hleft : ∀ c origin, left ≠ .fragment (.filter c) origin :=
        fun c origin hleft => h ⟨c, origin, hleft⟩
      have made : Asks (Filter.draws left right) (addFilter self left fun left =>
          Filter.make left right operator (.str "") (.str "")) :=
        addFilter_asks hleft fun s => Filter.supply_make left right operator _ _ s
      rw [draws_filter hleft]
      exact made.bind fun _ => .pure _
  | limit number => exact (setLimit_asks number).bind fun _ => .pure _
  | paranoid target =>
    rw [run_paranoid]
    exact (Asks.builder self).bind fun b => (Asks.ofExcept _).bind fun column =>
      (addFilter_asks_absent column).bind fun _ => .pure _
  | select added => exact (runSelect_asks added).bind fun _ => .pure _
  | delete => exact runDelete_asks.bind fun _ => .pure _
  | compileSelect added =>
    exact (runSelect_asks added).bind fun _ => (Asks.builder self).bind fun _ => .pure _
  | compileDelete => exact runDelete_asks.bind fun _ => (Asks.builder self).bind fun _ => .pure _
  | bindings | options => exact (Asks.builder self).bind fun _ => .pure _
  | clampLimit number =>
    exact (Asks.builder self).bind fun b => (Asks.ofExcept _).bind fun _ =>
      (Asks.ofExcept _).bind fun _ => .pure _

end Commands

/-! ## The account -/

/-- The supply of a session is the stream after the draws that the history asks for. -/
def Session.Accounted (stream : Nat → Fin 16) (s : Session) : Prop :=
  s.supply = (Supply.ofStream stream).drawAll (s.history.flatMap Event.draws)

/-- The account is right after the action if it is right before. -/
def Run.Accounts (stream : Nat → Fin 16) {α : Type} (m : Run α) : Prop :=
  ∀ s : Session, s.Accounted stream → (m.exec s).2.Accounted stream

namespace Run.Accounts

variable {stream : Nat → Fin 16} {α β : Type}

theorem of_asks {m : Run α} (h : Asks [] m) : Accounts stream m := by
  intro s hs
  obtain ⟨hsupply, hhistory⟩ := h s
  unfold Session.Accounted
  rw [hsupply, hhistory]
  exact hs

/-- An action that leaves the supply and the history alone. -/
theorem aside {m : Run α} (h : ∀ s, (m.exec s).2.supply = s.supply)
    (h' : ∀ s, (m.exec s).2.history = s.history) : Accounts stream m :=
  of_asks (.nothing h h')

theorem pure (x : α) : Accounts stream (Pure.pure x) := of_asks (.pure x)

theorem throw (fault : Fault) : Accounts stream (MonadExcept.throw fault : Run α) :=
  .aside (fun _ => rfl) fun _ => rfl

theorem ofExcept (r : Except Fault α) : Accounts stream (Run.ofExcept r) := of_asks (.ofExcept r)

theorem builder (i : Nat) : Accounts stream (Run.builder i) := of_asks (.builder i)

theorem newBuilder (options : Value) : Accounts stream (Run.newBuilder options) :=
  .aside (fun _ => rfl) fun _ => rfl

theorem capture (name : String) (i : Nat) : Accounts stream (Run.capture name i) :=
  .aside (fun _ => rfl) fun _ => rfl

theorem bind {m : Run α} {f : α → Run β} (hm : Accounts stream m)
    (hf : ∀ x, Accounts stream (f x)) : Accounts stream (m >>= f) := by
  intro s hs
  rw [exec_bind]
  have hs' := hm s hs
  rcases hr : m.exec s with ⟨fault | x, s'⟩ <;> rw [hr] at hs'
  · exact hs'
  · exact hf x s' hs'

/-- **An event and the draws that it asks for.** -/
theorem asking {e : Event} {m : Run α} (h : Asks e.draws m) :
    Accounts stream (Run.note e >>= fun _ => m) := by
  intro s hs
  obtain ⟨hsupply, hhistory⟩ := h { s with history := s.history ++ [e] }
  rw [exec_bind, exec_note]
  unfold Session.Accounted
  rw [hsupply, hhistory, List.flatMap_append, List.flatMap_singleton, Supply.drawAll_append]
  exact congrArg (fun supply => supply.drawAll e.draws) hs

/-- An event that asks for nothing. -/
theorem note {e : Event} (h : e.draws = []) : Accounts stream (Run.note e) := by
  have hnote : Accounts stream (Run.note e >>= fun _ => Pure.pure ()) := asking (h ▸ .pure ())
  exact hnote

/-- What follows an event and its draws. -/
theorem asking_bind {e : Event} {m : Run α} {f : α → Run β} (h : Asks e.draws m)
    (hf : ∀ x, Accounts stream (f x)) : Accounts stream (Run.note e >>= fun _ => m >>= f) := by
  have hbind : (Run.note e >>= fun _ => m >>= f) = (Run.note e >>= fun _ => m) >>= f := by
    rw [bind_assoc]
  rw [hbind]
  exact (asking h).bind hf

/-- The account goes with the evaluation of scripts. -/
theorem congruence : Run.Congruence fun m _ => Accounts stream m where
  pure := .pure
  throw := .throw
  ofExcept := .ofExcept
  origin := .aside (fun _ => rfl) fun _ => rfl
  named _ := .aside (fun _ => rfl) fun _ => rfl
  bindName _ _ := .aside (fun _ => rfl) fun _ => rfl
  bind := .bind

end Run.Accounts

/-- Callbacks leave the account right. -/
def Invoke.Accounts (stream : Nat → Fin 16) (invoke : Invoke) : Prop :=
  ∀ c i, Run.Accounts stream (invoke c i)

section Scripts

open Run

variable {stream : Nat → Fin 16} {invoke : Invoke} {self : Nat} (hi : invoke.Accounts stream)
include hi

theorem runNested_accounts (className : String) (options callback : Value) :
    Accounts stream (runNested invoke className options callback) := by
  refine (Accounts.newBuilder _).bind fun i => ?_
  cases callback with
  | callback c origin =>
    refine (hi c i).bind fun r => ?_
    split
    · exact (Accounts.builder i).bind fun _ => (Accounts.note rfl).bind fun _ => .pure _
    · exact .throw _
  | _ => exact .throw _

/-- **A construction draws what it asks for**, and what its callbacks ask for after it. -/
theorem Construction.run_accounts (origin : Origin) (c : Construction) :
    Accounts stream (c.run invoke self origin) := by
  have made : ∀ f : Fragment, Accounts stream (do
      Run.note (.fragment f)
      return Value.fragment f origin) := fun f => (Accounts.note rfl).bind fun _ => .pure _
  have noted : c.draws = [] → Accounts stream (Run.note (.construction c)) := fun h => .note h
  have select : ∀ callback label options : Value,
      Accounts stream (makeSubSelect invoke callback label options) :=
    @makeSubSelect_congr _ Accounts.congruence invoke invoke (runNested_accounts hi)
  have union : ∀ callbacks modifier options : Value,
      Accounts stream (makeUnion invoke callbacks modifier options) :=
    @makeUnion_congr _ Accounts.congruence invoke invoke (runNested_accounts hi)
  cases c with
  | literal v => exact .asking_bind (.making fun _ => rfl) made
  | function name args =>
    exact .asking_bind (.making (Fragment.supply_ofFunction name args)) made
  | filter left right operator before after =>
    have hmake : Asks (Filter.draws left right)
        (Run.making (Filter.make left right operator before after)) :=
      .making (Filter.supply_make left right operator before after)
    exact .asking_bind (hmake.bind fun c => .pure (Fragment.filter c)) made
  | null | raw _ | group _ _ => exact (noted rfl).bind fun _ => made _
  | cast _ _ | projection _ _ | fallback _ | choice _ _ _ =>
    exact (noted rfl).bind fun _ => (Accounts.ofExcept _).bind made
  | column _ | join _ _ _ _ _ | branch _ _ =>
    exact (noted rfl).bind fun _ => ((Accounts.ofExcept _).bind fun _ => .pure _).bind made
  | asColumn v =>
    refine (noted rfl).bind fun _ => ?_
    cases v with
    | fragment f known => exact .pure _
    | _ => exact (Accounts.ofExcept _).bind made
  | subSelect callback label options =>
    exact (noted rfl).bind fun _ => (select callback label options).bind made
  | union callbacks modifier options =>
    exact (noted rfl).bind fun _ => (union callbacks modifier options).bind made
  | ownSubSelect callback label =>
    exact (noted rfl).bind fun _ =>
      ((Accounts.builder self).bind fun b => select callback label b.options).bind made
  | ownUnion callbacks modifier =>
    exact (noted rfl).bind fun _ =>
      ((Accounts.builder self).bind fun b => union callbacks modifier b.options).bind made

/-- **A command draws what it asks for.** -/
theorem Command.run_accounts (k : Command) :
    Accounts stream (Run.note (.command self k) >>= fun _ => k.run invoke self) := by
  cases hk : k.nests with
  | false => exact .asking (k.run_asks invoke hk)
  | true =>
    have hdraws : (Event.command self k).draws = [] := by
      cases k <;> first | rfl | cases hk
    have hrun : Accounts stream (k.run invoke self) :=
      @Command.run_congr_of_nests _ Accounts.congruence invoke invoke self self
        (Construction.run_accounts hi) k hk
    exact (Accounts.note hdraws).bind fun _ => hrun

theorem Step.run_accounts (t : Step) : Accounts stream (t.run invoke self) :=
  @Step.run_congr _ Accounts.congruence invoke invoke self self (Construction.run_accounts hi)
    (Command.run_accounts hi) t

theorem Callback.runWith_accounts (c : Callback) : Accounts stream (c.runWith invoke self) :=
  @Callback.runWith_congr _ Accounts.congruence invoke invoke self self
    (Construction.run_accounts hi) (Command.run_accounts hi) (fun name => .capture name self) c

end Scripts

/-- **Callbacks leave the account right**, however deeply they are nested. -/
theorem Callback.run_accounts (stream : Nat → Fin 16) (depth : Nat) :
    Invoke.Accounts stream (Callback.run depth) := by
  induction depth with
  | zero => exact fun _ _ => .throw _
  | succ depth ih => exact fun c _ => c.runWith_accounts ih

/-! ## Dialogues -/

theorem Turn.takeWithin_accounted {stream : Nat → Fin 16} (depth : Nat) (t : Turn) {s : Session}
    (hs : s.Accounted stream) : (t.takeWithin depth s).2.Accounted stream := by
  unfold Turn.takeWithin
  split
  · exact hs
  · rename_i i _
    -- The log is set aside during the step, which is nothing to the account.
    have hfront : Session.Accounted stream { s with log := [] } := hs
    exact t.step.run_accounts (Callback.run_accounts stream depth) _ hfront

/-- **The account of a dialogue is right.** -/
theorem Turn.takeAllWithin_accounted {stream : Nat → Fin 16} (depth : Nat) (turns : List Turn)
    {s : Session} (hs : s.Accounted stream) :
    (Turn.takeAllWithin depth turns s).2.Accounted stream := by
  induction turns generalizing s with
  | nil => exact hs
  | cons t rest ih => exact ih (t.takeWithin_accounted depth hs)

/-! ## Names that are beginnings of names -/

/-- A name that is the beginning of another one, with as many digits, is that name. -/
theorem Placeholder.eq_of_prefix {p q : Placeholder} (hp : p.digits.length = Placeholder.width)
    (hq : q.digits.length = Placeholder.width) (h : p.name.toList <+: q.name.toList) : p = q := by
  obtain ⟨rest, hrest⟩ := h
  have htoken : (token p.name).toList ++ rest = (token q.name).toList ++ [] := by
    rw [Text.toList_token, Text.toList_token, List.cons_append, List.cons_append, hrest, List.append_nil]
  exact (Placeholder.token_append_inj hp hq htoken).1

theorem Supply.length_digits_placeholderAt (stream : Nat → Fin 16) (position : Nat) (tag : Tag) :
    (placeholderAt stream position tag).digits.length = Placeholder.width := by
  simp [placeholderAt]

theorem Supply.placeholderAt_eq_iff {stream : Nat → Fin 16} {m n : Nat} {tag tag' : Tag} :
    placeholderAt stream m tag = placeholderAt stream n tag' ↔
      tag = tag' ∧ ∀ i < 8, stream (m + i) = stream (n + i) := by
  simp [placeholderAt, Placeholder.width]

/-- **The account of generated names.** Whatever the digits are, at the end of every dialogue the
names that were generated are those that the events of the history ask for, in their order, and no
others: the name with the count `k` is the tag of what it was asked for, followed by the digits with
the counts from `8 * k` on. Two of these names are the same exactly if their tags and their eight
digits are, and none is a beginning of another one. -/
theorem names_accounted (stream : Nat → Fin 16) (threshold : Level) (options : Value) (depth : Nat)
    (turns : List Turn) :
    let s := (Turn.takeAllWithin depth turns (.start stream threshold options)).2
    let asked := s.history.flatMap Event.draws
    (s.supply.issued.map fun e => (e.1.tag, e.2)) = asked ∧
    (∀ (k : Nat) (tag : Tag) (v : Value), asked[k]? = some (tag, v) →
      ∃ p, s.supply.issued[k]? = some (p, v) ∧ p.name = tag.text ++
        String.ofList ((List.range 8).map fun i => Text.hexDigit (stream (8 * k + i)))) ∧
    (∀ (k l : Nat) (p q : Placeholder) (v w : Value), s.supply.issued[k]? = some (p, v) →
      s.supply.issued[l]? = some (q, w) →
      (p.name = q.name ↔ p.tag = q.tag ∧ ∀ i < 8, stream (8 * k + i) = stream (8 * l + i)) ∧
      (p.name.toList <+: q.name.toList → p.name = q.name)) := by
  intro s asked
  have hstart : (Session.start stream threshold options).Accounted stream := rfl
  have hs : s.Accounted stream := Turn.takeAllWithin_accounted depth turns hstart
  have hissued : s.supply.issued = asked.mapIdx fun k a =>
      (Supply.placeholderAt stream (8 * k) a.1, a.2) := by
    rw [hs]
    exact Supply.issued_drawAll_ofStream stream asked
  have hget : ∀ {k p v}, s.supply.issued[k]? = some (p, v) →
      ∃ tag, p = Supply.placeholderAt stream (8 * k) tag := by
    intro k p v h
    rw [hissued, List.getElem?_mapIdx, Option.map_eq_some_iff] at h
    obtain ⟨a, -, ha⟩ := h
    exact ⟨a.1, (congrArg Prod.fst ha).symm⟩
  refine ⟨?_, ?_, ?_⟩
  · refine List.ext_getElem? fun k => ?_
    rw [hissued, List.getElem?_map, List.getElem?_mapIdx]
    cases asked[k]? <;> rfl
  · intro k tag v h
    refine ⟨Supply.placeholderAt stream (8 * k) tag, ?_, ?_⟩
    · rw [hissued, List.getElem?_mapIdx, h]
      rfl
    · rw [Placeholder.name, Supply.placeholderAt, List.map_map]
      rfl
  · intro k l p q v w hp hq
    obtain ⟨tag, rfl⟩ := hget hp
    obtain ⟨tag', rfl⟩ := hget hq
    have hsame : (Supply.placeholderAt stream (8 * k) tag).name.toList <+:
        (Supply.placeholderAt stream (8 * l) tag').name.toList →
        Supply.placeholderAt stream (8 * k) tag = Supply.placeholderAt stream (8 * l) tag' :=
      Placeholder.eq_of_prefix (Supply.length_digits_placeholderAt _ _ _)
        (Supply.length_digits_placeholderAt _ _ _)
    refine ⟨⟨fun hname => ?_, fun h => ?_⟩, fun h => congrArg Placeholder.name (hsame h)⟩
    · exact Supply.placeholderAt_eq_iff.mp (hsame (hname ▸ List.prefix_refl _))
    · exact congrArg Placeholder.name (Supply.placeholderAt_eq_iff.mpr h)

/-- A call of a function with an absent argument and one that is a fragment, a comparison whose left
side is refused, one that is accepted, and a rendering. -/
def countedTurns : List Turn :=
  [⟨"root", .bind "f" (.call .function
      [.atom (.str "f"), .atom (.int 1), .atom .null, .call .null [] []] [])⟩,
   ⟨"root", .call .filter [.atom (.int 5), .atom (.int 6)] []⟩,
   ⟨"root", .call .filter [.atom (.str "a"), .atom (.int 7)] []⟩,
   ⟨"root", .call .select [] []⟩]

/-- The session after these turns. -/
def countedSession : Session :=
  (Turn.takeAllWithin 0 countedTurns (.start Supply.counting .debug (.options .default))).2

theorem names_accounted_refused :
    (countedSession.history.flatMap Event.draws).map Prod.fst = [.function, .function, .filter] ∧
    ∃ p v, countedSession.supply.issued[2]? = some (p, v) ∧ p.name = "where00000003" := by
  have htags : (countedSession.history.flatMap Event.draws).map Prod.fst =
      [.function, .function, .filter] := by
    decide +kernel
  have hthird : ((countedSession.history.flatMap Event.draws).map Prod.fst)[2]? = some .filter := by
    rw [htags]
    rfl
  refine ⟨htags, ?_⟩
  rw [List.getElem?_map, Option.map_eq_some_iff] at hthird
  obtain ⟨⟨tag, v⟩, hasked, htag⟩ := hthird
  cases htag
  -- The session is unfolded by name, so that nothing has to be run to compare it with itself.
  unfold countedSession at hasked ⊢
  obtain ⟨-, hnames, -⟩ := names_accounted Supply.counting .debug (.options .default) 0 countedTurns
  obtain ⟨p, hp, hname⟩ := hnames 2 .filter v hasked
  exact ⟨p, v, hp, hname.trans (by decide +kernel)⟩

end BoundSql

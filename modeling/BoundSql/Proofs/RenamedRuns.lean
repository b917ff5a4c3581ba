import BoundSql.Proofs.RedactedRuns
import BoundSql.Proofs.RenamedCommands

/-!
# Runs in which names are replaced

Two runs stay together (`Session.Together`) if their sessions are the same but for the names and the
same has happened in both: builders were opened, and commands were given, at the same places, and
the commands had the same outcomes, renamed. This is the relation that `Action.Renames` carries
through a script.

The judgment wants to know of all actions that they let sessions grow, whatever the arguments are.
That much is promised by every discipline, and so by the one that promises nothing
(`Discipline.void`).
-/

set_option autoImplicit false

namespace BoundSql

open BoundSql.Action

variable {ρ : Renaming}

/-! ## Sessions grow -/

section Grows

variable (depth self : Nat) (origin : Origin)

/-- What keeps a promise lets sessions grow. -/
theorem Discipline.grows_of_keeps {α : Type} {m : Run α} {Q : α → Prop}
    (h : ∀ last : Session, Keeps last Discipline.void.Holds True m Q) : Grows m :=
  fun s => (h s s).1

theorem Construction.run_grows (c : Construction) :
    Grows (c.run (Callback.run depth) self origin) :=
  Discipline.grows_of_keeps fun last => Construction.run_keeps (Discipline.void_lawful last)
    (Callback.run_sound (Discipline.void_lawful last) depth) fun _ _ _ _ _ => trivial

theorem runNested_grows (className : String) (options callback : Value) :
    Grows (runNested (Callback.run depth) className options callback) := fun s =>
  (runNested_keeps (P := True) (Discipline.void_lawful s)
    (Callback.run_sound (Discipline.void_lawful s) depth) (fun _ => trivial) s).1

theorem runMembers_grows (options : Value) (callbacks : List Value) :
    Grows (runMembers (Callback.run depth) options callbacks) := fun s =>
  (runMembers_keeps (P := True) (Discipline.void_lawful s)
    (Callback.run_sound (Discipline.void_lawful s) depth) (fun _ => trivial) callbacks s).1

theorem Command.run_grows (k : Command) : Grows (k.run (Callback.run depth) self) := fun s =>
  (Command.run_keeps (P := False) (Discipline.void_lawful s)
    (Callback.run_sound (Discipline.void_lawful s) depth) False.elim False.elim s).1

theorem Expr.eval_grows (e : Expr) : Grows (e.eval (Callback.run depth) self origin) :=
  Discipline.grows_of_keeps fun last => e.eval_keeps (Discipline.void_lawful last)
    (Callback.run_sound (Discipline.void_lawful last) depth) self origin

theorem Expr.evalEntries_grows (i : Nat) (acc : Bindings) (es : List (Expr × Expr)) :
    Grows (Expr.evalEntries (Callback.run depth) self origin i acc es) :=
  Discipline.grows_of_keeps fun last => Expr.evalEntries_keeps (Discipline.void_lawful last)
    (Callback.run_sound (Discipline.void_lawful last) depth) self origin i acc
    (fun _ _ _ => trivial) es

end Grows

/-! ## Runs that stay together -/

/-- The second happening is the first one, renamed. -/
inductive Happening.Renamed (ρ : Renaming) : Happening → Happening → Prop where
  | opened (place : Nat) (parent : Option Nat) :
      Renamed ρ (.opened place parent) (.opened place parent)
  | called (place : Nat) {k k' : Command} {r r' : Except Fault Reply} (hk : k.Renamed ρ k')
      (hr : ρ.Results (Reply.Renamed ρ) r r') : Renamed ρ (.called place k r) (.called place k' r')

namespace Session

variable {o o' s s' t t' : Session} {place : Nat}

/-- Two runs, which began at `o` and `o'`, have come to sessions that are the same but for names, by
happenings that are, and there is a builder at the place `place`. -/
structure Together (ρ : Renaming) (o o' : Session) (place : Nat) (s s' : Session) : Prop where
  renamed : s.Renamed ρ s'
  happenings : ∃ L L', o.FullTrace L s ∧ o'.FullTrace L' s' ∧
    List.Forall₂ (Happening.Renamed ρ) L L'
  here : place < s.builders.length

namespace Together

theorem start (h : s.Renamed ρ s') (hplace : place < s.builders.length) :
    Together ρ s s' place s s' :=
  ⟨h, ⟨[], [], .refl s, .refl s', .nil⟩, hplace⟩

theorem here' (h : Together ρ o o' place s s') : place < s'.builders.length :=
  h.renamed.length_builders ▸ h.here

/-- More has happened in both runs. -/
theorem extend (h : Together ρ o o' place s s') (ht : t.Renamed ρ t') {L L' : List Happening}
    (hL : s.FullTrace L t) (hL' : s'.FullTrace L' t')
    (hLL' : List.Forall₂ (Happening.Renamed ρ) L L') : Together ρ o o' place t t' := by
  obtain ⟨-, ⟨M, M', hM, hM', hMM'⟩, hplace⟩ := h
  exact ⟨ht, ⟨M ++ L, M' ++ L', hM.trans hL, hM'.trans hL', List.rel_append hMM' hLL'⟩,
    Nat.lt_of_lt_of_le hplace hL.trace.length_le⟩

/-- What is none of the builders' business has happened in both runs. -/
theorem aside (h : Together ρ o o' place s s') (ht : t.Renamed ρ t') (hL : s.FullTrace [] t)
    (hL' : s'.FullTrace [] t') : Together ρ o o' place t t' :=
  h.extend ht hL hL' .nil

end Together

/-- Beside that, a nested statement is asked for in the same way in both runs: with the options of
the builder at hand, or with those that a construction gives it. -/
structure Opening (ρ : Renaming) (o o' : Session) (place : Nat) (options options' : Value)
    (s s' : Session) : Prop where
  together : Together ρ o o' place s s'
  same : options.Renamed ρ options'
  given : options = (s.builder place).options ∧ options' = (s'.builder place).options ∨
    ∃ c c', .construction c ∈ s.history ∧ .construction c' ∈ s'.history ∧
      c.options? = some options ∧ c'.options? = some options'

namespace Opening

variable {options options' : Value}

/-- The builder at hand keeps its options, whatever happens. -/
theorem extend (h : Opening ρ o o' place options options' s s') (ht : t.Renamed ρ t')
    {L L' : List Happening} (hL : s.FullTrace L t) (hL' : s'.FullTrace L' t')
    (hLL' : List.Forall₂ (Happening.Renamed ρ) L L') :
    Opening ρ o o' place options options' t t' := by
  refine ⟨h.together.extend ht hL hL' hLL', h.same, ?_⟩
  rcases h.given with ⟨ho, ho'⟩ | ⟨c, c', hc, hc', ho⟩
  · exact .inl ⟨by rw [(hL.trace.grows h.together.here).options, ho],
      by rw [(hL'.trace.grows h.together.here').options, ho']⟩
  · exact .inr ⟨c, c', hL.trace.le.2.subset hc, hL'.trace.le.2.subset hc', ho⟩

/-- The new builders are the same but for the names. -/
theorem opened (h : Opening ρ o o' place options options' s s') :
    Session.Renamed ρ { s with builders := s.builders ++ [.empty (givenOptions options)] }
      { s' with builders := s'.builders ++ [.empty (givenOptions options')] } := by
  have hoptions : (givenOptions options).Renamed ρ (givenOptions options') := by
    have hsome := h.same.toOption
    unfold givenOptions
    revert hsome
    generalize options.toOption = x, options'.toOption = x'
    intro hsome
    cases hsome with
    | none => exact .options .default
    | some hv => exact hv
  exact (Run.Mirrors.newBuilder hoptions s s' h.together.renamed).2

/-- That they are opened is the same happening in both runs. -/
theorem happening (h : Opening ρ o o' place options options' s s') :
    ∃ parent, s.FullTrace [.opened s.builders.length parent]
        { s with builders := s.builders ++ [.empty (givenOptions options)] } ∧
      s'.FullTrace [.opened s.builders.length parent]
        { s' with builders := s'.builders ++ [.empty (givenOptions options')] } := by
  have hlength := h.together.renamed.length_builders
  rcases h.given with ⟨ho, ho'⟩ | ⟨c, c', hc, hc', ho, ho'⟩
  · refine ⟨some place, ho ▸ .inherited h.together.here, ?_⟩
    rw [hlength, ho']
    exact .inherited h.together.here'
  · refine ⟨none, .opened hc ho, ?_⟩
    rw [hlength]
    exact .opened hc' ho'

end Opening

end Session

/-! ## Actions that are none of the builders' business -/

namespace Run

variable {α : Type} {last last' o o' : Session} {place : Nat} {P : Prop}

/-- Two actions that do the same, leave builders alone and give no command. -/
theorem Mirrors.renames {m m' : Run α} {Q : α → α → Prop} (hm : ∀ s, m.AsideAt s)
    (hm' : ∀ s, m'.AsideAt s) (h : P → Mirrors ρ m m' Q) :
    Renames ρ last last' (Session.Together ρ o o' place) P m m' Q := by
  refine fun s s' => ⟨(hm s).trace.le, (hm' s').trace.le, fun hP _ _ hs => ?_⟩
  obtain ⟨hr, ht⟩ := h hP s s' hs.renamed
  exact ⟨hr, hs.aside ht (hm s) (hm' s')⟩

theorem builder_renames (i : Nat) :
    Renames ρ last last' (Session.Together ρ o o' place) P (Run.builder i) (Run.builder i)
      (Builder.Renamed ρ) :=
  Mirrors.renames (fun _ => .idle rfl) (fun _ => .idle rfl) fun _ => .builder i

theorem named_renames (name : String) :
    Renames ρ last last' (Session.Together ρ o o' place) P (Run.named name) (Run.named name)
      (Value.Renamed ρ) :=
  Mirrors.renames (fun _ => .idle rfl) (fun _ => .idle rfl) fun _ => .named name

theorem bindName_renames (name : String) {v v' : Value} (h : P → v.Renamed ρ v') :
    Renames ρ last last' (Session.Together ρ o o' place) P (Run.bindName name v)
      (Run.bindName name v') Eq :=
  Mirrors.renames (fun _ => .unseen rfl rfl rfl) (fun _ => .unseen rfl rfl rfl)
    fun hP => .bindName name (h hP)

theorem capture_renames (name : String) (i : Nat) :
    Renames ρ last last' (Session.Together ρ o o' place) P (Run.capture name i)
      (Run.capture name i) Eq :=
  Mirrors.renames (fun _ => .unseen rfl rfl rfl) (fun _ => .unseen rfl rfl rfl)
    fun _ => .capture name i

theorem origin_renames :
    Renames ρ last last' (Session.Together ρ o o' place) P Run.origin Run.origin Eq :=
  Mirrors.renames (fun _ => .unseen rfl rfl rfl) (fun _ => .unseen rfl rfl rfl) fun _ => .origin

theorem note_renames {e e' : Event} (he : e.command? = none) (he' : e'.command? = none)
    (h : P → e.Renamed ρ e') :
    Renames ρ last last' (Session.Together ρ o o' place) P (Run.note e) (Run.note e') Eq :=
  Mirrors.renames (fun _ => .note he) (fun _ => .note he') fun hP => .note (h hP)

theorem making_renames {m m' : Making α} {Q : α → α → Prop}
    (h : Renames ρ last.supply last'.supply (Supply.Renamed ρ) P m m' Q) :
    Renames ρ last last' (Session.Together ρ o o' place) P (Run.making m) (Run.making m') Q := by
  intro s s'
  obtain ⟨hgrows, hgrows', hmake⟩ := h s.supply s'.supply
  refine ⟨⟨hgrows, List.prefix_refl _⟩, ⟨hgrows', List.prefix_refl _⟩, fun hP hlast hlast' hs => ?_⟩
  obtain ⟨hr, hsupply⟩ := hmake hP hlast.1 hlast'.1 hs.renamed.supply
  exact ⟨hr, hs.aside { hs.renamed with supply := hsupply }
    (.aside ⟨hgrows, List.prefix_refl _⟩ rfl rfl) (.aside ⟨hgrows', List.prefix_refl _⟩ rfl rfl)⟩

end Run

/-! ## Nested statements -/

/-- A way of running callbacks does the same in both runs, wherever these began. -/
def Invoke.Renames (ρ : Renaming) (last last' : Session) (invoke : Invoke) : Prop :=
  ∀ (c : Callback) (place : Nat) (o o' : Session),
    Action.Renames ρ last last' (Session.Together ρ o o' place) True (invoke c place)
      (invoke c place) (Reply.Renamed ρ)

theorem Reply.Renamed.nestedText {r r' : Reply} (h : r.Renamed ρ r') (className : String) :
    ρ.Results ρ.Texts (r.nestedText className) (r'.nestedText className) := by
  have htype := h.typeName_eq
  cases h with
  | text h => exact .ok h
  | value h =>
    cases h with
    | str s => exact .ok (.refl s)
    | _ =>
      simp only [Reply.nestedText]
      rw [htype]
      exact .fault _
  | _ => exact .fault _

section Nested

variable {depth : Nat} {last last' o o' : Session} {place : Nat}
  {options options' v v' w w' : Value} (hi : Invoke.Renames ρ last last' (Callback.run depth))

include hi

/-- What is made of the answer of a callback, and of its builder. -/
theorem Callback.answer_renames (className : String) (c : Callback) {nested nested' : Nat}
    (hnested : nested = nested') :
    Renames ρ last last' (Session.Together ρ o o' nested) True
      (do
        let reply ← Callback.run depth c nested
        let sql ← Run.ofExcept (reply.nestedText className)
        let b ← Run.builder nested
        Run.note (.nested b sql)
        return (sql, b.bindings))
      (do
        let reply ← Callback.run depth c nested'
        let sql ← Run.ofExcept (reply.nestedText className)
        let b ← Run.builder nested'
        Run.note (.nested b sql)
        return (sql, b.bindings))
      (fun m m' => ρ.Texts m.1 m'.1 ∧ Bindings.Renamed ρ m.2 m'.2) := by
  subst hnested
  refine (hi c nested o o').bind fun r r' => ?_
  refine (Renames.ofExcept fun h => h.2.nestedText className).bind fun sql sql' => ?_
  refine (Run.builder_renames nested).bind fun b b' => ?_
  refine (Run.note_renames rfl rfl fun h => .nested h.2 h.1.2).bind fun _ _ => ?_
  exact .pure fun h => ⟨h.1.1.2, h.1.2.bindings⟩

/-- **Nested statements are the same but for the names**, and so is what they bind. -/
theorem runNested_renames {P : Prop} (className : String) (h : P → v.Renamed ρ v') :
    Renames ρ last last' (Session.Opening ρ o o' place options options') P
      (runNested (Callback.run depth) className options v)
      (runNested (Callback.run depth) className options' v')
      (fun m m' => ρ.Texts m.1 m'.1 ∧ Bindings.Renamed ρ m.2 m'.2) := by
  intro s s'
  refine ⟨runNested_grows depth className options v s,
    runNested_grows depth className options' v' s', fun hP hlast hlast' hs => ?_⟩
  obtain ⟨parent, hL, hL'⟩ := hs.happening
  have hopened := hs.opened
  cases h hP with
  | callback c made =>
    rw [runNested_callback] at hlast hlast'
    rw [runNested_callback, runNested_callback]
    -- The callback begins at new builders, which are at the same place in both runs.
    have hplace :
        s.builders.length < (s.builders ++ [Builder.empty (givenOptions options)]).length := by simp
    have hstart := Session.Together.start hopened hplace
    obtain ⟨hr, ht, ⟨M, M', hM, hM', hMM'⟩, -⟩ := (Callback.answer_renames hi className c
      hs.together.renamed.length_builders _ _).renames trivial (by exact hlast) (by exact hlast')
        hstart
    exact ⟨hr, hs.extend ht (hL.trans hM) (hL'.trans hM') (.cons (.opened _ _) hMM')⟩
  | _ => exact ⟨.fault _, hs.extend hopened hL hL' (.cons (.opened _ _) .nil)⟩

theorem makeSubSelect_renames {P : Prop} (h : P → v.Renamed ρ v') (hlabel : P → w.Renamed ρ w') :
    Renames ρ last last' (Session.Opening ρ o o' place options options') P
      (makeSubSelect (Callback.run depth) v w options)
      (makeSubSelect (Callback.run depth) v' w' options') (Fragment.Renamed ρ) := by
  refine (Renames.ofExcept fun hP => (hlabel hP).name?).bind fun name name' => ?_
  refine (runNested_renames hi "SubSelect" fun hP => h hP.1).bind fun m m' => .pure fun hP => ?_
  obtain ⟨⟨-, rfl⟩, hsql, hbound⟩ := hP
  exact .subSelect (.mk hsql name hbound)

theorem runMembers_renames {P : Prop} {callbacks callbacks' : List Value}
    (h : List.Forall₂ (Value.Renamed ρ) callbacks callbacks') :
    Renames ρ last last' (Session.Opening ρ o o' place options options') P
      (runMembers (Callback.run depth) options callbacks)
      (runMembers (Callback.run depth) options' callbacks')
      (List.Forall₂ fun m m' => ρ.Texts m.1 m'.1 ∧ Bindings.Renamed ρ m.2 m'.2) := by
  induction h generalizing P with
  | nil => exact .pure fun _ => .nil
  | cons hc _ ih =>
    exact (runNested_renames hi "Union" fun _ => hc).bind fun m m' =>
      ih.bind fun ms ms' => .pure fun hP => .cons hP.1.2 hP.2

theorem makeUnion_renames {P : Prop} (h : P → v.Renamed ρ v') (hmodifier : P → w.Renamed ρ w') :
    Renames ρ last last' (Session.Opening ρ o o' place options options') P
      (makeUnion (Callback.run depth) v w options)
      (makeUnion (Callback.run depth) v' w' options') (Fragment.Renamed ρ) := by
  refine (Renames.ofExcept fun hP => (h hP).items).bind fun vs vs' => ?_
  have hmembers : Renames ρ last last' (Session.Opening ρ o o' place options options')
      (P ∧ List.Forall₂ (Value.Renamed ρ) vs vs') _ _ _ :=
    .assume (runMembers_grows depth options vs) (runMembers_grows depth options' vs') fun hP =>
      runMembers_renames hi hP.2
  refine hmembers.bind fun ms ms' => .pure fun hP => .union ?_ (hmodifier hP.1.1) ?_
  · exact List.forall₂_map_left_iff.mpr (List.forall₂_map_right_iff.mpr
      (hP.2.imp fun _ _ => And.left))
  · exact Bindings.mergeAll_renamed (List.forall₂_map_left_iff.mpr (List.forall₂_map_right_iff.mpr
      (hP.2.imp fun _ _ => And.right)))

end Nested

/-! ## Constructions -/

section Constructions

variable {depth : Nat} {last last' o o' s s' : Session} {place : Nat} {P : Prop}
  (hi : Invoke.Renames ρ last last' (Callback.run depth)) (hρ : ρ.Covers last.supply last'.supply)

include hi hρ

theorem Construction.Renamed.make_renamesAt {k k' : Construction} (h : k.Renamed ρ k')
    (hk : .construction k ∈ s.history) (hk' : .construction k' ∈ s'.history) :
    RenamesAt ρ last last' (Session.Together ρ o o' place) P (k.make (Callback.run depth) place)
      (k'.make (Callback.run depth) place) (Fragment.Renamed ρ) s s' := by
  -- Only where a nested statement is asked for it matters what is known of the two sessions.
  have anywhere : ∀ {m m' : Run Fragment}, Renames ρ last last' (Session.Together ρ o o' place) P
      m m' (Fragment.Renamed ρ) → RenamesAt ρ last last' (Session.Together ρ o o' place) P m m'
        (Fragment.Renamed ρ) s s' := fun h => h s s'
  have nested : ∀ {options options' : Value} {m m' : Run Fragment},
      Renames ρ last last' (Session.Opening ρ o o' place options options') P m m'
        (Fragment.Renamed ρ) →
      (Session.Together ρ o o' place s s' → Session.Opening ρ o o' place options options' s s') →
      RenamesAt ρ last last' (Session.Together ρ o o' place) P m m' (Fragment.Renamed ρ) s s' :=
    fun h hopening => (h s s').of_rel hopening fun _ => Session.Opening.together
  have own : Session.Together ρ o o' place s s' →
      Session.Opening ρ o o' place (s.builder place).options (s'.builder place).options s s' :=
    fun hs => ⟨hs, (hs.renamed.builder place).options, .inl ⟨rfl, rfl⟩⟩
  cases h with
  | column h =>
    exact anywhere ((Renames.ofExcept fun _ => h.name).bind fun name _ =>
      .pure fun hname => hname.2 ▸ .column name)
  | literal h => exact anywhere (Run.making_renames (Fragment.ofLiteral_renames hρ h))
  | null => exact anywhere (.pure fun _ => .null)
  | raw h => exact anywhere (.pure fun _ => .raw h)
  | cast h htype => exact anywhere (.ofExcept fun _ => Fragment.ofCast_renamed h htype)
  | function hname hargs =>
    exact anywhere (Run.making_renames (Fragment.ofFunction_renames hρ hname hargs))
  | group c h => exact anywhere (.pure fun _ => .group c h)
  | filter hleft hright hoperator hbefore hafter =>
    exact anywhere ((Run.making_renames (Filter.make_renames hρ hleft hright hoperator hbefore
      hafter)).bind fun _ _ => .pure fun hc => .filter hc.2)
  | projection h hlabel =>
    exact anywhere (.ofExcept fun _ => Fragment.ofProjection_renamed h hlabel)
  | subSelect h hlabel hoptions =>
    exact nested (makeSubSelect_renames hi (fun _ => h) fun _ => hlabel) fun hs =>
      ⟨hs, hoptions, .inr ⟨_, _, hk, hk', rfl, rfl⟩⟩
  | union h hmodifier hoptions =>
    exact nested (makeUnion_renames hi (fun _ => h) fun _ => hmodifier) fun hs =>
      ⟨hs, hoptions, .inr ⟨_, _, hk, hk', rfl, rfl⟩⟩
  | join family ht hc hlabel hkind =>
    exact anywhere ((Renames.ofExcept fun _ => Join.make_renamed family ht hc hlabel hkind).bind
      fun _ _ => .pure fun hj => .join hj.2)
  | branch hc hr =>
    exact anywhere ((Renames.ofExcept fun _ => Branch.make_renamed hc hr).bind
      fun _ _ => .pure fun hb => .branch hb.2)
  | fallback h => exact anywhere (.ofExcept fun _ => Fragment.ofFallback_renamed h)
  | choice hname hb hl => exact anywhere (.ofExcept fun _ => Fragment.ofChoice_renamed hname hb hl)
  | asColumn h => exact anywhere (.ofExcept fun _ => h.asColumn)
  | ownSubSelect h hlabel =>
    have hmade := nested (makeSubSelect_renames hi (fun _ => h) fun _ => hlabel) own
    exact ⟨hmade.grows, hmade.grows', hmade.renames⟩
  | ownUnion h hmodifier =>
    have hmade := nested (makeUnion_renames hi (fun _ => h) fun _ => hmodifier) own
    exact ⟨hmade.grows, hmade.grows', hmade.renames⟩

/-- **A renamed construction makes the renamed value.** -/
theorem Construction.Renamed.run_renames {k k' : Construction} (h : P → k.Renamed ρ k')
    (origin : Origin) :
    Renames ρ last last' (Session.Together ρ o o' place) P
      (k.run (Callback.run depth) place origin) (k'.run (Callback.run depth) place origin)
      (Value.Renamed ρ) := by
  refine .assume (k.run_grows depth place origin) (k'.run_grows depth place origin)
    fun hP s s' => ?_
  replace h := h hP
  -- Once the construction is in the history, it is known where a new builder has its options from.
  have noted : ∀ {m m' : Run Value},
      RenamesAt ρ last last' (Session.Together ρ o o' place) True m m' (Value.Renamed ρ)
        { s with history := s.history ++ [.construction k] }
        { s' with history := s'.history ++ [.construction k'] } →
      RenamesAt ρ last last' (Session.Together ρ o o' place) True
        (Run.note (.construction k) >>= fun _ => m) (Run.note (.construction k') >>= fun _ => m')
        (Value.Renamed ρ) s s' := by
    intro m m' hm
    have hnote : Renames ρ last last' (Session.Together ρ o o' place) True
      (Run.note (.construction k)) (Run.note (.construction k')) Eq :=
        Run.note_renames rfl rfl fun _ => .construction h
    refine ⟨le_trans (hnote s s').grows hm.grows, le_trans (hnote s s').grows' hm.grows',
      fun _ hlast hlast' hs => hm.renames trivial hlast hlast' ?_⟩
    exact ((hnote s s').renames trivial (le_trans hm.grows hlast) (le_trans hm.grows' hlast') hs).2
  have made : RenamesAt ρ last last' (Session.Together ρ o o' place) True
      (do
        let f ← k.make (Callback.run depth) place
        Run.note (.fragment f)
        return Value.fragment f origin)
      (do
        let f ← k'.make (Callback.run depth) place
        Run.note (.fragment f)
        return Value.fragment f origin) (Value.Renamed ρ)
      { s with history := s.history ++ [.construction k] }
      { s' with history := s'.history ++ [.construction k'] } := by
    refine (h.make_renamesAt hi hρ (List.mem_append_right _ (List.mem_singleton_self _))
      (List.mem_append_right _ (List.mem_singleton_self _))).bind fun f f' => ?_
    refine (Run.note_renames rfl rfl fun hf => .fragment hf.2).bind fun _ _ => ?_
    exact .pure fun hf => .fragment hf.1.2 origin
  cases h with
  | asColumn h =>
    cases h with
    | fragment h known => exact noted (Renames.pure (fun _ => .fragment h known) _ _)
    | _ => exact noted made
  | _ => exact noted made

/-! ## Commands -/

omit hi hρ in
theorem Command.runNoted_grows (k : Command) : Grows (k.runNoted (Callback.run depth) place) :=
  fun s => le_trans (⟨le_refl _, List.prefix_append _ _⟩ :
    s ≤ { s with history := s.history ++ [.command place k] }) (k.run_grows depth place _)

omit hi hρ in
theorem Command.Renamed.nests_eq {k k' : Command} (h : k.Renamed ρ k') : k'.nests = k.nests := by
  cases h <;> rfl

omit hi in
/-- A command that runs no callback is the same happening in both runs, renamed. -/
theorem Command.Renamed.call_renames {k k' : Command} (h : k.Renamed ρ k') (hk : k.nests = false)
    (hplain : last.bindsByHand = false) :
    Renames ρ last last' (Session.Together ρ o o' place) P
      (k.runNoted (Callback.run depth) place) (k'.runNoted (Callback.run depth) place)
      (Reply.Renamed ρ) := by
  refine fun s s' => ⟨k.runNoted_grows s, k'.runNoted_grows s', fun _ hlast hlast' hs => ?_⟩
  have hk' : k'.nests = false := h.nests_eq.trans hk
  obtain ⟨-, hasked, -⟩ := Session.runNoted_changed hk (rfl :
    (k.runNoted (Callback.run depth) place).exec s = (_, _))
  have hkplain : k.bindsByHand = false := Session.plain_of_mem hplain (hlast.2.subset hasked)
  obtain ⟨hr, ht⟩ := h.run hρ hk hkplain (Callback.run depth) place
    (Run.Mirrors.note (.command place h) s s' hs.renamed).2 hlast.1 hlast'.1
  exact ⟨hr, hs.extend ht (.called hs.here _ hk) (.called hs.here' _ hk')
    (.cons (.called place h hr) .nil)⟩

/-- **A renamed command has the renamed outcome**, if nothing is bound by hand. -/
theorem Command.Renamed.runNoted_renames {k k' : Command} (h : k.Renamed ρ k')
    (hplain : last.bindsByHand = false) :
    Renames ρ last last' (Session.Together ρ o o' place) P
      (k.runNoted (Callback.run depth) place) (k'.runNoted (Callback.run depth) place)
      (Reply.Renamed ρ) := by
  cases hk : k.nests with
  | false => exact h.call_renames hρ hk hplain
  | true =>
    have nested : ∀ {c c' : Construction}, c.Renamed ρ c' → k'.nests = true →
        Renames ρ last last' (Session.Together ρ o o' place) P
          (do
            Run.note (.command place k)
            let v ← c.run (Callback.run depth) place []
            return Reply.value v)
          (do
            Run.note (.command place k')
            let v ← c'.run (Callback.run depth) place []
            return Reply.value v)
          (Reply.Renamed ρ) := by
      intro c c' hc hk'
      have hnote : (Event.command place k).command? = none := if_pos hk
      have hnote' : (Event.command place k').command? = none := if_pos hk'
      refine (Run.note_renames hnote hnote' fun _ => .command place h).bind fun _ _ => ?_
      exact (Construction.Renamed.run_renames hi hρ (fun _ => hc) []).bind
        fun v v' => .pure fun hv => .value hv.2
    cases h with
    | subSelect h hlabel => exact nested (.ownSubSelect h hlabel) rfl
    | union h hmodifier => exact nested (.ownUnion h hmodifier) rfl
    | _ => cases hk

end Constructions

end BoundSql

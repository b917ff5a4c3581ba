import BoundSql.Proofs.Commands

/-!
# What a call makes of its arguments

A reader takes parameters off the arguments of a call and fills the others with defaults, which
are texts or null. So what holds of the arguments, and of texts and null, holds of all values in
the construction or the command that comes out (`Constructor.reads_arguments`,
`Method.reads_arguments`).
-/

set_option autoImplicit false

namespace BoundSql

/-- All values among the arguments of a call have a property. -/
def Arguments.All (P : Value → Prop) (a : Arguments) : Prop :=
  (∀ v ∈ a.positional, P v) ∧ ∀ e ∈ a.named, P e.2

/-- From arguments that have `P`, the reader leaves such arguments and takes what has `Q`. -/
def ArgumentReader.Reads {α : Type} (P : Value → Prop) (r : ArgumentReader α) (Q : α → Prop) :
    Prop :=
  ∀ a, a.All P → ∀ x a', r a = some (x, a') → Q x ∧ a'.All P

namespace ArgumentReader.Reads

variable {α β : Type} {P : Value → Prop} {r : ArgumentReader α} {Q : α → Prop}

theorem pure {x : α} (h : Q x) : Reads P (Pure.pure x) Q := by
  intro a ha y a' hr
  cases hr
  exact ⟨h, ha⟩

theorem bind {f : α → ArgumentReader β} {R : β → Prop} (hr : Reads P r Q)
    (hf : ∀ x, Q x → Reads P (f x) R) : Reads P (r >>= f) R := by
  intro a ha y a' h
  change (r a).bind (fun p => f p.1 p.2) = some (y, a') at h
  obtain ⟨⟨x, a''⟩, hx, h⟩ := Option.bind_eq_some_iff.mp h
  obtain ⟨hQ, ha''⟩ := hr a ha x a'' hx
  exact hf x hQ a'' ha'' y a' h

theorem keyword? (name : String) :
    Reads P (ArgumentReader.keyword? name) fun v => ∀ w ∈ v, P w := by
  intro a ha v a' h
  unfold ArgumentReader.keyword? at h
  split at h
  · rename_i w hw
    cases h
    obtain ⟨j, hj, -⟩ := Entries.exists_mem_of_get? hw
    refine ⟨?_, ha.1, fun e he => ha.2 e (List.mem_filter.mp he).1⟩
    rintro _ ⟨⟩
    exact ha.2 _ hj
  · cases h
    exact ⟨by simp, ha⟩

theorem parameter? (name : String) :
    Reads P (ArgumentReader.parameter? name) fun v => ∀ w ∈ v, P w := by
  intro a ha v a' h
  unfold ArgumentReader.parameter? at h
  split at h
  · rename_i w rest hpos
    cases h
    rw [Arguments.All, hpos] at ha
    refine ⟨?_, fun u hu => ha.1 u (List.mem_cons_of_mem _ hu), ha.2⟩
    rintro _ ⟨⟩
    exact ha.1 _ List.mem_cons_self
  · exact Reads.keyword? name a ha v a' h

theorem required (name : String) : Reads P (ArgumentReader.required name) P := by
  refine (parameter? name).bind fun v hv => ?_
  cases v with
  | none => exact fun a _ x a' h => by cases h
  | some v => exact .pure (hv v rfl)

theorem optional (name : String) {v : Value} (h : P v) :
    Reads P (ArgumentReader.optional name v) P := by
  refine (parameter? name).bind fun w hw => .pure ?_
  cases w with
  | none => exact h
  | some w => exact hw w rfl

theorem keyword (name : String) {v : Value} (h : P v) :
    Reads P (ArgumentReader.keyword name v) P := by
  refine (keyword? name).bind fun w hw => .pure ?_
  cases w with
  | none => exact h
  | some w => exact hw w rfl

theorem rest : Reads P ArgumentReader.rest fun vs => ∀ v ∈ vs, P v := by
  intro a ha vs a' h
  cases h
  exact ⟨ha.1, by simp, ha.2⟩

/-- What a reader makes of all arguments. -/
theorem read? (hr : Reads P r Q) {a : Arguments} (ha : a.All P) {x : α}
    (h : a.read? r = some x) : Q x := by
  unfold Arguments.read? at h
  split at h
  · cases h
    exact (hr a ha _ _ ‹_›).1
  · cases h

end ArgumentReader.Reads

open ArgumentReader

variable {P : Value → Prop}

/-- The values in a construction are arguments of the call, collections of them, or defaults. -/
theorem Constructor.reads_arguments (null : P .null) (str : ∀ s, P (.str s))
    (tuple : ∀ vs, (∀ v ∈ vs, P v) → P (.tuple vs)) (c : Constructor) :
    Reads P c.reader fun k => ∀ v ∈ k.arguments, P v := by
  cases c with
  | column | literal | fallback | asColumn =>
    exact .bind (.required _) fun v hv => .pure (by simp [Construction.arguments, hv])
  | null => exact .pure (by simp [Construction.arguments])
  | raw | group => exact .bind .rest fun vs hvs => .pure hvs
  | cast | branch =>
    exact .bind (.required _) fun v hv => .bind (.required _) fun w hw =>
      .pure (by simp [Construction.arguments, hv, hw])
  | function =>
    exact .bind (.required _) fun v hv => .bind .rest fun vs hvs =>
      .pure (List.forall_mem_cons.mpr ⟨hv, hvs⟩)
  | projection | ownSubSelect | ownUnion =>
    exact .bind (.required _) fun v hv => .bind (.optional _ null) fun w hw =>
      .pure (by simp [Construction.arguments, hv, hw])
  | subSelect | union =>
    exact .bind (.required _) fun v hv => .bind (.optional _ null) fun w hw =>
      .bind (.keyword _ null) fun u hu => .pure (by simp [Construction.arguments, hv, hw, hu])
  | unionAll | unionDistinct =>
    exact .bind .rest fun vs hvs =>
      .pure (by simp [Construction.arguments, tuple vs hvs, str, null])
  | join =>
    exact .bind (.required _) fun v hv => .bind (.optional _ null) fun w hw =>
      .bind (.optional _ null) fun u hu => .bind (.keyword _ null) fun t ht =>
        .pure (by simp [Construction.arguments, hv, hw, hu, ht])
  | filter =>
    exact .bind (.required _) fun v hv => .bind (.optional _ null) fun w hw =>
      .bind (.optional _ (str _)) fun u hu => .bind (.keyword _ (str _)) fun t ht =>
        .bind (.keyword _ (str _)) fun r hr =>
          .pure (by simp [Construction.arguments, hv, hw, hu, ht, hr])
  | choice =>
    exact .bind (.required _) fun v hv => .bind (.required _) fun w hw =>
      .bind (.optional _ null) fun u hu => .pure (by simp [Construction.arguments, hv, hw, hu])

/-- The values in a command are arguments of the call, or defaults. -/
theorem Method.reads_arguments (null : P .null) (str : ∀ s, P (.str s)) (m : Method) :
    Reads P m.reader fun k => ∀ v ∈ k.arguments, P v := by
  cases m with
  | table | limit | offset | clampLimit =>
    exact .bind (.required _) fun v hv => .pure (by simp [Command.arguments, hv])
  | fields | join | order | groupBy | select | compileSelect =>
    exact .bind .rest fun vs hvs => .pure hvs
  | filter =>
    exact .bind (.required _) fun v hv => .bind (.optional _ null) fun w hw =>
      .bind (.optional _ (str _)) fun u hu => .pure (by simp [Command.arguments, hv, hw, hu])
  | paranoid =>
    exact .bind (.optional _ null) fun v hv => .pure (by simp [Command.arguments, hv])
  | subSelect | union =>
    exact .bind (.required _) fun v hv => .bind (.optional _ null) fun w hw =>
      .pure (by simp [Command.arguments, hv, hw])
  | delete | compileDelete | bindings | options => exact .pure (by simp [Command.arguments])

end BoundSql

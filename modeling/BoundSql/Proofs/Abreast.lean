import BoundSql.Proofs.RedactedSessions
import BoundSql.Proofs.Trace

/-!
# Two runs abreast

Two runs that are the same but for data come to sessions that are. They do so by the same
happenings: where one opens a builder or gives a command, so does the other, at the same place, with
arguments and an outcome that are the same but for data (`Happening.Alike`). No happening is left
out, since the traces are full ones.

`Run.Abreast` is the judgment that says so of two actions, and there is one rule for each way in
which scripts are put together. What an action may do is known by its place, the builder at hand,
which is there from the beginning. Only where a nested statement is asked for, more has to be known
of the two sessions, and for that there is the judgment at two sessions (`Run.AbreastAt`).
-/

set_option autoImplicit false

namespace BoundSql

open BoundSql.Action

/-! ## Happenings -/

/-- Two happenings are the same but for data. -/
inductive Happening.Alike : Happening → Happening → Prop where
  | opened (place : Nat) (parent : Option Nat) :
      Alike (.opened place parent) (.opened place parent)
  | called (place : Nat) {k k' : Command} {r r' : Except Fault Reply} (hk : k.Alike k')
      (hr : BoundSql.Alike Reply.Alike r r') : Alike (.called place k r) (.called place k' r')

/-! ## Sessions -/

namespace Session

variable {s s' t t' u u' : Session}

/-- Two runs, which began at `s` and `s'`, have come to sessions that are the same but for data by
happenings that are. -/
structure Abreast (s s' t t' : Session) : Prop where
  alike : t.Alike t'
  happenings : ∃ L L', s.FullTrace L t ∧ s'.FullTrace L' t' ∧ List.Forall₂ Happening.Alike L L'

namespace Abreast

theorem aside (ht : t.Alike t') (h : s.FullTrace [] t) (h' : s'.FullTrace [] t') :
    s.Abreast s' t t' :=
  ⟨ht, [], [], h, h', .nil⟩

theorem refl (h : s.Alike s') : s.Abreast s' s s' :=
  .aside h (.refl s) (.refl s')

theorem trans (h : s.Abreast s' t t') (h' : t.Abreast t' u u') : s.Abreast s' u u' := by
  obtain ⟨-, L, L', hL, hL', hLL'⟩ := h
  obtain ⟨hu, M, M', hM, hM', hMM'⟩ := h'
  exact ⟨hu, L ++ M, L' ++ M', hL.trans hM, hL'.trans hM', List.rel_append hLL' hMM'⟩

theorem length_le (h : s.Abreast s' t t') : s.builders.length ≤ t.builders.length := by
  obtain ⟨-, L, -, hL, -, -⟩ := h
  exact hL.trace.length_le

end Abreast

end Session

/-! ## Actions -/

namespace Run

variable {α β γ δ : Type} {s s' : Session}

/-- Two actions, carried out in two sessions, go abreast: they have results that `Q` relates, or the
same fault. -/
def AbreastAt (m : Run α) (m' : Run β) (Q : α → β → Prop) (s s' : Session) : Prop :=
  Alike Q (m.exec s).1 (m'.exec s').1 ∧ s.Abreast s' (m.exec s).2 (m'.exec s').2

/-- Two actions on the builder at a place that is there. -/
def Abreast (self : Nat) (m : Run α) (m' : Run β) (Q : α → β → Prop) : Prop :=
  ∀ s s' : Session, s.Alike s' → self < s.builders.length → AbreastAt m m' Q s s'

namespace AbreastAt

variable {m : Run α} {m' : Run β} {Q : α → β → Prop}

/-- Two actions that leave the sessions the same but for data, and the builders as they are. -/
theorem aside (h : Agree Session.Alike m m' Q) (hs : s.Alike s') (hm : m.AsideAt s)
    (hm' : m'.AsideAt s') : AbreastAt m m' Q s s' :=
  ⟨(h s s' hs).1, .aside (h s s' hs).2 hm hm'⟩

theorem idle (h : Agree Session.Alike m m' Q) (hs : s.Alike s') (hm : (m.exec s).2 = s)
    (hm' : (m'.exec s').2 = s') : AbreastAt m m' Q s s' :=
  .aside h hs (.idle hm) (.idle hm')

theorem pure (hs : s.Alike s') {x : α} {y : β} (h : Q x y) :
    AbreastAt (Pure.pure x) (Pure.pure y) Q s s' :=
  .idle (Agree.pure h) hs rfl rfl

theorem mono {R : α → β → Prop} (h : AbreastAt m m' Q s s') (hQ : ∀ x y, Q x y → R x y) :
    AbreastAt m m' R s s' :=
  ⟨h.1.mono hQ, h.2⟩

/-- **The rule for a sequence**, at two sessions. -/
theorem bind {f : α → Run γ} {f' : β → Run δ} {R : γ → δ → Prop} (hm : AbreastAt m m' Q s s')
    (hf : ∀ x y t t', m.exec s = (.ok x, t) → m'.exec s' = (.ok y, t') → Q x y →
      s.Abreast s' t t' → AbreastAt (f x) (f' y) R t t') :
    AbreastAt (m >>= f) (m' >>= f') R s s' := by
  obtain ⟨hr, ht⟩ := hm
  unfold AbreastAt
  rw [exec_bind, exec_bind]
  rcases hms : m.exec s with ⟨r, t⟩
  rcases hms' : m'.exec s' with ⟨r', t'⟩
  rw [hms, hms'] at hr ht
  cases hr with
  | error fault => exact ⟨.error fault, ht⟩
  | ok h =>
    obtain ⟨hq, hu⟩ := hf _ _ t t' hms hms' h ht
    exact ⟨hq, ht.trans hu⟩

/-- A sequence that begins with looking something up. -/
theorem bind_idle {f : α → Run γ} {f' : β → Run δ} {R : γ → δ → Prop}
    (h : Agree Session.Alike m m' Q) (hs : s.Alike s') (hm : (m.exec s).2 = s)
    (hm' : (m'.exec s').2 = s')
    (hf : ∀ x y, (m.exec s).1 = .ok x → (m'.exec s').1 = .ok y → Q x y →
      AbreastAt (f x) (f' y) R s s') :
    AbreastAt (m >>= f) (m' >>= f') R s s' := by
  refine (AbreastAt.idle h hs hm hm').bind fun x y t t' ht ht' hxy _ => ?_
  rw [ht] at hm
  rw [ht'] at hm'
  subst hm hm'
  exact hf x y (congrArg Prod.fst ht) (congrArg Prod.fst ht') hxy

end AbreastAt

namespace Abreast

variable {self : Nat} {m : Run α} {m' : Run β} {Q : α → β → Prop}

theorem aside (h : Agree Session.Alike m m' Q) (hm : ∀ s, m.AsideAt s) (hm' : ∀ s, m'.AsideAt s) :
    Abreast self m m' Q :=
  fun s s' hs _ => .aside h hs (hm s) (hm' s')

theorem idle (h : Agree Session.Alike m m' Q) (hm : ∀ s, (m.exec s).2 = s)
    (hm' : ∀ s, (m'.exec s).2 = s) : Abreast self m m' Q :=
  .aside h (fun s => .idle (hm s)) fun s => .idle (hm' s)

theorem pure {x : α} {y : β} (h : Q x y) : Abreast self (Pure.pure x) (Pure.pure y) Q :=
  .idle (Agree.pure h) (fun _ => rfl) fun _ => rfl

theorem throw (fault : Fault) :
    Abreast self (MonadExcept.throw fault : Run α) (MonadExcept.throw fault : Run β) Q :=
  .idle (Agree.throw fault) (fun _ => rfl) fun _ => rfl

theorem ofExcept {r : Except Fault α} {r' : Except Fault β} (h : Alike Q r r') :
    Abreast self (Run.ofExcept r) (Run.ofExcept r') Q :=
  .idle (Run.ofExcept_agree h) (fun _ => rfl) fun _ => rfl

theorem mono {R : α → β → Prop} (h : Abreast self m m' Q) (hQ : ∀ x y, Q x y → R x y) :
    Abreast self m m' R :=
  fun s s' hs hself => (h s s' hs hself).mono hQ

/-- **The rule for a sequence.** -/
theorem bind {f : α → Run γ} {f' : β → Run δ} {R : γ → δ → Prop} (hm : Abreast self m m' Q)
    (hf : ∀ x y, Q x y → Abreast self (f x) (f' y) R) : Abreast self (m >>= f) (m' >>= f') R := by
  intro s s' hs hself
  refine (hm s s' hs hself).bind fun x y t t' _ _ hxy ht => hf x y hxy t t' ht.alike ?_
  exact Nat.lt_of_lt_of_le hself ht.length_le

/-- What is known of the results of one of the two actions. -/
theorem with_left {P : α → Prop} (h : Abreast self m m' Q)
    (hP : ∀ s x s', m.exec s = (.ok x, s') → P x) :
    Abreast self m m' fun x y => P x ∧ Q x y := by
  intro s s' hs hself
  obtain ⟨hr, ht⟩ := h s s' hs hself
  refine ⟨?_, ht⟩
  rcases hm : m.exec s with ⟨r, t⟩
  rw [hm] at hr
  revert hr
  generalize (m'.exec s').1 = r'
  intro hr
  cases hr with
  | ok hQ => exact .ok ⟨hP s _ t hm, hQ⟩
  | error fault => exact .error fault

theorem named (name : String) :
    Abreast self (Run.named name) (Run.named name) (Value.SameAt .plain) :=
  .idle (Run.named_agree name) (fun _ => rfl) fun _ => rfl

theorem bindName (name : String) {v v' : Value} (h : v.SameAt .plain v') :
    Abreast self (Run.bindName name v) (Run.bindName name v') Eq :=
  .aside (Run.bindName_agree name h) (fun _ => .unseen rfl rfl rfl)
    fun _ => .unseen rfl rfl rfl

theorem origin : Abreast self Run.origin Run.origin Eq :=
  .aside Run.origin_agree (fun _ => .unseen rfl rfl rfl)
    fun _ => .unseen rfl rfl rfl

theorem capture (name : String) (i : Nat) :
    Abreast self (Run.capture name i) (Run.capture name i) Eq :=
  .aside (Run.capture_agree name i) (fun _ => .unseen rfl rfl rfl)
    fun _ => .unseen rfl rfl rfl

theorem builder (i : Nat) :
    Abreast self (Run.builder i) (Run.builder i) fun b b' => b.redact = b'.redact :=
  .idle (Run.builder_agree i) (fun _ => rfl) fun _ => rfl

theorem note {e e' : Event} (h : e.Alike e') (he : e.command? = none) (he' : e'.command? = none) :
    Abreast self (Run.note e) (Run.note e') Eq :=
  .aside (Run.note_agree h) (fun _ => .note he) fun _ => .note he'

theorem making {m : Making α} {m' : Making β} (h : Agree Supply.Alike m m' Q)
    (hm : ∀ t : Supply, t ≤ (Action.outcome m t).2)
    (hm' : ∀ t : Supply, t ≤ (Action.outcome m' t).2) :
    Abreast self (Run.making m) (Run.making m') Q :=
  .aside (Run.making_agree h) (fun _ => .making hm) fun _ => .making hm'

end Abreast

end Run

/-- Callbacks that are the same but for data go abreast. -/
def Invoke.Abreast (invoke invoke' : Invoke) : Prop :=
  ∀ {c c' : Callback}, c.redact = c'.redact → ∀ i,
    Run.Abreast i (invoke c i) (invoke' c' i) Reply.Alike

/-! ## New builders -/

/-- Two nested statements are asked for alike: with the options of the builder at hand, or with
those that a construction gives them. -/
def OpensAlike (self : Nat) (options options' : Value) (s s' : Session) : Prop :=
  options.SameAt .plain options' ∧
    ((self < s.builders.length ∧ options = (s.builder self).options ∧
        options' = (s'.builder self).options) ∨
      ∃ c c', .construction c ∈ s.history ∧ .construction c' ∈ s'.history ∧
        c.options? = some options ∧ c'.options? = some options')

section Opens

variable {self : Nat} {options options' : Value} {s s' t t' : Session}

theorem OpensAlike.own (hs : s.Alike s') (hself : self < s.builders.length) :
    OpensAlike self (s.builder self).options (s'.builder self).options s s' :=
  ⟨congrArg Builder.options (hs.builder self), .inl ⟨hself, rfl, rfl⟩⟩

theorem OpensAlike.of_construction {c c' : Construction} (h : options.SameAt .plain options')
    (hc : .construction c ∈ s.history) (hc' : .construction c' ∈ s'.history)
    (ho : c.options? = some options) (ho' : c'.options? = some options') :
    OpensAlike self options options' s s' :=
  ⟨h, .inr ⟨c, c', hc, hc', ho, ho'⟩⟩

/-- The builder at hand keeps its options. -/
theorem OpensAlike.of_abreast (h : OpensAlike self options options' s s') (hs : s.Alike s')
    (ht : s.Abreast s' t t') : OpensAlike self options options' t t' := by
  obtain ⟨ho, h⟩ := h
  obtain ⟨-, L, L', hL, hL', -⟩ := ht
  refine ⟨ho, ?_⟩
  rcases h with ⟨hself, rfl, rfl⟩ | ⟨c, c', hc, hc', ho⟩
  · have hself' : self < s'.builders.length := hs.length_builders ▸ hself
    refine .inl ⟨Nat.lt_of_lt_of_le hself hL.trace.length_le, ?_, ?_⟩
    · rw [(hL.trace.grows hself).options]
    · rw [(hL'.trace.grows hself').options]
  · exact .inr ⟨c, c', hL.trace.le.2.subset hc, hL'.trace.le.2.subset hc', ho⟩

theorem givenOptions_redact (options : Value) :
    givenOptions (options.redact .plain) = (givenOptions options).redact .plain := by
  cases options <;> rfl

theorem Run.newBuilder_abreastAt (h : OpensAlike self options options' s s') (hs : s.Alike s') :
    AbreastAt (Run.newBuilder (givenOptions options)) (Run.newBuilder (givenOptions options'))
      Eq s s' := by
  obtain ⟨ho, h⟩ := h
  have hgiven : (givenOptions options).SameAt .plain (givenOptions options') := by
    rw [Value.SameAt, ← givenOptions_redact, ho, givenOptions_redact]
  obtain ⟨hr, ht⟩ := Run.newBuilder_agree hgiven s s' hs
  have hlength := hs.length_builders
  refine ⟨hr, ht, ?_⟩
  rcases h with ⟨hself, rfl, rfl⟩ | ⟨c, c', hc, hc', ho, ho'⟩
  · have hself' : self < s'.builders.length := hlength ▸ hself
    refine ⟨_, _, .inherited hself, .inherited hself', ?_⟩
    rw [hlength]
    exact .cons (.opened _ _) .nil
  · refine ⟨_, _, .opened hc ho, .opened hc' ho', ?_⟩
    rw [hlength]
    exact .cons (.opened _ _) .nil

end Opens

end BoundSql

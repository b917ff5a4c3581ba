import BoundSql.Proofs.Coverage
import BoundSql.Proofs.Provenance
import BoundSql.Proofs.Rendering

/-!
# Statements stay bound

One renders a statement first and asks for the values that are bound in it later, when the builder
may have been given more. So the values must not only be there, they must stay.

They do because a builder only grows. What it held when the statement was rendered it still holds,
unless its table was replaced (`Builder.Grows.mem_children`); the placeholders inside of it are
therefore still inside of it, and keys travel up. That the values are the same needs no induction
over the run: every entry that a builder has at any time is traced to the placeholder it was issued
for, and a name is issued once.

This uses the promises of coverage and of provenance in the middle of a run, where they are kept as
well as at the end of a dialogue (`Discipline.Lawful.fine_of_trace`).
-/

set_option autoImplicit false

namespace BoundSql

open Text

/-! ## Promises in the middle of a run -/

/-- **What is promised at the end of a dialogue is promised at every point before it.** The
arguments of all commands are in the history, so the laws that carry the promise over a dialogue
carry it over its happenings. -/
theorem Discipline.Lawful.fine_of_trace {D : Discipline} {last : Session} (hD : D.Lawful last)
    (hlast : D.Holds last) {s t : Session} {L : List Happening} (h : s.Trace L t) (hle : t ≤ last)
    (hs : ∀ i, D.Fine (s.builder i)) : ∀ i, D.Fine (t.builder i) := by
  induction h with
  | start => exact hs
  | aside _ hgrow hb ih =>
    intro i
    rw [Session.builder_of_builders_eq hb]
    exact ih (le_trans hgrow hle) i
  | opened _ hc ho ih =>
    exact fine_append (ih hle) hD.fresh (hD.opened (hD.asked (hle.2.subset hc)) ho)
  | @inherited _ t i _ _ ih => exact fine_append (ih hle) hD.fresh (hD.inherited (ih hle i))
  | @called _ t u invoke j k r _ hj hk hr ih =>
    obtain ⟨hgrow, hasked, -⟩ := Session.runNoted_changed hk hr
    have hasked := hle.2.subset hasked
    have ih := ih (le_trans hgrow hle)
    intro i
    by_cases hij : j = i
    · subst hij
      have hu : ((k.run invoke j).exec { t with history := t.history ++ [.command j k] }).2 = u :=
        congrArg Prod.snd hr
      obtain ⟨-, b, hb, heq⟩ := Command.run_changed hk (D.Answered last) (hu ▸ hle.1)
      rw [hu] at heq
      rw [Session.builder_of_set (b := b) hj (by rw [heq]; rfl)]
      exact hD.fine_of_changes hasked (hlast.history _ hasked) (ih j) hb
    · obtain ⟨-, -, b, -, hb⟩ := Session.runNoted_changed hk hr
      rw [Session.builder_of_set_ne hij hb]
      exact ih i

/-! ## What a builder holds it keeps -/

theorem Builder.Grows.mem_children {b b' : Builder} (h : b.Grows b') (htable : b'.table = b.table)
    {g : Fragment} (hg : g ∈ b.children) : g ∈ b'.children := by
  simp only [children, List.mem_append] at hg ⊢
  rw [htable]
  rcases hg with ((((hg | hg) | hg) | hg) | hg) | hg
  · exact .inl (.inl (.inl (.inl (.inl ((h.fields.filterMap _).subset hg)))))
  · exact .inl (.inl (.inl (.inl (.inr hg))))
  · exact .inl (.inl (.inl (.inr ((h.joins.map _).subset hg))))
  · exact .inl (.inl (.inr ((h.filters.map _).subset hg)))
  · exact .inl (.inr ((h.groups.filterMap _).subset hg))
  · exact .inr ((h.order.filterMap _).subset hg)

/-- Only a call for a table that returns replaces the table. -/
theorem Command.table_of_runNoted {invoke : Invoke} {i : Nat} {k : Command} {s s' : Session}
    {r : Except Fault Reply} (hi : i < s.builders.length) (hk : k.nests = false)
    (hr : (k.runNoted invoke i).exec s = (r, s')) (h : ∀ name reply, k = .table name → r ≠ .ok reply) :
    (s'.builder i).table = (s.builder i).table := by
  obtain ⟨-, -, b, hchange, hb⟩ := Session.runNoted_changed hk hr
  have hsame := Session.builder_of_set hi hb
  cases hchange with
  | @table name b f _ =>
    simp only [runNoted, run, Run.exec_bind, Run.exec_note, Run.exec_ofExcept] at hr
    cases hf : name.asColumn with
    | error fault =>
      rw [hf] at hr
      cases hr
      rfl
    | ok f =>
      rw [hf] at hr
      cases hr
      exact absurd rfl (h name _ rfl)
  | fields added | select added | compileSelect added =>
    obtain ⟨_, _, heq, -⟩ := (s.builder i).fielded_addFields added
    rw [hsame, heq]
  | _ => rw [hsame]

/-- Unless its table is replaced, a builder keeps the fragments that it holds. -/
theorem Session.Trace.mem_children {s t : Session} {L : List Happening} (h : s.Trace L t)
    {i : Nat} (hi : i < s.builders.length)
    (htable : ∀ name reply, .called i (.table name) (.ok reply) ∉ L) {g : Fragment}
    (hg : g ∈ (s.builder i).children) : g ∈ (t.builder i).children := by
  refine (h.grows hi).mem_children ?_ hg
  refine h.keeps (R := fun j b b' => j = i → b'.table = b.table) (fun _ _ _ => rfl)
    (fun h h' hj => (h' hj).trans (h hj)) ?_ hi rfl
  rintro invoke t u j k r hmem hj hk hr rfl
  refine Command.table_of_runNoted hj hk hr ?_
  rintro name reply rfl rfl
  exact htable name reply hmem

/-! ## Bound values -/

section Bound

variable {last : Session} {b b' : Builder}

/-- Nothing is bound by hand on a builder whose calls were in order, nor on those inside of it. -/
theorem extra_eq_nil_of_contains {beyond : Char → Bool} (hlast : (coverage beyond).Holds last)
    (hb : (coverage beyond).Fine b) (h : Node.Contains last.history (.builder b) (.builder b')) :
    b'.extra = [] := by
  cases h with
  | refl => exact hb.proper.extra
  | tail _ hstep =>
    cases hstep with
    | nested h _ => exact (hlast.history _ h).proper.extra
    | member h _ hmem =>
      obtain ⟨_, -, h⟩ := exists_left_of_forall₂ h.flip hmem
      exact (hlast.history _ h).proper.extra

/-- Then an entry under a generated name is that of a placeholder inside of the builder. -/
theorem contains_of_mem_bindings {beyond : Char → Bool} (hlast : (coverage beyond).Holds last)
    (hcovered : (coverage beyond).Fine b) (htraced : (provenance last).Fine b) {n : String}
    {v : Value} (h : (.str n, v) ∈ b.bindings) :
    ∃ p, (p, v) ∈ last.supply.issued ∧ p.name = n ∧
      Node.Contains last.history (.builder b) (.fragment (.placeholder p v)) := by
  rcases traced_of_fine htraced _ h with ⟨p, hp, hname, hc⟩ | ⟨b', hc, hextra⟩
  · exact ⟨p, hp, (Value.str.inj hname).symm, hc⟩
  · rw [extra_eq_nil_of_contains hlast hcovered hc] at hextra
    cases hextra

/-- And a placeholder inside of the builder has its value, as names are issued once. -/
theorem get?_of_contains {beyond : Char → Bool} (hlast : (coverage beyond).Holds last)
    (hnodup : (last.supply.issued.map fun e => e.1.name).Nodup)
    (hcovered : (coverage beyond).Fine b) (htraced : (provenance last).Fine b) {p : Placeholder}
    {v : Value} (hp : (p, v) ∈ last.supply.issued)
    (hc : Node.Contains last.history (.builder b) (.fragment (.placeholder p v))) :
    Entries.get? (.str p.name) b.bindings = some v := by
  have hkey : .str p.name ∈ Entries.keys b.bindings := hc.str_mem_keys List.mem_cons_self
  obtain ⟨w, hw⟩ := Entries.exists_get?_of_mem_keys hkey (BEq.refl _)
  obtain ⟨j, hj, hjp⟩ := Entries.exists_mem_of_get? hw
  obtain rfl := Value.eq_of_beq_str hjp
  obtain ⟨q, hq, hname, -⟩ := contains_of_mem_bindings hlast hcovered htraced hj
  cases List.inj_on_of_nodup_map hnodup hp hq hname.symm
  exact hw

/-- A builder that holds all that another one holds contains all placeholders inside of it. -/
theorem Node.Contains.of_children {history : List Event} {f : Fragment}
    (hchildren : ∀ g ∈ b.children, g ∈ b'.children)
    (h : Node.Contains history (.builder b) (.fragment f)) :
    Node.Contains history (.builder b') (.fragment f) := by
  obtain hrefl | ⟨m, hstep, hrest⟩ := Relation.ReflTransGen.cases_head h
  · cases hrefl
  · cases hstep with
    | slot hg => exact .head (.slot (hchildren _ hg)) hrest

end Bound

/-- **A statement that was rendered stays bound.** Take any point of a dialogue in which all calls
are in order and all generated names are different. If a command renders a statement there, of the
rows to select or to delete, then at every later point until the table of the builder is replaced,
every name in this statement has the value in the map of the builder that it had then: the one that
it was issued for. -/
theorem rendered_stays_bound (beyond : Char → Bool) {options : Value} {last : Session}
    (hlast : last.ReachedFrom options) (ho : options.namesPlainColumn = true)
    (ht : ∀ e ∈ last.history, e.isTame = true)
    (hnodup : (last.supply.issued.map fun e => e.1.name).Nodup)
    {L L' L'' : List Happening} {s s₁ s₂ : Session} {i : Nat} {k : Command} {invoke : Invoke}
    {reply : Reply} {sql : String} (h : s.Follows options L) (hi : i < s.builders.length)
    (hk : k.selects = true ∨ k.deletes = true)
    (hrun : (k.runNoted invoke i).exec s = (.ok reply, s₁)) (hsql : reply.statement? = some sql)
    (h' : s₁.Trace L' s₂) (htable : ∀ name reply, .called i (.table name) (.ok reply) ∉ L')
    (h'' : s₂.Trace L'' last) :
    ∀ n ∈ names beyond sql, ∃ p v, (p, v) ∈ last.supply.issued ∧ p.name = n ∧
      Entries.get? (.str n) (s₁.builder i).bindings = some v ∧
      Entries.get? (.str n) (s₂.builder i).bindings = some v := by
  obtain ⟨stream, threshold, h⟩ := h
  have hlawful : (coverage beyond).Lawful last := coverage_lawful ht
  have hcoverage := hlawful.holds hlast (Builder.isTame_empty ho)
  have hprovenance := (provenance_lawful last).holds hlast trivial
  -- Both promises are kept before the first step, and so they are when the statement is rendered
  -- and later.
  have start : ∀ {D : Discipline}, D.Lawful last → D.proper (.empty options) →
      ∀ i, D.Fine ((Session.start stream threshold options).builder i) := by
    intro D hD hproper i
    cases i with
    | zero => exact Discipline.fine_empty hproper
    | succ i => exact Discipline.fine_empty hD.fresh
  have hrendered := h.trans (.called .start hi (Command.nests_of_renders hk) hrun)
  have hle := (h'.trans h'').le
  have hcovered₁ := hlawful.fine_of_trace hcoverage hrendered hle
    (start hlawful (Builder.isTame_empty ho)) i
  have htraced₁ := (provenance_lawful last).fine_of_trace hprovenance hrendered hle
    (start (provenance_lawful last) trivial) i
  have hcovered₂ := hlawful.fine_of_trace hcoverage (hrendered.trans h') h''.le
    (start hlawful (Builder.isTame_empty ho)) i
  have htraced₂ := (provenance_lawful last).fine_of_trace hprovenance (hrendered.trans h') h''.le
    (start (provenance_lawful last) trivial) i
  have hi₁ : i < s₁.builders.length :=
    Nat.lt_of_lt_of_le hi (Session.Trace.called .start hi (Command.nests_of_renders hk) hrun).length_le
  intro n hn
  have hkey : .str n ∈ Entries.keys (s₁.builder i).bindings := by
    rcases hk with hk | hk
    · obtain ⟨_, hstatement, htext⟩ := Command.statement_of_selects hk hrun
      cases hsql.symm.trans hstatement
      exact ((s₁.builder i).covers_select hcovered₁.proper hcovered₁.children htext _).mpr
        ⟨n, hn, rfl⟩
    · obtain ⟨_, hstatement, htext⟩ := Command.statement_of_deletes hk hrun
      cases hsql.symm.trans hstatement
      exact Builder.mem_keys_of_delete hcovered₁.children htext hn
  obtain ⟨v, hv⟩ := Entries.exists_mem_of_mem_keys hkey
  obtain ⟨p, hp, rfl, hc⟩ := contains_of_mem_bindings hcoverage hcovered₁ htraced₁ hv
  have hc₂ := hc.of_children fun g hg => h'.mem_children hi₁ htable hg
  exact ⟨p, v, hp, rfl, get?_of_contains hcoverage hnodup hcovered₁ htraced₁ hp hc,
    get?_of_contains hcoverage hnodup hcovered₂ htraced₂ hp hc₂⟩

/-- The session that a turn works on: the log is set aside meanwhile. -/
def Session.unlogged (s : Session) : Session := { s with log := [] }

theorem Session.trace_unlogged (s : Session) : s.Trace [] s.unlogged :=
  .aside .start ⟨le_refl _, List.prefix_refl _⟩ rfl

/-- A turn that calls for a command carries it out. -/
theorem Turn.trace_of_takeWithin {depth : Nat} {turn : Turn} {s : Session} {i : Nat} {k : Command}
    (htarget : s.target turn.target = .ok i)
    (hstep : turn.step.run (Callback.run depth) i = k.runNoted (Callback.run depth) i) :
    ((k.runNoted (Callback.run depth) i).exec s.unlogged).2.Trace []
      (turn.takeWithin depth s).2 := by
  simp only [Turn.takeWithin, htarget, Session.withLog, hstep]
  exact .aside .start ⟨le_refl _, List.prefix_refl _⟩ rfl

theorem Turn.takeAllWithin_concat (depth : Nat) (turns : List Turn) (turn : Turn) (s : Session) :
    (Turn.takeAllWithin depth (turns ++ [turn]) s).2 =
      (turn.takeWithin depth (Turn.takeAllWithin depth turns s).2).2 := by
  induction turns generalizing s with
  | nil => rfl
  | cons first rest ih => exact ih _

/-- Turns that add a filter, render the statement, and add another filter. -/
def filtering : Turn := ⟨"root", .call .filter [.atom (.str "a"), .atom (.int 5)] []⟩
def rendering : Turn := ⟨"root", .call .select [] []⟩
def extending : Turn := ⟨"root", .call .paranoid [] []⟩

/-- What these turns lead to. -/
def filteredSession : Session :=
  (filtering.takeWithin 0 (.start Supply.counting .info (.options .default))).2
def renderedSession : Session := (rendering.takeWithin 0 filteredSession).2
def extendedSession : Session := (extending.takeWithin 0 renderedSession).2

theorem rendered_stays_bound_extended :
    extendedSession.ReachedFrom (.options .default) ∧
      (∀ e ∈ extendedSession.history, e.isTame = true) ∧
      (extendedSession.supply.issued.map fun e => e.1.name).Nodup ∧
      (extendedSession.builder 0).selectText =
        .ok "SELECT * WHERE (\"a\" = :where00000001 AND \"deleted_at\" IS NULL)" ∧
      ∃ r s₁, ((Command.select []).runNoted (Callback.run 0) 0).exec filteredSession.unlogged =
          (.ok r, s₁) ∧
        r.statement? = some "SELECT * WHERE \"a\" = :where00000001" ∧
        ∃ v, Entries.get? (.str "where00000001") (s₁.builder 0).bindings = some v ∧
          Entries.get? (.str "where00000001") (extendedSession.builder 0).bindings = some v := by
  have hfiltered : filteredSession.ReachedFrom (.options .default) :=
    ⟨_, _, 0, [] ++ [filtering], by rw [Turn.takeAllWithin_concat]; rfl⟩
  have hs : extendedSession.ReachedFrom (.options .default) :=
    ⟨_, _, 0, [] ++ [filtering] ++ [rendering] ++ [extending], by
      rw [Turn.takeAllWithin_concat, Turn.takeAllWithin_concat, Turn.takeAllWithin_concat]; rfl⟩
  have ht : ∀ e ∈ extendedSession.history, e.isTame = true := by decide +kernel
  have hnodup : (extendedSession.supply.issued.map fun e => e.1.name).Nodup := by decide +kernel
  have htext : (extendedSession.builder 0).selectText =
      .ok "SELECT * WHERE (\"a\" = :where00000001 AND \"deleted_at\" IS NULL)" := by
    decide +kernel
  have hsql : (((Command.select []).runNoted (Callback.run 0) 0).exec
      filteredSession.unlogged).1.map Reply.statement? =
        .ok (some "SELECT * WHERE \"a\" = :where00000001") := by
    decide +kernel
  have hname : "where00000001" ∈ names (fun _ => false) "SELECT * WHERE \"a\" = :where00000001" := by
    decide +kernel
  have hlength : 0 < filteredSession.unlogged.builders.length := by decide +kernel
  have hlength' : 0 < renderedSession.unlogged.builders.length := by decide +kernel
  have htarget : filteredSession.target rendering.target = .ok 0 := by decide +kernel
  have htarget' : renderedSession.target extending.target = .ok 0 := by decide +kernel
  -- Between the rendering and the end there is one more call, and it is none for a table.
  have hafter : ∃ r, (((Command.select []).runNoted (Callback.run 0) 0).exec
      filteredSession.unlogged).2.Trace [.called 0 (.paranoid .null) r] extendedSession := by
    have hrendered := (Turn.trace_of_takeWithin (k := .select []) htarget rfl).trans
      renderedSession.trace_unlogged
    have hextended := hrendered.call hlength' (Callback.run 0) (k := .paranoid .null) rfl
    exact ⟨_, hextended.trans (Turn.trace_of_takeWithin (k := .paranoid .null) htarget' rfl)⟩
  obtain ⟨r, hafter⟩ := hafter
  obtain ⟨L, ⟨stream, threshold, hL⟩, -⟩ := hfiltered.trace
  refine ⟨hs, ht, hnodup, htext, ?_⟩
  rcases hrun : ((Command.select []).runNoted (Callback.run 0) 0).exec filteredSession.unlogged
    with ⟨outcome, s₁⟩
  rw [hrun] at hsql hafter
  cases outcome with
  | error fault => cases hsql
  | ok reply =>
    have hreply := Except.ok.inj hsql
    obtain ⟨p, v, -, -, hthen, hnow⟩ := rendered_stays_bound (fun _ => false) hs rfl ht hnodup
      ⟨_, _, hL.trans filteredSession.trace_unlogged⟩ hlength (.inl rfl) hrun hreply hafter
      (by simp) .start _ hname
    exact ⟨reply, s₁, rfl, hreply, v, hthen, hnow⟩

end BoundSql

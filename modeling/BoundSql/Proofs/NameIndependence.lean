import BoundSql.Proofs.NonInterference
import BoundSql.Proofs.RenamedScripts
import BoundSql.Proofs.Templates

/-!
# Generated names do not matter

One dialogue is held twice, with different digits. If no two names are the same in either run, and
nothing is bound by hand, all that can be seen of the second run is that of the first with the names
renamed: turns fail in the same way, statements and fragments have renamed texts, and maps have
renamed keys in the same order with the same values (`names_immaterial`). The renaming pairs the
`k`-th name that is generated in one run with the `k`-th in the other; both are of the same kind.

Values are the same but for the fragments in them, which have names in them; and so have keys of
options, where a fault shows them (`values_show_names`).

Two texts do not tell whether all generated names have been renamed: one that was kept could as well
have been written. So what the texts of *all* runs have in common is stated as well: they are
templates with gaps, which are the same for all digits, and each run fills the gaps with its names.
-/

set_option autoImplicit false

namespace BoundSql

variable {ρ : Renaming}

/-! ## Turns -/

/-- The second report is the first one, renamed. -/
structure Report.Renamed (ρ : Renaming) (r r' : Report) : Prop where
  outcome : ρ.Results (Reply.Renamed ρ) r.outcome r'.outcome
  log : r.log = r'.log
  sql : ρ.Results ρ.Texts r.sql r'.sql
  bound : Bindings.Renamed ρ r.bound r'.bound

section Turns

variable {last last' o o' s s' : Session} (hρ : ρ.Covers last.supply last'.supply)
  (hplain : last.bindsByHand = false) (depth : Nat)

theorem Turn.takeAllWithin_grows (turns : List Turn) (s : Session) :
    s ≤ (Turn.takeAllWithin depth turns s).2 :=
  (Turn.takeAllWithin_keeps (Discipline.void_lawful s) depth turns s).1

include hρ hplain

/-- **A turn brings the same in both runs, but for the names.** -/
theorem Turn.takeWithin_renames (t : Turn) (h : Session.Together ρ o o' Session.root s s')
    (hreach : s.InReach) (hlast : (t.takeWithin depth s).2 ≤ last)
    (hlast' : (t.takeWithin depth s').2 ≤ last') :
    (t.takeWithin depth s).1.Renamed ρ (t.takeWithin depth s').1 ∧
      Session.Together ρ o o' Session.root (t.takeWithin depth s).2 (t.takeWithin depth s').2 := by
  obtain ⟨name, step⟩ := t
  have htarget : s'.target name = s.target name := by
    unfold Session.target
    rw [h.renamed.captured]
  unfold Turn.takeWithin at hlast hlast' ⊢
  simp only [htarget] at hlast' ⊢
  cases hplace : s.target name with
  | error fault =>
    have hb := h.renamed.builder Session.root
    exact ⟨⟨.fault fault, rfl, hb.selectText, hb.bindings⟩, h⟩
  | ok i =>
    rw [hplace] at hlast hlast'
    have hi : i < s.builders.length := hreach.target_lt hplace
    -- The log of a turn is its own.
    have hunlogged : Session.Together ρ o o' i { s with log := [] } { s' with log := [] } :=
      { h with here := hi : Session.Together ρ o o' i s s' }.aside { h.renamed with log := rfl }
        (.unseen rfl rfl rfl) (.unseen rfl rfl rfl)
    obtain ⟨hreply, hend⟩ := (Step.run_renames (Callback.run_renames hρ hplain depth) hρ hplain
      step _ _).renames trivial hlast hlast' hunlogged
    have hlogged : Session.Together ρ o o' i (s.withLog (step.run (Callback.run depth) i)).2.2
        (s'.withLog (step.run (Callback.run depth) i)).2.2 :=
      hend.aside { hend.renamed with log := congrArg₂ (· ++ ·) h.renamed.log hend.renamed.log }
        (.unseen rfl rfl rfl) (.unseen rfl rfl rfl)
    have hb := hlogged.renamed.builder i
    exact ⟨⟨hreply, hend.renamed.log, hb.selectText, hb.bindings⟩,
      { hlogged with here := Nat.zero_lt_of_lt hlogged.here }⟩

/-- Turns bring the same in both runs, but for the names. -/
theorem Turn.takeAllWithin_renames (turns : List Turn)
    (h : Session.Together ρ o o' Session.root s s') (hreach : s.InReach)
    (hlast : (Turn.takeAllWithin depth turns s).2 ≤ last)
    (hlast' : (Turn.takeAllWithin depth turns s').2 ≤ last') :
    List.Forall₂ (Report.Renamed ρ) (Turn.takeAllWithin depth turns s).1
        (Turn.takeAllWithin depth turns s').1 ∧
      Session.Together ρ o o' Session.root (Turn.takeAllWithin depth turns s).2
        (Turn.takeAllWithin depth turns s').2 := by
  induction turns generalizing s s' with
  | nil => exact ⟨.nil, h⟩
  | cons t rest ih =>
    obtain ⟨hreport, hnext⟩ := t.takeWithin_renames hρ hplain depth h hreach
      (le_trans (Turn.takeAllWithin_grows depth rest _) hlast)
      (le_trans (Turn.takeAllWithin_grows depth rest _) hlast')
    obtain ⟨-, hreach⟩ := t.takeWithin_trace depth hreach
    obtain ⟨hreports, hend⟩ := ih hnext hreach hlast hlast'
    exact ⟨.cons hreport hreports, hend⟩

end Turns

/-! ## What can be seen -/

/-- The names that have been issued, in their order. -/
def Session.names (s : Session) : List Placeholder := s.supply.issued.map Prod.fst

/-- The builders that callbacks left behind, with the statements that were taken from them. -/
def Session.nested (s : Session) : List (Builder × String) :=
  s.history.filterMap fun
    | .nested b sql => some (b, sql)
    | _ => none

/-- Two maps have the same entries in the same order, but for the names: each key is a name that is
renamed, and each value is the same, unless there are fragments in it, which are renamed. -/
def Bindings.SameButNames (ρ : Renaming) : Bindings → Bindings → Prop :=
  List.Forall₂ fun e e' => (∃ p p', ρ.Pairs p p' ∧ e.1 = .str p.name ∧ e'.1 = .str p'.name) ∧
    (e'.2 = e.2 ∨ e.2.fragments ≠ [] ∧ e.2.Renamed ρ e'.2)

theorem Bindings.Renamed.sameButNames {b b' : Bindings} (h : Bindings.Renamed ρ b b') :
    b.SameButNames ρ b' := by
  refine h.imp fun e e' he => ?_
  cases he with
  | @mk p p' hp v v' hv =>
    refine ⟨⟨p, p', hp, rfl, rfl⟩, ?_⟩
    by_cases hfragments : v.fragments = []
    · exact .inl (hv.eq_of_fragments hfragments)
    · exact .inr ⟨hfragments, hv⟩

/-- Two fragments have the same text and bind the same, but for the names. -/
def Fragment.SameButNames (ρ : Renaming) (f f' : Fragment) : Prop :=
  ρ.Results ρ.Texts f.text f'.text ∧ f.bindings.SameButNames ρ f'.bindings

/-- Two builders render the same statements and bind the same, but for the names. -/
structure Builder.SameButNames (ρ : Renaming) (b b' : Builder) : Prop where
  select : ρ.Results ρ.Texts b.selectText b'.selectText
  delete : ρ.Results ρ.Texts b.deleteText b'.deleteText
  bindings : b.bindings.SameButNames ρ b'.bindings

theorem Builder.Renamed.sameButNames {b b' : Builder} (h : b.Renamed ρ b') : b.SameButNames ρ b' :=
  ⟨h.selectText, h.deleteText, h.bindings.sameButNames⟩

/-- Two dialogues, which began at two sessions, each with what its turns brought and the session in
the end, are the same but for the names. -/
structure SameButNames (ρ : Renaming) (start start' : Session) (d d' : List Report × Session) :
    Prop where
  /-- As many names are issued, of the same kinds and for the same values. -/
  names : List.Forall₂ (Supply.RenamedIssue ρ) d.2.supply.issued d'.2.supply.issued
  /-- All turns answer, fail, record and render alike. -/
  reports : List.Forall₂ (Report.Renamed ρ) d.1 d'.1
  /-- After all turns the same is bound. -/
  bound : List.Forall₂ (Bindings.SameButNames ρ) (d.1.map Report.bound) (d'.1.map Report.bound)
  /-- All fragments render and bind the same. -/
  fragments : List.Forall₂ (Fragment.SameButNames ρ) d.2.fragments d'.2.fragments
  /-- All callbacks give the same statements, and leave builders behind that are the same. -/
  nested : List.Forall₂ (fun n n' => n.1.SameButNames ρ n'.1 ∧ ρ.Texts n.2 n'.2) d.2.nested
    d'.2.nested
  /-- All builders render and bind the same in the end. -/
  builders : List.Forall₂ (Builder.SameButNames ρ) d.2.builders d'.2.builders
  log : d.2.log = d'.2.log
  /-- All calls on all builders, nested ones too, answer alike. None is left out. -/
  calls : ∃ L L', start.Trace L d.2 ∧ start'.Trace L' d'.2 ∧
    List.Forall₂ (Happening.Renamed ρ) L L' ∧
    L.filterMap Happening.command? = d.2.commands ∧ L'.filterMap Happening.command? = d'.2.commands

section Events

variable {s s' : Session} (h : s.Renamed ρ s')

include h

theorem Session.Renamed.fragments : List.Forall₂ (Fragment.Renamed ρ) s.fragments s'.fragments := by
  have hhistory := h.history
  unfold Session.fragments
  revert hhistory
  generalize s.history = es, s'.history = es'
  intro hhistory
  induction hhistory with
  | nil => exact .nil
  | cons he _ ih =>
    cases he with
    | fragment hf => exact .cons hf ih
    | _ => exact ih

theorem Session.Renamed.nested :
    List.Forall₂ (fun n n' => n.1.Renamed ρ n'.1 ∧ ρ.Texts n.2 n'.2) s.nested s'.nested := by
  have hhistory := h.history
  unfold Session.nested
  revert hhistory
  generalize s.history = es, s'.history = es'
  intro hhistory
  induction hhistory with
  | nil => exact .nil
  | cons he _ ih =>
    cases he with
    | nested hb hsql => exact .cons ⟨hb, hsql⟩ ih
    | _ => exact ih

end Events

/-! ## All texts -/

/-- The statement that a turn answers, and the one that the builder renders after it. -/
def Report.texts (r : Report) : List (Option String) :=
  [r.outcome.toOption.bind Reply.statement?, r.sql.toOption]

/-- The statements that a builder renders. -/
def Builder.texts (b : Builder) : List (Option String) :=
  [b.selectText.toOption, b.deleteText.toOption]

/-- All texts that a dialogue shows: those of its turns, its fragments, its nested statements, and
its builders in the end. -/
def shownTexts (d : List Report × Session) : List (Option String) :=
  d.1.flatMap Report.texts ++ d.2.fragments.map (fun f => f.text.toOption) ++
    d.2.nested.map (fun n => some n.2) ++ d.2.builders.flatMap Builder.texts

theorem Renaming.Results.toOption {α β : Type} {Q : α → β → Prop} {r : Except Fault α}
    {r' : Except Fault β} (h : ρ.Results Q r r') : Option.Rel Q r.toOption r'.toOption := by
  cases h with
  | ok h => exact .some h
  | error _ => exact .none

theorem Reply.Renamed.statement? {r r' : Reply} (h : r.Renamed ρ r') :
    Option.Rel ρ.Texts r.statement? r'.statement? := by
  cases h with
  | builder | bindings _ => exact .none
  | text h | compiled h _ => exact .some h
  | value h =>
    cases h with
    | str s => exact .some (.refl s)
    | _ => exact .none

theorem Report.Renamed.texts {r r' : Report} (h : r.Renamed ρ r') :
    List.Forall₂ (Option.Rel ρ.Texts) r.texts r'.texts := by
  have houtcome := h.outcome.toOption
  refine .cons ?_ (.cons h.sql.toOption .nil)
  revert houtcome
  generalize r.outcome.toOption = x, r'.outcome.toOption = x'
  intro houtcome
  cases houtcome with
  | none => exact .none
  | some h => exact h.statement?

theorem SameButNames.shownTexts {start start' : Session} {d d' : List Report × Session}
    (h : SameButNames ρ start start' d d') :
    List.Forall₂ (Option.Rel ρ.Texts) (shownTexts d) (shownTexts d') := by
  have flatMap : ∀ {α : Type} {Q : α → α → Prop} {f : α → List (Option String)} {xs ys : List α},
      List.Forall₂ Q xs ys → (∀ x y, Q x y → List.Forall₂ (Option.Rel ρ.Texts) (f x) (f y)) →
      List.Forall₂ (Option.Rel ρ.Texts) (xs.flatMap f) (ys.flatMap f) := by
    intro α Q f xs ys hxs hf
    induction hxs with
    | nil => exact .nil
    | cons hx _ ih => exact List.rel_append (hf _ _ hx) ih
  have map : ∀ {α : Type} {Q : α → α → Prop} {f : α → Option String} {xs ys : List α},
      List.Forall₂ Q xs ys → (∀ x y, Q x y → Option.Rel ρ.Texts (f x) (f y)) →
      List.Forall₂ (Option.Rel ρ.Texts) (xs.map f) (ys.map f) := fun hxs hf =>
    List.forall₂_map_left_iff.mpr (List.forall₂_map_right_iff.mpr (hxs.imp hf))
  refine List.rel_append (List.rel_append (List.rel_append ?_ ?_) ?_) ?_
  · exact flatMap h.reports fun _ _ => Report.Renamed.texts
  · exact map h.fragments fun _ _ hf => hf.1.toOption
  · exact map h.nested fun _ _ hn => .some hn.2
  · exact flatMap h.builders fun _ _ hb => .cons hb.select.toOption (.cons hb.delete.toOption .nil)

/-! ## Dialogues -/

section Dialogues

variable {stream stream' : Nat → Fin 16} {threshold : Level} {o : Options} {depth : Nat}
  {turns : List Turn} {d d' : List Report × Session}

/-- The renaming pairs names that have the same count. -/
theorem Session.covers_between {s s' : Session} (h : (s.names.map Placeholder.name).Nodup)
    (h' : (s'.names.map Placeholder.name).Nodup) :
    (Renaming.between h h').Covers s.supply s'.supply := by
  intro k p p' v v' hp hp'
  refine ⟨k, ?_, ?_⟩
  · rw [Session.names, List.getElem?_map, hp, Option.map_some]
  · rw [Session.names, List.getElem?_map, hp', Option.map_some]

/-- Two dialogues with the same turns are the same but for the names. -/
theorem Turn.takeAllWithin_sameButNames
    (hd : Turn.takeAllWithin depth turns (.start stream threshold (.options o)) = d)
    (hd' : Turn.takeAllWithin depth turns (.start stream' threshold (.options o)) = d')
    (hplain : d.2.bindsByHand = false) (h : (d.2.names.map Placeholder.name).Nodup)
    (h' : (d'.2.names.map Placeholder.name).Nodup) :
    SameButNames (.between h h') (.start stream threshold (.options o))
      (.start stream' threshold (.options o)) d d' ∧ d'.2.bindsByHand = false := by
  subst hd hd'
  have hstart := Session.Renamed.start (ρ := .between h h') stream stream' threshold (.options o)
  obtain ⟨hreports, hend⟩ := Turn.takeAllWithin_renames (Session.covers_between h h') hplain depth
    turns (.start hstart Nat.zero_lt_one) (.start stream threshold _) le_rfl le_rfl
  obtain ⟨L, L', hL, hL', hLL'⟩ := hend.happenings
  refine ⟨?_, hend.renamed.bindsByHand_eq.trans hplain⟩
  exact {
    names := hend.renamed.supply
    reports := hreports
    bound := List.forall₂_map_left_iff.mpr (List.forall₂_map_right_iff.mpr
      (hreports.imp fun _ _ hr => hr.bound.sameButNames))
    fragments := hend.renamed.fragments.imp fun _ _ hf => ⟨hf.text, hf.bindings.sameButNames⟩
    nested := hend.renamed.nested.imp fun _ _ hn => ⟨hn.1.sameButNames, hn.2⟩
    builders := hend.renamed.builders.imp fun _ _ => Builder.Renamed.sameButNames
    log := hend.renamed.log
    calls := ⟨L, L', hL.trace, hL'.trace, hLL', hL.commands.symm, hL'.commands.symm⟩ }

theorem SameButNames.issuedNames {start start' : Session} (h : SameButNames ρ start start' d d') :
    (∀ p ∈ d.2.names, p.digits.length = Placeholder.width) ∧
      ∀ p ∈ d'.2.names, p.digits.length = Placeholder.width := by
  have width : ∀ {es es' : List (Placeholder × Value)},
      List.Forall₂ (Supply.RenamedIssue ρ) es es' →
      (∀ p ∈ es.map Prod.fst, p.digits.length = Placeholder.width) ∧
        ∀ p ∈ es'.map Prod.fst, p.digits.length = Placeholder.width := by
    intro es es' hes
    induction hes with
    | nil => exact ⟨nofun, nofun⟩
    | cons he _ ih => exact ⟨List.forall_mem_cons.mpr ⟨he.width.1, ih.1⟩,
        List.forall_mem_cons.mpr ⟨he.width.2, ih.2⟩⟩
  exact width h.names

/-- **Generated names do not matter.** If nothing is bound by hand and no two names are the same in
either of two dialogues with the same turns, then these are the same but for the names, and the
renaming pairs the `k`-th name with the `k`-th. If these are different names for each `k`, all texts
of the two dialogues are templates filled with their names, and any third dialogue with the same
turns in which no two names are the same fills the templates with its own. -/
theorem names_immaterial
    (hd : Turn.takeAllWithin depth turns (.start stream threshold (.options o)) = d)
    (hd' : Turn.takeAllWithin depth turns (.start stream' threshold (.options o)) = d')
    (hplain : d.2.bindsByHand = false) (h : (d.2.names.map Placeholder.name).Nodup)
    (h' : (d'.2.names.map Placeholder.name).Nodup) :
    ∃ ρ : Renaming,
      (∀ p p', ρ.Pairs p p' ↔ ∃ k : Nat, d.2.names[k]? = some p ∧ d'.2.names[k]? = some p') ∧
      SameButNames ρ (.start stream threshold (.options o)) (.start stream' threshold (.options o))
        d d' ∧
      ((∀ e ∈ d.2.names.zip d'.2.names, e.1 ≠ e.2) →
        ∃ templates : List (Option Template),
          shownTexts d = templates.map (Option.map (Template.fill d.2.names)) ∧
          shownTexts d' = templates.map (Option.map (Template.fill d'.2.names)) ∧
          ∀ {stream'' : Nat → Fin 16} {d'' : List Report × Session},
            Turn.takeAllWithin depth turns (.start stream'' threshold (.options o)) = d'' →
            (d''.2.names.map Placeholder.name).Nodup →
            shownTexts d'' = templates.map (Option.map (Template.fill d''.2.names))) := by
  obtain ⟨hsame, hplain'⟩ := Turn.takeAllWithin_sameButNames hd hd' hplain h h'
  refine ⟨.between h h', fun _ _ => Iff.rfl, hsame, fun hapart => ?_⟩
  have hnames : Renaming.Names d.2.names := ⟨h, hsame.issuedNames.1⟩
  have hnames' : Renaming.Names d'.2.names := ⟨h', hsame.issuedNames.2⟩
  obtain ⟨templates, htexts, htexts', hfill⟩ :=
    Renaming.exists_templates hnames hnames' (fun hp hp' => hapart (_, _)
      (List.mem_of_getElem? (List.getElem?_zip_eq_some.mpr ⟨hp, hp'⟩))) hsame.shownTexts
  refine ⟨templates, htexts, htexts', fun hd'' h'' => ?_⟩
  obtain ⟨hfirst, -⟩ := Turn.takeAllWithin_sameButNames hd hd'' hplain h h''
  obtain ⟨hsecond, -⟩ := Turn.takeAllWithin_sameButNames hd' hd'' hplain' h' h''
  exact hfill ⟨h'', hfirst.issuedNames.2⟩ hfirst.shownTexts hsecond.shownTexts

end Dialogues

/-- A dialogue with names of all kinds, two of them in a nested statement, and a step that fails. -/
def referring : List Turn :=
  [⟨"root", .call .table [.atom (.str "t")] []⟩,
   ⟨"root", .call .filter [.atom (.str "a"), .atom (.int 5)] []⟩,
   ⟨"root", .call .fields [.call .subSelect [.callback
      ⟨[.call .fields [.call .function [.atom (.str "g"), .call .literal [.atom (.int 1)] [],
          .atom (.str "x")] []] [],
        .call .select [] []], none, none⟩] []] []⟩,
   ⟨"root", .call .filter [.atom (.int 1), .atom (.int 6)] []⟩,
   ⟨"root", .call .select [] []⟩]

def referringRun (stream : Nat → Fin 16) : List Report × Session :=
  Turn.takeAllWithin 1 referring (.start stream .debug (.options .default))

theorem names_immaterial_referring :
    ∃ ρ : Renaming,
      SameButNames ρ (.start Supply.counting .debug (.options .default))
        (.start (fun i => Supply.counting (i + 80)) .debug (.options .default))
        (referringRun Supply.counting) (referringRun fun i => Supply.counting (i + 80)) ∧
      (∃ templates : List (Option Template), ∀ {stream : Nat → Fin 16},
        ((referringRun stream).2.names.map Placeholder.name).Nodup →
        shownTexts (referringRun stream) =
          templates.map (Option.map (Template.fill (referringRun stream).2.names))) ∧
      ((referringRun Supply.counting).2.builder 0).selectText =
        .ok ("SELECT (SELECT g(:lit00000002, :func00000003))" ++
          " FROM \"t\" WHERE \"a\" = :where00000001") ∧
      ((referringRun fun i => Supply.counting (i + 80)).2.builder 0).selectText =
        .ok ("SELECT (SELECT g(:lit0000000c, :func0000000d))" ++
          " FROM \"t\" WHERE \"a\" = :where0000000b") := by
  have hrun : ∀ stream : Nat → Fin 16, Turn.takeAllWithin 1 referring
      (.start stream .debug (.options .default)) = referringRun stream := fun _ => rfl
  obtain ⟨ρ, -, hsame, htemplates⟩ := names_immaterial (hrun Supply.counting)
    (hrun fun i => Supply.counting (i + 80)) (by decide +kernel) (by decide +kernel)
    (by decide +kernel)
  obtain ⟨templates, -, -, hfill⟩ := htemplates (by decide +kernel)
  exact ⟨ρ, hsame, ⟨templates, hfill (hrun _)⟩, by decide +kernel, by decide +kernel⟩

/-- A fragment that is bound as a value, and one that is a key of options. -/
def embedding : List Turn :=
  [⟨"root", .bind "x" (.call .literal [.call .literal [.atom (.int 1)] []] [])⟩,
   ⟨"root", .bind "o" (.options (.dict [(.call .literal [.atom (.int 1)] [], .atom (.int 1))]))⟩]

def embeddingRun (stream : Nat → Fin 16) : List Report × Session :=
  Turn.takeAllWithin 1 embedding (.start stream .debug (.options .default))

/-- Values that hold fragments are not the same, and faults that show fragments are not. -/
theorem values_show_names :
    ((embeddingRun Supply.counting).2.bindsByHand = false ∧
      ((embeddingRun Supply.counting).2.names.map Placeholder.name).Nodup ∧
      ((embeddingRun fun i => Supply.counting (i + 80)).2.names.map Placeholder.name).Nodup) ∧
    ((embeddingRun Supply.counting).2.fragments.map fun f => f.bindings.map Prod.snd) ≠
      ((embeddingRun fun i => Supply.counting (i + 80)).2.fragments.map fun f =>
        f.bindings.map Prod.snd) ∧
    ((embeddingRun Supply.counting).1.map fun r => r.outcome.map fun _ => ()) ≠
      (embeddingRun fun i => Supply.counting (i + 80)).1.map fun r => r.outcome.map fun _ => () := by
  refine ⟨⟨by decide +kernel, by decide +kernel, by decide +kernel⟩, fun h => ?_, ?_⟩
  · have htexts := congrArg (List.map (List.map Value.text)) h
    revert htexts
    decide +kernel
  · decide +kernel

end BoundSql

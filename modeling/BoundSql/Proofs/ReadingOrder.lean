import BoundSql.Proofs.Coverage
import BoundSql.Proofs.Stretches

/-!
# Values in the order of the text

What a fragment binds can be read off its text. Some classes merge what their parts bind when they
are made, others whenever they are asked, and every merge is merged again further up; but all of it
is what one walk through the text finds, which puts each value under the name of its placeholder and
takes the map of a nested statement as a whole. A name that comes again keeps its first place and
takes the last value (`bindings_eq_walk`). Nothing is asked of the names: they may be drawn from any
stream, and may well be the same.

In a text without nested statements these are just the names in it, from left to right.
-/

set_option autoImplicit false

namespace BoundSql

open Stretch Text

/-! ## Trees without nested statements -/

namespace Fragment

/-- Whether a fragment has been made from statements. -/
def isStatement : Fragment → Bool
  | .subSelect _ | .union .. => true
  | _ => false

/-- The name that a placeholder binds its value to. -/
def reference? : Fragment → Option String
  | .placeholder p _ => some p.name
  | _ => none

/-- A leaf that is no statement is a placeholder. -/
theorem isSome_reference?_of_mem_leaves {f : Fragment}
    (h : f.Everywhere fun g => g.isStatement = false) :
    ∀ g ∈ f.leaves, g.reference?.isSome = true := by
  induction h with
  | @intro f here _ ih =>
    cases hf : f.isLeaf with
    | true =>
      rw [leaves_of_isLeaf hf, List.forall_mem_singleton]
      cases f with
      | placeholder => rfl
      | subSelect | union => cases here
      | _ => cases hf
    | false =>
      rw [leaves_of_not_isLeaf hf]
      intro g hg
      obtain ⟨child, hchild, hg⟩ := List.mem_flatMap.mp hg
      exact ih child hchild g hg

/-- Placeholders bind each name once, in the order in which it comes first. -/
theorem keys_of_placeholders {fs : List Fragment} (h : ∀ f ∈ fs, f.reference?.isSome = true) :
    Entries.keys (Entries.mergeAll (fs.map bindings)) =
      (fs.filterMap reference?).eraseDups.map .str := by
  have hnames : (fs.map bindings).flatMap Entries.keys = (fs.filterMap reference?).map .str := by
    induction fs with
    | nil => rfl
    | cons f rest ih =>
      obtain ⟨hf, hrest⟩ := List.forall_mem_cons.mp h
      cases f with
      | placeholder p v => exact congrArg (Value.str p.name :: ·) (ih hrest)
      | _ => cases hf
  rw [Entries.keys_mergeAll, hnames, Value.eraseDups_map_str]

/-- **A reader finds the placeholders in the order of the tree**, if no other colon is written. -/
theorem names_eq_leaves {beyond : Char → Bool} {f : Fragment}
    (htame : f.Everywhere fun g => g.isTame = true)
    (hleaves : ∀ g ∈ f.leaves, g.reference?.isSome = true) {sql : String} (h : f.text = .ok sql) :
    names beyond sql = f.leaves.filterMap reference? := by
  induction htame generalizing sql with
  | @intro f here _ ih =>
    cases hf : f.isLeaf with
    | true =>
      rw [leaves_of_isLeaf hf] at hleaves ⊢
      cases f with
      | placeholder p v =>
        cases h
        exact names_token p
      | _ => cases List.forall_mem_singleton.mp hleaves
    | false =>
      have hwrites : Writes beyond f.children (names beyond sql) :=
        writes here h (by rintro p v rfl; cases hf) (by rintro s rfl; cases hf)
          (by rintro ms m b rfl; cases hf)
      rw [leaves_of_not_isLeaf hf] at hleaves ⊢
      generalize f.children = gs, names beyond sql = ns at hwrites ih hleaves
      clear h
      induction hwrites with
      | nil => rfl
      | cons ht _ ihrest =>
        rw [List.flatMap_cons, List.forall_mem_append] at hleaves
        obtain ⟨ihhead, ih⟩ := List.forall_mem_cons.mp ih
        rw [List.flatMap_cons, List.filterMap_append, ← ihhead hleaves.1 ht, ihrest ih hleaves.2]

end Fragment

/-! ## The walk -/

/-- **The map of a fragment follows its text.** In any dialogue, and whatever names were drawn, a
fragment binds what one merge of its leaves binds, from left to right; the leaves stand in its text
in that order, each with its own text; and besides them there is only what classes write themselves
and strings and numbers. Without nested statements, the keys are the names of the placeholders in
the text, each where it comes first, and where no other colon is written they are all names that a
reader finds. -/
theorem bindings_eq_walk {options : Value} {s : Session} (hs : s.ReachedFrom options)
    {f : Fragment} (hf : s.HasFragment f) (hr : f.Everywhere fun g => g.isRegular = true) :
    f.bindings = Entries.mergeAll (f.leaves.map Fragment.bindings) ∧
    (∀ sql, f.text = .ok sql → ∃ xs, f.stretches = .ok xs ∧ spell xs = sql ∧
      xs.filterMap leaf? = f.leaves ∧ ∀ x ∈ xs, x.Proper) ∧
    ((f.Everywhere fun g => g.isStatement = false) →
      Entries.keys f.bindings = (f.leaves.filterMap Fragment.reference?).eraseDups.map .str ∧
      ∀ beyond sql, f.text = .ok sql → (f.Everywhere fun g => g.isTame = true) →
        names beyond sql = f.leaves.filterMap Fragment.reference?) := by
  have hwalk := Fragment.bindings_eq_leaves (hf.ownsMap hs)
  refine ⟨hwalk, fun sql hsql => ?_, fun hbare => ?_⟩
  · rw [f.text_eq_spell] at hsql
    obtain ⟨xs, hxs, hspell⟩ := Except.map_eq_ok.mp hsql
    exact ⟨xs, hxs, hspell, Fragment.leaves_of_stretches hxs, Fragment.proper_of_stretches hr hxs⟩
  · have hleaves := Fragment.isSome_reference?_of_mem_leaves hbare
    refine ⟨?_, fun beyond sql hsql htame => Fragment.names_eq_leaves htame hleaves hsql⟩
    rw [hwalk, Fragment.keys_of_placeholders hleaves]

/-- A dialogue in which a call is selected. All names in it are made of zeros. -/
def zeroDialogue : Session :=
  (Turn.takeAllWithin 1
    [⟨"root", .call .fields
      [.call .function [.atom (.str "f"), .atom (.int 1),
        .call .cast [.call .literal [.atom (.int 2)] [], .atom (.str "text")] [],
        .call .filter [.atom (.str "a"), .atom (.int 3)] [], .atom (.int 4)] []] []⟩]
    (.start (Supply.repeating []) .info (.options .default))).2

/-- The call that is selected. Its first argument and its last one have the same name. -/
def zeroCall : Fragment := (zeroDialogue.builder 0).children.headD .null

theorem bindings_eq_walk_zeros :
    zeroDialogue.ReachedFrom (.options .default) ∧ zeroDialogue.HasFragment zeroCall ∧
      (zeroCall.Everywhere fun g => g.isRegular = true) ∧
      (zeroCall.Everywhere fun g => g.isStatement = false) ∧
      zeroCall.text =
        .ok "f(:func00000000, :lit00000000::text, \"a\" = :where00000000, :func00000000)" ∧
      zeroCall.bindings = Entries.mergeAll (zeroCall.leaves.map Fragment.bindings) ∧
      Entries.keys zeroCall.bindings =
        ["func00000000", "lit00000000", "where00000000", "func00000000"].eraseDups.map .str ∧
      zeroCall.bindings.map (fun e => e.2.text) = [.ok "4", .ok "2", .ok "3"] := by
  have hs : zeroDialogue.ReachedFrom (.options .default) := ⟨_, _, _, _, rfl⟩
  have hlength : (zeroDialogue.builder 0).children.length = 1 := by decide +kernel
  obtain ⟨f, hchildren⟩ := List.length_eq_one_iff.mp hlength
  have hf : zeroDialogue.HasFragment zeroCall := .slot (.now 0) (by simp [zeroCall, hchildren])
  have hr : zeroCall.Everywhere fun g => g.isRegular = true :=
    Fragment.everywhere_of_checkWithin 3 (by decide +kernel)
  have hbare : zeroCall.Everywhere fun g => (!g.isStatement) = true :=
    Fragment.everywhere_of_checkWithin 3 (by decide +kernel)
  have hbare : zeroCall.Everywhere fun g => g.isStatement = false :=
    hbare.mono fun g hg => by simpa using hg
  have htame : zeroCall.Everywhere fun g => g.isTame = true :=
    Fragment.everywhere_of_checkWithin 3 (by decide +kernel)
  have hsql : zeroCall.text =
      .ok "f(:func00000000, :lit00000000::text, \"a\" = :where00000000, :func00000000)" := by
    decide +kernel
  have hfound : names (fun _ => false)
      "f(:func00000000, :lit00000000::text, \"a\" = :where00000000, :func00000000)" =
        ["func00000000", "lit00000000", "where00000000", "func00000000"] := by
    decide +kernel
  obtain ⟨hwalk, -, hkeys⟩ := bindings_eq_walk hs hf hr
  obtain ⟨hkeys, hread⟩ := hkeys hbare
  have hread := hread (fun _ => false) _ hsql htame
  exact ⟨hs, hf, hr, hbare, hsql, hwalk, by rw [hkeys, ← hread, hfound], by decide +kernel⟩

end BoundSql

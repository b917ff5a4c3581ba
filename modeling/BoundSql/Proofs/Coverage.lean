import BoundSql.Proofs.Discipline
import BoundSql.Proofs.PlainTexts

/-!
# Every placeholder has a value

The text of a statement and the map of its values come from two recursions that do not know of
each other. Here they are shown to agree: the names that a reader finds in the text of a builder
are exactly the keys of its map (`names_eq_keys`).

That cannot hold of everything a caller might write, since a caller can write a colon. What is
asked of a call is `Construction.isTame` and `Command.isTame`: texts in positions that are written
into the statement have no colon, items of lists are plain values or fragments, values bound by
hand are none, and callbacks answer with the statement of their builder. Nothing is asked of data,
which is never written.

The heart is `Fragment.writes`: what a fragment writes besides its children holds no name, and
keeps the names in its children apart. The rest is the discipline of covered fragments.
-/

set_option autoImplicit false

namespace BoundSql

open Text

/-! ## Calls that are in order -/

/-- Whether a value, if it is a callback, answers with the statement of its builder. -/
def Value.answersSelect : Value → Bool
  | .callback c _ => c.endsInSelect
  | _ => true

/-- Whether options, if they are some, name a column without a colon. -/
def Value.namesPlainColumn : Value → Bool
  | .options o => isColonFree o.paranoidColumn
  | _ => true

/-- Whether a value can be selected: an item, or a call with a fragment and nothing bound by
hand. -/
def Value.isField : Value → Bool
  | .dict entries =>
      match Entries.get? Builder.callKey entries with
      | some (.fragment ..) =>
          !((Entries.get? Builder.replacementsKey entries).getD .null).isTruthy
      | _ => false
  | v => v.isItem

/-- Whether a construction writes plain values only, besides fragments. -/
def Construction.writesPlain : Construction → Bool
  | .column name | .function name _ | .choice name _ _ => name.isPlain
  | .literal _ | .null | .branch .. | .fallback _ => true
  | .raw parts | .group _ parts => parts.all Value.isItem
  | .cast operand type => operand.isItem && type.isPlain
  | .filter left _ operator before after =>
      left.isItem && operator.isPlain && before.isPlain && after.isPlain
  | .projection target label | .join _ target _ label _ => target.isItem && label.isPlain
  | .subSelect _ word options | .union _ word options => word.isPlain && options.namesPlainColumn
  | .asColumn value => value.isItem
  | .ownSubSelect _ word | .ownUnion _ word => word.isPlain

/-- Whether a construction is in order: what it writes, and what its callbacks answer. -/
def Construction.isTame (c : Construction) : Bool :=
  c.writesPlain && c.callbacks.all Value.answersSelect

/-- Whether a command is in order. For the last two see the constructions that they carry out. -/
def Command.isTame : Command → Bool
  | .table name => name.isItem
  | .fields added | .select added | .compileSelect added => added.all Value.isField
  | .filter left _ operator => left.isItem && operator.isPlain
  | .join [target, _] => target.isItem
  | .join [target, _, label] => target.isItem && label.isPlain
  | .join _ => true
  | .limit number | .offset number => number.isPlain
  | .order clauses | .groupBy clauses => clauses.all Value.isItem
  | .paranoid target => target.isItem
  | .delete | .compileDelete | .bindings | .clampLimit _ | .options => true
  | .subSelect .. | .union .. => true

/-- Whether what was asked for is in order. -/
def Event.isTame : Event → Bool
  | .construction c => c.isTame
  | .command _ k => k.isTame
  | .fragment _ | .nested .. => true

/-! ## What fragments write -/

/-- Whether what a fragment writes besides its children is in order. -/
def Fragment.isTame : Fragment → Bool
  | .column name => isColonFree name
  | .placeholder .. | .null | .branch _ | .fallback _ => true
  | .raw parts => parts.all Value.isItem
  | .cast _ type => type.isPlain
  | .function name _ => name.isPlain
  | .filter c => c.operator.isPlain && c.before.isPlain && c.after.isPlain
  | .projection _ label => label.isPlain
  | .group _ conditions => conditions.all Value.isItem
  | .subSelect s => s.label.all isColonFree
  | .union _ modifier _ => modifier.isPlain
  | .join j => j.label.all isColonFree
  | .choice name _ _ => isColonFree name

section Writes

variable {beyond : Char → Bool}

/-- Fragments have texts, and these are the names in them, one text after the other. -/
inductive Writes (beyond : Char → Bool) : List Fragment → List String → Prop where
  | nil : Writes beyond [] []
  | cons {f : Fragment} {t : String} {fs : List Fragment} {ns : List String} (h : f.text = .ok t)
      (hs : Writes beyond fs ns) : Writes beyond (f :: fs) (names beyond t ++ ns)

namespace Writes

theorem single {f : Fragment} {t : String} (h : f.text = .ok t) :
    Writes beyond [f] (names beyond t) := by
  simpa using cons h nil

theorem append {fs gs : List Fragment} {ns ms : List String} (h : Writes beyond fs ns)
    (h' : Writes beyond gs ms) : Writes beyond (fs ++ gs) (ns ++ ms) := by
  induction h with
  | nil => exact h'
  | cons ht _ ih =>
    rw [List.append_assoc]
    exact .cons ht ih

/-- A name that is written is written by one of the fragments. -/
theorem mem_iff {fs : List Fragment} {ns : List String} (h : Writes beyond fs ns) {n : String} :
    n ∈ ns ↔ ∃ f ∈ fs, ∃ t, f.text = .ok t ∧ n ∈ names beyond t := by
  induction h with
  | nil => simp
  | cons ht _ ih => simp [ih, ht]

theorem exists_text {fs : List Fragment} {ns : List String} (h : Writes beyond fs ns)
    {f : Fragment} (hf : f ∈ fs) : ∃ t, f.text = .ok t := by
  induction h with
  | nil => cases hf
  | cons ht _ ih =>
    rcases List.mem_cons.mp hf with rfl | hf
    · exact ⟨_, ht⟩
    · exact ih hf

end Writes

/-- A list of fragments with a separator between two. -/
theorem writes_of_texts {fs : List Fragment} {ts : List String} (h : Fragment.texts fs = .ok ts) :
    Writes beyond fs (ts.flatMap (names beyond)) := by
  induction fs generalizing ts with
  | nil => cases h; exact .nil
  | cons f fs ih =>
    obtain ⟨t, ht, h⟩ := Except.bind_eq_ok.mp h
    obtain ⟨ts', hts, h⟩ := Except.bind_eq_ok.mp h
    cases h
    exact .cons ht (ih hts)

/-- Plain items write nothing, and the others what they are. -/
theorem writes_of_renderAll {items : List Value} (hitems : items.all Value.isItem = true)
    {ts : List String} (h : Value.renderAll .bare items = .ok ts) :
    Writes beyond (items.filterMap Value.fragment?) (ts.flatMap (names beyond)) := by
  induction items generalizing ts with
  | nil => cases h; exact .nil
  | cons v items ih =>
    obtain ⟨t, ht, h⟩ := Except.bind_eq_ok.mp h
    obtain ⟨ts', hts, h⟩ := Except.bind_eq_ok.mp h
    cases h
    rw [List.all_cons, Bool.and_eq_true] at hitems
    have hrest := ih hitems.2 hts
    rcases Value.isPlain_or_fragment hitems.1 with hv | ⟨f, o, rfl⟩
    · have hnames : names beyond t = [] := names_colonFree (Value.isColonFree_of_text hv ht)
      have hnone : v.fragment? = none := by
        cases v with
        | fragment => cases hv
        | _ => rfl
      rw [List.filterMap_cons_none hnone, List.flatMap_cons, hnames]
      exact hrest
    · have hf : f.text = .ok t := by
        rw [← Value.text_fragment f o]
        exact ht
      exact .cons hf hrest

/-- A text that may be absent. -/
theorem writes_of_text? {f : Option Fragment} {t : Option String}
    (h : Fragment.text? f = .ok t) : Writes beyond f.toList (t.toList.flatMap (names beyond)) := by
  cases f with
  | none => cases h; exact .nil
  | some f =>
    obtain ⟨u, hu, h⟩ := Except.bind_eq_ok.mp h
    cases h
    simpa using Writes.single hu

theorem writes_of_branchTexts {bs : List Branch} {ts : List String}
    (h : Branch.texts bs = .ok ts) :
    Writes beyond (bs.map .branch) (ts.flatMap (names beyond)) := by
  induction bs generalizing ts with
  | nil => cases h; exact .nil
  | cons b bs ih =>
    obtain ⟨t, ht, h⟩ := Except.bind_eq_ok.mp h
    obtain ⟨ts', hts, h⟩ := Except.bind_eq_ok.mp h
    cases h
    exact .cons ht (ih hts)

/-! ## Names in texts of several words -/

/-- The names in a value that is a text. -/
def Value.namesIn (beyond : Char → Bool) : Value → List String
  | .str s => names beyond s
  | _ => []

theorem Value.namesIn_str (s : String) : (Value.str s).namesIn beyond = names beyond s := rfl

theorem Value.namesIn_of_isPlain {v : Value} (h : v.isPlain = true) : v.namesIn beyond = [] := by
  cases v with
  | str s => exact names_colonFree h
  | _ => rfl

/-- Words that are left out have no names. -/
theorem names_joinPresent {parts : List Value} {t : String} (h : joinPresent parts = .ok t) :
    names beyond t = parts.flatMap (Value.namesIn beyond) := by
  obtain ⟨ws, hws, h⟩ := Except.bind_eq_ok.mp h
  cases h
  rw [names_intercalate rfl]
  clear h
  induction parts generalizing ws with
  | nil => cases hws; rfl
  | cons v parts ih =>
    rw [List.filter_cons] at hws
    split at hws
    · rw [List.mapM_cons] at hws
      obtain ⟨w, hw, hws⟩ := Except.bind_eq_ok.mp hws
      obtain ⟨ws', hws', hws⟩ := Except.bind_eq_ok.mp hws
      cases hws
      cases v with
      | str s =>
        cases hw
        rw [List.flatMap_cons, List.flatMap_cons, ih ws' hws']
        rfl
      | _ => cases hw
    · rename_i hv
      have hnone : v.namesIn beyond = [] := by
        cases v with
        | str s =>
          have hs : s = "" := by simpa [Value.isTruthy] using hv
          rw [hs]
          rfl
        | _ => rfl
      rw [List.flatMap_cons, hnone, ih ws hws]
      rfl

theorem names_joinWords (words : List String) :
    names beyond (joinWords words) = words.flatMap (names beyond) := by
  rw [joinWords, names_intercalate rfl]
  induction words with
  | nil => rfl
  | cons w words ih =>
    by_cases hw : w = ""
    · subst hw
      simpa using ih
    · simp [hw, ih]

/-- A word with a space at both ends keeps apart what is around it. -/
theorem separates_spaced {w : String} (h : isColonFree w = true) :
    separates (" " ++ w ++ " ") = true := by
  have hcolon : ':' ∉ w.toList := isColonFree_iff.mp h
  have hlist : (" " ++ w ++ " ").toList = ' ' :: (w.toList ++ [' ']) := by simp
  have hlast : (" " ++ w ++ " ").toList.getLast? = some ' ' := by
    rw [hlist, ← List.cons_append, List.getLast?_concat]
  rw [separates, leads, hlast, isColonFree, hlist]
  simp [hcolon, isStop]

theorem names_joined (c : Connective) (ts : List String) :
    names beyond (c.joined ts) = ts.flatMap (names beyond) := by
  have hsep : separates (" " ++ c.term ++ " ") = true := separates_spaced (by cases c <;> rfl)
  rcases ts with _ | ⟨t, _ | ⟨u, ts⟩⟩
  · rfl
  · simp [Connective.joined]
  · change names beyond ("(" ++ (" " ++ c.term ++ " ").intercalate (t :: u :: ts) ++ ")") = _
    rw [names_trail rfl, names_lead rfl, names_intercalate hsep]

theorem SubSelect.names_text {s : SubSelect} (h : s.label.all isColonFree = true) :
    names beyond s.text = names beyond s.sql := by
  obtain ⟨sql, label, bound⟩ := s
  cases label with
  | none =>
    change names beyond ("(" ++ sql ++ ")") = _
    rw [names_trail rfl, names_lead rfl]
  | some label =>
    change names beyond ("(" ++ sql ++ ") AS " ++ Identifier.quote label) = _
    rw [String.append_assoc, names_separated rfl, names_lead rfl,
      names_colonFree (isColonFree_quote h), List.append_nil]

theorem Filter.writes {c : Filter} (hc : (Fragment.filter c).isTame = true) {t : String}
    (ht : (Fragment.filter c).text = .ok t) :
    Writes beyond (Fragment.filter c).children (names beyond t) := by
  obtain ⟨left, right, operator, before, after⟩ := c
  simp only [Fragment.isTame, Bool.and_eq_true] at hc
  obtain ⟨⟨hoperator, hbefore⟩, hafter⟩ := hc
  obtain ⟨x, hx, ht⟩ := Except.bind_eq_ok.mp ht
  obtain ⟨y, hy, ht⟩ := Except.bind_eq_ok.mp ht
  have hnames : names beyond t = _ := names_joinPresent ht
  have hsides : Writes beyond _ _ := (Writes.single hx).append (writes_of_text? hy)
  change Writes beyond (left :: right.toList) _
  cases y with
  | none =>
    simpa [hnames, Value.namesIn_of_isPlain hbefore, Value.namesIn_of_isPlain hafter,
      Value.namesIn_str] using hsides
  | some y =>
    simpa [hnames, Value.namesIn_of_isPlain hbefore, Value.namesIn_of_isPlain hafter,
      Value.namesIn_of_isPlain hoperator, Value.namesIn_str] using hsides

theorem Join.writes {j : Join} (hj : (Fragment.join j).isTame = true) {t : String}
    (ht : (Fragment.join j).text = .ok t) :
    Writes beyond (Fragment.join j).children (names beyond t) := by
  obtain ⟨family, kind, table, label, condition⟩ := j
  obtain ⟨k, -, ht⟩ := Except.bind_eq_ok.mp ht
  obtain ⟨x, hx, ht⟩ := Except.bind_eq_ok.mp ht
  obtain ⟨y, hy, ht⟩ := Except.bind_eq_ok.mp ht
  cases ht
  have hkeywords : names beyond k.before = [] ∧ names beyond k.after = [] := by
    cases k <;> exact ⟨names_colonFree rfl, names_colonFree rfl⟩
  have hlabel : names beyond ((label.map Identifier.quote).getD "") = [] := by
    cases label with
    | none => rfl
    | some label => exact names_colonFree (isColonFree_quote hj)
  have hsides : Writes beyond _ _ := (Writes.single hx).append (writes_of_text? hy)
  rw [names_joinWords]
  change Writes beyond (table :: condition.toList) _
  cases y with
  | none =>
    simpa [hkeywords, hlabel, names_colonFree (s := "JOIN") rfl] using hsides
  | some y =>
    simpa [hkeywords, hlabel, names_colonFree (s := "JOIN") rfl, names_colonFree (s := "ON") rfl]
      using hsides

theorem writes_choice {name : String} {branches : List Branch} {last : Option SubSelect}
    (hname : (Fragment.choice name branches last).isTame = true) {t : String}
    (ht : (Fragment.choice name branches last).text = .ok t) :
    Writes beyond (Fragment.choice name branches last).children (names beyond t) := by
  obtain ⟨ts, hts, ht⟩ := Except.bind_eq_ok.mp ht
  cases ht
  rw [names_joinWords]
  have hbranches : Writes beyond _ _ := writes_of_branchTexts hts
  cases last with
  | none =>
    simpa [Fragment.children, names_intercalate (w := " ") rfl,
      names_colonFree (isColonFree_quote hname), names_colonFree (s := "CASE") rfl,
      names_colonFree (s := "END AS") rfl] using hbranches
  | some s =>
    have hlast : Writes beyond [.fallback s] (names beyond ("ELSE " ++ s.text)) := .single rfl
    simpa [Fragment.children, names_intercalate (w := " ") rfl,
      names_colonFree (isColonFree_quote hname), names_colonFree (s := "CASE") rfl,
      names_colonFree (s := "END AS") rfl] using hbranches.append hlast

/-- **A fragment writes its children**, and no other name. -/
theorem Fragment.writes {f : Fragment} (hf : f.isTame = true) {t : String} (ht : f.text = .ok t)
    (hp : ∀ p v, f ≠ .placeholder p v) (hs : ∀ s, f ≠ .subSelect s)
    (hu : ∀ texts modifier bound, f ≠ .union texts modifier bound) :
    Writes beyond f.children (names beyond t) := by
  cases f with
  | column name =>
    cases ht
    rw [names_colonFree (isColonFree_quote hf)]
    exact .nil
  | placeholder p v => exact absurd rfl (hp p v)
  | null => cases ht; exact .nil
  | raw parts =>
    obtain ⟨ts, hts, ht⟩ := Except.bind_eq_ok.mp ht
    cases ht
    rw [names_intercalate rfl]
    exact writes_of_renderAll hf hts
  | cast operand type =>
    obtain ⟨x, hx, ht⟩ := Except.bind_eq_ok.mp ht
    obtain ⟨y, hy, ht⟩ := Except.bind_eq_ok.mp ht
    cases ht
    rw [names_cast _ (Value.isColonFree_of_text hf hy)]
    exact .single hx
  | function name args =>
    obtain ⟨x, hx, ht⟩ := Except.bind_eq_ok.mp ht
    obtain ⟨ts, hts, ht⟩ := Except.bind_eq_ok.mp ht
    cases ht
    rw [names_trail rfl, String.append_assoc, names_separated rfl,
      names_colonFree (Value.isColonFree_of_text hf hx), names_intercalate rfl]
    exact writes_of_texts hts
  | filter c => exact Filter.writes hf ht
  | projection target label =>
    rw [Fragment.text] at ht
    obtain ⟨x, hx, ht⟩ := Except.bind_eq_ok.mp ht
    split at ht
    · cases ht
      exact .single hx
    · obtain ⟨y, hy, ht⟩ := Except.bind_eq_ok.mp ht
      cases ht
      rw [String.append_assoc, names_separated rfl,
        names_colonFree (Value.isColonFree_of_text hf hy), List.append_nil]
      exact .single hx
  | group c conditions =>
    obtain ⟨ts, hts, ht⟩ := Except.bind_eq_ok.mp ht
    cases ht
    rw [names_joined]
    exact writes_of_renderAll hf hts
  | subSelect s => exact absurd rfl (hs s)
  | union texts modifier bound => exact absurd rfl (hu _ _ _)
  | join j => exact Join.writes hf ht
  | branch b =>
    obtain ⟨condition, result⟩ := b
    obtain ⟨x, hx, ht⟩ := Except.bind_eq_ok.mp ht
    cases ht
    rw [String.append_assoc, String.append_assoc, names_lead rfl, names_separated rfl]
    exact .append (.single (f := .filter condition) hx) (.single rfl)
  | fallback s =>
    cases ht
    rw [names_lead rfl]
    exact .single rfl
  | choice name branches last => exact writes_choice hf ht

/-- The keyword of a union keeps its members apart. -/
theorem names_union {texts : List String} {modifier : Value} {bound : Bindings}
    (hm : modifier.isPlain = true) {t : String}
    (ht : (Fragment.union texts modifier bound).text = .ok t) :
    names beyond t = texts.flatMap (names beyond) := by
  obtain ⟨keyword, hk, ht⟩ := Except.bind_eq_ok.mp ht
  cases ht
  refine names_intercalate (separates_spaced (isColonFree_joinPresent ?_ hk)) texts
  exact List.forall_mem_cons.mpr ⟨rfl, List.forall_mem_singleton.mpr hm⟩

/-! ## Maps that cover names -/

/-- The keys of a map are the given names, and nothing else. -/
def Covers (m : Bindings) (ns : List String) : Prop :=
  ∀ k, k ∈ Entries.keys m ↔ ∃ n ∈ ns, k = .str n

/-- What a fragment binds is what it writes. -/
def Fragment.Covered (beyond : Char → Bool) (f : Fragment) : Prop :=
  ∀ t, f.text = .ok t → Covers f.bindings (names beyond t)

theorem Covers.mergeAll {ms : List Bindings} {nss : List (List String)}
    (h : List.Forall₂ Covers ms nss) : Covers (Entries.mergeAll ms) nss.flatten := by
  intro k
  constructor
  · intro hk
    obtain ⟨m, hm, hk⟩ := Entries.mem_keys_of_mem_mergeAll hk
    obtain ⟨ns, hns, hcover⟩ := exists_left_of_forall₂ h.flip hm
    obtain ⟨n, hn, rfl⟩ := (hcover k).mp hk
    exact ⟨n, List.mem_flatten.mpr ⟨ns, hns, hn⟩, rfl⟩
  · rintro ⟨n, hn, rfl⟩
    obtain ⟨ns, hns, hn⟩ := List.mem_flatten.mp hn
    obtain ⟨m, hm, hcover⟩ := exists_left_of_forall₂ h hns
    exact Bindings.str_mem_keys_mergeAll hm ((hcover _).mpr ⟨n, hn, rfl⟩)

/-- A map that is gathered from fragments covers what the fragments write. -/
theorem Writes.covers {fs : List Fragment} {ns : List String} (h : Writes beyond fs ns)
    (hcovered : ∀ g ∈ fs, g.Covered beyond) {m : Bindings}
    (up : ∀ g ∈ fs, ∀ n, .str n ∈ Entries.keys g.bindings → .str n ∈ Entries.keys m)
    (down : (∀ g ∈ fs, ∀ k ∈ Entries.keys g.bindings, ∃ n ∈ ns, k = .str n) →
      ∀ k ∈ Entries.keys m, ∃ n ∈ ns, k = .str n) : Covers m ns := by
  intro k
  constructor
  · refine down (fun g hg k hk => ?_) k
    obtain ⟨t, ht⟩ := h.exists_text hg
    obtain ⟨n, hn, rfl⟩ := (hcovered g hg t ht k).mp hk
    exact ⟨n, h.mem_iff.mpr ⟨g, hg, t, ht, hn⟩, rfl⟩
  · rintro ⟨n, hn, rfl⟩
    obtain ⟨g, hg, t, ht, hn⟩ := h.mem_iff.mp hn
    exact up g hg n ((hcovered g hg t ht _).mpr ⟨n, hn, rfl⟩)

/-! ## Builders -/

/-- Whether what a builder writes besides its children is in order. -/
structure Builder.IsTame (b : Builder) : Prop where
  options : b.options.namesPlainColumn = true
  fields : b.fields.all Value.isItem = true
  groups : b.groups.all Value.isItem = true
  order : b.order.all Value.isItem = true
  limit : ∀ v ∈ b.limit, v.isPlain = true
  offset : ∀ v ∈ b.offset, v.isPlain = true
  extra : b.extra = []

theorem names_listClause {keyword : String} (hk : leads (keyword ++ " ") = true)
    {items : List Value} (hitems : items.all Value.isItem = true) {t : String}
    (ht : Builder.listClause keyword items = .ok t) :
    Writes beyond (items.filterMap Value.fragment?) (names beyond t) := by
  unfold Builder.listClause at ht
  split at ht
  · rename_i hempty
    cases ht
    rw [List.isEmpty_iff.mp hempty]
    exact .nil
  · obtain ⟨x, hx, ht⟩ := Except.bind_eq_ok.mp ht
    obtain ⟨ts, hts, hx⟩ := Except.bind_eq_ok.mp hx
    cases ht
    cases hx
    rw [names_lead hk, names_intercalate rfl]
    exact writes_of_renderAll hitems hts

theorem names_valueClause {keyword : String} (hk : leads (keyword ++ " ") = true)
    {v : Option Value} (hv : ∀ w ∈ v, w.isPlain = true) {t : String}
    (ht : Builder.valueClause keyword v = .ok t) : names beyond t = [] := by
  cases v with
  | none => cases ht; rfl
  | some v =>
    obtain ⟨x, hx, ht⟩ := Except.bind_eq_ok.mp ht
    cases ht
    rw [names_lead hk]
    exact names_colonFree (Value.isColonFree_of_text (hv v rfl) hx)

theorem writes_of_mapM {α : Type} {f : α → Except Fault String} {g : α → Fragment}
    (hg : ∀ x, (g x).text = f x) {xs : List α} {ts : List String} (h : xs.mapM f = .ok ts) :
    Writes beyond (xs.map g) (ts.flatMap (names beyond)) := by
  induction xs generalizing ts with
  | nil => cases h; exact .nil
  | cons x xs ih =>
    rw [List.mapM_cons] at h
    obtain ⟨t, ht, h⟩ := Except.bind_eq_ok.mp h
    obtain ⟨ts', hts, h⟩ := Except.bind_eq_ok.mp h
    cases h
    exact .cons ((hg x).trans ht) (ih hts)

theorem Builder.writes_fields {b : Builder} (hb : b.IsTame) {t : String}
    (h : b.fieldsText = .ok t) : Writes beyond (b.fields.filterMap Value.fragment?) (names beyond t) := by
  unfold fieldsText at h
  split at h
  · rename_i hempty
    cases h
    rw [List.isEmpty_iff.mp hempty]
    exact .nil
  · obtain ⟨ts, hts, h⟩ := Except.bind_eq_ok.mp h
    cases h
    rw [names_intercalate rfl]
    exact writes_of_renderAll hb.fields hts

theorem Builder.writes_table {b : Builder} {t : String} (h : b.tableClause = .ok t) :
    Writes beyond b.table.toList (names beyond t) := by
  unfold tableClause at h
  split at h
  · rename_i hnone
    cases h
    rw [hnone]
    exact .nil
  · rename_i table hsome
    obtain ⟨x, hx, h⟩ := Except.bind_eq_ok.mp h
    cases h
    rw [hsome, names_lead rfl]
    exact .single hx

theorem Builder.writes_joins {b : Builder} {t : String} (h : b.joinsClause = .ok t) :
    Writes beyond (b.joins.map .join) (names beyond t) := by
  obtain ⟨ts, hts, h⟩ := Except.bind_eq_ok.mp h
  cases h
  rw [names_intercalate rfl]
  exact writes_of_mapM (fun _ => rfl) hts

theorem Builder.writes_filters {b : Builder} {t : String} (h : b.filterClause = .ok t) :
    Writes beyond (b.filters.map .filter) (names beyond t) := by
  unfold filterClause at h
  split at h
  · rename_i hempty
    cases h
    rw [List.isEmpty_iff.mp hempty]
    exact .nil
  · obtain ⟨x, hx, h⟩ := Except.bind_eq_ok.mp h
    obtain ⟨ts, hts, hx⟩ := Except.bind_eq_ok.mp hx
    cases h
    cases hx
    rw [names_lead rfl, names_joined]
    exact writes_of_mapM (fun _ => rfl) hts

theorem Builder.IsTame.isPlain_of_effectiveLimit {b : Builder} (hb : b.IsTame)
    {limit : Option Value} (h : b.effectiveLimit = .ok limit) : ∀ v ∈ limit, v.isPlain = true := by
  unfold effectiveLimit at h
  split at h
  · rename_i hset
    cases h
    exact fun v hv => hb.limit v (hset ▸ hv)
  · obtain ⟨o, -, h⟩ := Except.bind_eq_ok.mp h
    cases h
    intro v hv
    obtain ⟨n, -, rfl⟩ := Option.map_eq_some_iff.mp hv
    rfl

/-- **A statement that selects rows writes the fragments in the slots**, and no other name. -/
theorem Builder.writes_select {b : Builder} (hb : b.IsTame) {sql : String}
    (h : b.selectText = .ok sql) : Writes beyond b.children (names beyond sql) := by
  obtain ⟨parts, hparts, rfl⟩ := Except.map_eq_ok.mp h
  obtain ⟨limit, hlimit, hparts⟩ := Except.bind_eq_ok.mp hparts
  obtain ⟨fields, hfields, hparts⟩ := Except.bind_eq_ok.mp hparts
  obtain ⟨table, htable, hparts⟩ := Except.bind_eq_ok.mp hparts
  obtain ⟨joins, hjoins, hparts⟩ := Except.bind_eq_ok.mp hparts
  obtain ⟨filter, hfilter, hparts⟩ := Except.bind_eq_ok.mp hparts
  obtain ⟨groups, hgroups, hparts⟩ := Except.bind_eq_ok.mp hparts
  obtain ⟨order, horder, hparts⟩ := Except.bind_eq_ok.mp hparts
  obtain ⟨limitText, hlimitText, hparts⟩ := Except.bind_eq_ok.mp hparts
  obtain ⟨offset, hoffset, hparts⟩ := Except.bind_eq_ok.mp hparts
  cases hparts
  have hlimit : ∀ v ∈ limit, v.isPlain = true := hb.isPlain_of_effectiveLimit hlimit
  have hslots : Writes beyond _ _ := ((((writes_fields hb hfields).append
    (writes_table htable)).append (writes_joins hjoins)).append (writes_filters hfilter)).append
    (names_listClause rfl hb.groups hgroups) |>.append (names_listClause rfl hb.order horder)
  rw [Builder.assemble, names_trim, names_joinWords]
  simpa [names_colonFree (s := "SELECT") rfl, names_valueClause rfl hlimit hlimitText,
    names_valueClause rfl hb.offset hoffset, Builder.children] using hslots

/-- A statement that deletes rows writes the table and the filters. -/
theorem Builder.writes_delete {b : Builder} {sql : String} (h : b.deleteText = .ok sql) :
    Writes beyond (b.table.toList ++ b.filters.map .filter) (names beyond sql) := by
  unfold deleteText at h
  split at h
  · cases h
  · obtain ⟨table, htable, h⟩ := Except.bind_eq_ok.mp h
    obtain ⟨filter, hfilter, h⟩ := Except.bind_eq_ok.mp h
    obtain rfl := Except.ok.inj h
    rw [assemble, names_trim, names_joinWords]
    simpa [names_colonFree (s := "DELETE") rfl] using
      (writes_table htable).append (writes_filters hfilter)

/-- **The map of a builder covers its statement**, if its fragments are covered. -/
theorem Builder.covers_select {b : Builder} (hb : b.IsTame)
    (hchildren : ∀ g ∈ b.children, g.Covered beyond) {sql : String}
    (h : b.selectText = .ok sql) : Covers b.bindings (names beyond sql) := by
  refine (b.writes_select hb h).covers hchildren (fun g hg n => b.str_mem_keys_of_child hg) ?_
  intro hkeys
  refine bindings_of_children (Q := fun m => ∀ k ∈ Entries.keys m, ∃ n ∈ names beyond sql, k = .str n)
    (by simp) (fun hx hy k hk => (Entries.mem_keys_of_mem_merge hk).elim (hx k) (hy k)) ?_ hkeys
  rw [hb.extra]
  simp

/-- The map of a builder has a value for every name in the statement that deletes rows. -/
theorem Builder.mem_keys_of_delete {b : Builder} (hchildren : ∀ g ∈ b.children, g.Covered beyond)
    {sql : String} (h : b.deleteText = .ok sql) {n : String} (hn : n ∈ names beyond sql) :
    .str n ∈ Entries.keys b.bindings := by
  obtain ⟨g, hg, t, ht, hn⟩ := (writes_delete h).mem_iff.mp hn
  have hg : g ∈ b.children := by
    simp only [children, List.mem_append] at hg ⊢
    tauto
  exact str_mem_keys_of_child hg ((hchildren g hg t ht _).mpr ⟨n, hn, rfl⟩)

/-! ## Fragments -/

theorem Fragment.covered_of_children {f : Fragment} (hf : f.isTame = true)
    (hp : ∀ p v, f ≠ .placeholder p v) (hs : ∀ s, f ≠ .subSelect s)
    (hu : ∀ texts modifier bound, f ≠ .union texts modifier bound)
    (hchildren : ∀ g ∈ f.children, g.Covered beyond) : f.Covered beyond := by
  intro t ht
  refine (f.writes hf ht hp hs hu).covers hchildren (fun g hg n => f.str_mem_keys_of_child hg) ?_
  intro hkeys
  exact bindings_of_children (Q := fun m => ∀ k ∈ Entries.keys m, ∃ n ∈ names beyond t, k = .str n)
    (by simp) (fun hx hy k hk => (Entries.mem_keys_of_mem_merge hk).elim (hx k) (hy k))
    (fun p v h => absurd h (hp p v)) (fun s h => absurd h (hs s))
    (fun texts modifier bound h => absurd h (hu texts modifier bound)) hkeys

/-- A placeholder writes its name. -/
theorem Fragment.covered_placeholder (p : Placeholder) (v : Value) :
    (Fragment.placeholder p v).Covered beyond := by
  rintro t ⟨⟩
  rw [names_token]
  intro k
  simp [Fragment.bindings, Entries.keys]

theorem Fragment.covered_column {s : String} (h : isColonFree s = true) :
    (Fragment.column s).Covered beyond := by
  rintro t ⟨⟩
  rw [names_colonFree (isColonFree_quote h)]
  simp [Covers, Fragment.bindings]

/-! ## The discipline of covered fragments -/

/-- What a construction in order makes is in order. -/
theorem Construction.Makes.isTame {issued : Placeholder → Value → Prop}
    {answered : Callback → String → Bindings → Prop} {c : Construction} {f : Fragment}
    (h : c.Makes issued answered f) (ht : c.writesPlain = true) (hc : ∀ v, c ≠ .asColumn v) :
    f.isTame = true := by
  have label : ∀ {v : Value} {l : Option String}, v.name? = .ok l → v.isPlain = true →
      l.all isColonFree = true := by
    intro v l hl hv
    unfold Value.name? at hl
    split at hl
    · cases hl; rfl
    · obtain ⟨s, hs, rfl⟩ := Except.map_eq_ok.mp hl
      obtain rfl := Value.eq_str_of_name hs
      exact hv
  cases h with
  | literal | null | branch | fallback => rfl
  | column | raw | function | group | choice | ownUnion => exact ht
  | ownSubSelect hl => exact label hl ht
  | asColumn => exact absurd rfl (hc _)
  | cast | projection =>
    simp only [Construction.writesPlain, Bool.and_eq_true] at ht
    exact ht.2
  | join _ _ _ _ hl =>
    simp only [Construction.writesPlain, Bool.and_eq_true] at ht
    exact label hl ht.2
  | subSelect _ hl =>
    simp only [Construction.writesPlain, Bool.and_eq_true] at ht
    exact label hl ht.1
  | union =>
    simp only [Construction.writesPlain, Bool.and_eq_true] at ht
    exact ht.1
  | filter =>
    simp only [Construction.writesPlain, Bool.and_eq_true] at ht
    simp [Fragment.isTame, ht]

/-- Where something is named, a construction in order has a plain value or a fragment. -/
theorem Construction.isItem_of_named {c : Construction} (ht : c.writesPlain = true) {v : Value}
    (hv : v ∈ c.named) : v.isItem = true := by
  cases c with
  | cast | projection | join | filter =>
    obtain rfl := List.mem_singleton.mp hv
    simp only [Construction.writesPlain, Bool.and_eq_true] at ht
    simp [ht]
  | asColumn =>
    obtain rfl := List.mem_singleton.mp hv
    exact ht
  | _ => cases hv

end Writes

/-- The discipline of covered fragments, for calls in order. -/
def coverage (beyond : Char → Bool) : Discipline where
  good := Fragment.Covered beyond
  proper := Builder.IsTame
  allows c := c.isTame = true

section Lawful

variable {beyond : Char → Bool} {last : Session}

/-- A nested statement of a callback in order is covered by what its builder had bound. -/
theorem covers_of_answers {callback : Value} {r : String × Bindings}
    (h : callback.Answers ((coverage beyond).Answered last) r)
    (hc : callback.answersSelect = true) : Covers r.2 (names beyond r.1) := by
  obtain ⟨_, b, -, rfl, hfine, hselect⟩ := h
  exact b.covers_select hfine.proper hfine.children (hselect hc)

theorem covered_of_makes {c : Construction} {f : Fragment} (ht : c.isTame = true)
    (hargs : ∀ v ∈ c.arguments, v.Every (Fragment.Covered beyond))
    (h : c.Makes last.supply.Issued ((coverage beyond).Answered last) f) : f.Covered beyond := by
  simp only [Construction.isTame, Bool.and_eq_true] at ht
  obtain ⟨hplain, hcallbacks⟩ := ht
  have column : ∀ s, .str s ∈ c.named → (Fragment.column s).Covered beyond := fun s hs =>
    Fragment.covered_column (Construction.isItem_of_named hplain hs)
  refine h.holds hargs column fun hc => ?_
  have htame := h.isTame hplain hc
  have hchildren := h.children hc hargs column fun p v _ => Fragment.covered_placeholder p v
  cases f with
  | placeholder p v => exact Fragment.covered_placeholder p v
  | subSelect s =>
    rintro t ⟨⟩
    obtain ⟨callback, hmem, hanswers⟩ := h.answers_of_subSelect hc
    rw [SubSelect.names_text htame]
    exact covers_of_answers hanswers (List.all_eq_true.mp hcallbacks _ hmem)
  | union texts modifier bound =>
    intro t ht
    obtain ⟨members, hanswers, rfl, rfl⟩ := h.answers_of_union hc
    rw [names_union htame ht, List.flatMap_def, List.map_map]
    refine Covers.mergeAll ?_
    rw [List.forall₂_map_left_iff, List.forall₂_map_right_iff, List.forall₂_same]
    intro m hm
    obtain ⟨callback, hmem, hanswer⟩ := exists_left_of_forall₂ hanswers hm
    exact covers_of_answers hanswer (List.all_eq_true.mp hcallbacks _ hmem)
  | _ => exact Fragment.covered_of_children htame (by simp) (by simp) (by simp) hchildren

/-! ## Commands in order -/

theorem namesPlainColumn_givenOptions {options : Value} (h : options.namesPlainColumn = true) :
    (givenOptions options).namesPlainColumn = true := by
  cases options with
  | null => rfl
  | _ => exact h

theorem Builder.isTame_empty {options : Value} (h : options.namesPlainColumn = true) :
    (Builder.empty options).IsTame where
  options := h
  fields := rfl
  groups := rfl
  order := rfl
  limit := by simp [Builder.empty]
  offset := by simp [Builder.empty]
  extra := rfl

theorem Command.Carries.isTame {b : Builder} (hb : b.IsTame) {k : Command} {c : Construction}
    (hk : k.isTame = true) (h : k.Carries b c) : c.isTame = true := by
  have words : isColonFree "IS" = true ∧ isColonFree "" = true := ⟨rfl, rfl⟩
  cases h with
  | table | paranoid | join | joinAs | filter =>
    simp only [Command.isTame, Bool.and_eq_true] at hk
    simp [Construction.isTame, Construction.writesPlain, Construction.callbacks, Command.absence,
      words, hk]
  | paranoidDefault ho =>
    have hcolumn := hb.options
    rw [ho] at hcolumn
    have hcolumn : isColonFree _ = true := hcolumn
    simp [Construction.isTame, Construction.writesPlain, Construction.callbacks, Command.absence,
      words, hcolumn]

theorem Builder.isTame_pushField {v : Value} (hv : v.isItem = true) {b : Builder}
    (hb : b.IsTame) : (b.pushField v).IsTame :=
  { hb with fields := by simp [pushField, List.all_append, hb.fields, hv] }

theorem Builder.isTame_addField {v : Value} (hv : v.isField = true) {b : Builder}
    (hb : b.IsTame) : (b.addField v).2.IsTame := by
  have text : ∀ w : Value, w.isPlain = true → (b.pushText w).2.IsTame := by
    intro w hw
    unfold pushText
    split
    · rename_i t ht
      refine isTame_pushField ?_ hb
      rw [Value.isItem_str]
      exact Value.isColonFree_of_text hw ht
    · exact hb
  cases v with
  | null => exact hb
  | str s =>
    refine isTame_pushField ?_ hb
    rw [Value.isItem_str]
    exact isColonFree_quote hv
  | fragment f origin => exact isTame_pushField rfl hb
  | dict entries =>
    simp only [Value.isField] at hv
    split at hv
    · rename_i f origin hcall
      have hnone : bindExtra ((Entries.get? replacementsKey entries).getD .null) b = (none, b) := by
        rw [bindExtra, if_neg (by simpa using hv)]
      rw [addField, hcall]
      simp only [hnone]
      exact isTame_pushField rfl hb
    · cases hv
  | bool | int | float | nan => exact text _ rfl
  | _ => cases hv

theorem Builder.isTame_addFields {added : List Value} (hadded : added.all Value.isField = true)
    {b : Builder} (hb : b.IsTame) : (b.addFields added).2.IsTame := by
  induction added generalizing b with
  | nil => exact hb
  | cons v rest ih =>
    rw [List.all_cons, Bool.and_eq_true] at hadded
    have hv := isTame_addField hadded.1 hb
    unfold addFields
    split
    · rename_i b' hb'
      rw [hb'] at hv
      exact ih hadded.2 hv
    · rename_i fault b' hb'
      rw [hb'] at hv
      exact hv

theorem Value.eq_of_mem_toOption {v w : Value} (h : v ∈ w.toOption) : w = v := by
  cases w with
  | null => cases h
  | _ => exact Option.some.inj h

/-- A limit that is lowered is a number, and otherwise it is the one given. -/
theorem Options.isPlain_of_clamp {o : Options} {v limit : Value} (hv : v.isPlain = true)
    (h : o.clamp v = .ok limit) : limit.isPlain = true := by
  unfold Options.clamp at h
  split at h
  · cases h
    exact hv
  · obtain ⟨above, -, rfl⟩ := Except.map_eq_ok.mp h
    split
    · rfl
    · exact hv

/-- **A command in order leaves a builder in order.** -/
theorem Command.Changes.isTame {issued : Placeholder → Value → Prop}
    {answered : Callback → String → Bindings → Prop} {k : Command} {b b' : Builder}
    (h : k.Changes issued answered b b') (hk : k.isTame = true) (hb : b.IsTame) : b'.IsTame := by
  cases h with
  | unchanged => exact hb
  | fields | select | compileSelect => exact Builder.isTame_addFields hk hb
  | table | filter | paranoid | join => exact { hb with }
  | order clauses =>
    exact { hb with order := by rw [List.all_append, hb.order, Bool.true_and]; exact hk }
  | groupBy clauses =>
    exact { hb with groups := by rw [List.all_append, hb.groups, Bool.true_and]; exact hk }
  | offset number => exact { hb with offset := fun v hv => Value.eq_of_mem_toOption hv ▸ hk }
  | limit _ h =>
    exact { hb with
      limit := fun v hv => Value.eq_of_mem_toOption hv ▸ Options.isPlain_of_clamp hk h }

theorem coverage_lawful (h : ∀ e ∈ last.history, e.isTame = true) :
    (coverage beyond).Lawful last where
  null := by
    rintro t ⟨⟩
    simp [Covers, Fragment.bindings, names_colonFree (s := "NULL") rfl]
  asked hc := h _ hc
  carried hk hb hc := hc.isTame hb.proper (h _ hk)
  made ht hargs hm := covered_of_makes ht hargs hm
  fresh := Builder.isTame_empty rfl
  opened := by
    intro c o ht ho
    simp only [coverage, Construction.isTame, Bool.and_eq_true] at ht
    refine Builder.isTame_empty (namesPlainColumn_givenOptions ?_)
    cases c with
    | subSelect _ word options | union _ word options =>
      cases ho
      simp only [Construction.writesPlain, Bool.and_eq_true] at ht
      exact ht.1.2
    | _ => cases ho
  inherited hb := Builder.isTame_empty (namesPlainColumn_givenOptions hb.proper.options)
  changed hk hb hchange := hchange.isTame (h _ hk) hb.proper

end Lawful

/-- **Every placeholder has a value, and every value a placeholder.** After any dialogue in which
all calls were in order, the names in the statement of any builder are exactly the keys of its map;
and all names in its statement that deletes rows are keys. -/
theorem names_eq_keys (beyond : Char → Bool) {options : Value} {s : Session}
    (hs : s.ReachedFrom options) (ho : options.namesPlainColumn = true)
    (ht : ∀ e ∈ s.history, e.isTame = true) {b : Builder} (hb : s.HasBuilder b) :
    (∀ sql, b.selectText = .ok sql →
      ∀ k, k ∈ Entries.keys b.bindings ↔ ∃ n ∈ names beyond sql, k = .str n) ∧
    ∀ sql, b.deleteText = .ok sql → ∀ n ∈ names beyond sql, .str n ∈ Entries.keys b.bindings := by
  have hfine : (coverage beyond).Fine b :=
    ((coverage_lawful ht).holds hs (Builder.isTame_empty ho)).fine hb
  exact ⟨fun sql h => b.covers_select hfine.proper hfine.children h,
    fun sql h n hn => Builder.mem_keys_of_delete hfine.children h hn⟩

/-- A statement with a cast value, and with a nested statement that has a filter. -/
def coveredDialogue : Session :=
  (Turn.takeAllWithin 1
    [⟨"root", .call .table [.atom (.str "t")] []⟩,
     ⟨"root", .call .fields
      [.call .cast [.call .literal [.atom (.str "a:b")] [], .atom (.str "text")] [],
        .call .subSelect [.callback
          ⟨[.call .filter [.atom (.str "a"), .atom (.int 5)] [], .call .select [] []],
            none, none⟩] []] []⟩]
    (.start Supply.counting .info (.options .default))).2

theorem names_eq_keys_nested :
    coveredDialogue.ReachedFrom (.options .default) ∧
      (∀ e ∈ coveredDialogue.history, e.isTame = true) ∧
      (coveredDialogue.builder 0).selectText =
        .ok "SELECT :lit00000001::text, (SELECT * WHERE \"a\" = :where00000002) FROM \"t\"" ∧
      ∀ k, k ∈ Entries.keys (coveredDialogue.builder 0).bindings ↔
        ∃ n ∈ ["lit00000001", "where00000002"], k = .str n := by
  have hs : coveredDialogue.ReachedFrom (.options .default) := ⟨_, _, _, _, rfl⟩
  have ht : ∀ e ∈ coveredDialogue.history, e.isTame = true := by decide +kernel
  have hsql : (coveredDialogue.builder 0).selectText =
      .ok "SELECT :lit00000001::text, (SELECT * WHERE \"a\" = :where00000002) FROM \"t\"" := by
    decide +kernel
  have hnames : names (fun _ => false)
      "SELECT :lit00000001::text, (SELECT * WHERE \"a\" = :where00000002) FROM \"t\"" =
        ["lit00000001", "where00000002"] := by
    decide +kernel
  refine ⟨hs, ht, hsql, ?_⟩
  rw [← hnames]
  exact (names_eq_keys (fun _ => false) hs rfl ht (.now 0)).1 _ hsql

end BoundSql

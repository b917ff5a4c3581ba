import BoundSql.Options.Validation
import BoundSql.Proofs.Entries
import Mathlib.Data.List.Forall2

/-!
# Options that are read from a map

What the rule of an option takes is fixed by the rule (for the column, by `columnRule_eq_ok_iff`).
This module is about how the answers of the rules are put together: which maps are taken (`Readable`), what is made of them (`Reads`), and
what is reported of the others (`Reports`). All three are said of the map, with no regard to the
order in which `validate` looks at it.

A report is of one of two kinds, and never mixes them: either it has an issue for each option whose
rule refuses its value and for each key that is no option, or none of these is there to be reported
and the two limits disagree. Options that were taken are acceptable, and acceptable options are
taken from their own entries again.
-/

set_option autoImplicit false

namespace BoundSql.Options

/-! ## What is said of a map -/

/-- What the rule of an option says to a value, with no regard to what it makes of it. -/
def verdict (name : String) (v : Value) : Except IssueCause Unit :=
  if name = "paranoid_column" then (columnRule v).map fun _ => ()
  else (limitRule v).map fun _ => ()

/-- The option is given a value in the map, and its rule refuses the value. -/
def Fails (data : Bindings) (name : String) : Prop :=
  ∃ v cause, Entries.get? (.str name) data = some v ∧ verdict name v = .error cause

/-- A key that is the name of an option. -/
def IsName (k : Value) : Prop := ∃ name ∈ names, k = .str name

/-- An option is what its rule makes of the value in the map, or else its default. -/
def Taken {α : Type} (name : String) (rule : Value → Except IssueCause α) (default : α)
    (data : Bindings) (x : α) : Prop :=
  (∃ v, Entries.get? (.str name) data = some v ∧ rule v = .ok x) ∨
    (Entries.get? (.str name) data = none ∧ x = default)

/-- The options are those that the map describes. -/
structure Reads (data : Bindings) (o : Options) : Prop where
  column : Taken "paranoid_column" columnRule default.paranoidColumn data o.paranoidColumn
  defaultLimit : Taken "default_limit" limitRule default.defaultLimit data o.defaultLimit
  maxLimit : Taken "max_limit" limitRule default.maxLimit data o.maxLimit

/-- A map in which nothing is wrong when it is looked at entry by entry. -/
structure Sound (data : Bindings) : Prop where
  keys : ∀ k ∈ Entries.keys data, IsName k
  values : ∀ name ∈ names, ∀ v, Entries.get? (.str name) data = some v → verdict name v = .ok ()

/-- A map that describes options: its entries are sound, and the default limit does not exceed the
greatest one where it sets both. -/
structure Readable (data : Bindings) : Prop extends Sound data where
  limits : ∀ d m, Taken "default_limit" limitRule none data (some d) →
    Taken "max_limit" limitRule none data (some m) → d ≤ m

/-- The issue of a key that is no option. -/
def strangeKey : Value → Issue
  | .str s => ⟨some s, .unknownKey⟩
  | v => ⟨some (keyText v), .keyNotText⟩

/-- What the rule of an option has against its value in the map. -/
def objection? (data : Bindings) (name : String) : Option IssueCause :=
  match Entries.get? (.str name) data with
  | none => none
  | some v => match verdict name v with
    | .ok () => none
    | .error cause => some cause

theorem objection?_eq_some_iff {data : Bindings} {name : String} {cause : IssueCause} :
    objection? data name = some cause ↔
      ∃ v, Entries.get? (.str name) data = some v ∧ verdict name v = .error cause := by
  unfold objection?
  cases Entries.get? (.str name) data with
  | none => simp
  | some v => cases hv : verdict name v <;> simp [hv]

theorem isSome_objection? {data : Bindings} {name : String} :
    (objection? data name).isSome = true ↔ Fails data name := by
  rw [Option.isSome_iff_exists]
  constructor
  · rintro ⟨cause, h⟩
    obtain ⟨v, hv, hverdict⟩ := objection?_eq_some_iff.mp h
    exact ⟨v, cause, hv, hverdict⟩
  · rintro ⟨v, cause, hv, hverdict⟩
    exact ⟨cause, objection?_eq_some_iff.mpr ⟨v, hv, hverdict⟩⟩

instance (data : Bindings) (name : String) : Decidable (Fails data name) :=
  decidable_of_iff _ isSome_objection?

theorem isNone_keyIssue? (k : Value) : (keyIssue? k).isNone = true ↔ IsName k := by
  cases k with
  | str s =>
    have hstr : IsName (.str s) ↔ s ∈ names := by simp [IsName]
    rw [hstr, keyIssue?]
    by_cases h : s ∈ names <;> simp [h]
  | _ => simp [keyIssue?, IsName]

instance (k : Value) : Decidable (IsName k) := decidable_of_iff _ (isNone_keyIssue? k)

theorem keyIssue?_eq (k : Value) : keyIssue? k = if IsName k then none else some (strangeKey k) := by
  split
  · rename_i h
    exact Option.isNone_iff_eq_none.mp ((isNone_keyIssue? k).mpr h)
  · rename_i h
    have hsome : (keyIssue? k).isNone ≠ true := fun hnone => h ((isNone_keyIssue? k).mp hnone)
    cases k with
    | str s =>
      rw [keyIssue?] at hsome ⊢
      split
      · rename_i hs
        rw [if_pos hs] at hsome
        exact absurd rfl hsome
      · rfl
    | _ => rfl

/-- What is reported of a map that describes no options. -/
inductive Reports (data : Bindings) : List Issue → Prop where
  /-- An issue for each option that fails, in the order of declaration, and then one for each key
  that is no option, in the order of the map. -/
  | each {fields keys : List Issue}
      (hfields : List.Forall₂ (fun name issue => issue.key = some name ∧
          ∃ v, Entries.get? (.str name) data = some v ∧ verdict name v = .error issue.cause)
        (names.filter (Fails data ·)) fields)
      (hkeys : List.Forall₂ (fun k issue => issue = strangeKey k)
        ((Entries.keys data).filter (¬ IsName ·)) keys) :
      Reports data (fields ++ keys)
  /-- The limits disagree, and there is nothing else to report. -/
  | disagree {d m : Nat} (hsound : Sound data)
      (hd : Taken "default_limit" limitRule none data (some d))
      (hm : Taken "max_limit" limitRule none data (some m)) (h : m < d) :
      Reports data [⟨none, .limitsDisagree d m⟩]

/-- What is found for those items for which there is something to find. -/
theorem forall₂_filter_filterMap {α β : Type} {R : α → β → Prop} {p : α → Prop} [DecidablePred p]
    {f : α → Option β} (hsome : ∀ a, p a → ∃ b, f a = some b ∧ R a b)
    (hnone : ∀ a, ¬ p a → f a = none) (items : List α) :
    List.Forall₂ R (items.filter (p ·)) (items.filterMap f) := by
  induction items with
  | nil => exact .nil
  | cons a rest ih =>
    by_cases h : p a
    · obtain ⟨b, hb, hR⟩ := hsome a h
      rw [List.filter_cons_of_pos (by simpa using h), List.filterMap_cons_some hb]
      exact .cons hR ih
    · rw [List.filter_cons_of_neg (by simpa using h), List.filterMap_cons_none (hnone a h)]
      exact ih

/-! ## One option -/

section One

variable {α : Type} {name : String} {rule : Value → Except IssueCause α} {default : α}
  {data : Bindings}

theorem option_eq_ok_iff {x : α} :
    option name rule default data = .ok x ↔ Taken name rule default data x := by
  unfold option Taken
  cases Entries.get? (.str name) data with
  | none => simp [eq_comm]
  | some v => cases hv : rule v <;> simp [Except.mapError, hv]

/-- An option has an issue exactly if its rule has something against its value. -/
theorem issueOf_option (hrule : ∀ v, verdict name v = (rule v).map fun _ => ()) :
    issueOf (option name rule default data) =
      ((objection? data name).map fun cause => ⟨some name, cause⟩).toList := by
  unfold option objection?
  cases Entries.get? (.str name) data with
  | none => rfl
  | some v =>
    simp only [hrule]
    cases rule v <;> rfl

theorem verdict_column (v : Value) :
    verdict "paranoid_column" v = (columnRule v).map fun _ => () := rfl

theorem verdict_defaultLimit (v : Value) :
    verdict "default_limit" v = (limitRule v).map fun _ => () := rfl

theorem verdict_maxLimit (v : Value) : verdict "max_limit" v = (limitRule v).map fun _ => () := rfl

end One

/-! ## All options -/

/-- The issues of single entries. -/
def issuesOfEntries (data : Bindings) : List Issue :=
  names.filterMap (fun name => (objection? data name).map fun cause => ⟨some name, cause⟩) ++
    data.filterMap fun e => keyIssue? e.1

section All

variable {data : Bindings}

theorem issuesOfEntries_eq :
    issueOf (option "paranoid_column" columnRule default.paranoidColumn data) ++
        issueOf (option "default_limit" limitRule default.defaultLimit data) ++
        issueOf (option "max_limit" limitRule default.maxLimit data) ++
        data.filterMap (fun e => keyIssue? e.1) = issuesOfEntries data := by
  rw [issueOf_option verdict_column, issueOf_option verdict_defaultLimit,
    issueOf_option verdict_maxLimit, issuesOfEntries]
  have hnames : ∀ f : String → Option Issue, names.filterMap f =
      (f "paranoid_column").toList ++ (f "default_limit").toList ++ (f "max_limit").toList := by
    intro f
    cases hc : f "paranoid_column" <;> cases hd : f "default_limit" <;> cases hm : f "max_limit" <;>
      simp [names, hc, hd, hm]
  rw [hnames]

/-- Issues of entries are reported, all of them. -/
theorem validate_of_issues (h : issuesOfEntries data ≠ []) :
    validate data = .error (issuesOfEntries data) := by
  rw [← issuesOfEntries_eq] at h ⊢
  unfold validate
  dsimp only
  split
  · rename_i hcolumn hdefault hmax hkeys
    simp [hcolumn, hdefault, hmax, hkeys, issueOf] at h
  · rfl

/-- Where no entry has an issue there are options, and it remains to look at the limits. -/
theorem validate_of_no_issue (h : issuesOfEntries data = []) :
    ∃ o, Reads data o ∧ validate data = agreeing o := by
  have hok : ∀ {α : Type} {r : Except Issue α}, issueOf r = [] → ∃ x, r = .ok x := by
    intro α r hr
    cases r with
    | ok x => exact ⟨x, rfl⟩
    | error issue => cases hr
  rw [← issuesOfEntries_eq] at h
  simp only [List.append_eq_nil_iff] at h
  obtain ⟨⟨⟨hcolumn, hdefault⟩, hmax⟩, hkeys⟩ := h
  obtain ⟨column, hcolumn⟩ := hok hcolumn
  obtain ⟨defaultLimit, hdefault⟩ := hok hdefault
  obtain ⟨maxLimit, hmax⟩ := hok hmax
  refine ⟨⟨column, defaultLimit, maxLimit⟩, ⟨?_, ?_, ?_⟩, ?_⟩
  · exact option_eq_ok_iff.mp hcolumn
  · exact option_eq_ok_iff.mp hdefault
  · exact option_eq_ok_iff.mp hmax
  · unfold validate
    simp only [hcolumn, hdefault, hmax, hkeys]

/-- No entry has an issue exactly in a sound map. -/
theorem issuesOfEntries_eq_nil_iff : issuesOfEntries data = [] ↔ Sound data := by
  have hvalue : ∀ name, objection? data name = none ↔
      ∀ v, Entries.get? (.str name) data = some v → verdict name v = .ok () := by
    intro name
    unfold objection?
    cases Entries.get? (.str name) data with
    | none => simp
    | some v => cases hv : verdict name v <;> simp [hv]
  have hkey : ∀ k, keyIssue? k = none ↔ IsName k := fun k => by
    rw [← Option.isNone_iff_eq_none]
    exact isNone_keyIssue? k
  simp only [issuesOfEntries, List.append_eq_nil_iff, List.filterMap_eq_nil_iff,
    Option.map_eq_none_iff, hvalue, hkey]
  constructor
  · rintro ⟨hvalues, hkeys⟩
    refine ⟨fun k hk => ?_, hvalues⟩
    obtain ⟨e, he, rfl⟩ := List.mem_map.mp hk
    exact hkeys e he
  · intro h
    exact ⟨h.values, fun e he => h.keys e.1 (List.mem_map_of_mem he)⟩

/-- The issues of entries, one by one. -/
theorem reports_issuesOfEntries : Reports data (issuesOfEntries data) := by
  have hkeys : data.filterMap (fun e => keyIssue? e.1) = (Entries.keys data).filterMap keyIssue? := by
    rw [Entries.keys, List.filterMap_map]
    rfl
  rw [issuesOfEntries, hkeys]
  refine .each (forall₂_filter_filterMap ?_ ?_ _) (forall₂_filter_filterMap ?_ ?_ _)
  · rintro name ⟨v, cause, hv, hverdict⟩
    have hobjection := objection?_eq_some_iff.mpr ⟨v, hv, hverdict⟩
    exact ⟨⟨some name, cause⟩, by rw [hobjection]; rfl, rfl, v, hv, hverdict⟩
  · intro name h
    have hobjection : objection? data name = none :=
      Option.not_isSome_iff_eq_none.mp fun hsome => h (isSome_objection?.mp hsome)
    rw [hobjection]
    rfl
  · intro k h
    exact ⟨strangeKey k, by rw [keyIssue?_eq, if_neg h], rfl⟩
  · intro k h
    rw [keyIssue?_eq, if_pos (not_not.mp h)]

/-- Only one value can be taken for an option. -/
theorem Taken.unique {α : Type} {name : String} {rule : Value → Except IssueCause α}
    {default x y : α} (hx : Taken name rule default data x) (hy : Taken name rule default data y) :
    x = y := by
  have hxy := (option_eq_ok_iff.mpr hx).symm.trans (option_eq_ok_iff.mpr hy)
  exact Except.ok.inj hxy

theorem Reads.unique {o p : Options} (ho : Reads data o) (hp : Reads data p) : o = p := by
  obtain ⟨column, defaultLimit, maxLimit⟩ := o
  obtain ⟨column', defaultLimit', maxLimit'⟩ := p
  obtain rfl : column = column' := ho.column.unique hp.column
  obtain rfl : defaultLimit = defaultLimit' := ho.defaultLimit.unique hp.defaultLimit
  obtain rfl : maxLimit = maxLimit' := ho.maxLimit.unique hp.maxLimit
  rfl

/-- The options that are read agree exactly if the limits in the map do. -/
theorem Reads.limitsAgree_iff {o : Options} (h : Reads data o) :
    o.limitsAgree = true ↔ ∀ d m, Taken "default_limit" limitRule none data (some d) →
      Taken "max_limit" limitRule none data (some m) → d ≤ m := by
  rw [Options.limitsAgree_iff]
  constructor
  · intro hagree d m hd hm
    exact hagree d m (h.defaultLimit.unique hd) (h.maxLimit.unique hm)
  · intro hagree d m hd hm
    exact hagree d m (hd ▸ h.defaultLimit) (hm ▸ h.maxLimit)

/-- **What is taken.** -/
theorem validate_eq_ok_iff {o : Options} :
    validate data = .ok o ↔ Readable data ∧ Reads data o := by
  by_cases hissues : issuesOfEntries data = []
  · obtain ⟨p, hreads, hvalidate⟩ := validate_of_no_issue hissues
    have hsound := issuesOfEntries_eq_nil_iff.mp hissues
    rw [hvalidate, agreeing_eq_ok_iff]
    constructor
    · rintro ⟨rfl, hagree⟩
      exact ⟨⟨hsound, hreads.limitsAgree_iff.mp hagree⟩, hreads⟩
    · rintro ⟨hreadable, ho⟩
      obtain rfl := ho.unique hreads
      exact ⟨rfl, hreads.limitsAgree_iff.mpr hreadable.limits⟩
  · rw [validate_of_issues hissues]
    constructor
    · intro h
      cases h
    · rintro ⟨hreadable, -⟩
      exact absurd (issuesOfEntries_eq_nil_iff.mpr hreadable.toSound) hissues

/-- **What is reported.** A report is never empty. -/
theorem reports_of_validate {issues : List Issue} (h : validate data = .error issues) :
    issues ≠ [] ∧ Reports data issues := by
  by_cases hissues : issuesOfEntries data = []
  · obtain ⟨p, hreads, hvalidate⟩ := validate_of_no_issue hissues
    rw [hvalidate, agreeing] at h
    split at h
    · rename_i d m hd hm
      split at h
      · cases h
      · rename_i hlt
        cases h
        refine ⟨List.cons_ne_nil _ _, .disagree (issuesOfEntries_eq_nil_iff.mp hissues) ?_ ?_ ?_⟩
        · exact hd ▸ hreads.defaultLimit
        · exact hm ▸ hreads.maxLimit
        · exact Nat.lt_of_not_le hlt
    · cases h
  · rw [validate_of_issues hissues] at h
    cases h
    exact ⟨hissues, reports_issuesOfEntries⟩

theorem validate_returns_iff : (∃ o, validate data = .ok o) ↔ Readable data := by
  constructor
  · rintro ⟨o, ho⟩
    exact (validate_eq_ok_iff.mp ho).1
  · intro hreadable
    obtain ⟨o, hreads, -⟩ := validate_of_no_issue (issuesOfEntries_eq_nil_iff.mpr hreadable.toSound)
    exact ⟨o, validate_eq_ok_iff.mpr ⟨hreadable, hreads⟩⟩

/-- Options that are taken are acceptable. -/
theorem acceptable_of_validate {o : Options} (h : validate data = .ok o) : o.Acceptable := by
  obtain ⟨hreadable, hreads⟩ := validate_eq_ok_iff.mp h
  refine ⟨?_, hreads.limitsAgree_iff.mpr hreadable.limits⟩
  rcases hreads.column with ⟨v, -, hv⟩ | ⟨-, hdefault⟩
  · exact (columnRule_eq_ok_iff.mp hv).2
  · rw [hdefault]
    exact default_acceptable.1

end All

/-! ## Options as a map -/

/-- The entries of options. -/
def entries (o : Options) : Bindings :=
  [(.str "paranoid_column", .str o.paranoidColumn),
   (.str "default_limit", Value.ofLimit o.defaultLimit),
   (.str "max_limit", Value.ofLimit o.maxLimit)]

/-- A limit in options is absent or a number that is not negative. -/
theorem ofLimit_cases (limit : Option Nat) :
    Value.ofLimit limit = .null ∨ ∃ n : Int, 0 ≤ n ∧ Value.ofLimit limit = .int n := by
  cases limit with
  | none => exact Or.inl rfl
  | some n => exact Or.inr ⟨n, Int.natCast_nonneg n, rfl⟩

theorem limitRule_ofLimit (limit : Option Nat) : limitRule (Value.ofLimit limit) = .ok limit := by
  cases limit with
  | none => rfl
  | some n => simp [Value.ofLimit, limitRule, limitOfInt]

theorem distinct_entries (o : Options) : Entries.Distinct o.entries := by
  simp [Entries.Distinct, Entries.keys, entries]

/-- Acceptable options are taken from their own entries, with no change. -/
theorem validate_entries {o : Options} (h : o.Acceptable) : validate o.entries = .ok o := by
  have hcolumn : option "paranoid_column" columnRule default.paranoidColumn o.entries =
      .ok o.paranoidColumn := by
    have hrule := columnRule_eq_ok_iff.mpr ⟨.str o.paranoidColumn, h.1⟩
    refine option_eq_ok_iff.mpr (Or.inl ⟨.str o.paranoidColumn, ?_, hrule⟩)
    simp [entries, Entries.get?]
  have hdefault : option "default_limit" limitRule default.defaultLimit o.entries =
      .ok o.defaultLimit := by
    refine option_eq_ok_iff.mpr (Or.inl ⟨_, ?_, limitRule_ofLimit o.defaultLimit⟩)
    simp [entries, Entries.get?]
  have hmax : option "max_limit" limitRule default.maxLimit o.entries = .ok o.maxLimit := by
    refine option_eq_ok_iff.mpr (Or.inl ⟨_, ?_, limitRule_ofLimit o.maxLimit⟩)
    simp [entries, Entries.get?]
  have hkeys : o.entries.filterMap (fun e => keyIssue? e.1) = [] := by
    simp [entries, keyIssue?, names]
  unfold validate
  simp only [hcolumn, hdefault, hmax, hkeys]
  exact (agreeing_eq_ok_iff o o).mpr ⟨rfl, h.2⟩

/-! ## The main result -/

/-- A map in which no key comes twice is looked at as it is. -/
theorem ofValue_dict {data : Bindings} (h : Entries.Distinct data) :
    ofValue (.dict data) = (validate data).mapError Fault.badOptions := by
  have hmerge : Entries.merge [] data = data := Entries.mergeAll_singleton h
  show (validate (Entries.merge [] data)).mapError Fault.badOptions = _
  rw [hmerge]

/-- **Reading of options is sound, complete and stable.** Options are read from a map exactly if
its keys are names of options, every value in it passes its rule and the default limit does not
exceed the greatest one where both are set. From every other map there is one fault, with a list
of issues that is not empty: one for each option that fails and one for each key that is no
option, or the disagreement of the limits if there is nothing else to say. Options that are read
are what the rules make of the values, they have a column with a name, limits that are absent or
not negative and a default limit within the greatest one; and they are read again from their own
entries. -/
theorem options_read_from_map {data : Bindings} (hdata : Entries.Distinct data) :
    ((∃ o, ofValue (.dict data) = .ok o) ↔ Readable data) ∧
    (∀ fault, ofValue (.dict data) = .error fault →
      ∃ issues, fault = .badOptions issues ∧ issues ≠ [] ∧ Reports data issues) ∧
    ∀ o, ofValue (.dict data) = .ok o →
      Reads data o ∧ o.paranoidColumn ≠ "" ∧
      (∀ limit ∈ [o.defaultLimit, o.maxLimit],
        Value.ofLimit limit = .null ∨ ∃ n : Int, 0 ≤ n ∧ Value.ofLimit limit = .int n) ∧
      (∀ d m, o.defaultLimit = some d → o.maxLimit = some m → d ≤ m) ∧
      ofValue (.dict o.entries) = .ok o := by
  have hok : ∀ o, ofValue (.dict data) = .ok o ↔ validate data = .ok o := by
    intro o
    rw [ofValue_dict hdata]
    cases validate data <;> simp [Except.mapError]
  refine ⟨?_, ?_, ?_⟩
  · rw [← validate_returns_iff]
    exact exists_congr hok
  · intro fault h
    rw [ofValue_dict hdata] at h
    cases hvalidate : validate data with
    | ok o =>
      rw [hvalidate] at h
      cases h
    | error issues =>
      rw [hvalidate] at h
      cases h
      exact ⟨issues, rfl, reports_of_validate hvalidate⟩
  · intro o h
    have hvalidate := (hok o).mp h
    have hacceptable := acceptable_of_validate hvalidate
    refine ⟨(validate_eq_ok_iff.mp hvalidate).2, hacceptable.1, fun limit _ => ofLimit_cases limit,
      (limitsAgree_iff o).mp hacceptable.2, ?_⟩
    rw [ofValue_dict (distinct_entries o), validate_entries hacceptable]
    rfl

/-- A map with no more than a column, in bytes. -/
def columnInBytes : Bindings := [(.str "paranoid_column", .bytes [103, 111, 110, 101])]

/-- A map that is taken, in another order than that of the options and with a truth value for a
number; one that gives the column; and one of which a value and a key are reported, and not that its
limits disagree. -/
theorem options_read_from_pairs :
    Readable [(.str "max_limit", .int 10), (.str "default_limit", .bool true)] ∧
    Reads columnInBytes ⟨"gone", none, none⟩ ∧
    ofValue (.dict (entries ⟨"deleted_at", some 1, some 10⟩)) = .ok ⟨"deleted_at", some 1, some 10⟩ ∧
    Reports [(.int 5, .null), (.str "max_limit", .int (-1)), (.str "default_limit", .int 3)]
      [⟨some "max_limit", .negativeLimit⟩, ⟨some "5", .keyNotText⟩] := by
  have htaken : Entries.Distinct
      [(Value.str "max_limit", Value.int 10), (.str "default_limit", .bool true)] := by decide
  have hreported : Entries.Distinct
      [(Value.int 5, Value.null), (.str "max_limit", .int (-1)), (.str "default_limit", .int 3)] := by
    decide
  have hnamed : Entries.Distinct columnInBytes := by decide
  have hgone : ofValue (.dict columnInBytes) = .ok ⟨"gone", none, none⟩ := by decide +kernel
  obtain ⟨hreadable, -, hstable⟩ := options_read_from_map htaken
  obtain ⟨-, hreports, -⟩ := options_read_from_map hreported
  refine ⟨hreadable.mp ⟨⟨"deleted_at", some 1, some 10⟩, rfl⟩,
    ((options_read_from_map hnamed).2.2 _ hgone).1,
    (hstable ⟨"deleted_at", some 1, some 10⟩ rfl).2.2.2.2, ?_⟩
  obtain ⟨issues, hissues, -, hreports⟩ := hreports
    (.badOptions [⟨some "max_limit", .negativeLimit⟩, ⟨some "5", .keyNotText⟩]) rfl
  cases hissues
  exact hreports

end BoundSql.Options

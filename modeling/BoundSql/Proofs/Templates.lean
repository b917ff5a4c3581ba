import BoundSql.Proofs.Renaming

/-!
# Templates

That two texts are the same but for names leaves open which names in them were generated: a name
that was copied from somewhere else is the same in both, just like a text that somebody wrote. Three
texts tell the two apart. If the first two have no name in common at the same place, then what they
have in common was written, and where they differ stands a name; so they determine a template with
gaps for names (`Template`), and any third text that is the same but for names as each of the two is
that template, filled with names of its own (`Renaming.exists_template`).

The names of a run are counted in the order in which they are generated, and the renaming of one run
into another one pairs names of the same count (`Renaming.between`).
-/

set_option autoImplicit false

namespace BoundSql

open Text

/-! ## Templates -/

/-- A piece of a text: a character, or the gap for the name with a count. -/
inductive Piece where
  | char (c : Char)
  | name (k : Nat)
  deriving DecidableEq, Repr

/-- A text with gaps for names. -/
abbrev Template : Type := List Piece

/-- The characters in place of a piece; a gap is filled with a reference to the name. -/
def Piece.fill (names : List Placeholder) : Piece → List Char
  | .char c => [c]
  | .name k => (names[k]?.map fun p => (token p.name).toList).getD []

/-- The text that a template becomes when its gaps are filled. -/
def Template.fill (names : List Placeholder) (t : Template) : String :=
  String.ofList (t.flatMap (Piece.fill names))

example : Template.fill [⟨.literal, [1, 2]⟩, ⟨.filter, [10]⟩]
    [.char 'a', .char '=', .name 1, .char '+', .name 0] = "a=:wherea+:lit12" := by decide

/-! ## References at the front of a text -/

/-- Where a reference ends shows from its length, so what comes after it is told apart from it. -/
theorem Placeholder.token_append_inj {p q : Placeholder}
    (hp : p.digits.length = Placeholder.width) (hq : q.digits.length = Placeholder.width)
    {xs ys : List Char} (h : (token p.name).toList ++ xs = (token q.name).toList ++ ys) :
    p = q ∧ xs = ys := by
  obtain ⟨tag, digits⟩ := p
  obtain ⟨tag', digits'⟩ := q
  rw [toList_token, toList_token] at h
  simp only [Placeholder.name, String.toList_append, String.toList_ofList, List.cons_append,
    List.append_assoc, List.cons.injEq, true_and] at h
  have htag : tag = tag' := by
    cases tag <;> cases tag' <;> first | rfl | (exfalso; simp [Tag.text] at h)
  subst htag
  obtain ⟨hdigits, hrest⟩ := List.append_inj (List.append_cancel_left h) (by simp [hp, hq])
  rw [List.map_injective_iff.mpr (fun _ _ => hexDigit_injective) hdigits]
  exact ⟨rfl, hrest⟩

theorem Placeholder.colon_notMem_name (p : Placeholder) : ':' ∉ p.name.toList := by
  intro h
  rw [Placeholder.name, String.toList_append, String.toList_ofList, List.mem_append] at h
  rcases h with h | h
  · cases htag : p.tag <;> simp [htag, Tag.text] at h
  · obtain ⟨d, -, hd⟩ := List.mem_map.mp h
    exact absurd hd ((by decide : ∀ d : Fin 16, hexDigit d ≠ ':') d)

namespace Renaming

variable {ρ : Renaming}

/-- The renaming back. -/
def inverse (ρ : Renaming) : Renaming := ⟨fun p p' => ρ.Pairs p' p, fun h h' => (ρ.apart h h').symm⟩

namespace Chars

variable {s t w : List Char}

theorem inverse (h : ρ.Chars s t) : ρ.inverse.Chars t s := by
  induction h with
  | nil => exact .nil
  | char c _ ih => exact .char c ih
  | name hp _ ih => exact .name (ρ := ρ.inverse) hp ih

/-- No reference begins without a colon. -/
theorem of_colonFree (hw : ':' ∉ w) (h : ρ.Chars (w ++ s) t) : ∃ u, t = w ++ u ∧ ρ.Chars s u := by
  induction w generalizing t with
  | nil => exact ⟨t, rfl, h⟩
  | cons c w ih =>
    obtain ⟨hc, hw⟩ := not_or.mp (List.mem_cons.not.mp hw)
    generalize hcs : c :: w ++ s = cs at h
    cases h with
    | nil => cases hcs
    | char d h =>
      obtain ⟨rfl, rfl⟩ := List.cons.inj hcs
      obtain ⟨u, rfl, hu⟩ := ih hw h
      exact ⟨u, rfl, hu⟩
    | name _ _ =>
      rw [toList_token] at hcs
      exact absurd (List.cons.inj hcs).1.symm hc

/-- A reference is renamed, or it stays as it is. -/
theorem of_token (hρ : ∀ {q q' : Placeholder}, ρ.Pairs q q' → q.digits.length = Placeholder.width)
    {p : Placeholder} (hp : p.digits.length = Placeholder.width)
    (h : ρ.Chars ((token p.name).toList ++ s) t) :
    (∃ p' u, ρ.Pairs p p' ∧ t = (token p'.name).toList ++ u ∧ ρ.Chars s u) ∨
      ∃ u, t = (token p.name).toList ++ u ∧ ρ.Chars s u := by
  generalize hcs : (token p.name).toList ++ s = cs at h
  cases h with
  | nil => simp [toList_token, -String.toList_eq_nil_iff] at hcs
  | char c h =>
    rw [toList_token] at hcs
    obtain ⟨rfl, rfl⟩ := List.cons.inj hcs
    obtain ⟨u, rfl, hu⟩ := of_colonFree p.colon_notMem_name h
    exact .inr ⟨u, by rw [toList_token]; rfl, hu⟩
  | name hq h =>
    obtain ⟨rfl, rfl⟩ := Placeholder.token_append_inj hp (hρ hq) hcs
    exact .inl ⟨_, _, hq, rfl, h⟩

end Chars

/-! ## Names that are counted -/

/-- Where no two names are the same, the name tells the count. -/
theorem count_eq {ps : List Placeholder} (h : (ps.map Placeholder.name).Nodup) {k l : Nat}
    {p q : Placeholder} (hp : ps[k]? = some p) (hq : ps[l]? = some q) (hname : p.name = q.name) :
    k = l := by
  have found : ∀ {k : Nat} {p : Placeholder}, ps[k]? = some p →
      (ps.map Placeholder.name)[k]? = some p.name := by
    intro k p hk
    rw [List.getElem?_map, hk, Option.map_some]
  obtain ⟨hk, -⟩ := List.getElem?_eq_some_iff.mp (found hp)
  exact (List.getElem?_inj hk h).mp (by rw [found hp, found hq, hname])

/-- The renaming that pairs the `k`-th name with the `k`-th. -/
def between {ps qs : List Placeholder} (hps : (ps.map Placeholder.name).Nodup)
    (hqs : (qs.map Placeholder.name).Nodup) : Renaming where
  Pairs p q := ∃ k : Nat, ps[k]? = some p ∧ qs[k]? = some q
  apart := by
    rintro p p' q q' ⟨k, hp, hp'⟩ ⟨l, hq, hq'⟩
    constructor
    · intro hname
      obtain rfl := count_eq hps hp hq hname
      exact congrArg Placeholder.name (Option.some.inj (hp'.symm.trans hq'))
    · intro hname
      obtain rfl := count_eq hqs hp' hq' hname
      exact congrArg Placeholder.name (Option.some.inj (hp.symm.trans hq))

/-! ## Three texts -/

/-- Names that were generated in a run: no two are the same, and all are as long. -/
structure Names (ps : List Placeholder) : Prop where
  nodup : (ps.map Placeholder.name).Nodup
  width : ∀ p ∈ ps, p.digits.length = Placeholder.width

theorem Names.width_of_getElem? {ps : List Placeholder} (h : Names ps) {k : Nat} {p : Placeholder}
    (hp : ps[k]? = some p) : p.digits.length = Placeholder.width :=
  h.width p (List.mem_of_getElem? hp)

theorem Names.width_of_pairs {ps qs : List Placeholder} (h : Names ps)
    {hqs : (qs.map Placeholder.name).Nodup} {p q : Placeholder}
    (hpq : (between h.nodup hqs).Pairs p q) : p.digits.length = Placeholder.width :=
  let ⟨_, hp, _⟩ := hpq
  h.width_of_getElem? hp

section Three

variable {ps qs rs : List Placeholder} (hps : Names ps) (hqs : Names qs) (hrs : Names rs)
  (hapart : ∀ {k : Nat} {p q : Placeholder}, ps[k]? = some p → qs[k]? = some q → p ≠ q)
  {s t c : List Char}

/-- Where the first two texts have a name each, the third one has its own. -/
theorem exists_of_name {k : Nat} {p q : Placeholder} (hp : ps[k]? = some p) (hq : qs[k]? = some q)
    (hpq : p ≠ q) (hs : (between hps.nodup hrs.nodup).Chars ((token p.name).toList ++ s) c)
    (ht : (between hqs.nodup hrs.nodup).Chars ((token q.name).toList ++ t) c) :
    ∃ r u, rs[k]? = some r ∧ c = (token r.name).toList ++ u ∧
      (between hps.nodup hrs.nodup).Chars s u ∧ (between hqs.nodup hrs.nodup).Chars t u := by
  have hpw := hps.width_of_getElem? hp
  have hqw := hqs.width_of_getElem? hq
  rcases hs.of_token hps.width_of_pairs hpw with
    ⟨r, u, ⟨l, hl, hr⟩, rfl, hu⟩ | ⟨u, rfl, hu⟩
  · obtain rfl := count_eq hps.nodup hl hp rfl
    have hrw := hrs.width_of_getElem? hr
    refine ⟨r, u, hr, rfl, hu, ?_⟩
    rcases ht.of_token hqs.width_of_pairs hqw with
      ⟨r', v, ⟨m, -, hr'⟩, heq, hv⟩ | ⟨v, heq, hv⟩
    · obtain ⟨-, rfl⟩ := Placeholder.token_append_inj hrw (hrs.width_of_getElem? hr') heq
      exact hv
    · obtain ⟨-, rfl⟩ := Placeholder.token_append_inj hrw hqw heq
      exact hv
  · rcases ht.of_token hqs.width_of_pairs hqw with
      ⟨r, v, ⟨m, hm, hr⟩, heq, hv⟩ | ⟨v, heq, hv⟩
    · obtain rfl := count_eq hqs.nodup hm hq rfl
      obtain ⟨rfl, rfl⟩ := Placeholder.token_append_inj hpw (hrs.width_of_getElem? hr) heq
      exact ⟨p, u, hr, rfl, hu, hv⟩
    · exact absurd (Placeholder.token_append_inj hpw hqw heq).1 hpq

include hapart

/-- Where the first two texts have the same character, the third one has it too. -/
theorem exists_of_char (d : Char) (hst : (between hps.nodup hqs.nodup).Chars s t)
    (hs : (between hps.nodup hrs.nodup).Chars (d :: s) c)
    (ht : (between hqs.nodup hrs.nodup).Chars (d :: t) c) :
    ∃ u, c = d :: u ∧
      (between hps.nodup hrs.nodup).Chars s u ∧ (between hqs.nodup hrs.nodup).Chars t u := by
  generalize hds : d :: s = ds at hs
  cases hs with
  | nil => cases hds
  | @char d s u hu =>
    obtain ⟨rfl, rfl⟩ := List.cons.inj hds
    refine ⟨u, rfl, hu, ?_⟩
    generalize hdt : d :: t = dt, hdu : d :: u = du at ht
    cases ht with
    | nil => cases hdt
    | char d ht =>
      obtain ⟨-, rfl⟩ := List.cons.inj hdt
      obtain ⟨-, rfl⟩ := List.cons.inj hdu
      exact ht
    | @name q r t' u' hqr ht =>
      -- The second text has been written as if it had a name here, and so has the first one.
      rw [toList_token] at hdt hdu
      obtain ⟨rfl, rfl⟩ := List.cons.inj hdt
      obtain ⟨-, rfl⟩ := List.cons.inj hdu
      obtain ⟨s', rfl, -⟩ := hst.inverse.of_colonFree q.colon_notMem_name
      obtain ⟨v, heq, -⟩ := hu.of_colonFree q.colon_notMem_name
      obtain ⟨m, hq, hr⟩ := hqr
      have htoken : (token r.name).toList ++ u' = (token q.name).toList ++ v := by
        rw [toList_token, toList_token]
        exact congrArg (':' :: ·) heq
      obtain ⟨rfl, rfl⟩ := Placeholder.token_append_inj (hrs.width_of_getElem? hr)
        (hqs.width_of_getElem? hq) htoken
      exact (Chars.refl _).append ht
  | @name p r s' u' hpr hu =>
    rw [toList_token] at hds
    obtain ⟨rfl, rfl⟩ := List.cons.inj hds
    obtain ⟨t', rfl, -⟩ := hst.of_colonFree p.colon_notMem_name
    rw [← List.cons_append, ← toList_token] at ht
    obtain ⟨k, hp, hr⟩ := hpr
    have hrw := hrs.width_of_getElem? hr
    rcases ht.of_token hqs.width_of_pairs (hps.width_of_getElem? hp) with
      ⟨r', v, ⟨m, hm, hr'⟩, heq, hv⟩ | ⟨v, heq, hv⟩
    · obtain ⟨rfl, rfl⟩ := Placeholder.token_append_inj hrw (hrs.width_of_getElem? hr') heq
      obtain rfl := count_eq hrs.nodup hr hr' rfl
      exact absurd rfl (hapart hp hm)
    · obtain ⟨rfl, rfl⟩ := Placeholder.token_append_inj hrw (hps.width_of_getElem? hp) heq
      refine ⟨r.name.toList ++ u', ?_, (Chars.refl _).append hu, (Chars.refl _).append hv⟩
      rw [toList_token]
      rfl

/-- **Two texts that have no name in common at the same place determine a template**: a third text
that is the same but for names as each of them is the template, filled with its names. -/
theorem exists_template (h : (between hps.nodup hqs.nodup).Chars s t) :
    ∃ τ : Template, s = τ.flatMap (Piece.fill ps) ∧ t = τ.flatMap (Piece.fill qs) ∧
      ∀ {rs : List Placeholder} (hrs : Names rs) {c : List Char},
        (between hps.nodup hrs.nodup).Chars s c → (between hqs.nodup hrs.nodup).Chars t c →
        c = τ.flatMap (Piece.fill rs) := by
  induction h with
  | nil =>
    exact ⟨[], rfl, rfl, fun hrs c hs _ => hs.eq_nil_iff.mp rfl⟩
  | char d hst ih =>
    obtain ⟨τ, hs, ht, hτ⟩ := ih
    refine ⟨.char d :: τ, congrArg (d :: ·) hs, congrArg (d :: ·) ht, fun hrs c hsc htc => ?_⟩
    obtain ⟨u, rfl, hsu, htu⟩ := exists_of_char hps hqs hrs hapart d hst hsc htc
    exact congrArg (d :: ·) (hτ hrs hsu htu)
  | @name p q s t hpq hst ih =>
    obtain ⟨τ, hs, ht, hτ⟩ := ih
    obtain ⟨k, hp, hq⟩ := hpq
    refine ⟨.name k :: τ, ?_, ?_, fun hrs c hsc htc => ?_⟩
    · simp [Piece.fill, hp, ← hs]
    · simp [Piece.fill, hq, ← ht]
    · obtain ⟨r, u, hr, rfl, hsu, htu⟩ := exists_of_name hps hqs hrs hp hq (hapart hp hq) hsc htc
      simp [Piece.fill, hr, ← hτ hrs hsu htu]

/-- The same for a text that may be absent. -/
theorem exists_template? {x y : Option String}
    (h : Option.Rel (between hps.nodup hqs.nodup).Texts x y) :
    ∃ τ : Option Template, x = τ.map (Template.fill ps) ∧ y = τ.map (Template.fill qs) ∧
      ∀ {rs : List Placeholder} (hrs : Names rs) {z : Option String},
        Option.Rel (between hps.nodup hrs.nodup).Texts x z →
        Option.Rel (between hqs.nodup hrs.nodup).Texts y z → z = τ.map (Template.fill rs) := by
  have filled : ∀ {s : String} {names : List Placeholder} {τ : Template},
      s.toList = τ.flatMap (Piece.fill names) → s = τ.fill names := by
    intro s names τ h
    rw [Template.fill, ← h, String.ofList_toList]
  cases h with
  | none =>
    refine ⟨none, rfl, rfl, fun hrs z hz _ => ?_⟩
    cases hz
    rfl
  | some h =>
    obtain ⟨τ, hs, ht, hτ⟩ := exists_template hps hqs hapart h
    refine ⟨some τ, congrArg some (filled hs), congrArg some (filled ht), fun hrs z hz hz' => ?_⟩
    cases hz with
    | some hsc =>
      cases hz' with
      | some htc => exact congrArg some (filled (hτ hrs hsc htc))

/-- The same for many texts. -/
theorem exists_templates {xs ys : List (Option String)}
    (h : List.Forall₂ (Option.Rel (between hps.nodup hqs.nodup).Texts) xs ys) :
    ∃ τs : List (Option Template), xs = τs.map (Option.map (Template.fill ps)) ∧
      ys = τs.map (Option.map (Template.fill qs)) ∧
      ∀ {rs : List Placeholder} (hrs : Names rs) {zs : List (Option String)},
        List.Forall₂ (Option.Rel (between hps.nodup hrs.nodup).Texts) xs zs →
        List.Forall₂ (Option.Rel (between hqs.nodup hrs.nodup).Texts) ys zs →
        zs = τs.map (Option.map (Template.fill rs)) := by
  induction h with
  | nil =>
    refine ⟨[], rfl, rfl, fun hrs zs hzs _ => ?_⟩
    cases hzs
    rfl
  | cons hxy _ ih =>
    obtain ⟨τ, hx, hy, hτ⟩ := exists_template? hps hqs hapart hxy
    obtain ⟨τs, hxs, hys, hτs⟩ := ih
    refine ⟨τ :: τs, congrArg₂ List.cons hx hxs, congrArg₂ List.cons hy hys,
      fun hrs zs hzs hzs' => ?_⟩
    cases hzs with
    | cons hz hzs =>
      cases hzs' with
      | cons hz' hzs' => exact congrArg₂ List.cons (hτ hrs hz hz') (hτs hrs hzs hzs')

end Three

end Renaming

end BoundSql

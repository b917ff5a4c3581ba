import BoundSql.Fragment.Text
import BoundSql.Text.Blank
import Mathlib.Data.List.DropRight
import Mathlib.Data.List.Forall2

/-!
# Renamed texts

A `Renaming` pairs generated names, each with the one that takes its place, in such a way that
different names stay different. A text is renamed (`Renaming.Texts`) if references to names in it
are, where they stand, and every other character is kept. Which stretches of a text are references
is not read off the text: a text that somebody wrote may look like one and is kept all the same. So
this is a relation between two texts, and not a function.

What keeps the relation is what statements are put together by: joining texts, leaving out empty
ones, trimming, and quoting. The last two look at single characters, but at none that can stand in a
name.
-/

set_option autoImplicit false

namespace BoundSql

/-- Generated names and the names that take their places. -/
structure Renaming where
  Pairs : Placeholder → Placeholder → Prop
  /-- What is told apart before is told apart after, and the other way round. -/
  apart : ∀ {p p' q q' : Placeholder}, Pairs p p' → Pairs q q' →
    (p.name = q.name ↔ p'.name = q'.name)

/-! ## The characters of a reference -/

namespace Text

/-- Characters that neither trimming nor quoting does anything about. -/
def isSteady (c : Char) : Bool :=
  !isBlank c && isPrintable c && c != singleQuote && c != doubleQuote && c != '\\'

theorem isSteady_token (p : Placeholder) {c : Char} (hc : c ∈ (token p.name).toList) :
    isSteady c = true := by
  have htag : ∀ t : Tag, (':' :: t.text.toList).all isSteady = true := by
    intro t
    cases t <;> decide
  have hdigit : ∀ d : Fin 16, isSteady (hexDigit d) = true := by decide
  have htoken : (token p.name).toList = (':' :: p.tag.text.toList) ++ p.digits.map hexDigit := by
    simp [token, Placeholder.name]
  rw [htoken] at hc
  rcases List.mem_append.mp hc with hc | hc
  · exact List.all_eq_true.mp (htag p.tag) c hc
  · obtain ⟨d, -, rfl⟩ := List.mem_map.mp hc
    exact hdigit d

theorem toList_token (p : Placeholder) : (token p.name).toList = ':' :: p.name.toList := by
  simp [token]

theorem isSteady_iff {c : Char} :
    isSteady c = true ↔ isBlank c = false ∧ isPrintable c = true ∧ c ≠ singleQuote ∧
      c ≠ doubleQuote ∧ c ≠ '\\' := by
  simp [isSteady, and_assoc]

/-- Quoting keeps such a character. -/
theorem escapeChar_of_isSteady {c quote : Char} (h : isSteady c = true) (hquote : c ≠ quote) :
    escapeChar quote c = [c] := by
  obtain ⟨-, hprint, -, -, hback⟩ := isSteady_iff.mp h
  have hcontrol : c ≠ '\n' ∧ c ≠ '\r' ∧ c ≠ '\t' := by
    refine ⟨?_, ?_, ?_⟩ <;> rintro rfl <;> exact absurd h (by decide)
  simp [escapeChar, shortEscape?, hquote, hback, hcontrol, hprint]

end Text

/-! ## Texts -/

/-- The second list of characters is the first one with the references to names renamed. -/
inductive Renaming.Chars (ρ : Renaming) : List Char → List Char → Prop where
  | nil : Chars ρ [] []
  | char (c : Char) {s t : List Char} (h : Chars ρ s t) : Chars ρ (c :: s) (c :: t)
  | name {p p' : Placeholder} {s t : List Char} (hp : ρ.Pairs p p') (h : Chars ρ s t) :
      Chars ρ ((token p.name).toList ++ s) ((token p'.name).toList ++ t)

/-- The second text is the first one with the references to names renamed. -/
def Renaming.Texts (ρ : Renaming) (s t : String) : Prop := ρ.Chars s.toList t.toList

namespace Renaming

open Text

variable {ρ : Renaming}

namespace Chars

variable {s t s' t' : List Char}

theorem refl (s : List Char) : ρ.Chars s s := by
  induction s with
  | nil => exact .nil
  | cons c s ih => exact .char c ih

theorem append (h : ρ.Chars s t) (h' : ρ.Chars s' t') : ρ.Chars (s ++ s') (t ++ t') := by
  induction h with
  | nil => exact h'
  | char c _ ih => exact .char c ih
  | name hp _ ih =>
    rw [List.append_assoc, List.append_assoc]
    exact .name hp ih

theorem eq_nil_iff (h : ρ.Chars s t) : s = [] ↔ t = [] := by
  cases h with
  | nil => exact Iff.rfl
  | char c _ => simp
  | name _ _ => simp [toList_token, -String.toList_eq_nil_iff]

/-- Characters that cannot stand in a name are in both texts or in none. -/
theorem mem_iff (h : ρ.Chars s t) {c : Char} (hc : isSteady c = false) : c ∈ s ↔ c ∈ t := by
  have hname : ∀ p : Placeholder, c ∉ (token p.name).toList := by
    intro p hmem
    rw [isSteady_token p hmem] at hc
    cases hc
  induction h with
  | nil => exact Iff.rfl
  | char d _ ih => simp [ih]
  | name _ _ ih => simp [hname, ih]

theorem flatMap_escapeChar (h : ρ.Chars s t) {quote : Char}
    (hquote : quote = singleQuote ∨ quote = doubleQuote) :
    ρ.Chars (s.flatMap (escapeChar quote)) (t.flatMap (escapeChar quote)) := by
  have hname : ∀ p : Placeholder,
      (token p.name).toList.flatMap (escapeChar quote) = (token p.name).toList := by
    intro p
    have heach : ∀ c ∈ (token p.name).toList, escapeChar quote c = [c] := by
      intro c hc
      have hsteady := isSteady_token p hc
      obtain ⟨-, -, hsingle, hdouble, -⟩ := isSteady_iff.mp hsteady
      apply escapeChar_of_isSteady hsteady
      rcases hquote with rfl | rfl <;> assumption
    rw [List.flatMap_congr heach, List.flatMap_singleton']
  induction h with
  | nil => exact .nil
  | char c _ ih =>
    rw [List.flatMap_cons, List.flatMap_cons]
    exact (refl _).append ih
  | name hp _ ih =>
    rw [List.flatMap_append, List.flatMap_append, hname, hname]
    exact .name hp ih

theorem dropWhile_isBlank (h : ρ.Chars s t) :
    ρ.Chars (s.dropWhile isBlank) (t.dropWhile isBlank) := by
  induction h with
  | nil => exact .nil
  | char c h ih =>
    cases hc : isBlank c with
    | true => simpa [hc] using ih
    | false => simpa [hc] using Chars.char c h
  | @name p p' s t hp h _ =>
    have keep : ∀ (p : Placeholder) (s : List Char),
        ((token p.name).toList ++ s).dropWhile isBlank = (token p.name).toList ++ s := by
      intro p s
      rw [toList_token, List.cons_append]
      exact List.dropWhile_cons_of_neg (by decide)
    rw [keep, keep]
    exact .name hp h

theorem rdropWhile_isBlank (h : ρ.Chars s t) :
    ρ.Chars (s.rdropWhile isBlank) (t.rdropWhile isBlank) := by
  -- What comes before is trimmed only if nothing is left of what comes after it.
  have rdropWhile_append : ∀ xs ys : List Char, (xs ++ ys).rdropWhile isBlank =
      if ys.rdropWhile isBlank = [] then xs.rdropWhile isBlank
      else xs ++ ys.rdropWhile isBlank := by
    intro xs ys
    unfold List.rdropWhile
    rw [List.reverse_append, List.dropWhile_append]
    by_cases hys : ys.reverse.dropWhile isBlank = []
    · simp only [hys, List.isEmpty_nil, List.reverse_nil, if_true]
    · have hempty : (ys.reverse.dropWhile isBlank).isEmpty = false := by simpa using hys
      simp only [hempty, List.reverse_eq_nil_iff, hys, Bool.false_eq_true, if_false,
        List.reverse_append, List.reverse_reverse]
  have keep : ∀ p : Placeholder,
      (token p.name).toList.rdropWhile isBlank = (token p.name).toList := by
    intro p
    rw [List.rdropWhile_eq_self_iff]
    intro hne
    simp [(isSteady_iff.mp (isSteady_token p (List.getLast_mem hne))).1]
  induction h with
  | nil => exact .nil
  | @char c s t h ih =>
    have hsame := ih.eq_nil_iff
    rw [← List.singleton_append, ← List.singleton_append (l := t), rdropWhile_append,
      rdropWhile_append]
    by_cases hs : s.rdropWhile isBlank = []
    · rw [if_pos hs, if_pos (hsame.mp hs)]
      exact refl _
    · rw [if_neg hs, if_neg (mt hsame.mpr hs)]
      exact .char c ih
  | @name p p' s t hp h ih =>
    have hsame := ih.eq_nil_iff
    rw [rdropWhile_append, rdropWhile_append, keep, keep]
    by_cases hs : s.rdropWhile isBlank = []
    · rw [if_pos hs, if_pos (hsame.mp hs)]
      simpa using Chars.name hp (refl [])
    · rw [if_neg hs, if_neg (mt hsame.mpr hs)]
      exact .name hp ih

end Chars

namespace Texts

variable {s t s' t' : String} {ss ts : List String}

theorem refl (s : String) : ρ.Texts s s := Chars.refl _

/-- A reference to a name. -/
theorem token {p p' : Placeholder} (hp : ρ.Pairs p p') :
    ρ.Texts (token p.name) (BoundSql.token p'.name) := by
  simpa [Texts] using Chars.name hp .nil

theorem append (h : ρ.Texts s t) (h' : ρ.Texts s' t') : ρ.Texts (s ++ s') (t ++ t') := by
  simpa [Texts] using Chars.append h h'

theorem isEmpty_eq (h : ρ.Texts s t) : s.isEmpty = t.isEmpty := by
  have hnil := Chars.eq_nil_iff h
  rw [Bool.eq_iff_iff, String.isEmpty_iff, String.isEmpty_iff]
  simpa using hnil

theorem intercalate {separator separator' : String} (hseparator : ρ.Texts separator separator')
    (h : List.Forall₂ ρ.Texts ss ts) :
    ρ.Texts (separator.intercalate ss) (separator'.intercalate ts) := by
  induction h with
  | nil => exact refl _
  | cons hs hrest ih =>
    cases hrest with
    | nil => simpa using hs
    | cons hs' hrest =>
      rw [String.intercalate_cons_cons, String.intercalate_cons_cons]
      exact (hs.append hseparator).append ih

/-- Texts joined by a separator that is the same in both. -/
theorem separated (separator : String) (h : List.Forall₂ ρ.Texts ss ts) :
    ρ.Texts (separator.intercalate ss) (separator.intercalate ts) :=
  (refl separator).intercalate h

theorem joinWords (h : List.Forall₂ ρ.Texts ss ts) :
    ρ.Texts (joinWords ss) (BoundSql.joinWords ts) := by
  refine separated " " ?_
  induction h with
  | nil => exact .nil
  | @cons s t ss ts hs _ ih =>
    have hempty := hs.isEmpty_eq
    cases hs' : s.isEmpty with
    | true => simpa [hs', ← hempty] using ih
    | false => simpa [hs', ← hempty] using List.Forall₂.cons hs ih

theorem trim (h : ρ.Texts s t) : ρ.Texts (trim s) (Text.trim t) := by
  have htrim := (Chars.dropWhile_isBlank h).rdropWhile_isBlank
  simpa [Texts, trimList, List.rdropWhile] using htrim

theorem quoteFor_eq (h : ρ.Texts s t) : quoteFor s.toList = quoteFor t.toList := by
  have hsingle : singleQuote ∈ s.toList ↔ singleQuote ∈ t.toList := Chars.mem_iff h (by decide)
  have hdouble : doubleQuote ∈ s.toList ↔ doubleQuote ∈ t.toList := Chars.mem_iff h (by decide)
  simp [quoteFor, hsingle, hdouble]

theorem quoted (h : ρ.Texts s t) : ρ.Texts (quoted s) (Text.quoted t) := by
  have hquote : quoteFor s.toList = singleQuote ∨ quoteFor s.toList = doubleQuote := by
    unfold quoteFor
    split
    · exact .inr rfl
    · exact .inl rfl
  unfold Texts
  rw [toList_quoted, toList_quoted, ← h.quoteFor_eq]
  exact .char _ ((Chars.flatMap_escapeChar h hquote).append (Chars.refl _))

end Texts

end Renaming

end BoundSql

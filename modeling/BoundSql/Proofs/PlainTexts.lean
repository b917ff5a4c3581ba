import BoundSql.Proofs.Action
import BoundSql.Proofs.Names

/-!
# Texts without a colon

A text without a colon holds no name, and cannot make one. Numbers and truth values are written
without a colon, quoting a name adds none, and what is left is what a caller writes.
`Value.isPlain` are the values that are certain to be written without one, and `Value.isItem`
admits fragments besides, which have names of their own.
-/

set_option autoImplicit false

namespace BoundSql

open Text

/-- Whether a value is a number, null, or a text without a colon. -/
def Value.isPlain : Value → Bool
  | .null | .bool _ | .int _ | .float _ | .nan _ => true
  | .str s => isColonFree s
  | _ => false

/-- Whether a value is plain or a fragment. -/
def Value.isItem : Value → Bool
  | .fragment .. => true
  | v => v.isPlain

@[simp] theorem Value.isPlain_null : Value.null.isPlain = true := rfl

@[simp] theorem Value.isPlain_str (s : String) : (Value.str s).isPlain = isColonFree s := rfl

@[simp] theorem Value.isItem_str (s : String) : (Value.str s).isItem = isColonFree s := rfl

@[simp] theorem Value.isItem_fragment (f : Fragment) (origin : Origin) :
    (Value.fragment f origin).isItem = true := rfl

theorem Value.isPlain_or_fragment {v : Value} (h : v.isItem = true) :
    v.isPlain = true ∨ ∃ f origin, v = .fragment f origin := by
  cases v with
  | fragment f origin => exact Or.inr ⟨f, origin, rfl⟩
  | _ => exact Or.inl h

namespace Text

theorem isColonFree_iff {s : String} : isColonFree s = true ↔ ':' ∉ s.toList := by
  simp [isColonFree]

@[simp] theorem isColonFree_append (s t : String) :
    isColonFree (s ++ t) = (isColonFree s && isColonFree t) := by
  rw [Bool.eq_iff_iff]
  simp [isColonFree_iff]

/-- What is joined by a single element has that element and those of the items. -/
theorem mem_intercalate_singleton {α : Type} {c x : α} {ls : List (List α)} :
    (c ∈ [x].intercalate ls → c = x ∨ ∃ l ∈ ls, c ∈ l) ∧
      ∀ l ∈ ls, c ∈ l → c ∈ [x].intercalate ls := by
  induction ls with
  | nil => simp
  | cons l ls ih =>
    cases ls with
    | nil => exact ⟨fun h => Or.inr ⟨l, by simpa using h⟩, by simp⟩
    | cons l' ls =>
      rw [List.intercalate_cons_cons]
      simp only [List.mem_append, List.mem_singleton]
      refine ⟨?_, fun k hk hc => ?_⟩
      · rintro ((h | h) | h)
        · exact Or.inr ⟨l, List.mem_cons_self, h⟩
        · exact Or.inl h
        · exact (ih.1 h).imp id fun ⟨k, hk, hc⟩ => ⟨k, List.mem_cons_of_mem _ hk, hc⟩
      · rcases List.mem_cons.mp hk with rfl | hk
        · exact Or.inl (Or.inl hc)
        · exact Or.inr (ih.2 k hk hc)

/-- A segment is a part of the name. -/
theorem mem_of_mem_segments {name : String} {segment : List Char} {c : Char}
    (hs : segment ∈ Identifier.segments name) (hc : c ∈ segment) : c ∈ name.toList := by
  rw [← Identifier.intercalate_segments]
  exact mem_intercalate_singleton.2 segment hs hc

theorem isColonFree_quote {name : String} (h : isColonFree name = true) :
    isColonFree (Identifier.quote name) = true := by
  rw [isColonFree_iff] at h ⊢
  intro hq
  rw [Identifier.quote, String.toList_ofList] at hq
  rcases mem_intercalate_singleton.1 hq with h' | ⟨l, hl, hc⟩
  · cases h'
  · obtain ⟨segment, hs, rfl⟩ := List.mem_map.mp hl
    -- Quoting a segment adds quotes only.
    have hmem : ':' ∈ segment := by
      unfold Identifier.quoteSegment at hc
      split at hc
      · exact hc
      · simpa using hc
    exact h (mem_of_mem_segments hs hmem)

theorem colon_notMem_digits (n : Nat) : ':' ∉ Nat.toDigits 10 n := fun h =>
  absurd (Nat.isDigit_of_mem_toDigits (by decide) (by decide) h) (by decide)

theorem isColonFree_natRepr (n : Nat) : isColonFree (Nat.repr n) = true := by
  rw [isColonFree_iff, Nat.repr, String.toList_ofList]
  exact colon_notMem_digits n

theorem isColonFree_intRepr (n : Int) : isColonFree (Int.repr n) = true := by
  cases n with
  | ofNat n => exact isColonFree_natRepr n
  | negSucc n =>
    rw [Int.repr, isColonFree_append, isColonFree_natRepr]
    rfl

theorem colon_notMem_exponentText (l : Binary64.Layout) (e : Int) : ':' ∉ l.exponentText e := by
  intro h
  simp only [Binary64.Layout.exponentText, List.mem_cons, List.mem_append,
    List.mem_replicate] at h
  rcases h with h | h | ⟨-, h⟩ | h
  · cases h
  · split at h <;> cases h
  · cases h
  · exact colon_notMem_digits _ h

theorem colon_notMem_magnitudeText (l : Binary64.Layout) (n : Nat) (k : Int) :
    ':' ∉ l.magnitudeText n k := by
  have hn := colon_notMem_digits n
  unfold Binary64.Layout.magnitudeText
  generalize Nat.toDigits 10 n = ds at hn
  dsimp only
  split
  · refine fun h => (List.mem_append.mp h).elim (fun h => ?_) (colon_notMem_exponentText _ _)
    rcases ds with _ | ⟨d, _ | ⟨d', rest⟩⟩
    · cases h
    · exact hn h
    · simp only [List.mem_cons, not_or] at hn h
      rcases h with h | h | h
      · exact hn.1 h
      · cases h
      · exact not_or.mpr hn.2 h
  · split
    · intro h
      simp only [List.mem_append, List.mem_replicate] at h
      rcases h with (h | ⟨-, h⟩) | h
      · exact hn h
      · cases h
      · split at h <;> simp at h
    · split
      · intro h
        simp only [List.mem_append, List.mem_cons] at h
        rcases h with h | h | h
        · exact hn (List.mem_of_mem_take h)
        · cases h
        · exact hn (List.mem_of_mem_drop h)
      · intro h
        simp only [List.mem_append, List.mem_cons, List.mem_replicate] at h
        rcases h with h | h | ⟨-, h⟩ | h
        · cases h
        · cases h
        · cases h
        · exact hn h

theorem isColonFree_binary64 (x : Binary64) : isColonFree x.text = true := by
  cases x with
  | infinite negative => cases negative <;> rfl
  | finite negative m e =>
    rw [isColonFree_iff, Binary64.text, String.toList_ofList]
    have hbody : ':' ∉ (if m = 0 then if Binary64.layout.wholeFraction then ['0', '.', '0'] else ['0']
        else Binary64.layout.magnitudeText (Binary64.shortest m e).1 (Binary64.shortest m e).2) := by
      split
      · decide
      · exact colon_notMem_magnitudeText _ _ _
    split
    · exact fun h => (List.mem_cons.mp h).elim (fun h => by cases h) hbody
    · exact hbody

end Text

/-- A plain value is written without a colon. -/
theorem Value.isColonFree_of_text {v : Value} (h : v.isPlain = true) {t : String}
    (ht : v.text = .ok t) : isColonFree t = true := by
  cases v with
  | null => cases ht; rfl
  | bool b => cases ht; cases b <;> rfl
  | int n =>
    obtain ⟨-, rfl⟩ := Decimal.text_eq_ok ht
    exact isColonFree_intRepr n
  | float x => cases ht; exact isColonFree_binary64 x
  | nan o => cases ht; rfl
  | str s => cases ht; exact h
  | _ => cases h

/-- Plain values joined by spaces are written without a colon. -/
theorem isColonFree_joinPresent {parts : List Value} (h : ∀ v ∈ parts, v.isPlain = true)
    {t : String} (ht : joinPresent parts = .ok t) : isColonFree t = true := by
  obtain ⟨words, hwords, ht⟩ := Except.bind_eq_ok.mp ht
  cases ht
  rw [isColonFree_iff, String.toList_intercalate]
  intro hc
  rcases mem_intercalate_singleton.1 hc with hc | ⟨_, hmem, hc⟩
  · cases hc
  · obtain ⟨w, hw, rfl⟩ := List.mem_map.mp hmem
    obtain ⟨v, hv, hvw⟩ := exists_left_of_forall₂ (Except.forall₂_of_mapM_eq_ok hwords) hw
    have hplain := h v (List.mem_filter.mp hv).1
    cases v with
    | str s =>
      cases hvw
      exact isColonFree_iff.mp hplain hc
    | _ => cases hvw

end BoundSql

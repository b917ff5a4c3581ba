import BoundSql.Fragment.Text
import BoundSql.Text.Blank
import Mathlib.Data.List.TakeWhile

/-!
# The names in a text

A reader of a statement finds the placeholders in it by a colon that stands free, which means that
neither a colon nor a word character comes before it, and by the word characters after it. The
reader knows nothing of how the text was put together; the lemmas of this module say what it finds
in texts that are put together the way statements are.

There is one way only in which two texts can interfere: where they touch, the end of one and the
beginning of the other can make a name, or spoil one. So what keeps texts apart is a *separator*,
which has no colon and begins and ends with a character that is no part of a name
(`Text.names_separated`). The colons of a cast are no separator, and need a lemma of their own
(`Text.names_cast`).

Which characters beyond the first 128 count as word characters is left open, so whatever is shown
holds of every such choice; it matters only that no blank is one.
-/

set_option autoImplicit false

namespace BoundSql.Text

/-- Whether a character is a word character: a letter, a digit or the underscore, and beyond the
first 128 characters whatever `beyond` counts in and is no blank. -/
def isWord (beyond : Char → Bool) (c : Char) : Bool :=
  if c.toNat < 128 then c.isAlphanum || c == '_' else beyond c && !isBlank c

/-- The names after free colons; `free` says whether a colon at the very front would be free. -/
def scan (beyond : Char → Bool) : (free : Bool) → List Char → List (List Char)
  | _, [] => []
  | free, c :: cs =>
      if c = ':' then
        (if free && !(cs.takeWhile (isWord beyond)).isEmpty then [cs.takeWhile (isWord beyond)]
          else []) ++ scan beyond false cs
      else scan beyond (!isWord beyond c) cs

/-- The names after the free colons of a text. -/
def names (beyond : Char → Bool) (s : String) : List String :=
  (scan beyond true s.toList).map String.ofList

/-- Whether a text has no colon. -/
def isColonFree (s : String) : Bool := !s.toList.contains ':'

/-- The characters that separators begin and end with. -/
def isStop (c : Char) : Bool := c == ' ' || c == ',' || c == '(' || c == ')'

/-- Whether a text can stand in front of another one: it has no colon and ends with a stop. -/
def leads (s : String) : Bool := isColonFree s && s.toList.getLast?.any isStop

/-- Whether a text keeps those around it apart: it leads, and also begins with a stop. -/
def separates (s : String) : Bool := leads s && s.toList.head?.any isStop

example : names (fun _ => false) "a = :x AND b::int = f(:y_1, 'c:d')" = ["x", "y_1"] := by
  decide +kernel

variable {beyond : Char → Bool}

/-! ## Lists of characters -/

theorem isWord_of_isStop {c : Char} (h : isStop c = true) : isWord beyond c = false := by
  simp only [isStop, Bool.or_eq_true, beq_iff_eq] at h
  rcases h with ((rfl | rfl) | rfl) | rfl <;> rfl

theorem ne_colon_of_isStop {c : Char} (h : isStop c = true) : c ≠ ':' := by
  rintro rfl
  cases h

theorem isWord_of_isBlank {c : Char} (h : isBlank c = true) : isWord beyond c = false := by
  unfold isWord
  split
  · have hn : c.toNat = c.val.toNat := rfl
    have h' : c ≠ '_' := by
      rintro rfl
      cases h
    have ascii : c.isAlphanum = ((decide (65 ≤ c.val ∧ c.val ≤ 90) ||
        (97 ≤ c.val && c.val ≤ 122)) || (48 ≤ c.val && c.val ≤ 57)) := rfl
    simp [isBlank, blankRanges] at h
    simp [ascii, h', UInt32.le_iff_toNat_le]
    omega
  · simp [h]

theorem ne_colon_of_isBlank {c : Char} (h : isBlank c = true) : c ≠ ':' := by
  rintro rfl
  cases h

theorem takeWhile_append_cons {α : Type} {p : α → Bool} {d : α} (hd : p d = false)
    (xs ys : List α) : (xs ++ d :: ys).takeWhile p = xs.takeWhile p := by
  induction xs with
  | nil => simp [hd]
  | cons x xs ih =>
    cases hx : p x with
    | true => simp [hx, ih]
    | false => simp [hx]

theorem scan_colonFree {w : List Char} (hw : ':' ∉ w) (free : Bool) : scan beyond free w = [] := by
  induction w generalizing free with
  | nil => rfl
  | cons c w ih =>
    obtain ⟨hc, hw⟩ := not_or.mp (mt List.mem_cons.mpr hw)
    simp [scan, Ne.symm hc, ih hw]

/-- A character that is neither a colon nor a word character makes a fresh start. -/
theorem scan_append_stop {d : Char} (hd : isWord beyond d = false) (hc : d ≠ ':')
    (free : Bool) (xs ys : List Char) :
    scan beyond free (xs ++ d :: ys) = scan beyond free xs ++ scan beyond true ys := by
  induction xs generalizing free with
  | nil => simp [scan, hc, hd]
  | cons x xs ih =>
    by_cases hx : x = ':'
    · simp [scan, hx, ih, takeWhile_append_cons hd]
    · simp [scan, hx, ih]

/-- Two colons and a text without one add no name. -/
theorem scan_append_cast {w : List Char} (hw : ':' ∉ w) (free : Bool) (xs : List Char) :
    scan beyond free (xs ++ ':' :: ':' :: w) = scan beyond free xs := by
  have hd : isWord beyond ':' = false := rfl
  induction xs generalizing free with
  | nil => simp [scan, hd, scan_colonFree hw]
  | cons x xs ih =>
    by_cases hx : x = ':'
    · simp [scan, hx, ih, takeWhile_append_cons hd]
    · simp [scan, hx, ih]

/-- Blanks around a text neither hold names nor make any. -/
theorem scan_trimList (cs : List Char) : scan beyond true (trimList cs) = scan beyond true cs := by
  have front : ∀ cs : List Char, scan beyond true (cs.dropWhile isBlank) = scan beyond true cs := by
    intro cs
    induction cs with
    | nil => rfl
    | cons c cs ih =>
      cases hc : isBlank c with
      | false => simp [hc]
      | true => simp [hc, ih, scan, ne_colon_of_isBlank hc, isWord_of_isBlank hc]
  have back : ∀ xs bs : List Char, (∀ b ∈ bs, isBlank b = true) →
      scan beyond true (xs ++ bs) = scan beyond true xs := by
    intro xs bs hbs
    cases bs with
    | nil => rw [List.append_nil]
    | cons b bs =>
      have hb := hbs b List.mem_cons_self
      have hcolon : ':' ∉ bs := fun h =>
        absurd rfl (ne_colon_of_isBlank (hbs ':' (List.mem_cons_of_mem _ h)))
      rw [scan_append_stop (isWord_of_isBlank hb) (ne_colon_of_isBlank hb), scan_colonFree hcolon,
        List.append_nil]
  have hsplit : cs.dropWhile isBlank =
      trimList cs ++ ((cs.dropWhile isBlank).reverse.takeWhile isBlank).reverse := by
    rw [trimList, ← List.reverse_append, List.takeWhile_append_dropWhile, List.reverse_reverse]
  rw [← front cs, hsplit, back]
  intro b hb
  exact List.all_eq_true.mp List.all_takeWhile b (List.mem_reverse.mp hb)

/-! ## Texts -/

theorem names_colonFree {s : String} (h : isColonFree s = true) : names beyond s = [] := by
  simp [names, scan_colonFree (by simpa [isColonFree] using h)]

@[simp] theorem names_empty : names beyond "" = [] := rfl

theorem names_trim (s : String) : names beyond (trim s) = names beyond s := by
  simp [names, scan_trimList]

/-- What comes after a leading text is read as if it stood alone. -/
theorem names_lead {w : String} (hw : leads w = true) (y : String) :
    names beyond (w ++ y) = names beyond y := by
  simp only [leads, isColonFree, Bool.and_eq_true, Bool.not_eq_true',
    List.contains_eq_mem, decide_eq_false_iff_not, Option.any_eq_true] at hw
  obtain ⟨hcolon, d, hlast, hd⟩ := hw
  obtain ⟨w', hw'⟩ := List.getLast?_eq_some_iff.mp hlast
  rw [hw'] at hcolon
  have hw' : (w ++ y).toList = w' ++ d :: y.toList := by simp [hw']
  rw [names, hw', scan_append_stop (isWord_of_isStop hd) (ne_colon_of_isStop hd),
    scan_colonFree fun h => hcolon (List.mem_append_left _ h)]
  rfl

/-- **What a separator keeps apart is read apart.** -/
theorem names_separated {w : String} (hw : separates w = true) (x y : String) :
    names beyond (x ++ (w ++ y)) = names beyond x ++ names beyond y := by
  simp only [separates, Bool.and_eq_true, Option.any_eq_true] at hw
  obtain ⟨hleads, d, hhead, hd⟩ := hw
  obtain ⟨w', hw'⟩ := List.head?_eq_some_iff.mp hhead
  have hwy : (w ++ y).toList = d :: (w' ++ y.toList) := by simp [hw']
  have hstart : scan beyond true (w' ++ y.toList) = scan beyond true (w ++ y).toList := by
    rw [hwy, scan, if_neg (ne_colon_of_isStop hd), isWord_of_isStop hd]
    rfl
  rw [← names_lead hleads y, names, names, names, String.toList_append, hwy,
    scan_append_stop (isWord_of_isStop hd) (ne_colon_of_isStop hd), List.map_append, hstart, hwy]

theorem names_trail {w : String} (hw : separates w = true) (x : String) :
    names beyond (x ++ w) = names beyond x := by
  simpa using (names_separated hw x "" : names beyond (x ++ (w ++ "")) = _)

theorem names_cast (x : String) {type : String} (h : isColonFree type = true) :
    names beyond (x ++ "::" ++ type) = names beyond x := by
  have hcolon : ':' ∉ type.toList := by simpa [isColonFree] using h
  have htext : (x ++ "::" ++ type).toList = x.toList ++ ':' :: ':' :: type.toList := by simp
  rw [names, names, htext, scan_append_cast hcolon]

/-- A list of texts is read as if each stood alone. -/
theorem names_intercalate {w : String} (hw : separates w = true) (parts : List String) :
    names beyond (w.intercalate parts) = parts.flatMap (names beyond) := by
  induction parts with
  | nil => rfl
  | cons x parts ih =>
    cases parts with
    | nil => simp
    | cons y parts =>
      rw [String.intercalate_cons_cons, String.append_assoc, names_separated hw, ih]
      rfl

/-! ## Placeholders -/

/-- A generated name consists of word characters. -/
theorem isWord_of_mem_name (p : Placeholder) {c : Char} (hc : c ∈ p.name.toList) :
    isWord beyond c = true := by
  have ascii : ∀ {c : Char}, c.toNat < 128 → c.isAlphanum = true → isWord beyond c = true := by
    intro c hn ha
    simp [isWord, hn, ha]
  rw [Placeholder.name, String.toList_append, String.toList_ofList, List.mem_append] at hc
  rcases hc with hc | hc
  · have htag : ∀ t : Tag, t.text.toList.all (fun c => c.toNat < 128 && c.isAlphanum) = true := by
      intro t
      cases t <;> rfl
    have hword := List.all_eq_true.mp (htag _) c hc
    simp only [Bool.and_eq_true, decide_eq_true_eq] at hword
    exact ascii hword.1 hword.2
  · obtain ⟨d, -, rfl⟩ := List.mem_map.mp hc
    have hdigit : ∀ d : Fin 16, (hexDigit d).toNat < 128 ∧ (hexDigit d).isAlphanum = true := by
      decide
    exact ascii (hdigit d).1 (hdigit d).2

/-- **What refers to a value is read as its name.** -/
theorem names_token (p : Placeholder) : names beyond (token p.name) = [p.name] := by
  have hword : p.name.toList.takeWhile (isWord beyond) = p.name.toList :=
    List.takeWhile_eq_self_iff.mpr fun c hc => isWord_of_mem_name p hc
  have hcolon : ':' ∉ p.name.toList := fun h => by
    have : isWord beyond ':' = true := isWord_of_mem_name p h
    cases this
  have hne : p.name.toList ≠ [] := by
    rw [Placeholder.name, String.toList_append]
    cases p.tag <;> simp [Tag.text]
  have htoken : (token p.name).toList = ':' :: p.name.toList := by simp [token]
  rw [names, htoken, scan, if_pos rfl, hword, scan_colonFree hcolon]
  simp [hne]

end BoundSql.Text

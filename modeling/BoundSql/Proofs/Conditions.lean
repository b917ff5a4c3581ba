import BoundSql.Proofs.Clauses
import BoundSql.Proofs.Operands
import BoundSql.Proofs.PlainTexts

/-!
# Reading conditions back

Conditions are joined by `AND` and `OR`, and brackets stand around more than one of them. Written in
this way a condition can be read back: its text determines what was joined with what, up to groups
of one and comparisons of one side, which show nothing of their own.

`Condition` is what is left of a condition without these (`Value.condition?`), and `Condition.read`
reads it off a text, from left to right with a stack of open brackets. A piece of a condition that
is no group can be anything as long as it contains no bracket and none of the two keywords as a word
of its own (`Atomic`).

The invariant of the reader is `read_text_append`: over the text of a condition it adds to the
innermost open bracket the items of this condition, and nothing else. A closing bracket finds the
items of all members, with the keyword between two (`groupOf_items`).
-/

set_option autoImplicit false

namespace BoundSql

/-! ## Conditions -/

/-- A condition without groups of one: a piece of text, or two or more conditions with a keyword. -/
inductive Condition where
  | atom (text : String)
  | group (c : Connective) (members : List Condition)

/-- The keywords that join conditions. -/
def Connective.keywords : List Connective := [.and, .or]

theorem Connective.eq_of_term {c d : Connective} (h : c.term = d.term) : c = d := by
  cases c <;> cases d <;> first | rfl | exact absurd h (by decide)

/-- A text that can be told from brackets and keywords. -/
def Atomic (s : String) : Prop :=
  s ≠ "" ∧ '(' ∉ s.toList ∧ ')' ∉ s.toList ∧
    ∀ c ∈ Connective.keywords, c.term.toList ∉ s.toList.splitOn ' '

instance (s : String) : Decidable (Atomic s) := inferInstanceAs (Decidable (_ ∧ _))

namespace Condition

mutual

/-- The text of a condition. -/
def text : Condition → String
  | .atom s => s
  | .group c members => c.joined (texts members)
termination_by structural t => t

/-- The texts of conditions. -/
def texts : List Condition → List String
  | [] => []
  | t :: rest => t.text :: texts rest
termination_by structural ts => ts

end

mutual

/-- A condition is proper if its atoms are atomic and its groups have two members or more. -/
def Proper : Condition → Prop
  | .atom s => Atomic s
  | .group c members => c ∈ Connective.keywords ∧ 2 ≤ members.length ∧ AllProper members
termination_by structural t => t

/-- All conditions of a list are proper. -/
def AllProper : List Condition → Prop
  | [] => True
  | t :: rest => t.Proper ∧ AllProper rest
termination_by structural ts => ts

end

/-- The condition that a text is, if it is atomic. -/
def atom? (s : String) : Option Condition := if Atomic s then some (.atom s) else none

/-- Conditions joined by a keyword; a single one shows nothing of it. -/
def ofMembers (c : Connective) : List Condition → Option Condition
  | [] => none
  | [t] => some t
  | ts => some (.group c ts)

theorem texts_eq_map (ts : List Condition) : texts ts = ts.map text := by
  induction ts with
  | nil => rfl
  | cons t rest ih => simp [texts, ih]

theorem allProper_iff (ts : List Condition) : AllProper ts ↔ ∀ t ∈ ts, t.Proper := by
  induction ts with
  | nil => simp [AllProper]
  | cons t rest ih => simp [AllProper, ih]

theorem atom?_eq_some {s : String} {t : Condition} (h : atom? s = some t) :
    t = .atom s ∧ Atomic s := by
  unfold atom? at h
  split at h
  · cases h
    exact ⟨rfl, ‹_›⟩
  · cases h

theorem atom?_of_atomic {s : String} (h : Atomic s) : atom? s = some (.atom s) := if_pos h

end Condition

/-! ## The reader -/

/-- What stands in an open bracket: characters, and conditions that were read already. -/
inductive Item where
  | char (c : Char)
  | tree (t : Condition)

namespace Item

/-- The character that an item is. -/
def char? : Item → Option Char
  | .char c => some c
  | .tree _ => none

/-- Whether an item is a space. -/
def isSpace (x : Item) : Bool := x.char? == some ' '

/-- The pieces of items between spaces. -/
def pieces (xs : List Item) : List (List Item) := xs.splitOnP isSpace

/-- Whether items spell a word. -/
def spells (word : List Char) (xs : List Item) : Bool := xs.mapM char? == some word

/-- The condition that items are: a single one that was read already, or else the text that they
spell. -/
def member? : List Item → Option Condition
  | [.tree t] => some t
  | xs => do Condition.atom? (String.ofList (← xs.mapM char?))

/-- The conditions between the keywords of a connective; none if there is no keyword. -/
def members? (c : Connective) (xs : List Item) : Option (List Condition) :=
  if (pieces xs).any (spells c.term.toList) then
    ((pieces xs).splitOnP (spells c.term.toList)).mapM fun ps =>
      member? ([.char ' '].intercalate ps)
  else none

/-- The group that items make up. -/
def groupOf (xs : List Item) : Option Condition :=
  Connective.keywords.findSome? fun c => (members? c xs).map (.group c)

end Item

namespace Condition

/-- The open brackets after a character, innermost first. -/
def readChar : List (List Item) → Char → Option (List (List Item))
  | xs :: outer, '(' => some ([] :: xs :: outer)
  | xs :: ys :: outer, ')' => (Item.groupOf xs).map fun t => (ys ++ [.tree t]) :: outer
  | [_], ')' => none
  | xs :: outer, c => some ((xs ++ [.char c]) :: outer)
  | [], _ => none

/-- The condition that a text is. All brackets have to be closed in the end. -/
def read (s : String) : Option Condition := do
  match ← s.toList.foldlM readChar [[]] with
  | [xs] => Item.member? xs
  | _ => none

example : read "(\x22a\x22 AND (b OR c = :d))" =
    some (.group .and [.atom "\x22a\x22", .group .or [.atom "b", .atom "c = :d"]]) := by rfl

end Condition

/-! ## Items of one condition -/

namespace Item

/-- The characters of a word. -/
def ofWord (word : List Char) : List Item := word.map .char

@[simp] theorem mapM_char?_ofWord (word : List Char) : (ofWord word).mapM char? = some word := by
  induction word with
  | nil => rfl
  | cons c rest ih =>
    rw [ofWord] at ih
    simp [ofWord, char?, ih]

theorem spells_iff {word : List Char} {xs : List Item} :
    spells word xs = true ↔ xs = ofWord word := by
  constructor
  · intro h
    have hword : xs.mapM char? = some word := by simpa [spells] using h
    clear h
    induction xs generalizing word with
    | nil =>
      cases hword
      rfl
    | cons x rest ih =>
      rw [List.mapM_cons] at hword
      obtain ⟨c, hc, hword⟩ := Option.bind_eq_some_iff.mp hword
      obtain ⟨word', hrest, hword⟩ := Option.bind_eq_some_iff.mp hword
      cases hword
      cases x with
      | tree t => cases hc
      | char d =>
        cases hc
        rw [ih hrest]
        rfl
  · rintro rfl
    simp [spells]

theorem isSpace_iff {x : Item} : x.isSpace = true ↔ x = .char ' ' := by
  cases x <;> simp [isSpace, char?]

-- The reader does not compare items, only the lemmas on `splitOn` do.
open Classical in
theorem pieces_eq_splitOn (xs : List Item) : pieces xs = xs.splitOn (.char ' ') := by
  rw [pieces, List.splitOn_eq_splitOnP]
  congr
  funext x
  rw [Bool.eq_iff_iff, isSpace_iff, beq_iff_eq]

/-- Pieces are put together again by spaces. -/
theorem intercalate_pieces (xs : List Item) : [Item.char ' '].intercalate (pieces xs) = xs := by
  classical
  rw [pieces_eq_splitOn, List.intercalate_splitOn]

/-- A keyword splits what it has joined. -/
theorem splitOnP_spells_intercalate {word : List Char} {pss : List (List (List Item))}
    (hword : ∀ ps ∈ pss, ofWord word ∉ ps) (hne : pss ≠ []) :
    ([ofWord word].intercalate pss).splitOnP (spells word) = pss := by
  classical
  have hspells : spells word = (· == ofWord word) := by
    funext xs
    rw [Bool.eq_iff_iff, spells_iff, beq_iff_eq]
  rw [hspells, ← List.splitOn_eq_splitOnP]
  exact List.splitOn_intercalate _ hword hne

theorem pieces_append_space (xs ys : List Item) :
    pieces (xs ++ .char ' ' :: ys) = pieces xs ++ pieces ys :=
  List.splitOnP_append_cons xs ys rfl

/-- A text has the pieces that its characters have. -/
theorem pieces_ofWord (word : List Char) :
    pieces (ofWord word) = (word.splitOn ' ').map ofWord := by
  induction word with
  | nil => rfl
  | cons c rest ih =>
    rw [pieces, ofWord] at ih
    rw [pieces, ofWord, List.map_cons, List.splitOnP_cons_eq_if_modifyHead, ih,
      List.splitOn_cons_eq_if_modifyHead]
    have hspace : isSpace (.char c) = (c == ' ') := by simp [isSpace, char?]
    rw [hspace]
    cases c == ' ' with
    | true => rfl
    | false => cases rest.splitOn ' ' <;> rfl

theorem pieces_word {word : List Char} (h : ' ' ∉ word) : pieces (ofWord word) = [ofWord word] := by
  rw [pieces_ofWord, List.splitOn_eq_singleton h]
  rfl

theorem ofWord_injective : Function.Injective ofWord :=
  List.map_injective_iff.mpr fun _ _ h => by cases h; rfl

end Item

namespace Condition

/-- The items that a condition is to the bracket around it. -/
def items : Condition → List Item
  | .atom s => Item.ofWord s.toList
  | .group c members => [.tree (.group c members)]

/-- A condition is found in its items. -/
theorem member?_items {t : Condition} (h : t.Proper) : Item.member? t.items = some t := by
  cases t with
  | group c members => rfl
  | atom s =>
    have htext : Item.member? (Item.ofWord s.toList) =
        (do atom? (String.ofList (← (Item.ofWord s.toList).mapM Item.char?))) := by
      unfold Item.member?
      split
      · rename_i t heq
        cases hs : s.toList <;> rw [hs] at heq <;> cases heq
      · rfl
    rw [items, htext, Item.mapM_char?_ofWord]
    simp [atom?_of_atomic h]

/-- No keyword is a word of a member. -/
theorem keyword_notMem_pieces_items {t : Condition} (h : t.Proper) {c : Connective}
    (hc : c ∈ Connective.keywords) : Item.ofWord c.term.toList ∉ Item.pieces t.items := by
  intro hmem
  cases t with
  | atom s =>
    rw [items, Item.pieces_ofWord] at hmem
    obtain ⟨word, hword, heq⟩ := List.mem_map.mp hmem
    rw [Item.ofWord_injective heq] at hword
    exact h.2.2.2 c hc hword
  | group d members =>
    have hpieces : Item.pieces (items (.group d members)) = [[.tree (.group d members)]] := rfl
    rw [hpieces, List.mem_singleton] at hmem
    cases c <;> cases hmem

end Condition

/-! ## A bracket finds its members -/

namespace Item

/-- What stands between two members. -/
def separator (c : Connective) : List Item := ofWord c.separator.toList

/-- Between the pieces of two members stands the keyword. -/
theorem pieces_append_separator {c : Connective} (hc : c ∈ Connective.keywords)
    (xs ys : List Item) :
    pieces (xs ++ separator c ++ ys) = pieces xs ++ [ofWord c.term.toList] ++ pieces ys := by
  have hkeyword : ' ' ∉ c.term.toList := by
    revert c
    decide
  have hseparator : separator c = .char ' ' :: (ofWord c.term.toList ++ [.char ' ']) := by
    rw [separator, Connective.separator, String.toList_append, String.toList_append, ofWord, ofWord,
      List.map_append, List.map_append]
    rfl
  rw [hseparator, List.append_assoc, List.cons_append, List.append_assoc, pieces_append_space,
    List.singleton_append, pieces_append_space, pieces_word hkeyword, List.append_assoc]

theorem pieces_intercalate {c : Connective} (hc : c ∈ Connective.keywords) {xss : List (List Item)}
    (hne : xss ≠ []) :
    pieces ((separator c).intercalate xss) =
      [ofWord c.term.toList].intercalate (xss.map pieces) := by
  induction xss with
  | nil => exact absurd rfl hne
  | cons xs rest ih =>
    cases rest with
    | nil => simp
    | cons ys rest =>
      have hrest := ih (List.cons_ne_nil ys rest)
      rw [List.intercalate_cons_cons, pieces_append_separator hc, hrest]
      simp only [List.map_cons, List.intercalate_cons_cons]

section Group

variable {c : Connective} (hc : c ∈ Connective.keywords) {ts : List Condition} (hne : ts ≠ [])
  (hts : ∀ t ∈ ts, t.Proper)
include hc hne

theorem pieces_members :
    pieces ((separator c).intercalate (ts.map Condition.items)) =
      [ofWord c.term.toList].intercalate (ts.map fun t => pieces t.items) := by
  have hitems : ts.map Condition.items ≠ [] := mt List.map_eq_nil_iff.mp hne
  rw [pieces_intercalate hc hitems, List.map_map]
  rfl

include hts

/-- With their own keyword all members are found. -/
theorem members?_own (hmany : 2 ≤ ts.length) :
    members? c ((separator c).intercalate (ts.map Condition.items)) = some ts := by
  have hany : (pieces ((separator c).intercalate (ts.map Condition.items))).any
      (spells c.term.toList) = true := by
    obtain ⟨t, u, rest, rfl⟩ : ∃ t u rest, ts = t :: u :: rest := by
      match ts, hmany with
      | t :: u :: rest, _ => exact ⟨t, u, rest, rfl⟩
    rw [List.any_eq_true]
    refine ⟨ofWord c.term.toList, ?_, spells_iff.mpr rfl⟩
    rw [pieces_members hc hne, List.map_cons, List.map_cons, List.intercalate_cons_cons]
    simp
  have hkeyword : ∀ ps ∈ ts.map fun t => pieces t.items, ofWord c.term.toList ∉ ps := by
    intro ps hps
    obtain ⟨t, ht, rfl⟩ := List.mem_map.mp hps
    exact Condition.keyword_notMem_pieces_items (hts t ht) hc
  have hmember : ∀ t ∈ ts, member? ([.char ' '].intercalate (pieces t.items)) = some t := by
    intro t ht
    rw [intercalate_pieces, Condition.member?_items (hts t ht)]
  rw [members?, if_pos hany, pieces_members hc hne,
    splitOnP_spells_intercalate hkeyword (mt List.map_eq_nil_iff.mp hne), List.mapM_map]
  clear hne hmany hts hany hkeyword
  induction ts with
  | nil => rfl
  | cons t rest ih =>
    rw [List.mapM_cons, Function.comp_apply, hmember t List.mem_cons_self,
      ih fun u hu => hmember u (List.mem_cons_of_mem t hu)]
    rfl

/-- With the other keyword none is found. -/
theorem members?_other {d : Connective} (hd : d ∈ Connective.keywords) (hdc : d ≠ c) :
    members? d ((separator c).intercalate (ts.map Condition.items)) = none := by
  have hnone : ¬ (pieces ((separator c).intercalate (ts.map Condition.items))).any
      (spells d.term.toList) = true := by
    rw [List.any_eq_true, pieces_members hc hne]
    rintro ⟨ps, hps, hspells⟩
    rw [spells_iff.mp hspells] at hps
    rcases Text.mem_intercalate_singleton.1 hps with heq | ⟨qs, hqs, hmem⟩
    · exact hdc (Connective.eq_of_term (String.toList_inj.mp (ofWord_injective heq)))
    · obtain ⟨t, ht, rfl⟩ := List.mem_map.mp hqs
      exact Condition.keyword_notMem_pieces_items (hts t ht) hd hmem
  rw [members?, if_neg hnone]

omit hne in
/-- **A bracket is read as the conditions that were joined in it.** -/
theorem groupOf_items (hmany : 2 ≤ ts.length) :
    groupOf ((separator c).intercalate (ts.map Condition.items)) = some (.group c ts) := by
  have hne : ts ≠ [] := by
    rintro rfl
    cases hmany
  have hown := members?_own hc hne hts hmany
  have hother := fun d => members?_other (d := d) hc hne hts
  simp only [groupOf, Connective.keywords, List.findSome?_cons, List.findSome?_nil]
  cases c with
  | plain => exact absurd hc (by decide)
  | and => rw [hown]; rfl
  | or =>
    rw [hother .and (by decide) (by decide), hown]
    rfl

end Group

end Item

/-! ## A text is read as its condition -/

namespace Condition

/-- A character that is no bracket is added to the innermost open one. -/
theorem foldlM_readChar_word {cs : List Char} (hopen : '(' ∉ cs) (hclose : ')' ∉ cs)
    (xs : List Item) (outer : List (List Item)) :
    cs.foldlM readChar (xs :: outer) = some ((xs ++ Item.ofWord cs) :: outer) := by
  induction cs generalizing xs with
  | nil => simp [Item.ofWord]
  | cons c rest ih =>
    have hc : readChar (xs :: outer) c = some ((xs ++ [.char c]) :: outer) := by
      have hopen' : c ≠ '(' := fun h => hopen (h ▸ List.mem_cons_self)
      have hclose' : c ≠ ')' := fun h => hclose (h ▸ List.mem_cons_self)
      unfold readChar
      split <;> simp_all
    rw [List.foldlM_cons, hc]
    have hrest := ih (fun h => hopen (List.mem_cons_of_mem c h))
      (fun h => hclose (List.mem_cons_of_mem c h)) (xs ++ [.char c])
    simpa [Item.ofWord] using hrest

theorem foldlM_readChar_separator {c : Connective} (hc : c ∈ Connective.keywords)
    (xs : List Item) (outer : List (List Item)) :
    c.separator.toList.foldlM readChar (xs :: outer) =
      some ((xs ++ Item.separator c) :: outer) := by
  have hbrackets : '(' ∉ c.separator.toList ∧ ')' ∉ c.separator.toList := by
    revert c
    decide
  exact foldlM_readChar_word hbrackets.1 hbrackets.2 xs outer

theorem joined_of_two_le {c : Connective} {texts : List String} (h : 2 ≤ texts.length) :
    c.joined texts = "(" ++ c.separator.intercalate texts ++ ")" := by
  match texts, h with
  | t :: u :: rest, _ => rfl

mutual

/-- **The text of a condition is read as its items**, in whatever bracket it stands. -/
theorem foldlM_readChar_text : {t : Condition} → t.Proper → (xs : List Item) →
    (outer : List (List Item)) →
    t.text.toList.foldlM readChar (xs :: outer) = some ((xs ++ t.items) :: outer)
  | .atom s, h, xs, outer => foldlM_readChar_word h.2.1 h.2.2.1 xs outer
  | .group c members, ⟨hc, hmany, hmembers⟩, xs, outer => by
    have hne : members ≠ [] := by
      rintro rfl
      cases hmany
    have hlength : 2 ≤ (texts members).length := by
      rwa [texts_eq_map, List.length_map]
    have htext : (text (.group c members)).toList =
        '(' :: ((c.separator.intercalate (texts members)).toList ++ [')']) := by
      rw [text, joined_of_two_le hlength, String.toList_append, String.toList_append]
      rfl
    have hgroup := Item.groupOf_items hc ((allProper_iff members).mp hmembers) hmany
    have hopen : readChar (xs :: outer) '(' = some ([] :: xs :: outer) := rfl
    rw [htext, List.foldlM_cons, hopen, Option.bind_eq_bind, Option.bind_some, List.foldlM_append,
      foldlM_readChar_texts hc hmembers hne [] (xs :: outer), List.nil_append, Option.bind_eq_bind,
      Option.bind_some, List.foldlM_cons]
    simp only [readChar, hgroup, Option.map_some, List.foldlM_nil]
    rfl
termination_by structural t => t

/-- The texts of the members of a group are read as their items. -/
theorem foldlM_readChar_texts {c : Connective} (hc : c ∈ Connective.keywords) :
    {ts : List Condition} → AllProper ts → ts ≠ [] → (xs : List Item) →
    (outer : List (List Item)) →
    (c.separator.intercalate (texts ts)).toList.foldlM readChar (xs :: outer) =
      some ((xs ++ (Item.separator c).intercalate (ts.map items)) :: outer)
  | [], _, hne, _, _ => absurd rfl hne
  | [t], h, _, xs, outer => by
    have ht := foldlM_readChar_text h.1 xs outer
    simpa [texts] using ht
  | t :: u :: rest, h, _, xs, outer => by
    have hrest := foldlM_readChar_texts hc h.2 (List.cons_ne_nil u rest)
      (xs ++ t.items ++ Item.separator c) outer
    rw [texts, texts, String.intercalate_cons_cons, String.toList_append, String.toList_append,
      List.foldlM_append, List.foldlM_append, foldlM_readChar_text h.1 xs outer,
      Option.bind_eq_bind, Option.bind_some, foldlM_readChar_separator hc, Option.bind_some,
      List.map_cons, List.map_cons, List.intercalate_cons_cons]
    simpa only [texts, List.append_assoc, List.map_cons] using hrest
termination_by structural ts => ts

end

/-- **A condition can be read back from its text.** -/
theorem read_text {t : Condition} (h : t.Proper) : read t.text = some t := by
  rw [read, foldlM_readChar_text h [] []]
  exact member?_items h

/-- Conditions with one text are one condition. -/
theorem text_inj {t u : Condition} (ht : t.Proper) (hu : u.Proper) :
    t.text = u.text ↔ t = u := by
  constructor
  · intro h
    have hread := read_text ht
    rw [h, read_text hu] at hread
    exact (Option.some.inj hread).symm
  · rintro rfl
    rfl

end Condition

/-! ## The conditions of a statement -/

/-- The condition that a text is, if there is one and it is atomic. -/
def Condition.ofText (text : Except Fault String) : Option Condition :=
  text.toOption.bind Condition.atom?

mutual

/-- The condition that a value is, without what shows nothing of its own: a group of one, and a
comparison that has a left side and nothing else. -/
def Value.condition? : Value → Option Condition
  | .str s => Condition.atom? s
  | .fragment f _ => f.condition?
  | _ => none
termination_by structural v => v

/-- The conditions that values are. -/
def Value.conditions? : List Value → Option (List Condition)
  | [] => some []
  | v :: rest => do return (← v.condition?) :: (← Value.conditions? rest)
termination_by structural vs => vs

/-- The condition that a group or a comparison is. -/
def Fragment.condition? : Fragment → Option Condition
  | .filter c => c.condition?
  | .group .plain _ => none
  | .group c conditions => do Condition.ofMembers c (← Value.conditions? conditions)
  | _ => none
termination_by structural f => f

/-- The condition that a comparison is: that of its left side if there is nothing else and the left
side is one, or else its text. -/
def Filter.condition? : Filter → Option Condition
  | ⟨left, right, operator, before, after⟩ =>
    let bare := right.isNone && !before.isTruthy && !after.isTruthy
    ((if bare then left.condition? else none)).or
      (Condition.ofText (Filter.text ⟨left, right, operator, before, after⟩))
termination_by structural c => c

end

theorem Condition.ofText_eq_some {text : Except Fault String} {t : Condition}
    (h : Condition.ofText text = some t) : text = .ok t.text ∧ t.Proper := by
  cases text with
  | error fault => cases h
  | ok s =>
    obtain ⟨rfl, hs⟩ := Condition.atom?_eq_some h
    exact ⟨rfl, hs⟩

/-- A comparison of a left side with nothing else has the text of that side. -/
theorem Filter.text_of_bare {left : Fragment} {operator before after : Value}
    (hbefore : before.isTruthy = false) (hafter : after.isTruthy = false) :
    Filter.text ⟨left, none, operator, before, after⟩ = left.text := by
  simp only [Filter.text, Fragment.text?]
  cases left.text with
  | error fault => rfl
  | ok l =>
    have hfirst := joinPresent_without hbefore [] [.str l, after]
    have hlast := joinPresent_without hafter [.str l] []
    refine (hfirst.trans hlast).trans ?_
    rw [List.append_nil, joinPresent]
    by_cases hl : l = ""
    · subst hl
      rfl
    · have htruthy : (Value.str l).isTruthy = true := by simp [Value.isTruthy, hl]
      rw [List.filter_cons_of_pos htruthy]
      rfl

theorem Condition.text_ofMembers {c : Connective} {ts : List Condition} {t : Condition}
    (h : Condition.ofMembers c ts = some t) : c.joined (texts ts) = t.text := by
  match ts, h with
  | [u], h =>
    cases h
    rfl
  | u :: v :: rest, h =>
    cases h
    rfl

theorem Condition.proper_ofMembers {c : Connective} (hc : c ∈ Connective.keywords)
    {ts : List Condition} (hts : AllProper ts) {t : Condition}
    (h : Condition.ofMembers c ts = some t) : t.Proper := by
  match ts, h with
  | [u], h =>
    cases h
    exact hts.1
  | u :: v :: rest, h =>
    cases h
    exact ⟨hc, by simp, hts⟩

mutual

/-- **A value that is a condition has the text of that condition.** -/
theorem Value.text_of_condition? : {v : Value} → {t : Condition} → v.condition? = some t →
    v.text = .ok t.text ∧ t.Proper
  | .str s, _, h => by
    obtain ⟨rfl, hs⟩ := Condition.atom?_eq_some h
    exact ⟨rfl, hs⟩
  | .fragment f origin, _, h => by
    rw [Value.text_fragment]
    exact Fragment.text_of_condition? h
  | .null, _, h | .bool _, _, h | .int _, _, h | .float _, _, h | .nan _, _, h | .bytes _, _, h
  | .list _, _, h | .tuple _, _, h | .dict _, _, h | .joinKind _, _, h | .options _, _, h
  | .callback _ _, _, h | .compiled _ _, _, h => by cases h
termination_by structural v => v

theorem Value.texts_of_conditions? : {vs : List Value} → {ts : List Condition} →
    Value.conditions? vs = some ts →
    Value.renderAll .bare vs = .ok (Condition.texts ts) ∧ Condition.AllProper ts
  | [], _, h => by
    cases h
    exact ⟨rfl, trivial⟩
  | v :: rest, _, h => by
    obtain ⟨t, ht, h⟩ := Option.bind_eq_some_iff.mp h
    obtain ⟨ts, hts, h⟩ := Option.bind_eq_some_iff.mp h
    cases h
    obtain ⟨htext, hproper⟩ := Value.text_of_condition? ht
    obtain ⟨htexts, hall⟩ := Value.texts_of_conditions? hts
    refine ⟨?_, hproper, hall⟩
    rw [Value.text] at htext
    simp only [Value.renderAll, htext, htexts]
    rfl
termination_by structural vs => vs

theorem Fragment.text_of_condition? : {f : Fragment} → {t : Condition} → f.condition? = some t →
    f.text = .ok t.text ∧ t.Proper
  | .filter c, _, h => Filter.text_of_condition? h
  | .group c conditions, t, h => by
    have hc : c ∈ Connective.keywords := by
      cases c with
      | plain => cases h
      | _ => decide
    have hmembers : (do Condition.ofMembers c (← Value.conditions? conditions)) = some t := by
      cases c with
      | plain => cases h
      | _ => exact h
    obtain ⟨ts, hts, hjoin⟩ := Option.bind_eq_some_iff.mp hmembers
    obtain ⟨htexts, hall⟩ := Value.texts_of_conditions? hts
    refine ⟨?_, Condition.proper_ofMembers hc hall hjoin⟩
    simp only [Fragment.text, htexts]
    exact congrArg Except.ok (Condition.text_ofMembers hjoin)
  | .column _, _, h | .placeholder _ _, _, h | .null, _, h | .raw _, _, h | .cast _ _, _, h
  | .function _ _, _, h | .projection _ _, _, h | .subSelect _, _, h | .union _ _ _, _, h
  | .join _, _, h | .branch _, _, h | .fallback _, _, h | .choice _ _ _, _, h => by cases h
termination_by structural f => f

theorem Filter.text_of_condition? : {c : Filter} → {t : Condition} → c.condition? = some t →
    c.text = .ok t.text ∧ t.Proper
  | ⟨left, right, operator, before, after⟩, t, h => by
    have hleft := fun ht : left.condition? = some t => Fragment.text_of_condition? ht
    rw [Filter.condition?] at h
    rcases Option.or_eq_some_iff.mp h with hbare | ⟨-, htext⟩
    · split at hbare
      · rename_i hpresent
        simp only [Bool.and_eq_true, Option.isNone_iff_eq_none, Bool.not_eq_true'] at hpresent
        obtain ⟨⟨rfl, hbefore⟩, hafter⟩ := hpresent
        rw [Filter.text_of_bare hbefore hafter]
        exact hleft hbare
      · cases hbare
    · exact Condition.ofText_eq_some htext
termination_by structural c => c

end

/-- All filters of a builder as one condition. -/
def Builder.condition (b : Builder) : Fragment :=
  .group .and (b.filters.map fun c => .fragment (.filter c) [])

theorem Builder.conditionText_eq (b : Builder) : b.conditionText = b.condition.text := by
  have hfilters := Clauses.condition_text
    { fields := [], tables := [], joins := [], filters := b.filters, groups := [], order := [],
      limits := [], offsets := [] }
  rw [Builder.conditionText, ← map_eq_pure_bind]
  exact hfilters.symm

theorem Builder.filterClause_eq_where {b : Builder} (h : b.filters ≠ []) :
    b.filterClause = ("WHERE " ++ ·) <$> b.condition.text := by
  have hfilters : b.filters.isEmpty = false := by simpa using h
  rw [Clauses.filterClause_eq, Builder.conditionText_eq]
  simp [hfilters]

/-- Values that are conditions have one text just if they are one condition. -/
theorem Value.text_eq_iff {v w : Value} {t u : Condition} (hv : v.condition? = some t)
    (hw : w.condition? = some u) : v.text = w.text ↔ t = u := by
  obtain ⟨htext, ht⟩ := Value.text_of_condition? hv
  obtain ⟨hutext, hu⟩ := Value.text_of_condition? hw
  rw [htext, hutext, ← Condition.text_inj ht hu]
  exact ⟨Except.ok.inj, congrArg Except.ok⟩

theorem Builder.filters_ne_nil_of_condition? {b : Builder} {t : Condition}
    (h : b.condition.condition? = some t) : b.filters ≠ [] := by
  intro hnone
  rw [Builder.condition, hnone] at h
  cases h

/-- The filters of two builders are one condition just if their clauses are equal. -/
theorem Builder.filterClause_eq_iff {b c : Builder} {t u : Condition}
    (hb : b.condition.condition? = some t) (hc : c.condition.condition? = some u) :
    b.filterClause = c.filterClause ↔ t = u := by
  obtain ⟨htext, ht⟩ := Fragment.text_of_condition? hb
  obtain ⟨hutext, hu⟩ := Fragment.text_of_condition? hc
  rw [filterClause_eq_where (filters_ne_nil_of_condition? hb),
    filterClause_eq_where (filters_ne_nil_of_condition? hc), htext, hutext,
    ← Condition.text_inj ht hu]
  constructor
  · intro h
    have hwhere : "WHERE " ++ t.text = "WHERE " ++ u.text := Except.ok.inj h
    exact String.append_right_inj _ |>.mp hwhere
  · intro h
    rw [h]

/-- **Brackets keep the structure of conditions.** A value that is a condition has the text of this
condition, and the condition can be read back from it. So two such values have one text if and only
if they are one condition. The filters of a builder are joined as the group of them would be, and so
their clause determines the condition that they are. -/
theorem conditions_read_back :
    (∀ {v : Value} {t : Condition}, v.condition? = some t →
      v.text = .ok t.text ∧ Condition.read t.text = some t) ∧
    (∀ {v w : Value} {t u : Condition}, v.condition? = some t → w.condition? = some u →
      (v.text = w.text ↔ t = u)) ∧
    (∀ b : Builder, b.filters ≠ [] →
      b.conditionText = b.condition.text ∧
        b.filterClause = ("WHERE " ++ ·) <$> b.condition.text) ∧
    ∀ {b c : Builder} {t u : Condition}, b.condition.condition? = some t →
      c.condition.condition? = some u → (b.filterClause = c.filterClause ↔ t = u) := by
  refine ⟨fun hv => ?_, Value.text_eq_iff, fun b hb => ?_, Builder.filterClause_eq_iff⟩
  · obtain ⟨htext, ht⟩ := Value.text_of_condition? hv
    exact ⟨htext, Condition.read_text ht⟩
  · exact ⟨b.conditionText_eq, Builder.filterClause_eq_where hb⟩

/-- A comparison of a left side with nothing else. -/
def bareFilter (left : Fragment) : Filter := ⟨left, none, .str "=", .str "", .null⟩

/-- `a AND b OR c` in two ways, the first one with a group of one and a comparison of one side. -/
def leftGrouped : Value :=
  .fragment (.group .or [.fragment (.filter (bareFilter
    (.group .and [.str "a", .fragment (.group .or [.str "b"]) []]))) [], .str "c"]) []
def rightGrouped : Value :=
  .fragment (.group .and [.str "a", .fragment (.group .or [.str "b", .str "c"]) []]) []

/-- The two are told apart by their brackets. -/
theorem conditions_read_back_grouped :
    leftGrouped.text = .ok "((a AND b) OR c)" ∧
    Condition.read "((a AND b) OR c)" =
      some (.group .or [.group .and [.atom "a", .atom "b"], .atom "c"]) ∧
    leftGrouped.text ≠ rightGrouped.text := by
  have hleft : leftGrouped.condition? =
      some (.group .or [.group .and [.atom "a", .atom "b"], .atom "c"]) := rfl
  have hright : rightGrouped.condition? =
      some (.group .and [.atom "a", .group .or [.atom "b", .atom "c"]]) := rfl
  obtain ⟨hread, hiff, -⟩ := conditions_read_back
  refine ⟨(hread hleft).1, (hread hleft).2, fun heq => ?_⟩
  cases (hiff hleft hright).mp heq

end BoundSql

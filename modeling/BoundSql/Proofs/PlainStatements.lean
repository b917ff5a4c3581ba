import Mathlib
import BoundSql.Builder
import BoundSql.Proofs.Delimiting
import BoundSql.Proofs.PlainTexts

/-!
# Statements of names

Statements of names, joins of tables on a pair of columns, and comparisons of a column with a value,
a column or nothing, without a builder around them (`PlainStatement`). Names may hold anything but
the double quote: keywords, dots, brackets and commas.

The text of such a statement is one clause after the other (`PlainStatement.clauses`), and each
clause begins with a lead that no other one begins with (`Lead.eq_of_prefix`). So the clauses can be
told apart from the front to the end, if inside of each clause one can tell where it ends; and no
more is needed for that than that a lead follows, or nothing (`FollowedUp`). Hence a statement can
be read back from its text (`PlainStatement.eq_of_text`).
-/

set_option autoImplicit false

namespace BoundSql

open Text

/-! ## Statements of names -/

/-- A name without a double quote. -/
abbrev Name : Type := {name : String // '\x22' ∉ name.toList}

/-- The name that a text spells, which is looked through for a double quote. -/
def Name.ofString (s : String) (h : s.toList.contains '\x22' = false) : Name :=
  ⟨s, by simpa using h⟩

/-- The wildcard as a name. -/
def Name.wildcard : Name := .ofString "*" (by decide)

/-- What a column is compared with: nothing, the absence of a value, another column, or a value. -/
inductive PlainTest where
  | bare
  | absent
  | same (other : Name)
  | bound (p : Placeholder)

/-- A comparison of a column. -/
structure PlainFilter where
  column : Name
  test : PlainTest

/-- A join of a table, on a pair of columns that are the same. -/
structure PlainJoin where
  kind : JoinKind
  table : Name
  label : Option Name
  condition : Option (Name × Name)

/-- A statement that selects rows. -/
structure PlainStatement where
  table : Option Name
  fields : List Name
  joins : List PlainJoin
  filters : List PlainFilter
  groups : List Name
  order : List Name
  limit : Option Int
  offset : Option Int

/-- The limit that the statement shows: its own, or else the default one. -/
def PlainStatement.shownLimit (o : Options) (c : PlainStatement) : Option Int :=
  c.limit.or (o.defaultLimit.map Int.ofNat)

/-- The integers that the statement shows can be written. -/
structure PlainStatement.Fits (o : Options) (c : PlainStatement) : Prop where
  limit : ∀ n, c.shownLimit o = some n → Decimal.Fits n
  offset : ∀ n, c.offset = some n → Decimal.Fits n

/-- The fields that the statement shows: its own, or else the wildcard. -/
def PlainStatement.shownFields (c : PlainStatement) : List Name :=
  if c.fields.isEmpty then [.wildcard] else c.fields

/-! ## The text of a statement -/

/-- A clause of a statement. -/
inductive PlainClause where
  | source (table : Name)
  | join (j : PlainJoin)
  | filters (fs : List PlainFilter)
  | groups (columns : List Name)
  | order (columns : List Name)
  | limit (n : Int)
  | offset (n : Int)

/-- What a clause begins with. -/
inductive Lead where
  | source
  | join (k : JoinKind)
  | filters
  | groups
  | order
  | limit
  | offset
  deriving DecidableEq

def Lead.all : List Lead :=
  [.source, .filters, .groups, .order, .limit, .offset] ++ JoinKind.all.map .join

theorem Lead.mem_all (l : Lead) : l ∈ Lead.all := by
  cases l with
  | join k => exact List.mem_append_right _ (List.mem_map_of_mem k.mem_all)
  | _ => simp [Lead.all]

/-- The keywords of a clause, with the spaces around them. -/
def Lead.text : Lead → List Char
  | .source => " FROM ".toList
  | .join k => ' ' :: (joinWords [k.before, "JOIN", k.after] ++ " ").toList
  | .filters => " WHERE ".toList
  | .groups => " GROUP BY ".toList
  | .order => " ORDER BY ".toList
  | .limit => " LIMIT ".toList
  | .offset => " OFFSET ".toList

/-- A name as it stands in a statement. -/
def Name.text (n : Name) : List Char := (Identifier.quote n.val).toList

/-- Names with commas. -/
def Name.listText (ns : List Name) : List Char := [',', ' '].intercalate (ns.map Name.text)

/-- What follows the column of a comparison. -/
def PlainTest.text : PlainTest → List Char
  | .bare => []
  | .absent => [' ', 'I', 'S', ' ', 'N', 'U', 'L', 'L']
  | .same other => [' ', '=', ' '] ++ other.text
  | .bound p => [' ', '=', ' ', ':'] ++ p.name.toList

def PlainFilter.text (f : PlainFilter) : List Char := f.column.text ++ f.test.text

/-- All comparisons as one condition. -/
def PlainFilter.conditionText : List PlainFilter → List Char
  | [f] => f.text
  | fs => '(' :: ([' ', 'A', 'N', 'D', ' '].intercalate (fs.map PlainFilter.text) ++ [')'])

/-- What follows the keywords of a join. -/
def PlainJoin.text (j : PlainJoin) : List Char :=
  j.table.text ++ (j.label.elim [] (fun n => ' ' :: n.text) ++
    j.condition.elim [] fun c =>
      [' ', 'O', 'N', ' '] ++ (c.1.text ++ ([' ', '=', ' '] ++ c.2.text)))

namespace PlainClause

def lead : PlainClause → Lead
  | .source _ => .source
  | .join j => .join j.kind
  | .filters _ => .filters
  | .groups _ => .groups
  | .order _ => .order
  | .limit _ => .limit
  | .offset _ => .offset

/-- What follows the keywords of a clause. -/
def body : PlainClause → List Char
  | .source table => table.text
  | .join j => j.text
  | .filters fs => PlainFilter.conditionText fs
  | .groups columns | .order columns => Name.listText columns
  | .limit n | .offset n => n.repr.toList

def text (c : PlainClause) : List Char := c.lead.text ++ c.body

/-- A clause that lists something lists one item or more. -/
def IsProper : PlainClause → Prop
  | .filters fs => fs ≠ []
  | .groups columns | .order columns => columns ≠ []
  | _ => True

end PlainClause

namespace PlainStatement

/-- A clause of items, if there are any. -/
def listed {α : Type} (clause : List α → PlainClause) (items : List α) : List PlainClause :=
  if items.isEmpty then [] else [clause items]

/-- The clauses after the fields. -/
def clauses (o : Options) (c : PlainStatement) : List PlainClause :=
  c.table.toList.map .source ++ (c.joins.map .join ++ (listed .filters c.filters ++
    (listed .groups c.groups ++ (listed .order c.order ++
      ((c.shownLimit o).toList.map .limit ++ c.offset.toList.map .offset)))))

/-- The whole statement. -/
def text (o : Options) (c : PlainStatement) : List Char :=
  "SELECT ".toList ++ (Name.listText c.shownFields ++ (c.clauses o).flatMap PlainClause.text)

end PlainStatement

/-! ## Leads -/

/-- **No lead begins another one.** -/
theorem Lead.eq_of_prefix {l l' : Lead} (h : l.text <+: l'.text) : l = l' := by
  have : ∀ l ∈ Lead.all, ∀ l' ∈ Lead.all, l.text <+: l'.text → l = l' := by decide +kernel
  exact this l l.mem_all l' l'.mem_all h

/-- A clause follows, or nothing. -/
def FollowedUp (r : List Char) : Prop := r = [] ∨ ∃ l : Lead, l.text <+: r

/-- What is neither the beginning of a lead nor begins with one does not follow. -/
theorem FollowedUp.not_prefix {r : List Char} (h : FollowedUp r) {w : List Char} (hne : w ≠ [])
    (hw : ∀ l ∈ Lead.all, ¬ w <+: l.text ∧ ¬ l.text <+: w) : ¬ w <+: r := by
  rintro hr
  rcases h with rfl | ⟨l, hl⟩
  · exact hne (List.prefix_nil.mp hr)
  · obtain ⟨h, h'⟩ := hw l l.mem_all
    exact (List.prefix_or_prefix_of_prefix hr hl).elim h h'

/-! ## Names -/

theorem delimits_quoteSegment :
    Delimits (fun s => '\x22' ∉ s) (fun _ => True) Identifier.quoteSegment := by
  intro s t r r' hs ht _ _ heq
  unfold Identifier.quoteSegment at heq
  split at heq <;> split at heq
  · rename_i hs ht
    rw [hs, ht] at heq ⊢
    exact ⟨rfl, List.append_cancel_left heq⟩
  · rename_i hs _
    rw [hs] at heq
    cases heq
  · rename_i _ ht
    rw [ht] at heq
    cases heq
  · -- The second quote is the first one after the segment.
    simp only [List.cons_append, List.append_assoc, List.cons.injEq, true_and] at heq
    have free : ∀ {s : List Char}, '\x22' ∉ s → ∀ c ∈ s, (c != '\x22') = true := by
      intro s hs c hc
      exact bne_iff_ne.mpr fun h => hs (h ▸ hc)
    obtain ⟨rfl, hrest⟩ := delimits_words (· != '\x22') (free hs) (free ht) (by simp) (by simp) heq
    exact ⟨rfl, (List.cons.inj hrest).2⟩

namespace Name

theorem text_eq (n : Name) :
    n.text = ['.'].intercalate ((Identifier.segments n.val).map Identifier.quoteSegment) := by
  rw [text, Identifier.quote, String.toList_ofList]

theorem quoteFree_of_mem_segments (n : Name) {s : List Char} (hs : s ∈ Identifier.segments n.val) :
    '\x22' ∉ s :=
  fun hmem => n.property (mem_of_mem_segments hs hmem)

/-- A name ends where no dot follows. -/
theorem delimits : Delimits (fun _ => True) (fun r => ¬ ['.'] <+: r) Name.text := by
  have segments := (delimits_quoteSegment.intercalate (w := ['.']) (E := fun r => ¬ ['.'] <+: r)
    (fun _ => trivial) (fun _ _ => trivial)
    (fun r r' hr' heq => hr' (heq ▸ List.prefix_append _ _)))
  intro n m r r' _ _ hr hr' heq
  rw [text_eq, text_eq] at heq
  obtain ⟨hsegments, hrest⟩ := segments
    ⟨Identifier.segments_ne_nil _, fun s hs => n.quoteFree_of_mem_segments hs⟩
    ⟨Identifier.segments_ne_nil _, fun s hs => m.quoteFree_of_mem_segments hs⟩ hr hr' heq
  exact ⟨Subtype.ext (Identifier.segments_injective hsegments), hrest⟩

/-- A name begins with a quote or the wildcard. -/
theorem exists_text (n : Name) : ∃ c rest, n.text = c :: rest ∧ (c = '\x22' ∨ c = '*') := by
  rw [text_eq]
  obtain ⟨s, rest, hs⟩ := List.exists_cons_of_ne_nil (Identifier.segments_ne_nil n.val)
  rw [hs, List.map_cons, intercalate_cons]
  unfold Identifier.quoteSegment
  split
  · rename_i h
    subst h
    exact ⟨'*', _, rfl, .inr rfl⟩
  · exact ⟨'\x22', _, rfl, .inl rfl⟩

theorem endsDark (n : Name) : EndsDark n.text := by
  rw [text_eq]
  refine EndsDark.intercalate _ (Identifier.segments_ne_nil _) fun s _ => ?_
  unfold Identifier.quoteSegment
  split
  · rename_i h
    subst h
    exact ⟨'*', rfl, by decide⟩
  · exact EndsDark.append ('\x22' :: s) ⟨'\x22', rfl, by decide⟩

/-- A list of names ends where neither a dot nor a comma follows. -/
theorem listText_delimits :
    Delimits (fun ns => ns ≠ []) (fun r => ¬ ['.'] <+: r ∧ ¬ [',', ' '] <+: r) Name.listText := by
  have names := (delimits.intercalate (w := [',', ' '])
    (E := fun r => ¬ ['.'] <+: r ∧ ¬ [',', ' '] <+: r) (fun r => by simp) (fun _ => And.left)
    (fun r r' hr' heq => hr'.2 (heq ▸ List.prefix_append _ _)))
  exact names.mono (fun ns h => ⟨h, fun _ _ => trivial⟩) fun _ => id

end Name

/-! ## Comparisons -/

/-- What shows the end of a comparison. -/
structure EndsTest (r : List Char) : Prop where
  dot : ¬ ['.'] <+: r
  same : ¬ [' ', '=', ' '] <+: r
  absent : ¬ [' ', 'I', 'S', ' ', 'N', 'U', 'L', 'L'] <+: r
  word : ∀ c ∈ r.head?, isWord (fun _ => false) c = false

theorem Placeholder.name_injective {p q : Placeholder} (h : p.name = q.name) : p = q := by
  obtain ⟨tag, digits⟩ := p
  obtain ⟨tag', digits'⟩ := q
  have hlist := String.toList_inj.mpr h
  simp only [Placeholder.name, String.toList_append, String.toList_ofList] at hlist
  have htag : tag = tag' := by
    cases tag <;> cases tag' <;> first | rfl | (exfalso; simp [Tag.text] at hlist)
  subst htag
  have hdigits := List.map_injective_iff.mpr (fun _ _ => hexDigit_injective)
    (List.append_cancel_left hlist)
  rw [hdigits]

/-- What is compared with something is not taken for what follows. -/
theorem PlainTest.text_append_ne {t : PlainTest} (ht : t ≠ .bare) {r r' : List Char}
    (hr' : EndsTest r') : t.text ++ r ≠ r' := by
  rintro rfl
  cases t with
  | bare => exact ht rfl
  | absent => exact hr'.absent (List.prefix_append _ _)
  | same other =>
    rw [text, List.append_assoc] at hr'
    exact hr'.same (List.prefix_append _ _)
  | bound p => exact hr'.same ⟨':' :: (p.name.toList ++ r), rfl⟩

theorem PlainTest.delimits : Delimits (fun _ => True) EndsTest PlainTest.text := by
  intro t u r r' _ _ hr hr' heq
  by_cases ht : t = .bare
  · by_cases hu : u = .bare
    · rw [ht, hu] at heq ⊢
      exact ⟨rfl, heq⟩
    · rw [ht] at heq
      exact absurd heq.symm (text_append_ne hu hr)
  by_cases hu : u = .bare
  · rw [hu] at heq
    exact absurd heq (text_append_ne ht hr')
  -- A column begins otherwise than a placeholder does.
  have column : ∀ (n : Name) (r rest : List Char), n.text ++ r ≠ ':' :: rest := by
    intro n r rest h
    obtain ⟨c, text, htext, hc⟩ := n.exists_text
    rw [htext, List.cons_append] at h
    obtain ⟨rfl, -⟩ := List.cons.inj h
    exact absurd hc (by decide)
  cases t with
  | bare => exact absurd rfl ht
  | absent =>
    cases u with
    | bare => exact absurd rfl hu
    | absent => exact ⟨rfl, List.append_cancel_left heq⟩
    | same other => exact absurd heq (by simp [text])
    | bound p => exact absurd heq (by simp [text])
  | same other =>
    cases u with
    | bare => exact absurd rfl hu
    | absent => exact absurd heq (by simp [text])
    | same other' =>
      obtain ⟨rfl, hrest⟩ := Name.delimits.lead [' ', '=', ' '] trivial trivial hr.dot hr'.dot heq
      exact ⟨rfl, hrest⟩
    | bound p => exact absurd (by simpa [text] using heq) (column other r _)
  | bound p =>
    cases u with
    | bare => exact absurd rfl hu
    | absent => exact absurd heq (by simp [text])
    | same other => exact absurd (by simpa [text] using heq.symm) (column other r' _)
    | bound q =>
      obtain ⟨hname, hrest⟩ := (delimits_words (isWord fun _ => false)).lead [' ', '=', ' ', ':']
        (fun _ => isWord_of_mem_name p) (fun _ => isWord_of_mem_name q) hr.word hr'.word heq
      rw [Placeholder.name_injective (String.toList_inj.mp hname)]
      exact ⟨rfl, hrest⟩

/-- What follows a column does not make its name longer. -/
theorem PlainTest.not_dot (t : PlainTest) {r : List Char} (hr : EndsTest r) :
    ¬ ['.'] <+: t.text ++ r := by
  cases t with
  | bare => exact hr.dot
  | _ => simp [text]

theorem PlainFilter.delimits : Delimits (fun _ => True) EndsTest PlainFilter.text := by
  have parts := Name.delimits.pair PlainTest.delimits fun t r _ hr => t.not_dot hr
  have whole := parts.comap (f := fun f : PlainFilter => (f.column, f.test)) (by
    rintro ⟨c, t⟩ ⟨c', t'⟩ h
    cases h
    rfl)
  exact whole.mono (fun _ _ => ⟨trivial, trivial⟩) fun _ => id

theorem PlainFilter.conditionText_many (f g : PlainFilter) (fs : List PlainFilter) :
    conditionText (f :: g :: fs) = ['('] ++
      ([' ', 'A', 'N', 'D', ' '].intercalate ((f :: g :: fs).map PlainFilter.text) ++ [')']) := by
  rw [conditionText, List.singleton_append]
  simp

/-- The condition of all comparisons ends where one of them would. -/
theorem PlainFilter.conditionText_delimits :
    Delimits (fun fs => fs ≠ []) EndsTest PlainFilter.conditionText := by
  have inside := delimits.intercalate (w := [' ', 'A', 'N', 'D', ' ']) (E := fun r => [')'] <+: r)
    (fun r => ⟨by simp, by simp, by simp, by simp; decide⟩)
    (fun r hr => by
      obtain ⟨r, rfl⟩ := hr
      exact ⟨by simp, by simp, by simp, by simp; decide⟩)
    (fun r r' hr' heq => by
      obtain ⟨r', rfl⟩ := hr'
      cases heq)
  have brackets := (inside.trail (w := [')']) fun r => List.prefix_append _ _).lead ['(']
  -- A single comparison begins with the name of its column.
  have single : ∀ (f : PlainFilter) (r rest : List Char), f.text ++ r ≠ '(' :: rest := by
    intro f r rest h
    obtain ⟨c, text, htext, hc⟩ := f.column.exists_text
    rw [PlainFilter.text, htext, List.cons_append] at h
    obtain ⟨rfl, -⟩ := List.cons.inj h
    exact absurd hc (by decide)
  rintro (_ | ⟨f, _ | ⟨f₂, fs⟩⟩) (_ | ⟨g, _ | ⟨g₂, gs⟩⟩) r r' hfs hgs hr hr' heq
  · exact absurd rfl hfs
  · exact absurd rfl hfs
  · exact absurd rfl hfs
  · exact absurd rfl hgs
  · obtain ⟨rfl, hrest⟩ := delimits trivial trivial hr hr' heq
    exact ⟨rfl, hrest⟩
  · exact absurd heq (single f r _)
  · exact absurd rfl hgs
  · exact absurd heq.symm (single g r' _)
  · rw [conditionText_many, conditionText_many] at heq
    exact brackets ⟨hfs, fun _ _ => trivial⟩ ⟨hgs, fun _ _ => trivial⟩ trivial trivial heq

/-! ## What may follow -/

namespace FollowedUp

variable {r : List Char}

theorem not_dot (h : FollowedUp r) : ¬ ['.'] <+: r :=
  h.not_prefix (by simp) (by decide +kernel)

theorem head (h : FollowedUp r) {c : Char} (hc : c ∈ r.head?) : c = ' ' := by
  rcases h with rfl | ⟨l, rest, rfl⟩
  · cases hc
  · have spaced : ∀ l ∈ Lead.all, l.text.head? = some ' ' := by decide +kernel
    rw [List.head?_append, spaced l l.mem_all] at hc
    exact (Option.some.inj hc).symm

theorem endsTest (h : FollowedUp r) : EndsTest r where
  dot := h.not_dot
  same := h.not_prefix (by simp) (by decide +kernel)
  absent := h.not_prefix (by simp) (by decide +kernel)
  word := by
    intro c hc
    rw [h.head hc]
    rfl

end FollowedUp

/-! ## Joins and numbers -/

/-- No label follows. -/
structure EndsLabel (r : List Char) : Prop where
  dot : ¬ ['.'] <+: r
  quoted : ¬ [' ', '\x22'] <+: r
  wildcard : ¬ [' ', '*'] <+: r

theorem FollowedUp.endsLabel {r : List Char} (h : FollowedUp r) : EndsLabel r :=
  ⟨h.not_dot, h.not_prefix (by simp) (by decide +kernel),
    h.not_prefix (by simp) (by decide +kernel)⟩

namespace PlainJoin

theorem label_delimits : Delimits (fun o : Option Name => ∀ n ∈ o, True) EndsLabel
    (fun o => o.elim [] fun n => [' '] ++ n.text) := by
  refine ((Name.delimits.lead [' ']).mono (fun _ => id) fun r hr => hr.dot).option ?_
  rintro n r _ - hr' rfl
  obtain ⟨c, rest, htext, rfl | rfl⟩ := n.exists_text
  · exact hr'.quoted ⟨rest ++ r, by simp [htext]⟩
  · exact hr'.wildcard ⟨rest ++ r, by simp [htext]⟩

theorem condition_delimits : Delimits (fun o : Option (Name × Name) => ∀ c ∈ o, True ∧ True)
    FollowedUp
    (fun o => o.elim [] fun c =>
      [' ', 'O', 'N', ' '] ++ (c.1.text ++ ([' ', '=', ' '] ++ c.2.text))) := by
  have pair := Name.delimits.pair (Name.delimits.lead [' ', '=', ' ']) fun _ _ _ _ => by simp
  refine ((pair.lead [' ', 'O', 'N', ' ']).mono (fun _ => id) fun r hr => hr.not_dot).option ?_
  rintro c r _ - hr' rfl
  rw [List.append_assoc] at hr'
  exact hr'.not_prefix (by simp) (by decide +kernel) (List.prefix_append _ _)

/-- A join of a known kind ends where the next clause begins. -/
theorem eq_of_text {j j' : PlainJoin} (hk : j.kind = j'.kind) {r r' : List Char}
    (hr : FollowedUp r) (hr' : FollowedUp r') (heq : j.text ++ r = j'.text ++ r') :
    j = j' ∧ r = r' := by
  have afterLabel : ∀ (o : Option (Name × Name)) (r : List Char), FollowedUp r →
      EndsLabel (o.elim [] (fun c =>
        [' ', 'O', 'N', ' '] ++ (c.1.text ++ ([' ', '=', ' '] ++ c.2.text))) ++ r) := by
    intro o r hr
    cases o with
    | none => exact hr.endsLabel
    | some c => exact ⟨by simp, by simp, by simp⟩
  have tail := label_delimits.pair condition_delimits fun o r _ hr => afterLabel o r hr
  have whole := Name.delimits.pair tail fun p r _ hr => by
    obtain ⟨label, condition⟩ := p
    cases label with
    | none => exact (afterLabel condition r hr).dot
    | some n => simp
  obtain ⟨kind, table, label, condition⟩ := j
  obtain ⟨kind', table', label', condition'⟩ := j'
  obtain ⟨hparts, hrest⟩ := @whole (table, label, condition) (table', label', condition') r r'
    ⟨trivial, fun _ _ => trivial, fun _ _ => ⟨trivial, trivial⟩⟩
    ⟨trivial, fun _ _ => trivial, fun _ _ => ⟨trivial, trivial⟩⟩ hr hr' heq
  cases hparts
  cases hk
  exact ⟨rfl, hrest⟩

end PlainJoin

/-- A character of an integer. -/
def isNumeral (c : Char) : Bool := c.isDigit || c == '-'

theorem isDigit_of_mem_natRepr {n : Nat} {c : Char} (hc : c ∈ (Nat.repr n).toList) :
    c.isDigit = true := by
  rw [Nat.repr, String.toList_ofList] at hc
  exact Nat.isDigit_of_mem_toDigits (by decide) (by decide) hc

theorem isNumeral_of_mem_repr {n : Int} {c : Char} (hc : c ∈ n.repr.toList) :
    isNumeral c = true := by
  cases n with
  | ofNat m =>
    rw [isNumeral, isDigit_of_mem_natRepr hc]
    rfl
  | negSucc m =>
    rw [Int.repr, String.toList_append, List.mem_append] at hc
    rcases hc with hc | hc
    · obtain rfl := List.mem_singleton.mp (show c ∈ ['-'] from hc)
      rfl
    · rw [isNumeral, isDigit_of_mem_natRepr hc]
      rfl

theorem delimits_repr :
    Delimits (fun _ : Int => True) FollowedUp (fun n => n.repr.toList) := by
  have words := (delimits_words isNumeral).comap (f := fun n : Int => n.repr.toList)
    fun n m h => Int.repr_inj.mp (String.toList_inj.mp h)
  refine words.mono (fun n _ c hc => isNumeral_of_mem_repr hc) fun r hr c hc => ?_
  rw [hr.head hc]
  rfl

/-! ## Clauses -/

namespace PlainClause

/-- **A clause shows what it is and where it ends**, in front of another one or of nothing. -/
theorem delimits : Delimits IsProper FollowedUp text := by
  intro x y r r' hx hy hr hr' heq
  rw [text, text, List.append_assoc, List.append_assoc] at heq
  have hlead : x.lead = y.lead := by
    rcases List.prefix_or_prefix_of_prefix (List.prefix_append x.lead.text (x.body ++ r))
      (heq ▸ List.prefix_append y.lead.text (y.body ++ r')) with h | h
    · exact Lead.eq_of_prefix h
    · exact (Lead.eq_of_prefix h).symm
  rw [hlead] at heq
  have hbody : x.body ++ r = y.body ++ r' := List.append_cancel_left heq
  have names : ∀ {r : List Char}, FollowedUp r → ¬ ['.'] <+: r ∧ ¬ [',', ' '] <+: r := fun hr =>
    ⟨hr.not_dot, hr.not_prefix (by simp) (by decide +kernel)⟩
  cases x with
  | source n =>
    cases y with
    | source m =>
      obtain ⟨rfl, hrest⟩ := Name.delimits trivial trivial hr.not_dot hr'.not_dot hbody
      exact ⟨rfl, hrest⟩
    | _ => cases hlead
  | join j =>
    cases y with
    | join j' =>
      obtain ⟨rfl, hrest⟩ := PlainJoin.eq_of_text (Lead.join.inj hlead) hr hr' hbody
      exact ⟨rfl, hrest⟩
    | _ => cases hlead
  | filters fs =>
    cases y with
    | filters gs =>
      obtain ⟨rfl, hrest⟩ :=
        PlainFilter.conditionText_delimits hx hy hr.endsTest hr'.endsTest hbody
      exact ⟨rfl, hrest⟩
    | _ => cases hlead
  | groups ns =>
    cases y with
    | groups ms =>
      obtain ⟨rfl, hrest⟩ := Name.listText_delimits hx hy (names hr) (names hr') hbody
      exact ⟨rfl, hrest⟩
    | _ => cases hlead
  | order ns =>
    cases y with
    | order ms =>
      obtain ⟨rfl, hrest⟩ := Name.listText_delimits hx hy (names hr) (names hr') hbody
      exact ⟨rfl, hrest⟩
    | _ => cases hlead
  | limit n =>
    cases y with
    | limit m =>
      obtain ⟨rfl, hrest⟩ := delimits_repr trivial trivial hr hr' hbody
      exact ⟨rfl, hrest⟩
    | _ => cases hlead
  | offset n =>
    cases y with
    | offset m =>
      obtain ⟨rfl, hrest⟩ := delimits_repr trivial trivial hr hr' hbody
      exact ⟨rfl, hrest⟩
    | _ => cases hlead

theorem followedUp (c : PlainClause) (r : List Char) : FollowedUp (c.text ++ r) :=
  .inr ⟨c.lead, by rw [text, List.append_assoc]; exact List.prefix_append _ _⟩

end PlainClause

namespace PlainStatement

theorem isProper_of_mem_listed {α : Type} {clause : List α → PlainClause}
    (hclause : ∀ items, items ≠ [] → (clause items).IsProper) {items : List α} {c : PlainClause}
    (hc : c ∈ listed clause items) : c.IsProper := by
  unfold listed at hc
  split at hc
  · cases hc
  · rename_i hne
    rw [List.mem_singleton.mp hc]
    exact hclause items (by simpa using hne)

theorem isProper_of_mem {o : Options} {c : PlainStatement} {d : PlainClause}
    (hd : d ∈ c.clauses o) : d.IsProper := by
  simp only [clauses, List.mem_append, List.mem_map] at hd
  rcases hd with ⟨_, -, rfl⟩ | ⟨_, -, rfl⟩ | hd | hd | hd | ⟨_, -, rfl⟩ | ⟨_, -, rfl⟩
  · trivial
  · trivial
  · exact isProper_of_mem_listed (fun _ => id) hd
  · exact isProper_of_mem_listed (fun _ => id) hd
  · exact isProper_of_mem_listed (fun _ => id) hd
  · trivial
  · trivial

theorem shownFields_ne_nil (c : PlainStatement) : c.shownFields ≠ [] := by
  unfold shownFields
  split
  · simp
  · rename_i h
    simpa using h

/-- **The text of a statement tells its fields and its clauses.** -/
theorem eq_of_text {o o' : Options} {c c' : PlainStatement} (h : c.text o = c'.text o') :
    c.shownFields = c'.shownFields ∧ c.clauses o = c'.clauses o' := by
  have clauses := PlainClause.delimits.flatMap (E := (· = []))
    (fun d r _ => d.followedUp r) (fun r hr => .inl hr) (by
      rintro d r _ - rfl hnil
      have spaced : ∀ l ∈ Lead.all, l.text ≠ [] := by decide +kernel
      rw [PlainClause.text, List.append_assoc] at hnil
      exact spaced _ d.lead.mem_all (List.append_eq_nil_iff.mp hnil).1)
  have whole := Name.listText_delimits.pair clauses fun ds r _ hr => by
    have hfollow : FollowedUp (ds.flatMap PlainClause.text ++ r) := by
      cases ds with
      | nil => exact .inl hr
      | cons d ds =>
        rw [List.flatMap_cons, List.append_assoc]
        exact d.followedUp _
    exact ⟨hfollow.not_dot, hfollow.not_prefix (by simp) (by decide +kernel)⟩
  have heq := List.append_cancel_left h
  obtain ⟨hparts, -⟩ := @whole (c.shownFields, c.clauses o) (c'.shownFields, c'.clauses o') [] []
    ⟨c.shownFields_ne_nil, fun _ => isProper_of_mem⟩
    ⟨c'.shownFields_ne_nil, fun _ => isProper_of_mem⟩ rfl rfl (by simpa using heq)
  exact Prod.mk.inj hparts

end PlainStatement

/-! ## Statements end with no blank -/

/-- A word ends with no blank. -/
theorem endsDark_of_forall {p : Char → Bool} (hp : ∀ c, p c = true → isBlank c = false)
    {cs : List Char} (hne : cs ≠ []) (hcs : ∀ c ∈ cs, p c = true) : EndsDark cs :=
  ⟨cs.getLast hne, List.getLast?_eq_some_getLast hne, hp _ (hcs _ (List.getLast_mem hne))⟩

theorem not_isBlank_of_isWord (beyond : Char → Bool) {c : Char} (h : isWord beyond c = true) :
    isBlank c = false := by
  refine Bool.eq_false_iff.mpr fun hblank => ?_
  rw [isWord_of_isBlank hblank] at h
  cases h

theorem PlainFilter.endsDark (f : PlainFilter) : EndsDark f.text := by
  obtain ⟨column, test⟩ := f
  cases test with
  | bare =>
    rw [text, PlainTest.text, List.append_nil]
    exact column.endsDark
  | absent => exact EndsDark.append _ ⟨'L', rfl, by decide⟩
  | same other => exact EndsDark.append _ (other.endsDark.append _)
  | bound p =>
    refine EndsDark.append _ (EndsDark.append _ ?_)
    refine endsDark_of_forall (p := isWord fun _ => false) (fun _ => not_isBlank_of_isWord _) ?_
      fun _ => isWord_of_mem_name p
    rw [Placeholder.name, String.toList_append]
    cases p.tag <;> simp [Tag.text]

theorem PlainJoin.endsDark (j : PlainJoin) : EndsDark j.text := by
  obtain ⟨kind, table, label, condition⟩ := j
  cases condition with
  | some c =>
    have hcondition := ((c.2.endsDark.append [' ', '=', ' ']).append c.1.text).append
      [' ', 'O', 'N', ' ']
    exact EndsDark.append _ (EndsDark.append _ hcondition)
  | none =>
    rw [text, Option.elim_none, List.append_nil]
    cases label with
    | some n => exact EndsDark.append _ (n.endsDark.append [' '])
    | none =>
      rw [Option.elim_none, List.append_nil]
      exact table.endsDark

theorem endsDark_repr (n : Int) : EndsDark n.repr.toList := by
  have hnumeral : ∀ c, isNumeral c = true → isBlank c = false := by
    intro c hc
    rcases Bool.or_eq_true_iff.mp hc with h | h
    · refine not_isBlank_of_isWord (fun _ => false) ?_
      have hascii : c.toNat < 128 := by
        have hdigit : 48 ≤ c.val ∧ c.val ≤ 57 := by simpa [Char.isDigit] using h
        exact Nat.lt_of_le_of_lt (UInt32.le_iff_toNat_le.mp hdigit.2) (by decide)
      simp [isWord, hascii, Char.isAlphanum, h]
    · rw [beq_iff_eq.mp h]
      rfl
  refine endsDark_of_forall hnumeral ?_ fun _ => isNumeral_of_mem_repr
  cases n with
  | ofNat n => exact fun h => Nat.repr_ne_empty (String.toList_eq_nil_iff.mp h)
  | negSucc n =>
    rw [Int.repr, String.toList_append]
    exact List.cons_ne_nil _ _

theorem Name.listText_endsDark {ns : List Name} (h : ns ≠ []) : EndsDark (Name.listText ns) :=
  EndsDark.intercalate _ h fun n _ => n.endsDark

theorem PlainClause.endsDark {c : PlainClause} (h : c.IsProper) : EndsDark c.text := by
  refine EndsDark.append _ ?_
  cases c with
  | source n => exact n.endsDark
  | join j => exact j.endsDark
  | filters fs =>
    match fs with
    | [] => exact absurd rfl h
    | [f] => exact f.endsDark
    | f :: g :: fs =>
      rw [body, PlainFilter.conditionText_many]
      exact EndsDark.append _ (EndsDark.append _ ⟨')', rfl, by decide⟩)
  | groups ns | order ns => exact Name.listText_endsDark h
  | limit n | offset n => exact endsDark_repr n

theorem PlainStatement.endsDark (o : Options) (c : PlainStatement) : EndsDark (c.text o) := by
  refine EndsDark.append _ (EndsDark.flatMap ?_ fun d hd => ?_)
  · exact Name.listText_endsDark c.shownFields_ne_nil
  · exact PlainClause.endsDark (isProper_of_mem hd)

/-! ## The clauses of a statement -/

namespace PlainClause

/-! What one clause says, as a list of one or of none. -/

def tablesOf : PlainClause → List Name
  | .source table => [table]
  | _ => []

def joinsOf : PlainClause → List PlainJoin
  | .join j => [j]
  | _ => []

def filtersOf : PlainClause → List PlainFilter
  | .filters fs => fs
  | _ => []

def groupsOf : PlainClause → List Name
  | .groups columns => columns
  | _ => []

def orderOf : PlainClause → List Name
  | .order columns => columns
  | _ => []

def limitsOf : PlainClause → List Int
  | .limit n => [n]
  | _ => []

def offsetsOf : PlainClause → List Int
  | .offset n => [n]
  | _ => []

end PlainClause

/-- What all clauses say, one slot after the other. -/
theorem PlainStatement.flatMap_clauses {α : Type} {f : PlainClause → List α}
    (hfilters : f (.filters []) = []) (hgroups : f (.groups []) = []) (horder : f (.order []) = [])
    (o : Options) (c : PlainStatement) :
    (c.clauses o).flatMap f =
      c.table.toList.flatMap (fun n => f (.source n)) ++ (c.joins.flatMap (fun j => f (.join j)) ++
        (f (.filters c.filters) ++ (f (.groups c.groups) ++ (f (.order c.order) ++
          ((c.shownLimit o).toList.flatMap (fun n => f (.limit n)) ++
            c.offset.toList.flatMap (fun n => f (.offset n))))))) := by
  have items : ∀ {β : Type} (clause : List β → PlainClause) (items : List β),
      f (clause []) = [] → (listed clause items).flatMap f = f (clause items) := by
    intro β clause items hnil
    cases items with
    | nil => exact hnil.symm
    | cons x items => simp [listed]
  simp only [clauses, List.flatMap_append, List.flatMap_map, items _ _ hfilters,
    items _ _ hgroups, items _ _ horder]

theorem Option.eq_of_toList {α : Type} {x y : Option α} (h : x.toList = y.toList) : x = y := by
  cases x <;> cases y <;> simp_all

/-- **The clauses tell the slots.** -/
theorem PlainStatement.slots_eq_of_clauses_eq {o o' : Options} {c c' : PlainStatement}
    (h : c.clauses o = c'.clauses o') :
    c.table = c'.table ∧ c.joins = c'.joins ∧ c.filters = c'.filters ∧ c.groups = c'.groups ∧
      c.order = c'.order ∧ c.shownLimit o = c'.shownLimit o' ∧ c.offset = c'.offset := by
  have slots : ∀ (o : Options) (c : PlainStatement),
      (c.clauses o).flatMap PlainClause.tablesOf = c.table.toList ∧
      (c.clauses o).flatMap PlainClause.joinsOf = c.joins ∧
      (c.clauses o).flatMap PlainClause.filtersOf = c.filters ∧
      (c.clauses o).flatMap PlainClause.groupsOf = c.groups ∧
      (c.clauses o).flatMap PlainClause.orderOf = c.order ∧
      (c.clauses o).flatMap PlainClause.limitsOf = (c.shownLimit o).toList ∧
      (c.clauses o).flatMap PlainClause.offsetsOf = c.offset.toList := by
    intro o c
    have nothing : ∀ {α β : Type} (items : List α), items.flatMap (fun _ => ([] : List β)) = [] :=
      fun items => List.flatMap_eq_nil_iff.mpr fun _ _ => rfl
    refine ⟨?_, ?_, ?_, ?_, ?_, ?_, ?_⟩ <;> rw [flatMap_clauses rfl rfl rfl] <;>
      simp only [PlainClause.tablesOf, PlainClause.joinsOf, PlainClause.filtersOf,
        PlainClause.groupsOf, PlainClause.orderOf, PlainClause.limitsOf, PlainClause.offsetsOf,
        nothing, List.flatMap_singleton', List.nil_append, List.append_nil]
  obtain ⟨h₁, h₂, h₃, h₄, h₅, h₆, h₇⟩ := slots o c
  obtain ⟨h₁', h₂', h₃', h₄', h₅', h₆', h₇'⟩ := slots o' c'
  rw [h] at h₁ h₂ h₃ h₄ h₅ h₆ h₇
  exact ⟨Option.eq_of_toList (h₁.symm.trans h₁'), h₂.symm.trans h₂', h₃.symm.trans h₃',
    h₄.symm.trans h₄', h₅.symm.trans h₅', Option.eq_of_toList (h₆.symm.trans h₆'),
    Option.eq_of_toList (h₇.symm.trans h₇')⟩

end BoundSql

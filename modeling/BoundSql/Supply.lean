import BoundSql.Value

/-!
# The supply of placeholders

The supply hands out the digits of its stream in order and never twice, so whether two names can
collide depends on the stream alone. It keeps the placeholders it has given out, and what for,
so that this can be said.
-/

set_option autoImplicit false

namespace BoundSql

/-- A stream of digits with the place that it has been read to, and the placeholders made from
it, each with the value that it was made for. -/
structure Supply where
  stream : Nat → Fin 16
  position : Nat
  issued : List (Placeholder × Value)

namespace Supply

/-- A stream that nothing has been drawn from. -/
def ofStream (stream : Nat → Fin 16) : Supply := ⟨stream, 0, []⟩

/-- The digits `00000001 00000002 …`: one counter after the other, each of eight digits. -/
def counting (i : Nat) : Fin 16 :=
  ⟨(i / 8 + 1) / Nat.pow 16 (7 - i % 8) % 16, Nat.mod_lt _ (by decide)⟩

/-- The given digits over and over; zeros if there are none. -/
def repeating (digits : List (Fin 16)) (i : Nat) : Fin 16 :=
  digits.getD (i % digits.length) ⟨0, by decide⟩

/-- The next `n` digits. -/
def draw (n : Nat) (s : Supply) : List (Fin 16) × Supply :=
  ((List.range n).map fun i => s.stream (s.position + i),
    { s with position := s.position + n })

/-- A fresh placeholder of the given kind for a value. -/
def fresh (tag : Tag) (v : Value) (s : Supply) : Placeholder × Supply :=
  let (digits, s) := s.draw Placeholder.width
  let p : Placeholder := ⟨tag, digits⟩
  (p, { s with issued := s.issued ++ [(p, v)] })

/-! ## What a draw does to the supply -/

variable (tag : Tag) (v : Value) (s : Supply)

@[simp] theorem stream_fresh : (s.fresh tag v).2.stream = s.stream := rfl

@[simp] theorem position_fresh : (s.fresh tag v).2.position = s.position + Placeholder.width :=
  rfl

@[simp] theorem issued_fresh :
    (s.fresh tag v).2.issued = s.issued ++ [((s.fresh tag v).1, v)] := rfl

@[simp] theorem tag_fresh : (s.fresh tag v).1.tag = tag := rfl

theorem digits_fresh :
    (s.fresh tag v).1.digits = (List.range 8).map fun i => s.stream (s.position + i) := rfl

end Supply

end BoundSql

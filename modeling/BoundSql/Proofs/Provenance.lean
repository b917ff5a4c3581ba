import BoundSql.Proofs.Discipline
import Mathlib.Data.List.Nodup
import Mathlib.Logic.Relation

/-!
# Where bound values come from

A value that is bound somewhere travels: through the maps of all fragments around it, through the
slots of builders, and, when a callback answers, through the map that a nested statement takes from
its builder. On the way maps are merged many times, in orders that differ from that of the text.

`Contains` is the way itself: a node is a fragment or a builder, and a step leads from a node to a
fragment that it holds as a part, or from a nested statement to the builder it stems from. Two
things are shown, each by induction along the way or over the run:

* keys travel up: a name that a part binds is a name that the whole binds, whatever else is merged
  in (`Contains.str_mem_keys`);
* entries are traced: whatever a node binds was made for a placeholder inside of it, or was bound
  by hand on a builder inside of it (`traced`).

Together they say that no bound value is lost, swapped or altered (`bindings_exact`), as long as
generated names do not collide. Nested statements that agree in their text and in their values
cannot be told apart; `Child` leads from one to every builder that it may stem from.
-/

set_option autoImplicit false

namespace BoundSql

/-- A fragment or a builder, with the slots as they were at some time. -/
inductive Node where
  | fragment (f : Fragment)
  | builder (b : Builder)

/-- What a node binds. -/
def Node.bindings : Node → Bindings
  | .fragment f => f.bindings
  | .builder b => b.bindings

/-- One step down: to a part, to a fragment in a slot, or into a nested statement. -/
inductive Node.Child (history : List Event) : Node → Node → Prop where
  | part {f g : Fragment} (h : g ∈ f.children) : Child history (.fragment f) (.fragment g)
  | slot {b : Builder} {g : Fragment} (h : g ∈ b.children) :
      Child history (.builder b) (.fragment g)
  | nested {s : SubSelect} {b : Builder} (h : .nested b s.sql ∈ history)
      (hb : s.bound = b.bindings) : Child history (.fragment (.subSelect s)) (.builder b)
  | member {texts : List String} {modifier : Value} {bound : Bindings} {bs : List Builder}
      {b : Builder} (h : List.Forall₂ (fun b sql => .nested b sql ∈ history) bs texts)
      (hb : bound = Entries.mergeAll (bs.map Builder.bindings)) (hmem : b ∈ bs) :
      Child history (.fragment (.union texts modifier bound)) (.builder b)

/-- Any number of steps down. -/
abbrev Node.Contains (history : List Event) : Node → Node → Prop :=
  Relation.ReflTransGen (Node.Child history)

/-! ## Keys travel up -/

/-- **A name that a node binds is bound by every node around it.** -/
theorem Node.Contains.str_mem_keys {history : List Event} {n m : Node}
    (h : Node.Contains history n m) {t : String} (ht : .str t ∈ Entries.keys m.bindings) :
    .str t ∈ Entries.keys n.bindings := by
  induction h using Relation.ReflTransGen.head_induction_on with
  | refl => exact ht
  | head hstep _ ih =>
    cases hstep with
    | part hg => exact Fragment.str_mem_keys_of_child hg ih
    | slot hg => exact Builder.str_mem_keys_of_child hg ih
    | nested _ hb =>
      change _ ∈ Entries.keys (SubSelect.bound _)
      rwa [hb]
    | member _ hb hmem =>
      subst hb
      exact Bindings.str_mem_keys_mergeAll (List.mem_map_of_mem hmem) ih

/-! ## Entries are traced -/

section Traced

variable {last : Session} {n m : Node}

/-- An entry in the map of a node comes from a placeholder inside of the node, which was made for
the value, or it was bound by hand on a builder inside of the node. -/
def Traced (last : Session) (n : Node) (e : Value × Value) : Prop :=
  (∃ p, (p, e.2) ∈ last.supply.issued ∧ e.1 = .str p.name ∧
    Node.Contains last.history n (.fragment (.placeholder p e.2))) ∨
  ∃ b, Node.Contains last.history n (.builder b) ∧ e.1 ∈ Entries.keys b.extra

/-- What a child binds is traced through the child. -/
theorem Traced.of_child (hstep : Node.Child last.history n m) {e : Value × Value}
    (h : Traced last m e) : Traced last n e :=
  h.imp (fun ⟨p, hp, hk, hc⟩ => ⟨p, hp, hk, .head hstep hc⟩)
    fun ⟨b, hc, hk⟩ => ⟨b, .head hstep hc, hk⟩

/-- A merge can put a value under another spelling of its key, but generated names have one
spelling only. So where the spelling changes, both were written by hand. -/
theorem Traced.of_merge {xs ys : Bindings} (hxs : ∀ e ∈ xs, Traced last n e)
    (hys : ∀ e ∈ ys, Traced last n e) : ∀ e ∈ Entries.merge xs ys, Traced last n e := by
  rintro ⟨j, w⟩ he
  rcases Entries.mem_of_mem_merge he with he | ⟨k, hk, rfl | ⟨hj, hjk⟩⟩
  · exact hxs _ he
  · exact hys _ hk
  · rcases hys _ hk with ⟨p, hp, rfl, hc⟩ | hextra
    · obtain rfl := Value.eq_of_beq_str hjk
      exact hys _ hk
    · obtain ⟨u, hu⟩ : ∃ u, Traced last n (j, u) := by
        rcases hj with hj | hj
        · obtain ⟨u, hu⟩ := Entries.exists_mem_of_mem_keys hj
          exact ⟨u, hxs _ hu⟩
        · obtain ⟨u, hu⟩ := Entries.exists_mem_of_mem_keys hj
          exact ⟨u, hys _ hu⟩
      rcases hu with ⟨p, hp, rfl, hc⟩ | hextra'
      · obtain rfl := Value.eq_of_beq_str (PartialEquivBEq.symm hjk)
        exact hys _ hk
      · exact Or.inr hextra'

/-- The discipline of traced entries. It asks nothing of constructions and commands. -/
def provenance (last : Session) : Discipline where
  good f := ∀ e ∈ f.bindings, Traced last (.fragment f) e
  proper _ := True
  allows _ := True

theorem traced_of_fine {b : Builder} (h : (provenance last).Fine b) :
    ∀ e ∈ b.bindings, Traced last (.builder b) e := by
  refine Builder.bindings_of_children (Q := fun m => ∀ e ∈ m, Traced last (.builder b) e) ?_
    Traced.of_merge ?_ fun g hg e he => ?_
  · exact fun e he => by cases he
  · exact fun e he => Or.inr ⟨b, .refl, Entries.mem_keys_of_mem he⟩
  · exact (h.children g hg e he).of_child (.slot hg)

/-- The builders behind the members of a union. -/
theorem builders_of_answers {D : Discipline} {cs : List Value}
    {members : List (String × Bindings)}
    (h : List.Forall₂ (Value.Answers (D.Answered last)) cs members) :
    ∃ bs, List.Forall₂ (fun b sql => .nested b sql ∈ last.history) bs (members.map (·.1)) ∧
      members.map (·.2) = bs.map Builder.bindings ∧ ∀ b ∈ bs, D.Fine b := by
  induction h with
  | nil => exact ⟨[], .nil, rfl, by simp⟩
  | cons hv _ ih =>
    obtain ⟨bs, htexts, hbound, hfine⟩ := ih
    obtain ⟨_, b, hb, hbb, hbf, -⟩ := hv
    exact ⟨b :: bs, .cons hb htexts, by simp [hbb, hbound], List.forall_mem_cons.mpr ⟨hbf, hfine⟩⟩

theorem traced_of_makes {c : Construction} {f : Fragment} (hc : ∀ v, c ≠ .asColumn v)
    (hargs : ∀ v ∈ c.arguments, v.Every (provenance last).good)
    (h : c.Makes last.supply.Issued ((provenance last).Answered last) f) :
    ∀ e ∈ f.bindings, Traced last (.fragment f) e := by
  have children : ∀ g ∈ f.children, (provenance last).good g := by
    refine h.children hc hargs (fun s _ e he => by cases he) fun p v hp e he => ?_
    rw [List.mem_singleton.mp he]
    exact Or.inl ⟨p, hp, rfl, .refl⟩
  refine Fragment.bindings_of_children (Q := fun m => ∀ e ∈ m, Traced last (.fragment f) e)
    (fun e he => by cases he) Traced.of_merge ?_ ?_ ?_ fun g hg e he => ?_
  · rintro p v rfl e he
    rw [List.mem_singleton.mp he]
    exact Or.inl ⟨p, h.issued_of_placeholder hc, rfl, .refl⟩
  · rintro s rfl e he
    obtain ⟨_, -, ⟨_, b, hb, hbound, hfine, -⟩⟩ := h.answers_of_subSelect hc
    change e ∈ s.bound at he
    rw [hbound] at he
    exact (traced_of_fine hfine e he).of_child (.nested hb hbound)
  · rintro texts modifier bound rfl
    obtain ⟨members, hall, rfl, rfl⟩ := h.answers_of_union hc
    obtain ⟨bs, htexts, hbound, hfine⟩ := builders_of_answers hall
    rw [hbound]
    refine Entries.mergeAll_of_all (Q := fun m => ∀ e ∈ m, Traced last _ e)
      (fun e he => by cases he) Traced.of_merge fun m hm e he => ?_
    obtain ⟨b, hb, rfl⟩ := List.mem_map.mp hm
    exact (traced_of_fine (hfine b hb) e he).of_child (.member htexts rfl hb)
  · exact (children g hg e he).of_child (.part hg)

/-- The discipline is lawful in every dialogue. -/
theorem provenance_lawful (last : Session) : (provenance last).Lawful last where
  null e he := by cases he
  asked _ := trivial
  carried _ _ _ := trivial
  made := by
    intro c f _ hargs h
    exact h.holds hargs (fun _ _ e he => by cases he) fun hc => traced_of_makes hc hargs h
  fresh := trivial
  opened _ _ := trivial
  inherited _ := trivial
  changed _ _ _ := trivial

end Traced

/-! ## The bound values of a dialogue -/

/-- The nodes whose values can be asked for: the fragments made in a session, and its builders. -/
inductive Session.Knows (s : Session) : Node → Prop where
  | fragment {f : Fragment} (h : .fragment f ∈ s.history) : Knows s (.fragment f)
  | builder {b : Builder} (h : s.HasBuilder b) : Knows s (.builder b)

/-- The builder of a nested statement, as it was when the callback answered. -/
def Event.answering? : Event → Option Builder
  | .nested b _ => some b
  | _ => none

/-- All builders of a session, and those of nested statements as they were. -/
def Session.allBuilders (s : Session) : List Builder :=
  s.builders ++ s.history.filterMap Event.answering?

/-- All generated names are different, and none was also written by hand. -/
structure Session.Unambiguous (s : Session) : Prop where
  nodup : (s.supply.issued.map fun e => e.1.name).Nodup
  apart : ∀ b ∈ s.allBuilders, ∀ e ∈ s.supply.issued, Entries.get? (.str e.1.name) b.extra = none

section Exact

variable {s : Session}

/-- What is issued under one name is issued for one value. -/
theorem Session.Unambiguous.value_unique (h : s.Unambiguous) {p q : Placeholder} {v w : Value}
    (hp : (p, v) ∈ s.supply.issued) (hq : (q, w) ∈ s.supply.issued) (hname : p.name = q.name) :
    v = w := by
  exact congrArg Prod.snd (List.inj_on_of_nodup_map h.nodup hp hq hname)

/-- No generated name is a key that was written by hand on a builder that can be asked. -/
theorem Session.Unambiguous.not_mem_extra (h : s.Unambiguous) {b : Builder}
    (hb : s.HasBuilder b) {e : Placeholder × Value} (he : e ∈ s.supply.issued) :
    .str e.1.name ∉ Entries.keys b.extra := by
  have apart : b ∈ s.allBuilders → .str e.1.name ∉ Entries.keys b.extra := by
    intro hb hk
    obtain ⟨v, hv⟩ := Entries.exists_get?_of_mem_keys hk (BEq.refl _)
    rw [h.apart b hb e he] at hv
    cases hv
  cases hb with
  | now i =>
    by_cases hi : i < s.builders.length
    · refine apart (List.mem_append_left _ ?_)
      simp [Session.builder, List.getD_eq_getElem?_getD, hi]
    · have hnone : s.builders[i]? = none := List.getElem?_eq_none (Nat.le_of_not_lt hi)
      simp [Session.builder, List.getD_eq_getElem?_getD, hnone, Builder.empty]
  | nested hb => exact apart (List.mem_append_right _ (List.mem_filterMap.mpr ⟨_, hb, rfl⟩))

/-- Builders inside of a node that can be asked can be asked themselves. -/
theorem Session.Knows.hasBuilder_of_contains {n : Node} (hn : s.Knows n) {b : Builder}
    (h : n.Contains s.history (.builder b)) : s.HasBuilder b := by
  cases h with
  | refl =>
    cases hn with
    | builder hb => exact hb
  | tail _ hstep =>
    cases hstep with
    | nested h _ => exact .nested h
    | member h _ hb =>
      obtain ⟨_, -, h⟩ := exists_left_of_forall₂ h.flip hb
      exact .nested h

/-- An issued placeholder inside of a node has its value in the map of the node. -/
theorem get?_of_traced (h : s.Unambiguous) {n : Node} (hn : s.Knows n)
    (ht : ∀ e ∈ n.bindings, Traced s n e) {p : Placeholder} {v : Value}
    (hp : (p, v) ∈ s.supply.issued)
    (hc : n.Contains s.history (.fragment (.placeholder p v))) :
    Entries.get? (.str p.name) n.bindings = some v := by
  have hkey : .str p.name ∈ Entries.keys n.bindings := hc.str_mem_keys List.mem_cons_self
  obtain ⟨w, hw⟩ := Entries.exists_get?_of_mem_keys hkey (BEq.refl _)
  obtain ⟨j, hj, hjp⟩ := Entries.exists_mem_of_get? hw
  obtain rfl := Value.eq_of_beq_str hjp
  rcases ht _ hj with ⟨q, hq, hname, -⟩ | ⟨b, hb, hk⟩
  · rw [hw, h.value_unique hp hq (by simpa using hname)]
  · exact absurd hk (h.not_mem_extra (hn.hasBuilder_of_contains hb) hp)

/-- What can be asked for is traced. -/
theorem Session.Knows.traced {n : Node} (hn : s.Knows n) (h : (provenance s).Holds s) :
    ∀ e ∈ n.bindings, Traced s n e := by
  cases hn with
  | fragment hf => exact h.history _ hf
  | builder hb => exact traced_of_fine (h.fine hb)

end Exact

/-- **No bound value is lost, swapped or altered.** Whatever dialogue has been held, if all
generated names are different and none was written by hand, then every fragment and every builder
maps the name of every placeholder inside of it to the very value that it was made for, and every
other key was bound by hand on a builder inside of it. -/
theorem bindings_exact {options : Value} {s : Session} (hs : s.ReachedFrom options)
    (hu : s.Unambiguous) {n : Node} (hn : s.Knows n) :
    (∀ p v, (p, v) ∈ s.supply.issued → n.Contains s.history (.fragment (.placeholder p v)) →
      Entries.get? (.str p.name) n.bindings = some v) ∧
    ∀ k ∈ Entries.keys n.bindings,
      (∃ p v, (p, v) ∈ s.supply.issued ∧ k = .str p.name ∧
        n.Contains s.history (.fragment (.placeholder p v))) ∨
      ∃ b, n.Contains s.history (.builder b) ∧ k ∈ Entries.keys b.extra := by
  have ht := hn.traced ((provenance_lawful s).holds hs trivial)
  refine ⟨fun p v hp hc => get?_of_traced hu hn ht hp hc, fun k hk => ?_⟩
  obtain ⟨v, hv⟩ := Entries.exists_mem_of_mem_keys hk
  exact (ht _ hv).imp (fun ⟨p, hp, hname, hc⟩ => ⟨p, v, hp, hname, hc⟩) id

/-- A statement with a nested one, which has a filter, and with values bound by hand. -/
def nestedDialogue : Session :=
  (Turn.takeAllWithin 1
    [⟨"root", .call .fields
      [.call .subSelect [.callback
          ⟨[.call .filter [.atom (.str "a"), .atom (.int 5)] [], .call .select [] []],
            none, none⟩] [],
        .dict [(.atom (.str "fn_call"), .call .function [.atom (.str "f"), .atom (.int 7)] []),
          (.atom (.str "replacements"), .dict [(.atom (.str "x"), .atom (.int 1))])]] []⟩]
    (.start Supply.counting .info (.options .default))).2

theorem bindings_exact_nested :
    nestedDialogue.ReachedFrom (.options .default) ∧ nestedDialogue.Unambiguous ∧
      (Entries.keys (nestedDialogue.builder 0).bindings).length = 3 ∧
      ∀ p v, (p, v) ∈ nestedDialogue.supply.issued →
        Node.Contains nestedDialogue.history (.builder (nestedDialogue.builder 0))
          (.fragment (.placeholder p v)) →
        Entries.get? (.str p.name) (nestedDialogue.builder 0).bindings = some v := by
  have hs : nestedDialogue.ReachedFrom (.options .default) := ⟨_, _, _, _, rfl⟩
  have hu : nestedDialogue.Unambiguous := ⟨by decide +kernel, by decide +kernel⟩
  exact ⟨hs, hu, by decide +kernel, (bindings_exact hs hu (.builder (.now 0))).1⟩

end BoundSql

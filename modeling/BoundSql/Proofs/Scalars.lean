import BoundSql.Proofs.Limits
import BoundSql.Proofs.Provenance

/-!
# Limits and offsets that are fragments

The slots for the limit and the offset are meant for integers. A fragment is let in where no
greatest limit is set, and then the clause consists of its text. But the two slots are none of those
whose values a builder collects (`Builder.children`), so a placeholder that stands in these clauses
and nowhere else is left without a value (`scalar_fragment_bound_iff`).
-/

set_option autoImplicit false

namespace BoundSql

/-- A fragment in the slot for the limit or in the one for the offset. -/
def Builder.HasScalar (b : Builder) (f : Fragment) : Prop :=
  ∃ origin, b.limit = some (.fragment f origin) ∨ b.offset = some (.fragment f origin)

/-- A command that puts a value into one of these slots. -/
def Command.scalar? : Command → Option Value
  | .limit v | .offset v => some v
  | _ => none

/-! ## The clauses -/

namespace Builder

theorem valueClause_fragment {keyword clause : String} {f : Fragment} {origin : Origin}
    (h : valueClause keyword (some (.fragment f origin)) = .ok clause) :
    ∃ t, f.text = .ok t ∧ clause = keyword ++ " " ++ t := by
  obtain ⟨t, ht, rfl⟩ := Except.map_eq_ok.mp h
  exact ⟨t, (Value.text_fragment f origin).symm.trans ht, rfl⟩

/-- **A fragment in one of the slots is rendered** after the keyword of its clause. -/
theorem HasScalar.rendered {b : Builder} {f : Fragment} (hf : b.HasScalar f) {sql : String}
    (h : b.selectText = .ok sql) :
    ∃ parts t, b.selectParts = .ok parts ∧ sql = assemble parts ∧ f.text = .ok t ∧
      (parts[7]? = some ("LIMIT " ++ t) ∨ parts[8]? = some ("OFFSET " ++ t)) := by
  obtain ⟨parts, hparts, rfl⟩ := Except.map_eq_ok.mp h
  obtain ⟨v, _, _, _, _, _, _, limit, offset, hv, -, -, -, -, -, -, hlimit, hoffset, rfl⟩ :=
    clauses_of_selectParts hparts
  obtain ⟨origin, hslot | hslot⟩ := hf
  · rw [effectiveLimit, hslot] at hv
    cases hv
    obtain ⟨t, ht, rfl⟩ := valueClause_fragment hlimit
    exact ⟨_, t, hparts, rfl, ht, .inl rfl⟩
  · rw [hslot] at hoffset
    obtain ⟨t, ht, rfl⟩ := valueClause_fragment hoffset
    exact ⟨_, t, hparts, rfl, ht, .inr rfl⟩

end Builder

/-! ## The calls -/

/-- A clamped value is the value itself unless it is a number. -/
theorem Options.clamp_fragment {o : Options} {f : Fragment} {origin : Origin} {limit : Value}
    (h : o.clamp (.fragment f origin) = .ok limit) : limit = .fragment f origin := by
  unfold clamp at h
  split at h
  · exact (Except.ok.inj h).symm
  · cases h

section Calls

variable {invoke : Invoke} {i : Nat} {k : Command} {s s' : Session} {f : Fragment}
  {origin : Origin}

/-- **A fragment that is accepted as a limit or an offset is put into its slot**, and what the
builder binds stays as it was. -/
theorem Command.scalar_of_run {reply : Reply} (hk : k.scalar? = some (.fragment f origin))
    (hi : i < s.builders.length) (h : (k.run invoke i).exec s = (.ok reply, s')) :
    (s'.builder i).HasScalar f ∧ (s'.builder i).bindings = (s.builder i).bindings := by
  cases k with
  | limit v =>
    cases hk
    obtain ⟨_, s₁, hset, h⟩ := Run.exec_bind_eq_ok h
    cases h
    obtain ⟨fault, hrun⟩ | ⟨o, limit, -, hlimit, t, hrun, ht⟩ :=
      exec_setLimit i (.fragment f origin) s
    · cases hrun.symm.trans hset
    · cases hrun.symm.trans hset
      obtain rfl := Options.clamp_fragment hlimit
      have hb : s'.builder i =
          { s.builder i with limit := some (.fragment f origin) } := by
        obtain rfl | ⟨r, rfl⟩ := ht
        · exact Session.builder_setBuilder_self hi _
        · rw [Session.builder_addRecord]
          exact Session.builder_setBuilder_self hi _
      rw [hb]
      exact ⟨⟨origin, .inl rfl⟩, rfl⟩
  | offset v =>
    cases hk
    cases h
    rw [Session.builder_setBuilder_self hi]
    exact ⟨⟨origin, .inr rfl⟩, rfl⟩
  | _ => cases hk

end Calls

/-! ## The values -/

/-- A generated name is a key of a builder exactly if its placeholder is inside of the builder. -/
theorem Session.Unambiguous.mem_keys_iff {options : Value} {s : Session} (hu : s.Unambiguous)
    (hs : s.ReachedFrom options) {b : Builder} (hb : s.HasBuilder b) {p : Placeholder} {v : Value}
    (hp : (p, v) ∈ s.supply.issued) :
    .str p.name ∈ Entries.keys b.bindings ↔
      Node.Contains s.history (.builder b) (.fragment (.placeholder p v)) := by
  refine ⟨fun hkey => ?_, fun hc => hc.str_mem_keys List.mem_cons_self⟩
  rcases (bindings_exact hs hu (.builder hb)).2 _ hkey with ⟨q, w, hq, hname, hc⟩ | ⟨b', hb', hkey'⟩
  · have heq : (p, v) = (q, w) :=
      List.inj_on_of_nodup_map hu.nodup hp hq (Value.str.inj hname)
    cases heq
    exact hc
  · exact absurd hkey' (hu.not_mem_extra
      ((Session.Knows.builder hb).hasBuilder_of_contains hb') hp)

/-- **What becomes of a fragment in the slot for the limit or the offset.** A call that accepts it
leaves the values of the builder as they were. Whoever renders the statement writes the text of the
fragment into the clause; but whatever dialogue has been held, if all generated names are different
and none was written by hand, the name of a placeholder, one in the fragment like any other, is
bound exactly if the placeholder is inside of something that the builder holds in another slot. It
then has the value that it was made for. -/
theorem scalar_fragment_bound_iff (f : Fragment) :
    (∀ {invoke : Invoke} {i : Nat} {k : Command} {s s' : Session} {origin : Origin}
      {reply : Reply}, k.scalar? = some (.fragment f origin) → i < s.builders.length →
      (k.runNoted invoke i).exec s = (.ok reply, s') →
      (s'.builder i).HasScalar f ∧ (s'.builder i).bindings = (s.builder i).bindings) ∧
    ∀ {options : Value} {s : Session} {b : Builder} {sql : String},
      s.ReachedFrom options → s.Unambiguous → s.HasBuilder b → b.HasScalar f →
      b.selectText = .ok sql →
      (∃ parts t, b.selectParts = .ok parts ∧ sql = Builder.assemble parts ∧ f.text = .ok t ∧
        (parts[7]? = some ("LIMIT " ++ t) ∨ parts[8]? = some ("OFFSET " ++ t))) ∧
      ∀ p v, (p, v) ∈ s.supply.issued →
        (.str p.name ∈ Entries.keys b.bindings ↔
          Node.Contains s.history (.builder b) (.fragment (.placeholder p v))) ∧
        (.str p.name ∈ Entries.keys b.bindings →
          Entries.get? (.str p.name) b.bindings = some v) := by
  refine ⟨fun {invoke i k s s' origin reply} hk hi h => ?_,
    fun {options s b sql} hs hu hb hf hsql => ⟨hf.rendered hsql, fun p v hp => ?_⟩⟩
  · exact Command.scalar_of_run (s := { s with history := s.history ++ [.command i k] }) hk hi h
  · have hiff := hu.mem_keys_iff hs hb hp
    exact ⟨hiff, fun hkey => (bindings_exact hs hu (.builder hb)).1 p v hp (hiff.mp hkey)⟩

/-- A value as the limit, and nothing else. -/
def boundLimitDialogue : Session :=
  (Turn.takeAllWithin 0 [⟨"root", .call .limit [.call .literal [.atom (.int 5)] []] []⟩]
    (.start Supply.counting .info (.options .default))).2

/-- The placeholder of the limit. -/
def limitPlaceholder : Placeholder :=
  ((Supply.ofStream Supply.counting).fresh .literal (.int 5)).1

theorem boundLimitDialogue_reached :
    boundLimitDialogue.ReachedFrom (.options .default) ∧ boundLimitDialogue.Unambiguous ∧
      (limitPlaceholder, .int 5) ∈ boundLimitDialogue.supply.issued ∧
      (boundLimitDialogue.builder 0).HasScalar (.placeholder limitPlaceholder (.int 5)) ∧
      (boundLimitDialogue.builder 0).selectText = .ok "SELECT * LIMIT :lit00000001" ∧
      (boundLimitDialogue.builder 0).bindings = [] :=
  ⟨⟨_, _, _, _, rfl⟩, ⟨by decide +kernel, by decide +kernel⟩, .head _, ⟨_, .inl rfl⟩,
    by decide +kernel, rfl⟩

/-- The placeholder stands in the statement, and its value is not inside of the builder. -/
theorem scalar_fragment_bound_iff_limit :
    (boundLimitDialogue.builder 0).selectText = .ok "SELECT * LIMIT :lit00000001" ∧
      ¬ Node.Contains boundLimitDialogue.history (.builder (boundLimitDialogue.builder 0))
        (.fragment (.placeholder limitPlaceholder (.int 5))) := by
  obtain ⟨hs, hu, hissued, hf, hsql, hbindings⟩ := boundLimitDialogue_reached
  obtain ⟨-, hbound⟩ := (scalar_fragment_bound_iff _).2 hs hu (.now 0) hf hsql
  refine ⟨hsql, fun hc => ?_⟩
  have hkey := (hbound _ _ hissued).1.mpr hc
  rw [hbindings] at hkey
  cases hkey

/-- A placeholder in a limit can be without a value. -/
theorem limit_unbound :
    ¬ ∀ (s : Session) (f : Fragment) (sql : String) (p : Placeholder) (v : Value),
      s.ReachedFrom (.options .default) → s.Unambiguous → (s.builder 0).HasScalar f →
      (s.builder 0).selectText = .ok sql → (p, v) ∈ s.supply.issued →
      Node.Contains s.history (.fragment f) (.fragment (.placeholder p v)) →
      Entries.get? (.str p.name) (s.builder 0).bindings = some v := by
  intro h
  obtain ⟨hs, hu, hissued, hf, hsql, hbindings⟩ := boundLimitDialogue_reached
  have hget := h boundLimitDialogue _ _ _ _ hs hu hf hsql hissued .refl
  rw [hbindings] at hget
  cases hget

end BoundSql

import Mathlib.Algebra.Group.Int.Defs
import EntityGraph.Proofs.Refusals

/-!
# Which entities are accepted

Entities have a schema exactly if they are coherent, as long as the version of the schema has a
text.
-/

namespace EntityGraph

private theorem Number.Integer.isTooLong_pow {n : Nat} (h : digitLimit ≤ n) :
    isTooLong (10 ^ n) = true := by
  have hp : ∀ m ≤ n, Nat.pow 10 m ≤ Nat.pow 10 n := fun m ↦ Nat.pow_le_pow_right (by decide)
  rw [isTooLong, Int.natAbs_pow, decide_eq_true_eq]
  exact hp digitLimit h

namespace Schema

private theorem coherent_nil : Coherent [] := by
  refine ⟨?_, ?_, ?_, ?_, ?_⟩
  · exact List.nodup_nil
  · simp
  · simp
  · simp
  · simp [Links.OneToOne, Links.Joined, Links.Declares, Links.declared]

/-- Entities whose defaults can be copied and written have a schema of a name and a version exactly
if they are coherent and the version has not too many digits. No relationship is ever reported as
unresolved. -/
theorem exists_compile_iff_coherent {entities : List EntityDecl}
    (texts : ∀ e ∈ entities, e.IsTextual) (host : Host)
    (portable : ∀ e ∈ entities, ∀ a ∈ e.attributes, a.IsPortable host e.name)
    (config : CompilerConfig) (lenient : config.isStrict = false) (name : String) (version : Int) :
    ((∃ s, (compile host config entities (.text name) (.int version)).result = .ok s) ↔
      Coherent entities ∧ Number.Integer.isTooLong version = false) ∧
    ∀ f, (compile host config entities (.text name) (.int version)).result = .error f →
      f.code? ≠ some "UNRESOLVED_RELATIONSHIP" := by
  constructor
  · rw [exists_compile_eq_ok texts lenient, Value.isShowable_int_iff]
    constructor
    · rintro ⟨coherent, -, -, hversion⟩
      exact ⟨coherent, hversion⟩
    · rintro ⟨coherent, hversion⟩
      exact ⟨coherent, portable, Value.isShowable_text name, hversion⟩
  · intro f hf hc
    have reported := reportsOnly_compile texts host config _ _ f hf _ hc
    simp [compileCodes] at reported

/-- The example has a schema of version one, and is coherent in return. -/
theorem exists_compile_iff_coherent_staff :
    (∃ s, (compile default default Staff.entities (.text "Staff") (.int 1)).result = .ok s) ∧
      Coherent Staff.entities := by
  have accepted := (exists_compile_iff_coherent Staff.isTextual default (Staff.isPortable default)
    default rfl "Staff" 1).1
  have schema := Staff.exists_compile_eq_ok default default rfl
  exact ⟨schema, (accepted.mp schema).1⟩

/-- A version of too many digits refuses entities although they are coherent. -/
theorem not_exists_compile_of_long_version :
    (default : CompilerConfig).isStrict = false ∧ Coherent [] ∧
      ¬ ∃ s, (compile default default [] (.text "Model") (.int (10 ^ 4300))).result = .ok s := by
  refine ⟨rfl, coherent_nil, fun h ↦ ?_⟩
  obtain ⟨-, -, -, hversion⟩ := (exists_compile_eq_ok (by simp) rfl).mp h
  rw [Value.isShowable_int_iff, Number.Integer.isTooLong_pow (by decide)] at hversion
  cases hversion

end Schema

end EntityGraph

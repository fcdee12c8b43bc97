import ApproxQuery.Estimate.Term
import ApproxQuery.Proofs.Value.Hashing

/-!
# Matching of terms

Conditions are equal if their keys are, so equality of conditions is an equivalence; lists with the
same members up to an equivalence are equivalent, and so are terms that match.
-/

namespace ApproxQuery

section

variable {N : Type} [Scalar N] [LawfulScalar N]

theorem Literal.beq_iff_key {l k : Literal (Value N)} :
    (l == k) = true ↔ l.map Value.key = k.map Value.key := by
  change instBEqLiteral.beq l k = true ↔ _
  cases l <;> cases k <;>
    simp [instBEqLiteral.beq, map, Value.beq_iff_key, Value.list_beq_iff_key]

theorem Condition.beq_iff_key {c d : Condition N} : (c == d) = true ↔ c.key = d.key := by
  change c.eq d = true ↔ _
  simp [eq, key, Literal.beq_iff_key, and_assoc]

instance : EquivBEq (Condition N) where
  rfl := Condition.beq_iff_key.mpr rfl
  symm h := Condition.beq_iff_key.mpr (Condition.beq_iff_key.mp h).symm
  trans h h' :=
    Condition.beq_iff_key.mpr ((Condition.beq_iff_key.mp h).trans (Condition.beq_iff_key.mp h'))

end

section

variable {α : Type} [BEq α] {xs ys zs : List α}

theorem sameMembers_iff : sameMembers xs ys = true ↔
    (∀ x ∈ xs, ∃ y ∈ ys, (x == y) = true) ∧ ∀ y ∈ ys, ∃ x ∈ xs, (y == x) = true := by
  simp only [sameMembers, Bool.and_eq_true, List.all_eq_true, List.contains_iff_exists_mem_beq]

theorem sameMembers_symm (h : sameMembers xs ys = true) : sameMembers ys xs = true := by
  rwa [sameMembers, Bool.and_comm]

variable [EquivBEq α]

theorem sameMembers_refl (xs : List α) : sameMembers xs xs = true :=
  sameMembers_iff.mpr ⟨fun x hx => ⟨x, hx, BEq.rfl⟩, fun x hx => ⟨x, hx, BEq.rfl⟩⟩

theorem sameMembers_trans (h : sameMembers xs ys = true) (h' : sameMembers ys zs = true) :
    sameMembers xs zs = true := by
  obtain ⟨hxy, hyx⟩ := sameMembers_iff.mp h
  obtain ⟨hyz, hzy⟩ := sameMembers_iff.mp h'
  refine sameMembers_iff.mpr ⟨fun x hx => ?_, fun z hz => ?_⟩
  · obtain ⟨y, hy, hbeq⟩ := hxy x hx
    obtain ⟨z, hz, hbeq'⟩ := hyz y hy
    exact ⟨z, hz, BEq.trans hbeq hbeq'⟩
  · obtain ⟨y, hy, hbeq⟩ := hzy z hz
    obtain ⟨x, hx, hbeq'⟩ := hyx y hy
    exact ⟨x, hx, BEq.trans hbeq hbeq'⟩

end

namespace IndicatorTerm

variable {N : Type} [Scalar N] {s t u : IndicatorTerm N} {ignoreInverse ignoreModel : Bool}

theorem same_iff : s.same t ignoreInverse ignoreModel = true ↔
    (ignoreInverse = true ∨ s.inverse = t.inverse) ∧ sameMembers s.numerator t.numerator = true ∧
      sameMembers s.denominator t.denominator = true ∧
      sameMembers s.conditions t.conditions = true ∧ (ignoreModel = true ∨ s.tables = t.tables) := by
  simp [same, and_assoc]

theorem same_symm (h : s.same t ignoreInverse ignoreModel = true) :
    t.same s ignoreInverse ignoreModel = true := by
  obtain ⟨hinverse, hnumerator, hdenominator, hconditions, htables⟩ := same_iff.mp h
  exact same_iff.mpr ⟨hinverse.imp_right Eq.symm, sameMembers_symm hnumerator,
    sameMembers_symm hdenominator, sameMembers_symm hconditions, htables.imp_right Eq.symm⟩

/-- A term is the inverse of another exactly if it matches the inverted one. -/
theorem isInverse_eq : s.isInverse t = s.same t.inverted false false := by
  rw [Bool.eq_iff_iff]
  simp only [isInverse, same_iff, inverted, Bool.and_eq_true, bne_iff_ne]
  cases s.inverse <;> cases t.inverse <;> simp

variable [LawfulScalar N]

theorem same_refl (t : IndicatorTerm N) (ignoreInverse ignoreModel : Bool) :
    t.same t ignoreInverse ignoreModel = true :=
  same_iff.mpr ⟨.inr rfl, sameMembers_refl _, sameMembers_refl _, sameMembers_refl _, .inr rfl⟩

theorem same_trans (h : s.same t ignoreInverse ignoreModel = true)
    (h' : t.same u ignoreInverse ignoreModel = true) : s.same u ignoreInverse ignoreModel = true := by
  obtain ⟨hinverse, hnumerator, hdenominator, hconditions, htables⟩ := same_iff.mp h
  obtain ⟨hinverse', hnumerator', hdenominator', hconditions', htables'⟩ := same_iff.mp h'
  exact same_iff.mpr ⟨hinverse.elim .inl fun heq => hinverse'.imp_right heq.trans,
    sameMembers_trans hnumerator hnumerator', sameMembers_trans hdenominator hdenominator',
    sameMembers_trans hconditions hconditions',
    htables.elim .inl fun heq => htables'.imp_right heq.trans⟩

end IndicatorTerm

end ApproxQuery

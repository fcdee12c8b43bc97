import ApproxQuery.Estimate.QueryFormula
import ApproxQuery.Proofs.Outcome

/-!
# What a compiled query asks for

Every term of a compiled query has the multipliers and the conditions of the query on the model, and
is asked of the tables of the model. Only a model of one table is asked for a probability.
-/

namespace ApproxQuery.Query

variable {N : Type} [Scalar N] {q : Query N} {m : DensityModel N} {feature : AttributeRef}
  {denominator : List AttributeRef} {conditions : List (Condition N)}

/-- The terms that a query asks of a model. -/
inductive Asks (q : Query N) (m : DensityModel N) : Factor N → Prop where
  | probability (single : m.tables.size = 1) : Asks q m (.probability ⟨q.conditions⟩)
  | indicator {numerator denominator : List AttributeRef} {conditions : List (Condition N)}
      (divided : q.normalizers m = .ok denominator) (present : q.termConditions m = .ok conditions) :
      Asks q m (.indicator (indicatorTerm m numerator denominator conditions))
  | inverted {numerator denominator : List AttributeRef} {conditions : List (Condition N)}
      (divided : q.normalizers m = .ok denominator) (present : q.termConditions m = .ok conditions) :
      Asks q m (.indicator (indicatorTerm m numerator denominator conditions).inverted)
  | expectation {features : List AttributeRef} {conditions : List (Condition N)}
      (divided : q.normalizers m = .ok []) (present : q.termConditions m = .ok conditions) :
      Asks q m (.expectation ⟨features, [], conditions, m.tables⟩)

section

variable (divided : q.normalizers m = .ok denominator) (present : q.termConditions m = .ok conditions)
include divided present

theorem asks_of_sumFormula : ∀ t ∈ (sumFormula m feature denominator conditions).factors,
    q.Asks m t := by
  intro t ht
  cases List.mem_singleton.mp ht
  exact .indicator divided present

theorem asks_of_avgFormula : ∀ t ∈ (avgFormula m feature denominator conditions).factors,
    q.Asks m t := by
  intro t ht
  unfold avgFormula at ht
  split at ht
  · rename_i hnone
    cases List.mem_singleton.mp ht
    exact .expectation (hnone ▸ divided) present
  · rcases List.mem_pair.mp ht with rfl | rfl
    · exact .indicator divided present
    · exact .inverted divided present

end

theorem asks_of_cardinalityFormula {f : Formula N} (h : q.cardinalityFormula m = .ok f) :
    ∀ t ∈ f.factors, q.Asks m t := by
  unfold cardinalityFormula at h
  obtain ⟨_, _, h⟩ := bind_eq_ok.mp h
  split at h
  · rename_i hsingle
    cases pure_eq_ok.mp h
    intro t ht
    cases List.mem_singleton.mp ht
    exact .probability hsingle
  · obtain ⟨denominator, hdivided, h⟩ := bind_eq_ok.mp h
    obtain ⟨conditions, hpresent, h⟩ := bind_eq_ok.mp h
    cases pure_eq_ok.mp h
    intro t ht
    cases List.mem_singleton.mp ht
    exact .indicator (mapError_eq_ok.mp hdivided) (mapError_eq_ok.mp hpresent)

theorem asks_of_featureFormula
    {formula : List AttributeRef → List (Condition N) → Formula N} {f : Formula N}
    (hf : ∀ {denominator conditions}, q.normalizers m = .ok denominator →
      q.termConditions m = .ok conditions → ∀ t ∈ (formula denominator conditions).factors, q.Asks m t)
    (h : q.featureFormula m feature formula = .ok f) : ∀ t ∈ f.factors, q.Asks m t := by
  unfold featureFormula at h
  split at h
  · cases h
  · obtain ⟨denominator, hdivided, h⟩ := bind_eq_ok.mp h
    obtain ⟨conditions, hpresent, h⟩ := bind_eq_ok.mp h
    cases pure_eq_ok.mp h
    exact hf (mapError_eq_ok.mp hdivided) (mapError_eq_ok.mp hpresent)

theorem asks_of_aggregationFormula {a : Aggregation} {f : Formula N}
    (h : q.aggregationFormula m a = .ok f) : ∀ t ∈ f.factors, q.Asks m t := by
  unfold aggregationFormula at h
  obtain ⟨_, _, h⟩ := bind_eq_ok.mp h
  split at h
  · exact asks_of_cardinalityFormula h
  · exact asks_of_featureFormula asks_of_sumFormula h
  · exact asks_of_featureFormula asks_of_avgFormula h
  · cases h

theorem asks_of_signedFormulas {steps : List (AggregateStep × Option Aggregation)} {sign : N}
    {parts : List (N × Formula N)} (h : q.signedFormulas m sign steps = .ok parts) :
    ∀ part ∈ parts, ∀ t ∈ part.2.factors, q.Asks m t := by
  induction steps generalizing sign parts with
  | nil =>
    cases h
    simp
  | cons step steps ih =>
    obtain ⟨_ | _ | _, a⟩ := step
    · exact ih h
    · exact ih h
    · cases a with
      | none => cases h
      | some a =>
        obtain ⟨f, hf, h⟩ := bind_eq_ok.mp h
        obtain ⟨rest, hrest, h⟩ := bind_eq_ok.mp h
        cases pure_eq_ok.mp h
        intro part hpart
        rcases List.mem_cons.mp hpart with rfl | hpart
        · exact asks_of_aggregationFormula hf
        · exact ih hrest part hpart

theorem asks_of_aggregateFormulas {parts : List (N × Formula N)}
    (h : q.aggregateFormulas m = .ok parts) : ∀ part ∈ parts, ∀ t ∈ part.2.factors, q.Asks m t := by
  unfold aggregateFormulas at h
  obtain ⟨ps, hps, h⟩ := bind_eq_ok.mp h
  split at h
  · cases h
  · cases pure_eq_ok.mp h
    exact asks_of_signedFormulas hps

/-! On a join the presence of each table of the query is added to its conditions. -/

omit [Scalar N] in
theorem presence_eq_ok {table : String} {c : Condition N} : q.presence table = .ok c ↔
    ∃ t, q.schema.table table = .ok t ∧ c = .equals ⟨table, t.nullIndicator⟩ (.int 0) := by
  unfold presence
  rw [bind_eq_ok]
  exact exists_congr fun t => and_congr_right fun _ => pure_eq_ok.trans eq_comm

omit [Scalar N] in
theorem termConditions_eq_ok (hsize : 1 < m.tables.size) : q.termConditions m = .ok conditions ↔
    ∃ added, List.Forall₂ (fun table c => q.presence table = .ok c) q.tables.toList added ∧
      conditions = q.conditions ++ added := by
  unfold termConditions
  rw [if_neg (Nat.not_le.mpr hsize), bind_eq_ok]
  exact exists_congr fun added => and_congr mapM_eq_ok (pure_eq_ok.trans eq_comm)

omit [Scalar N] in
/-- What is known can be compiled. -/
theorem exists_termConditions (known : ∀ table ∈ q.tables, ∃ t, q.schema.table table = .ok t) :
    ∃ conditions, q.termConditions m = .ok conditions ∧
      (m.tables.size = 1 → conditions = q.conditions) := by
  unfold termConditions
  split
  · exact ⟨q.conditions, rfl, fun _ => rfl⟩
  · rename_i hsize
    obtain ⟨added, hadded⟩ : ∃ added, q.tables.toList.mapM q.presence = .ok added := by
      refine exists_mapM_eq_ok fun table htable => ?_
      obtain ⟨t, ht⟩ := known table htable
      exact ⟨_, presence_eq_ok.mpr ⟨t, ht, rfl⟩⟩
    refine ⟨_, bind_eq_ok.mpr ⟨_, hadded, rfl⟩, fun hone => ?_⟩
    exact absurd hone.le hsize

theorem cardinalityFormula_eq (hcovers : m.covers q = true) (hsize : m.tables.size ≠ 1)
    (hnormalizers : q.normalizers m = .ok denominator)
    (hconditions : q.termConditions m = .ok conditions) : q.cardinalityFormula m =
      .ok ⟨m.fullJoinSize, [.indicator (indicatorTerm m [] denominator conditions)]⟩ := by
  have hcheck : q.checkCovered m = .ok () := if_pos hcovers
  unfold cardinalityFormula
  refine bind_eq_ok.mpr ⟨(), hcheck, ?_⟩
  rw [if_neg hsize]
  refine bind_eq_ok.mpr ⟨denominator, mapError_eq_ok.mpr hnormalizers, ?_⟩
  exact bind_eq_ok.mpr ⟨conditions, mapError_eq_ok.mpr hconditions, rfl⟩

theorem cardinalityFormula_single (hcovers : m.covers q = true) (hsize : m.tables.size = 1) :
    q.cardinalityFormula m = .ok ⟨m.fullJoinSize, [.probability ⟨q.conditions⟩]⟩ := by
  have hcheck : q.checkCovered m = .ok () := if_pos hcovers
  unfold cardinalityFormula
  refine bind_eq_ok.mpr ⟨(), hcheck, ?_⟩
  rw [if_pos hsize]
  rfl

omit [Scalar N] in
theorem featureFormula_eq (hfeature : feature.table ∈ m.tables)
    (hnormalizers : q.normalizers m = .ok denominator)
    (hconditions : q.termConditions m = .ok conditions)
    (formula : List AttributeRef → List (Condition N) → Formula N) :
    q.featureFormula m feature formula = .ok (formula denominator conditions) := by
  unfold featureFormula
  rw [if_neg (not_not.mpr hfeature)]
  refine bind_eq_ok.mpr ⟨denominator, mapError_eq_ok.mpr hnormalizers, ?_⟩
  exact bind_eq_ok.mpr ⟨conditions, mapError_eq_ok.mpr hconditions, rfl⟩

end ApproxQuery.Query

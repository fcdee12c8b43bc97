import ApproxQuery.Proofs.Estimate.CompiledFactors
import ApproxQuery.Proofs.Estimate.Evaluation
import ApproxQuery.Proofs.Estimate.FanOutWalk
import ApproxQuery.Proofs.Query.Built
import ApproxQuery.Proofs.Sample.Attributes
import ApproxQuery.Proofs.Sample.Fibres

/-!
# Models that describe a sample

A model describes a sample if it answers an indicator term with its mean over the rows. An ensemble of
such a model answers a query of cardinality with the sum of the term over the rows, and with one if
the sum is less.
-/

namespace ApproxQuery

open Expansion

namespace Expansion

variable {bs : List (TableBlock ℚ)}

/-- The attribute is a column of the sample. -/
def HasColumn (bs : List (TableBlock ℚ)) (a : AttributeRef) : Prop :=
  ∃ b ∈ bs, b.name = a.table ∧ a.qualified ∈ b.columns

instance (a : AttributeRef) : Decidable (HasColumn bs a) := by
  unfold HasColumn
  infer_instance

end Expansion

/-- What a row adds to the term: the quotient of the products, if the conditions hold of the row. -/
def IndicatorTerm.valueIn (t : IndicatorTerm ℚ) (bs : List (TableBlock ℚ)) (cells : List ℚ) : ℚ :=
  if t.conditions.all fun c => c.holds (decodedCell bs cells c.column) then
    (t.numerator.map (cellOf bs cells)).prod / (t.denominator.map (cellOf bs cells)).prod
  else 0

/-- The attributes that the term reads. -/
def IndicatorTerm.attributes (t : IndicatorTerm ℚ) : List AttributeRef :=
  t.numerator ++ t.denominator ++ t.conditions.map (·.column)

/-- The model has the size, the tables and the relationships of the sample, and answers a term that
reads columns of the sample with its mean. -/
structure DensityModel.Describes (m : DensityModel ℚ) (bs : List (TableBlock ℚ)) (w : JoinSample ℚ) :
    Prop where
  size : m.fullJoinSize = (w.rows.length : ℚ)
  tables : m.tables = .ofList w.tables
  relationships : m.relationships = .ofList w.relationships
  indicator : ∀ t, (∀ a ∈ t.attributes, HasColumn bs a) →
    m.indicator t = .ok ((w.rows.map (t.valueIn bs)).sum / (w.rows.length : ℚ))

variable {m : DensityModel ℚ} {bs : List (TableBlock ℚ)} {w : JoinSample ℚ} {q : Query ℚ}

/-- The floor acts only where the sum is less than one. -/
theorem DensityModel.finished_mean (hsize : m.fullJoinSize = (w.rows.length : ℚ)) (hne : w.rows ≠ [])
    {t : IndicatorTerm ℚ} {sum : ℚ} (hmean : m.indicator t = .ok (sum / (w.rows.length : ℚ)))
    (hinverse : t.inverse = false) (hfloor : t.floor = IndicatorTerm.floorFor m.fullJoinSize) :
    ∃ v, m.finished t = .ok v ∧ m.fullJoinSize * v = max 1 sum := by
  have hpos : (0 : ℚ) < (w.rows.length : ℚ) := by
    exact_mod_cast List.length_pos_iff.mpr hne
  have hfloor' : t.floor = 1 / (w.rows.length : ℚ) := by
    rw [hfloor, hsize]
    exact if_pos (Exact.lt_iff.mpr hpos)
  refine ⟨_, DensityModel.finished_eq_ok.mpr
    ⟨_, hmean, (IndicatorTerm.finish_direct hinverse).mpr rfl⟩, ?_⟩
  rw [hfloor', hsize, mul_max_of_nonneg _ _ hpos.le, mul_div_cancel₀ _ hpos.ne',
    mul_one_div_cancel hpos.ne', max_comm]

theorem Ensemble.coveringModel_single (h : m.covers q = true) :
    (⟨[m]⟩ : Ensemble ℚ).coveringModel q = .ok m := by
  simp [coveringModel, h, smallest?]

theorem Ensemble.cardinality_eq {denominator : List AttributeRef} {conditions : List (Condition ℚ)}
    {sum : ℚ} (hsize : m.fullJoinSize = (w.rows.length : ℚ)) (hne : w.rows ≠ [])
    (hmean : m.indicator (Query.indicatorTerm m [] denominator conditions) =
      .ok (sum / (w.rows.length : ℚ)))
    (hcovers : m.covers q = true) (htables : m.tables.size ≠ 1)
    (hnormalizers : q.normalizers m = .ok denominator)
    (hconditions : q.termConditions m = .ok conditions) (hash : IndicatorTerm ℚ → UInt64) :
    (((⟨[m]⟩ : Ensemble ℚ).cardinality q).run (.empty hash)).1 = .ok (max 1 sum) := by
  obtain ⟨v, hv, hscaled⟩ := DensityModel.finished_mean hsize hne hmean rfl rfl
  have hformula := Query.cardinalityFormula_eq hcovers htables hnormalizers hconditions
  have hanswer := Ledger.factor_of_find?_eq_none (m := m) (l := .empty hash)
    (TermMemo.find?_empty (Query.indicatorTerm m [] denominator conditions))
  rw [run_cardinality (coveringModel_single hcovers) hformula, Formula.run_evaluate_indicator,
    hanswer, hv]
  exact congrArg Except.ok hscaled

theorem Ensemble.cardinality_of_not_covers (h : m.covers q = false) (l : Ledger ℚ) :
    (((⟨[m]⟩ : Ensemble ℚ).cardinality q).run l).1 = .error (.noCoveringModel q.tables.toList) := by
  have hmodel : (⟨[m]⟩ : Ensemble ℚ).coveringModel q = .error (.noCoveringModel q.tables.toList) := by
    simp [coveringModel, h, smallest?]
  unfold cardinality
  rw [hmodel]
  rfl

end ApproxQuery

import ApproxQuery.Proofs.Estimate.KnownTerms
import ApproxQuery.Proofs.Estimate.SharedMemo
import ApproxQuery.Proofs.Estimate.TermConditions

/-!
# Sums, averages and counts

A model tabulates rows if it answers every term with the exact value over the rows. On such a model
the compiled sum of an attribute is the compiled average times the compiled count in a join with
multipliers. Without multipliers this is so exactly if the sum is at least one: the floor of the
indicator term raises a lesser sum, but the average is an expectation, which has no floor.
-/

namespace ApproxQuery

/-- What a row has for each attribute: the number that enters a product, and the value that a
condition is about. -/
structure ModelRow where
  number : AttributeRef → ℚ
  value : AttributeRef → Value ℚ

namespace ModelRow

def satisfies (conditions : List (Condition ℚ)) (r : ModelRow) : Bool :=
  conditions.all fun c => c.holds (r.value c.column)

def quotient (numerator denominator : List AttributeRef) (r : ModelRow) : ℚ :=
  (numerator.map r.number).prod / (denominator.map r.number).prod

def matching (rows : List ModelRow) (conditions : List (Condition ℚ)) : List ModelRow :=
  rows.filter (satisfies conditions)

/-- The sum of the quotients over the rows that satisfy the conditions. -/
def total (rows : List ModelRow) (numerator denominator : List AttributeRef)
    (conditions : List (Condition ℚ)) : ℚ :=
  ((matching rows conditions).map (quotient numerator denominator)).sum

variable {rows : List ModelRow} {conditions : List (Condition ℚ)}

theorem total_nil_nil : total rows [] [] conditions = (matching rows conditions).length := by
  have hone : quotient [] [] = fun _ => 1 := by
    funext r
    simp [quotient]
  rw [total, hone, List.map_const', List.sum_replicate, nsmul_eq_mul, mul_one]

theorem ne_nil_of_matching (h : matching rows conditions ≠ []) : rows ≠ [] := by
  rintro rfl
  exact h rfl

end ModelRow

open ModelRow

/-- The model has the number of the rows, and gives each term its exact value over them. The mean
under conditions that no row satisfies is left open. -/
structure DensityModel.Tabulates (m : DensityModel ℚ) (rows : List ModelRow) : Prop where
  size : m.fullJoinSize = (rows.length : ℚ)
  indicator : ∀ t, m.indicator t =
    .ok (total rows t.numerator t.denominator t.conditions / (rows.length : ℚ))
  expectation : ∀ t, matching rows t.conditions ≠ [] → m.expectation t =
    .ok (total rows t.features t.normalizers t.conditions / ((matching rows t.conditions).length : ℚ))
  probability : ∀ t, m.probability t =
    .ok (((matching rows t.conditions).length : ℚ) / (rows.length : ℚ))

/-! The terms of the three aggregations. -/

namespace IndicatorTerm

variable {s t : IndicatorTerm ℚ}

theorem isEmpty_eq_of_sameMembers {as bs : List AttributeRef} (h : sameMembers as bs = true) :
    as.isEmpty = bs.isEmpty := by
  cases as with
  | nil =>
    cases bs with
    | nil => rfl
    | cons b bs => cases h
  | cons a as =>
    cases bs with
    | nil => cases h
    | cons b bs => rfl

theorem shape_of_same (h : s.same t false false = true) :
    s.numerator.isEmpty = t.numerator.isEmpty ∧ s.inverse = t.inverse := by
  simp only [same, Bool.false_or, Bool.and_eq_true, beq_iff_eq] at h
  exact ⟨isEmpty_eq_of_sameMembers h.1.1.1.2, h.1.1.1.1⟩

theorem shape_of_isInverse (h : s.isInverse t = true) :
    s.numerator.isEmpty = t.numerator.isEmpty ∧ s.inverse ≠ t.inverse := by
  simp only [isInverse, same, Bool.true_or, Bool.true_and, Bool.and_eq_true, bne_iff_ne] at h
  exact ⟨isEmpty_eq_of_sameMembers h.2.1.1.1, h.1⟩

end IndicatorTerm

variable {m : DensityModel ℚ}

namespace DensityModel

/-- The terms that the aggregations of a feature ask for, with their values. -/
def aggregateTerms (m : DensityModel ℚ) (rows : List ModelRow) (feature : AttributeRef)
    (denominator : List AttributeRef) (conditions : List (Condition ℚ)) :
    List (IndicatorTerm ℚ × ℚ) :=
  let sum := Query.indicatorTerm m [feature] denominator conditions
  let count := Query.indicatorTerm m [] denominator conditions
  [(sum, max 1 (total rows [feature] denominator conditions) / rows.length),
    (count, max 1 (total rows [] denominator conditions) / rows.length),
    (count.inverted, rows.length / max 1 (total rows [] denominator conditions))]

/-- What the formula of an aggregation amounts to. -/
def aggregateOf (m : DensityModel ℚ) (rows : List ModelRow) (feature : AttributeRef)
    (denominator : List AttributeRef) (conditions : List (Condition ℚ)) : AggregateKind → ℚ
  | .sum => max 1 (total rows [feature] denominator conditions)
  | .avg =>
    if denominator = [] then
      total rows [feature] [] conditions / (matching rows conditions).length
    else
      max 1 (total rows [feature] denominator conditions) /
        max 1 (total rows [] denominator conditions)
  | .count =>
    if m.tables.size = 1 then (matching rows conditions).length
    else max 1 (total rows [] denominator conditions)

theorem mem_aggregateTerms {rows : List ModelRow} {feature : AttributeRef}
    {denominator : List AttributeRef} {conditions : List (Condition ℚ)} {e : IndicatorTerm ℚ × ℚ} :
    e ∈ m.aggregateTerms rows feature denominator conditions ↔
      e = (Query.indicatorTerm m [feature] denominator conditions,
          max 1 (total rows [feature] denominator conditions) / (rows.length : ℚ)) ∨
        e = (Query.indicatorTerm m [] denominator conditions,
          max 1 (total rows [] denominator conditions) / (rows.length : ℚ)) ∨
        e = ((Query.indicatorTerm m [] denominator conditions).inverted,
          (rows.length : ℚ) / max 1 (total rows [] denominator conditions)) := by
  simp [aggregateTerms]

namespace Tabulates

variable {rows : List ModelRow} {feature : AttributeRef} {denominator : List AttributeRef}
  {conditions : List (Condition ℚ)} (h : m.Tabulates rows)
include h

theorem finished (hne : rows ≠ []) (numerator : List AttributeRef) :
    m.finished (Query.indicatorTerm m numerator denominator conditions) =
        .ok (max 1 (total rows numerator denominator conditions) / rows.length) ∧
      m.finished (Query.indicatorTerm m numerator denominator conditions).inverted =
        .ok (rows.length / max 1 (total rows numerator denominator conditions)) := by
  have hpos : (0 : ℚ) < rows.length := by
    exact_mod_cast List.length_pos_iff.mpr hne
  have hfloor : IndicatorTerm.floorFor m.fullJoinSize = 1 / (rows.length : ℚ) := by
    rw [h.size]
    exact if_pos (Exact.lt_iff.mpr hpos)
  have hmax : max (total rows numerator denominator conditions / rows.length) (1 / rows.length) =
      max 1 (total rows numerator denominator conditions) / rows.length := by
    rw [max_div_div_right hpos.le, max_comm]
  have hvalue : 0 < max 1 (total rows numerator denominator conditions) / rows.length :=
    div_pos (lt_max_of_lt_left one_pos) hpos
  constructor
  · refine finished_eq_ok.mpr ⟨_, h.indicator _, (IndicatorTerm.finish_direct rfl).mpr ?_⟩
    exact (hfloor ▸ hmax).symm
  · refine finished_eq_ok.mpr ⟨_, h.indicator _, (IndicatorTerm.finish_inverse rfl).mpr ?_⟩
    change 0 < max (total rows numerator denominator conditions / rows.length)
        (IndicatorTerm.floorFor m.fullJoinSize) ∧ _ =
      1 / max (total rows numerator denominator conditions / rows.length)
        (IndicatorTerm.floorFor m.fullJoinSize)
    rw [hfloor, hmax, one_div_div]
    exact ⟨hvalue, rfl⟩

theorem size_mul (hne : rows ≠ []) (x : ℚ) : m.fullJoinSize * [x / rows.length].prod = x := by
  rw [h.size, List.prod_singleton]
  refine mul_div_cancel₀ x ?_
  exact_mod_cast (List.length_pos_iff.mpr hne).ne'

/-- No two of the terms match, and only those of the count are reciprocal to each other. -/
theorem coherent (hne : rows ≠ []) :
    Coherent m (m.aggregateTerms rows feature denominator conditions) := by
  refine ⟨?_, fun e he f hf hsame => ?_, fun e he f hf hinverse => ?_⟩
  · simp only [aggregateTerms, List.forall_mem_cons]
    exact ⟨(h.finished hne _).1, (h.finished hne _).1, (h.finished hne _).2, List.forall_mem_nil _⟩
  · obtain ⟨hempty, hflag⟩ := IndicatorTerm.shape_of_same hsame
    rcases mem_aggregateTerms.mp he with rfl | rfl | rfl <;>
      rcases mem_aggregateTerms.mp hf with rfl | rfl | rfl <;>
      first | rfl | (cases hempty; done) | cases hflag
  · obtain ⟨hempty, hflag⟩ := IndicatorTerm.shape_of_isInverse hinverse
    rcases mem_aggregateTerms.mp he with rfl | rfl | rfl <;>
      rcases mem_aggregateTerms.mp hf with rfl | rfl | rfl <;>
      first | (cases hempty; done) | exact absurd rfl hflag | exact one_div_div _ _

theorem gives_sumTerm (hne : rows ≠ []) :
    Gives (m.aggregateTerms rows feature denominator conditions)
      ((Factor.indicator (Query.indicatorTerm m [feature] denominator conditions)).evaluate m)
      (max 1 (total rows [feature] denominator conditions) / rows.length) :=
  .indicator (h.coherent hne) List.mem_cons_self

theorem gives_countTerm (hne : rows ≠ []) :
    Gives (m.aggregateTerms rows feature denominator conditions)
      ((Factor.indicator (Query.indicatorTerm m [] denominator conditions)).evaluate m)
      (max 1 (total rows [] denominator conditions) / rows.length) :=
  .indicator (h.coherent hne) (List.mem_cons_of_mem _ List.mem_cons_self)

theorem gives_inverseTerm (hne : rows ≠ []) :
    Gives (m.aggregateTerms rows feature denominator conditions)
      ((Factor.indicator (Query.indicatorTerm m [] denominator conditions).inverted).evaluate m)
      (rows.length / max 1 (total rows [] denominator conditions)) :=
  .indicator (h.coherent hne) (List.mem_cons_of_mem _ (List.mem_cons_of_mem _ List.mem_cons_self))

/-! What the formulas are worth, given that some row satisfies the conditions. -/

section

variable (hne : matching rows conditions ≠ [])
include hne

theorem gives_sum : Gives (m.aggregateTerms rows feature denominator conditions)
    ((Query.sumFormula m feature denominator conditions).evaluate m)
    (m.aggregateOf rows feature denominator conditions .sum) := by
  have hrows := ne_nil_of_matching hne
  exact (Gives.formula (.cons (h.gives_sumTerm hrows) .nil)).congr (h.size_mul hrows _)

theorem gives_avg : Gives (m.aggregateTerms rows feature denominator conditions)
    ((Query.avgFormula m feature denominator conditions).evaluate m)
    (m.aggregateOf rows feature denominator conditions .avg) := by
  have hrows := ne_nil_of_matching hne
  have hlength : (rows.length : ℚ) ≠ 0 := by
    exact_mod_cast (List.length_pos_iff.mpr hrows).ne'
  unfold aggregateOf Query.avgFormula
  dsimp only
  split
  · refine (Gives.formula (.cons (.expectation (h.expectation _ hne)) .nil)).congr ?_
    rw [List.prod_singleton, one_mul]
  · refine (Gives.formula
      (.cons (h.gives_sumTerm hrows) (.cons (h.gives_inverseTerm hrows) .nil))).congr ?_
    rw [List.prod_cons, List.prod_singleton, one_mul, div_mul_div_cancel₀ hlength]

end

end Tabulates

end DensityModel

namespace Query

variable {q : Query ℚ} {feature : AttributeRef} {denominator : List AttributeRef}
  {conditions : List (Condition ℚ)}

/-- The query for one aggregation of the feature; counting takes none. -/
def aggregating (q : Query ℚ) (feature : AttributeRef) (kind : AggregateKind) : Query ℚ :=
  { q with aggregations :=
      [(.aggregate, some ⟨kind, if kind = .count then none else some feature⟩)] }

/-- The model covers the query, and the query compiles to these multipliers and conditions. -/
structure Compiles (q : Query ℚ) (m : DensityModel ℚ) (denominator : List AttributeRef)
    (conditions : List (Condition ℚ)) : Prop where
  covers : m.covers q = true
  normalizers : q.normalizers m = .ok denominator
  termConditions : q.termConditions m = .ok conditions
  /-- No presence is asked of the rows of a single table. -/
  single : m.tables.size = 1 → conditions = q.conditions

namespace Compiles

variable {rows : List ModelRow} (hc : q.Compiles m denominator conditions) (h : m.Tabulates rows)
  (hne : matching rows conditions ≠ [])
include hc

theorem aggregationFormula_count {f : Formula ℚ} (hf : q.cardinalityFormula m = .ok f) :
    q.aggregationFormula m ⟨.count, none⟩ = .ok f :=
  bind_eq_ok.mpr ⟨(), if_pos hc.covers, hf⟩

theorem aggregationFormula_sum (hfeature : feature.table ∈ m.tables) :
    q.aggregationFormula m ⟨.sum, some feature⟩ =
      .ok (sumFormula m feature denominator conditions) :=
  bind_eq_ok.mpr ⟨(), if_pos hc.covers,
    featureFormula_eq hfeature hc.normalizers hc.termConditions (sumFormula m feature)⟩

theorem aggregationFormula_avg (hfeature : feature.table ∈ m.tables) :
    q.aggregationFormula m ⟨.avg, some feature⟩ =
      .ok (avgFormula m feature denominator conditions) :=
  bind_eq_ok.mpr ⟨(), if_pos hc.covers,
    featureFormula_eq hfeature hc.normalizers hc.termConditions (avgFormula m feature)⟩

include h hne

theorem gives_count : ∃ f, q.aggregationFormula m ⟨.count, none⟩ = .ok f ∧
    Gives (m.aggregateTerms rows feature denominator conditions) (f.evaluate m)
      (m.aggregateOf rows feature denominator conditions .count) := by
  have hrows := ne_nil_of_matching hne
  unfold DensityModel.aggregateOf
  dsimp only
  split
  · rename_i hsize
    refine ⟨_, hc.aggregationFormula_count (cardinalityFormula_single hc.covers hsize), ?_⟩
    refine (Gives.formula (.cons (.probability (h.probability _)) .nil)).congr ?_
    rw [h.size_mul hrows, hc.single hsize]
  · rename_i hsize
    refine ⟨_, hc.aggregationFormula_count
      (cardinalityFormula_eq hc.covers hsize hc.normalizers hc.termConditions), ?_⟩
    exact (Gives.formula (.cons (h.gives_countTerm hrows) .nil)).congr (h.size_mul hrows _)

theorem gives_aggregating (hfeature : feature.table ∈ m.tables) {e : Ensemble ℚ}
    (hmodel : e.coveringModel q = .ok m) (kind : AggregateKind) :
    Gives (m.aggregateTerms rows feature denominator conditions)
      (e.answer (q.aggregating feature kind))
      (m.aggregateOf rows feature denominator conditions kind) := by
  cases kind with
  | sum => exact (h.gives_sum hne).answer hmodel (hc.aggregationFormula_sum hfeature)
  | avg => exact (h.gives_avg hne).answer hmodel (hc.aggregationFormula_avg hfeature)
  | count =>
    obtain ⟨f, hf, hgives⟩ := hc.gives_count h hne
    exact hgives.answer hmodel hf

/-- The aggregations may be asked in any order and more than once, with one memo. -/
theorem answerAll_eq (hfeature : feature.table ∈ m.tables) {e : Ensemble ℚ}
    (hmodel : e.coveringModel q = .ok m) (hash : IndicatorTerm ℚ → UInt64)
    (kinds : List AggregateKind) :
    (e.answerAll (kinds.map (q.aggregating feature)) (.empty hash)).1 =
      kinds.map (.ok <| m.aggregateOf rows feature denominator conditions ·) :=
  (Gives.answerAll (hc.gives_aggregating h hne hfeature hmodel) kinds _ (Ledger.within_empty hash)).1

end Compiles

end Query

/-- The sum is the average times the count, but for the floors that only one side of the equation
has. -/
theorem DensityModel.aggregateOf_sum_eq_iff {rows : List ModelRow} {feature : AttributeRef}
    {denominator : List AttributeRef} {conditions : List (Condition ℚ)}
    (hne : matching rows conditions ≠ []) :
    m.aggregateOf rows feature denominator conditions .sum =
        m.aggregateOf rows feature denominator conditions .avg *
          m.aggregateOf rows feature denominator conditions .count ↔
      if denominator = [] then 1 ≤ total rows [feature] [] conditions
      else m.tables.size = 1 →
        ((matching rows conditions).length : ℚ) = max 1 (total rows [] denominator conditions) := by
  have hlength : (1 : ℚ) ≤ (matching rows conditions).length := by
    exact_mod_cast List.length_pos_iff.mpr hne
  unfold aggregateOf
  dsimp only
  by_cases hden : denominator = []
  · subst hden
    rw [if_pos rfl, if_pos rfl, total_nil_nil, max_eq_right hlength, ite_self,
      div_mul_cancel₀ _ (zero_lt_one.trans_le hlength).ne', max_eq_right_iff]
  · have hsum : max 1 (total rows [feature] denominator conditions) ≠ 0 :=
      (lt_max_of_lt_left one_pos).ne'
    have hcount : max 1 (total rows [] denominator conditions) ≠ 0 :=
      (lt_max_of_lt_left one_pos).ne'
    rw [if_neg hden, if_neg hden]
    by_cases hsize : m.tables.size = 1
    · rw [if_pos hsize, div_mul_eq_mul_div, eq_div_iff hcount, mul_right_inj' hsum, eq_comm]
      exact ⟨fun heq _ => heq, fun heq => heq hsize⟩
    · rw [if_neg hsize, div_mul_cancel₀ _ hcount]
      exact ⟨fun _ hone => absurd hone hsize, fun _ => rfl⟩

/-- On a model that tabulates rows a query compiles, and its aggregations are answered in any order
with the same values. Without multipliers the sum is the average times the count exactly if it is at
least one. With multipliers it always is, unless the model has a single table, which is counted
without them. -/
theorem Query.sum_eq_avg_mul_count_iff {e : Ensemble ℚ} {q : Query ℚ} {rows : List ModelRow}
    (hmodel : e.coveringModel q = .ok m) (h : m.Tabulates rows)
    (hrelationships : ∀ id ∈ m.relationships, ∃ r, q.schema.relationship id = .ok r)
    (htables : ∀ table ∈ q.tables, ∃ t, q.schema.table table = .ok t)
    (feature : AttributeRef) (hfeature : feature.table ∈ m.tables) :
    ∃ denominator conditions, q.normalizers m = .ok denominator ∧
      q.termConditions m = .ok conditions ∧ (matching rows conditions ≠ [] →
        (∀ hash (kinds : List AggregateKind),
          (e.answerAll (kinds.map (q.aggregating feature)) (.empty hash)).1 =
            kinds.map (.ok <| m.aggregateOf rows feature denominator conditions ·)) ∧
        (m.aggregateOf rows feature denominator conditions .sum =
            m.aggregateOf rows feature denominator conditions .avg *
              m.aggregateOf rows feature denominator conditions .count ↔
          if denominator = [] then 1 ≤ total rows [feature] [] conditions
          else m.tables.size = 1 → ((matching rows conditions).length : ℚ) =
            max 1 (total rows [] denominator conditions))) := by
  obtain ⟨denominator, hnormalizers, -⟩ := exists_normalizers hrelationships
  obtain ⟨conditions, hconditions, hsingle⟩ := exists_termConditions (m := m) htables
  have hc : q.Compiles m denominator conditions :=
    ⟨Ensemble.covers_of_coveringModel hmodel, hnormalizers, hconditions, hsingle⟩
  refine ⟨denominator, conditions, hnormalizers, hconditions, fun hne => ⟨fun hash kinds => ?_, ?_⟩⟩
  · exact hc.answerAll_eq h hne hfeature hmodel hash kinds
  · exact DensityModel.aggregateOf_sum_eq_iff hne

/-- The model that tabulates the rows. -/
def DensityModel.ofRows (tables relationships : List String) (rows : List ModelRow) :
    DensityModel ℚ where
  name := "rows"
  fullJoinSize := rows.length
  tables := .ofList tables
  relationships := .ofList relationships
  indicator t := .ok (total rows t.numerator t.denominator t.conditions / rows.length)
  expectation t :=
    .ok (total rows t.features t.normalizers t.conditions / (matching rows t.conditions).length)
  probability t := .ok ((matching rows t.conditions).length / rows.length)

theorem DensityModel.ofRows_tabulates (tables relationships : List String) (rows : List ModelRow) :
    (ofRows tables relationships rows).Tabulates rows :=
  ⟨rfl, fun _ => rfl, fun _ _ => rfl, fun _ => rfl⟩

/-! Customers with a balance, and their orders. -/

namespace Balances

def orders : Relationship := .between "orders" "customer" "customers" "id" none

def schema : Schema ℚ where
  tables := [
    { Table.named "customers" with
      attributes := ["id", "balance"], incoming := [orders.identifier] },
    { Table.named "orders" with
      attributes := ["id", "customer"], outgoing := [orders.identifier] }]
  relationships := [orders]

def balance : AttributeRef := ⟨"customers", "balance"⟩

/-- All customers. -/
def query : Query ℚ :=
  { Query.empty schema .aggregate with tables := .ofList ["customers"] }

/-- A row of a customer with some balance, of whom there are so many rows. -/
def row (amount count : ℚ) : ModelRow where
  number a := if a = balance then amount else count
  value a := if a = balance then .num amount else .int 0

/-- A customer with two orders, and one in debt without orders. -/
def rows : List ModelRow := [row 10 2, row 10 2, row (-4) 1]

def joined : DensityModel ℚ :=
  .ofRows ["customers", "orders"] [orders.identifier] rows

def present : Condition ℚ := .equals ⟨"customers", "customers_is_null"⟩ (.int 0)

def kinds : List AggregateKind := [.sum, .avg, .count]

/-- The sum is 10 - 4, over two customers. -/
theorem sum_of_joined : joined.Tabulates rows ∧
    ∀ hash, ((⟨[joined]⟩ : Ensemble ℚ).answerAll (kinds.map (query.aggregating balance))
      (.empty hash)).1 = [.ok 6, .ok 3, .ok 2] := by
  have htabulates : joined.Tabulates rows := DensityModel.ofRows_tabulates _ _ rows
  have hrelationships : ∀ id ∈ joined.relationships.toList,
      (query.schema.relationship id).toOption.isSome = true := by decide +kernel
  have htables : ∀ table ∈ query.tables.toList,
      (query.schema.table table).toOption.isSome = true := by decide +kernel
  have hmodel : (⟨[joined]⟩ : Ensemble ℚ).coveringModel query = .ok joined := rfl
  obtain ⟨denominator, conditions, hnormalizers, hconditions, hanswers⟩ :=
    Query.sum_eq_avg_mul_count_iff hmodel htabulates
      (fun id hid => exists_eq_ok (hrelationships id hid))
      (fun table htable => exists_eq_ok (htables table htable)) balance (by decide +kernel)
  have hdivided : query.normalizers joined = .ok [orders.definedMultiplier] := rfl
  have hfiltered : query.termConditions joined = .ok [present] := rfl
  cases hdivided.symm.trans hnormalizers
  cases hfiltered.symm.trans hconditions
  have hlength : (matching rows [present]).length = 3 := by decide +kernel
  refine ⟨htabulates, fun hash => ?_⟩
  rw [(hanswers (List.ne_nil_of_length_eq_add_one hlength)).1]
  decide +kernel

/-- A customer in debt and one without a balance. -/
def debts : List ModelRow := [row (-10) 1, row 0 1]

/-- The floor makes a sum of -10 one, while the average times the count is the sum. -/
theorem sum_of_debts :
    (DensityModel.ofRows ["customers"] [] debts).Tabulates debts ∧
      total debts [balance] [] [] = -10 ∧
      ∀ hash, ((⟨[.ofRows ["customers"] [] debts]⟩ : Ensemble ℚ).answerAll
        (kinds.map (query.aggregating balance)) (.empty hash)).1 = [.ok 1, .ok (-5), .ok 2] ∧
          (1 : ℚ) ≠ -5 * 2 := by
  have hc : query.Compiles (.ofRows ["customers"] [] debts) [] [] := ⟨rfl, rfl, rfl, fun _ => rfl⟩
  have htabulates := DensityModel.ofRows_tabulates ["customers"] [] debts
  refine ⟨htabulates, by decide +kernel, fun hash => ⟨?_, by norm_num⟩⟩
  rw [hc.answerAll_eq htabulates (List.cons_ne_nil _ _) (by decide +kernel) rfl]
  decide +kernel

end Balances

end ApproxQuery

import ApproxQuery.Proofs.Estimate.FanOutWalk
import ApproxQuery.Proofs.Estimate.SharedMemo
import ApproxQuery.Proofs.Query.Building

/-!
# Aggregates that no model is found for

A model is chosen by the tables and relationships of a query, and then asked for the attributes that
the query sums up or averages. So an aggregate is not answered for want of a model, although one
covers it, exactly if the chosen model lacks the table of such an attribute. An aggregation does not
add the table of its attribute to the query.
-/

namespace ApproxQuery

variable {N : Type} {α β : Type}

/-- No model is found. -/
def LacksModel (x : Except EstimateError α) : Prop :=
  ∃ tables, x = .error (.noCoveringModel tables)

namespace LacksModel

theorem not_ok (a : α) : ¬ LacksModel (.ok a) := by
  rintro ⟨tables, h⟩
  cases h

theorem bind_iff {x : Except EstimateError α} {f : α → Except EstimateError β} :
    LacksModel (x >>= f) ↔ LacksModel x ∨ ∃ a, x = .ok a ∧ LacksModel (f a) := by
  unfold LacksModel
  simp only [bind_eq_error, exists_or]
  refine or_congr Iff.rfl ?_
  rw [exists_comm]
  exact exists_congr fun a => exists_and_left

theorem not_mapError {x : Except SchemaError α} : ¬ LacksModel (x.mapError .schema) := by
  rintro ⟨tables, h⟩
  obtain ⟨e, -, he⟩ := mapError_eq_error.mp h
  cases he

end LacksModel

/-! ## Evaluation -/

namespace Evaluation

/-- The computation does not fail for want of a model. -/
def Finds (x : Evaluation N α) : Prop :=
  ∀ l, ¬ LacksModel (x.run.run l).1

variable {x : Evaluation N α}

theorem Finds.pure (a : α) : Finds (Pure.pure a : Evaluation N α) := fun _ => LacksModel.not_ok a

theorem Finds.bind {f : α → Evaluation N β} (hx : Finds x) (hf : ∀ a, Finds (f a)) :
    Finds (x >>= f) := by
  intro l
  rcases hrun : x.run.run l with ⟨e | a, l'⟩
  · rw [Update.run_bind_error hrun]
    rintro ⟨tables, h⟩
    cases h
    exact hx l ⟨tables, congrArg Prod.fst hrun⟩
  · rw [Update.run_bind_ok hrun]
    exact hf a l'

theorem Finds.foldlM {σ : Type} {f : σ → α → Evaluation N σ} (hf : ∀ s a, Finds (f s a)) (as : List α)
    (s : σ) : Finds (as.foldlM f s) := by
  induction as generalizing s with
  | nil => exact Finds.pure s
  | cons a as ih =>
    rw [List.foldlM_cons]
    exact (hf s a).bind ih

/-- After an outcome is lifted, what can fail for want of a model is the outcome. -/
theorem lacksModel_lift_bind {y : Except EstimateError α} {f : α → Evaluation N β}
    (hf : ∀ a, Finds (f a)) (l : Ledger N) :
    LacksModel (((liftM y : Evaluation N α) >>= f).run.run l).1 ↔ LacksModel y := by
  cases y with
  | error e =>
    rw [Update.run_bind_error Update.run_lift]
    exact ⟨fun ⟨tables, h⟩ => ⟨tables, congrArg _ (Except.error.inj h)⟩,
      fun ⟨tables, h⟩ => ⟨tables, congrArg _ (Except.error.inj h)⟩⟩
  | ok a =>
    rw [Update.run_bind_ok Update.run_lift]
    exact iff_of_false (hf a l) (LacksModel.not_ok a)

variable [Scalar N]

theorem finds_factor (f : Factor N) (m : DensityModel N) : Finds (f.evaluate m) := by
  intro l
  change ¬ LacksModel (l.factor m f).1
  have hmodel {x : Except String N} : ¬ LacksModel (x.mapError .model) := by
    rintro ⟨tables, h⟩
    obtain ⟨e, -, he⟩ := mapError_eq_error.mp h
    cases he
  cases f with
  | expectation t => exact hmodel
  | probability t => exact hmodel
  | indicator t =>
    have hfinished : ¬ LacksModel (m.finished t) := by
      unfold DensityModel.finished
      rw [LacksModel.bind_iff]
      rintro (h | ⟨mean, -, h⟩)
      · exact hmodel h
      · split at h
        · exact LacksModel.not_ok _ h
        · obtain ⟨tables, h⟩ := h
          cases h
    have hanswer : (l.factor m (.indicator t)).1 = (l.memo.getOrEvaluate t m.finished).1 := rfl
    rw [hanswer, TermMemo.getOrEvaluate]
    split
    · exact LacksModel.not_ok _
    · cases hv : m.finished t with
      | error e =>
        rw [hv] at hfinished
        exact hfinished
      | ok v => exact LacksModel.not_ok v

theorem finds_formula (f : Formula N) (m : DensityModel N) : Finds (f.evaluate m) := by
  refine Finds.foldlM (fun value factor => ?_) _ _
  exact (finds_factor factor m).bind fun x => Finds.pure _

end Evaluation

/-! ## Compilation -/

/-- The aggregation is of an attribute whose table the model does not span. -/
def Aggregation.Exceeds (a : Aggregation) (m : DensityModel N) : Prop :=
  a.kind ≠ .count ∧ ∃ feature, a.feature? = some feature ∧ feature.table ∉ m.tables

/-- The aggregation counts, or it sums up or averages an attribute. -/
def Aggregation.Computable (a : Aggregation) : Prop :=
  a.kind = .count ∨ a.feature?.isSome = true

namespace Query

variable [Scalar N] {q : Query N} {m : DensityModel N}

omit [Scalar N] in
/-- A formula of the normalizers and the term conditions only fails for what the schema lacks. -/
theorem not_lacksModel_normalized {formula : List AttributeRef → List (Condition N) → Formula N} :
    ¬ LacksModel (do
      let denominator ← (q.normalizers m).mapError EstimateError.schema
      let conditions ← (q.termConditions m).mapError .schema
      return formula denominator conditions) := by
  rw [LacksModel.bind_iff]
  rintro (h | ⟨denominator, -, h⟩)
  · exact LacksModel.not_mapError h
  · rcases LacksModel.bind_iff.mp h with h | ⟨conditions, -, h⟩
    · exact LacksModel.not_mapError h
    · exact LacksModel.not_ok _ h

theorem not_lacksModel_cardinalityFormula (hcovers : m.covers q = true) :
    ¬ LacksModel (q.cardinalityFormula m) := by
  have hcheck : q.checkCovered m = .ok () := if_pos hcovers
  unfold cardinalityFormula
  rw [hcheck, LacksModel.bind_iff]
  rintro (h | ⟨_, -, h⟩)
  · exact LacksModel.not_ok () h
  · split at h
    · exact LacksModel.not_ok _ h
    · exact not_lacksModel_normalized h

omit [Scalar N] in
theorem lacksModel_featureFormula {feature : AttributeRef}
    {formula : List AttributeRef → List (Condition N) → Formula N} :
    LacksModel (q.featureFormula m feature formula) ↔ feature.table ∉ m.tables := by
  unfold featureFormula
  split
  · rename_i hmissing
    exact iff_of_true ⟨_, rfl⟩ hmissing
  · rename_i hmodel
    exact iff_of_false not_lacksModel_normalized hmodel

/-- A model that covers the query is missing for an aggregation exactly if that exceeds it. -/
theorem lacksModel_aggregationFormula (hcovers : m.covers q = true) {a : Aggregation} :
    LacksModel (q.aggregationFormula m a) ↔ a.Exceeds m := by
  have hcheck : q.checkCovered m = .ok () := if_pos hcovers
  have hbody {x : Except EstimateError (Formula N)} :
      LacksModel (q.checkCovered m >>= fun _ => x) ↔ LacksModel x := by
    rw [hcheck]
    exact Iff.rfl
  obtain ⟨kind, feature?⟩ := a
  unfold aggregationFormula Aggregation.Exceeds
  rw [hbody]
  cases kind with
  | count => simpa using not_lacksModel_cardinalityFormula hcovers
  | sum =>
    cases feature? with
    | none => simp [LacksModel]
    | some feature => simpa using lacksModel_featureFormula
  | avg =>
    cases feature? with
    | none => simp [LacksModel]
    | some feature => simpa using lacksModel_featureFormula

theorem exists_of_lacksModel_signedFormulas (hcovers : m.covers q = true)
    {steps : List (AggregateStep × Option Aggregation)} {sign : N}
    (h : LacksModel (q.signedFormulas m sign steps)) :
    ∃ a, (AggregateStep.aggregate, some a) ∈ steps ∧ a.Exceeds m := by
  induction steps generalizing sign with
  | nil => exact absurd h (LacksModel.not_ok _)
  | cons step steps ih =>
    have hrest {sign : N} (h : LacksModel (q.signedFormulas m sign steps)) :
        ∃ a, (AggregateStep.aggregate, some a) ∈ step :: steps ∧ a.Exceeds m := by
      obtain ⟨a, ha, hexceeds⟩ := ih h
      exact ⟨a, List.mem_cons_of_mem step ha, hexceeds⟩
    obtain ⟨_ | _ | _, a?⟩ := step
    · exact hrest h
    · exact hrest h
    · cases a? with
      | none =>
        obtain ⟨tables, h⟩ := h
        cases h
      | some a =>
        rcases LacksModel.bind_iff.mp h with h | ⟨f, -, h⟩
        · exact ⟨a, List.mem_cons_self, (lacksModel_aggregationFormula hcovers).mp h⟩
        · rcases LacksModel.bind_iff.mp h with h | ⟨parts, -, h⟩
          · exact hrest h
          · exact absurd h (LacksModel.not_ok _)

section

variable {denominator : List AttributeRef} {conditions : List (Condition N)}
  (hcovers : m.covers q = true) (hnormalizers : q.normalizers m = .ok denominator)
  (hconditions : q.termConditions m = .ok conditions)
include hcovers hnormalizers hconditions

/-- When all that is named is known, nothing but a missing model is in the way of an aggregation. -/
theorem exists_aggregationFormula {a : Aggregation} (ha : a.Computable)
    (h : ¬ LacksModel (q.aggregationFormula m a)) : ∃ f, q.aggregationFormula m a = .ok f := by
  have hcheck : q.checkCovered m = .ok () := if_pos hcovers
  have hfeature {feature : AttributeRef}
      {formula : List AttributeRef → List (Condition N) → Formula N}
      (h : ¬ LacksModel (q.featureFormula m feature formula)) :
      ∃ f, q.featureFormula m feature formula = .ok f :=
    ⟨_, featureFormula_eq (not_not.mp (mt lacksModel_featureFormula.mpr h)) hnormalizers hconditions
      formula⟩
  obtain ⟨kind, feature?⟩ := a
  unfold aggregationFormula at h ⊢
  rw [hcheck] at h ⊢
  cases kind with
  | count =>
    by_cases hsize : m.tables.size = 1
    · exact ⟨_, cardinalityFormula_single hcovers hsize⟩
    · exact ⟨_, cardinalityFormula_eq hcovers hsize hnormalizers hconditions⟩
  | sum =>
    obtain ⟨feature, rfl⟩ := Option.isSome_iff_exists.mp (ha.resolve_left AggregateKind.noConfusion)
    exact hfeature h
  | avg =>
    obtain ⟨feature, rfl⟩ := Option.isSome_iff_exists.mp (ha.resolve_left AggregateKind.noConfusion)
    exact hfeature h

theorem lacksModel_signedFormulas {steps : List (AggregateStep × Option Aggregation)} {sign : N}
    (hsteps : ∀ a?, (AggregateStep.aggregate, a?) ∈ steps → ∃ a, a? = some a ∧ a.Computable)
    (h : ∃ a, (AggregateStep.aggregate, some a) ∈ steps ∧ a.Exceeds m) :
    LacksModel (q.signedFormulas m sign steps) := by
  induction steps generalizing sign with
  | nil =>
    obtain ⟨a, ha, -⟩ := h
    cases ha
  | cons step steps ih =>
    have hrest := fun a? ha => hsteps a? (List.mem_cons_of_mem step ha)
    obtain ⟨a, ha, hexceeds⟩ := h
    obtain ⟨_ | _ | _, b?⟩ := step
    · exact ih hrest ⟨a, (List.mem_cons.mp ha).resolve_left (by simp), hexceeds⟩
    · exact ih hrest ⟨a, (List.mem_cons.mp ha).resolve_left (by simp), hexceeds⟩
    · obtain ⟨b, rfl, hb⟩ := hsteps b? List.mem_cons_self
      refine LacksModel.bind_iff.mpr ?_
      by_cases hfirst : LacksModel (q.aggregationFormula m b)
      · exact .inl hfirst
      · obtain ⟨f, hf⟩ := exists_aggregationFormula hcovers hnormalizers hconditions hb hfirst
        refine .inr ⟨f, hf, LacksModel.bind_iff.mpr (.inl (ih hrest ⟨a, ?_, hexceeds⟩))⟩
        refine (List.mem_cons.mp ha).resolve_left fun heq => hfirst ?_
        cases heq
        exact (lacksModel_aggregationFormula hcovers).mpr hexceeds

end

theorem lacksModel_aggregateFormulas :
    LacksModel (q.aggregateFormulas m) ↔ LacksModel (q.signedFormulas m 1 q.aggregations) := by
  unfold aggregateFormulas
  rw [LacksModel.bind_iff]
  refine or_iff_left ?_
  rintro ⟨parts, -, h⟩
  split at h
  · obtain ⟨tables, h⟩ := h
    cases h
  · exact LacksModel.not_ok _ h

end Query

/-! ## The chosen model -/

namespace Ensemble

theorem smallest?_eq_none {ms : List (DensityModel N)} : smallest? ms = none ↔ ms = [] := by
  cases ms with
  | nil => exact iff_of_true rfl rfl
  | cons m ms =>
    refine iff_of_false ?_ (List.cons_ne_nil m ms)
    unfold smallest?
    split
    · split <;> simp
    · simp

theorem size_le_of_smallest? {ms : List (DensityModel N)} {m : DensityModel N}
    (h : smallest? ms = some m) : ∀ n ∈ ms, m.tables.size ≤ n.tables.size := by
  induction ms generalizing m with
  | nil => cases h
  | cons first ms ih =>
    unfold smallest? at h
    split at h
    · rename_i other hother
      split at h
      · rename_i hlt
        cases h
        exact List.forall_mem_cons.mpr ⟨hlt.le, ih hother⟩
      · rename_i hge
        cases h
        refine List.forall_mem_cons.mpr ⟨le_rfl, fun n hn => ?_⟩
        exact (not_lt.mp hge).trans (ih hother n hn)
    · rename_i hnone
      cases h
      cases smallest?_eq_none.mp hnone
      exact List.forall_mem_cons.mpr ⟨le_rfl, fun n hn => (List.not_mem_nil hn).elim⟩

variable {e : Ensemble N} {q : Query N} {m : DensityModel N}

theorem exists_coveringModel (h : ∃ m ∈ e.models, m.covers q = true) :
    ∃ m, e.coveringModel q = .ok m := by
  unfold coveringModel
  cases hm : smallest? (e.models.filter (·.covers q)) with
  | some m => exact ⟨m, rfl⟩
  | none =>
    obtain ⟨n, hn, hcovers⟩ := h
    have hnone := smallest?_eq_none.mp hm
    exact absurd (List.mem_filter.mpr ⟨hn, hcovers⟩) (hnone ▸ List.not_mem_nil)

/-- No covering model has fewer tables than the chosen one. -/
theorem size_le_of_coveringModel (h : e.coveringModel q = .ok m) :
    ∀ n ∈ e.models, n.covers q = true → m.tables.size ≤ n.tables.size := fun n hn hcovers =>
  size_le_of_smallest? (coveringModel_eq_ok h) n (List.mem_filter.mpr ⟨hn, hcovers⟩)

variable [Scalar N]

theorem lacksModel_aggregate (h : e.coveringModel q = .ok m) (l : Ledger N) :
    LacksModel ((e.aggregate q).run.run l).1 ↔
      LacksModel (q.signedFormulas m 1 q.aggregations) := by
  unfold aggregate
  rw [h, Update.run_bind_ok Update.run_lift, ← Query.lacksModel_aggregateFormulas]
  refine Evaluation.lacksModel_lift_bind (fun parts => ?_) l
  refine Evaluation.Finds.foldlM (fun total part => ?_) parts 0
  exact (Evaluation.finds_formula part.2 m).bind fun x => Evaluation.Finds.pure _

/-- When a model covers the tables and relationships of a query, a smallest such model is chosen. An
aggregate lacks a model only if an attribute that it sums up or averages is of a table that the chosen
model does not span, and then it does if it is computable and the schema has the relationships of the
model. So it never does if the query has the tables of all these attributes. -/
theorem aggregate_lacks_model_iff {g : Schema N} (hg : g.Built) (hq : q.Built g)
    (hcovered : ∃ m ∈ e.models, m.covers q = true) :
    ∃ m ∈ e.models, e.coveringModel q = .ok m ∧ m.covers q = true ∧
      (∀ n ∈ e.models, n.covers q = true → m.tables.size ≤ n.tables.size) ∧
      (∀ l : Ledger N, LacksModel ((e.aggregate q).run.run l).1 →
        ∃ a, (AggregateStep.aggregate, some a) ∈ q.aggregations ∧ a.Exceeds m) ∧
      ((∀ id ∈ m.relationships, ∃ r, g.relationship id = .ok r) →
        (∀ a?, (AggregateStep.aggregate, a?) ∈ q.aggregations → ∃ a, a? = some a ∧ a.Computable) →
        (∃ a, (AggregateStep.aggregate, some a) ∈ q.aggregations ∧ a.Exceeds m) →
        ∀ l : Ledger N, LacksModel ((e.aggregate q).run.run l).1) ∧
      ((∀ a, (AggregateStep.aggregate, some a) ∈ q.aggregations → a.kind ≠ .count →
          ∀ feature, a.feature? = some feature → feature.table ∈ q.tables) →
        ∀ l : Ledger N, ¬ LacksModel ((e.aggregate q).run.run l).1) := by
  obtain ⟨m, hm⟩ := exists_coveringModel hcovered
  have hcovers := covers_of_coveringModel hm
  have hexceeds (l : Ledger N) (h : LacksModel ((e.aggregate q).run.run l).1) :=
    Query.exists_of_lacksModel_signedFormulas hcovers ((lacksModel_aggregate hm l).mp h)
  refine ⟨m, mem_of_coveringModel hm, hm, hcovers, size_le_of_coveringModel hm, hexceeds, ?_, ?_⟩
  · intro hknown hcomputable hmissing l
    have hconsistent := hq.consistent hg.linked
    rw [← hconsistent.schema] at hknown
    obtain ⟨denominator, hnormalizers, -⟩ := Query.exists_normalizers hknown
    obtain ⟨conditions, hconditions, -⟩ := Query.exists_termConditions (m := m)
      (hconsistent.schema.symm ▸ hconsistent.tables)
    exact (lacksModel_aggregate hm l).mpr
      (Query.lacksModel_signedFormulas hcovers hnormalizers hconditions hcomputable hmissing)
  · intro hfeatures l h
    obtain ⟨a, ha, hkind, feature, hfeature, hmissing⟩ := hexceeds l h
    have htables : q.tables.subset m.tables = true := (Bool.and_eq_true_iff.mp hcovers).1
    exact hmissing
      (SortedSet.subset_eq_true.mp htables _ (hfeatures a ha hkind feature hfeature))

end Ensemble

namespace Kiosk

/-- A model of the rows of one table, with one value for all terms. -/
def model (table : String) (rows mean : Float) : DensityModel Float where
  name := table
  fullJoinSize := rows
  tables := .ofList [table]
  relationships := ∅
  indicator _ := .ok mean
  expectation _ := .ok mean
  probability _ := .ok 1

def customersModel : DensityModel Float := model "customers" 3 40

def ordersModel : DensityModel Float := model "orders" 4 5

def amount : Aggregation := ⟨.sum, some ⟨"orders", "amount"⟩⟩

/-- The sum of the amounts of all orders, asked without naming the table of the orders. -/
def amounts : Query Float :=
  { Query.empty schema .aggregate with aggregations := [(.aggregate, some amount)] }

theorem amounts_built : amounts.Built schema := by
  have hadd : (Query.empty schema .aggregate).addAggregation .aggregate (some amount) = .ok amounts := by
    rfl
  exact (Query.Built.empty .aggregate).addAggregation hadd

/-- The model of the orders covers the query and its attribute, but the model of the customers is asked
if it stands in front. -/
theorem sum_lacks_model :
    amounts.Built schema ∧ amount.Computable ∧ ordersModel.covers amounts = true ∧
      "orders" ∈ ordersModel.tables ∧
      ((Ensemble.aggregate ⟨[customersModel, ordersModel]⟩ amounts).run.run .standard).1 =
        .error (.noCoveringModel ["orders"]) ∧
      ((Ensemble.aggregate ⟨[ordersModel, customersModel]⟩ amounts).run.run .standard).1 = .ok 20 := by
  refine ⟨amounts_built, .inr rfl, by decide +kernel, by decide +kernel, ?_, ?_⟩
  · rfl
  · exact mem_toOption.mp (by decide +kernel)

/-- The same sum, after the table of the orders was added. -/
def ordersAmounts : Query Float :=
  { amounts with tables := .ofList ["orders"] }

theorem ordersAmounts_built : ordersAmounts.Built schema := by
  have htable : (Query.empty schema .aggregate).addTable "orders" =
      .ok { Query.empty schema .aggregate with tables := .ofList ["orders"] } := by
    rfl
  have hadd : Query.addAggregation
      { Query.empty schema .aggregate with tables := .ofList ["orders"] } .aggregate (some amount) =
      .ok ordersAmounts := by
    rfl
  exact ((Query.Built.empty .aggregate).addTable htable).addAggregation hadd

/-- With the model of the customers in front, the sum lacks a model unless the table is added. -/
theorem aggregate_lacks_model_kiosk :
    LacksModel ((Ensemble.aggregate ⟨[customersModel, ordersModel]⟩ amounts).run.run .standard).1 ∧
      ¬ LacksModel
        ((Ensemble.aggregate ⟨[customersModel, ordersModel]⟩ ordersAmounts).run.run .standard).1 := by
  have hmodel : ordersModel ∈ [customersModel, ordersModel] :=
    List.mem_cons_of_mem customersModel List.mem_cons_self
  constructor
  · obtain ⟨m, -, hm, -, -, -, hlacks, -⟩ := Ensemble.aggregate_lacks_model_iff
      (e := ⟨[customersModel, ordersModel]⟩) built amounts_built
      ⟨ordersModel, hmodel, by decide +kernel⟩
    cases hm
    refine hlacks (fun id hid => absurd hid List.not_mem_nil) (fun a? ha => ?_) ?_ .standard
    · cases List.mem_singleton.mp ha
      exact ⟨amount, rfl, .inr rfl⟩
    · exact ⟨amount, List.mem_cons_self, by decide, _, rfl, by decide +kernel⟩
  · obtain ⟨m, -, -, -, -, -, -, hnot⟩ := Ensemble.aggregate_lacks_model_iff
      (e := ⟨[customersModel, ordersModel]⟩) built ordersAmounts_built
      ⟨ordersModel, hmodel, by decide +kernel⟩
    refine hnot (fun a ha _ feature hfeature => ?_) .standard
    cases List.mem_singleton.mp ha
    cases hfeature
    decide +kernel

end Kiosk

end ApproxQuery

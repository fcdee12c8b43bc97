import ApproxQuery.Proofs.Query.Built
import ApproxQuery.Proofs.Schema.Built
import ApproxQuery.Proofs.Schema.Connected
import ApproxQuery.Query.Building

/-!
# What a query holds while it is built

A call on a query has the effect of an addition, and a refused call leaves the query as it was.
Whatever calls are made, the tables, relationships and attributes of the query are those of the
schema, and the conditions on each table are the conditions of the query that are on it.
-/

namespace ApproxQuery

variable {N : Type} {g : Schema N} {q q' : Query N}

/-- The attribute is declared by its table. -/
def Schema.Declares (g : Schema N) (a : AttributeRef) : Prop :=
  ∃ t, g.table a.table = .ok t ∧ t.declares a.name = true

namespace Query

/-! ## Additions -/

theorem checkColumn_eq_ok {a : AttributeRef} : q.checkColumn a = .ok () ↔ q.schema.Declares a := by
  unfold checkColumn Schema.Declares
  rw [bind_eq_ok]
  simp only [mapError_eq_ok]
  refine exists_congr fun t => and_congr_right fun _ => ?_
  split <;> simp [*]

theorem addTable_eq_ok {name : String} (h : q.addTable name = .ok q') :
    (∃ t, q.schema.table name = .ok t) ∧ q' = { q with tables := q.tables.insert name } := by
  obtain ⟨t, ht, h⟩ := bind_eq_ok.mp h
  exact ⟨⟨t, mapError_eq_ok.mp ht⟩, (pure_eq_ok.mp h).symm⟩

theorem addCondition_eq_ok {c : Condition N} (h : q.addCondition c = .ok q') :
    q.schema.Declares c.column ∧ q' = { q with
      tables := q.tables.insert c.column.table
      tableConditions :=
        q.tableConditions.insert c.column.table (q.conditionsOn c.column.table ++ [c])
      conditions := q.conditions ++ [c] } := by
  obtain ⟨_, hcheck, h⟩ := bind_eq_ok.mp h
  exact ⟨checkColumn_eq_ok.mp hcheck, (pure_eq_ok.mp h).symm⟩

theorem addGroupBy_eq_ok {a : AttributeRef} (h : q.addGroupBy a = .ok q') :
    q.schema.Declares a ∧ q' = { q with groupBy := q.groupBy ++ [a] } := by
  obtain ⟨_, hcheck, h⟩ := bind_eq_ok.mp h
  exact ⟨checkColumn_eq_ok.mp hcheck, (pure_eq_ok.mp h).symm⟩

theorem declares_of_addAggregation {step : AggregateStep} {a? : Option Aggregation}
    (h : q.addAggregation step a? = .ok q') {a : AttributeRef} (ha : a?.bind (·.feature?) = some a) :
    q.schema.Declares a := by
  unfold addAggregation at h
  rw [ha] at h
  obtain ⟨_, hcheck, -⟩ := bind_eq_ok.mp h
  exact checkColumn_eq_ok.mp hcheck

theorem addRelationship_eq_ok {id : String} (h : q.addRelationship id = .ok q') :
    ∃ r, q.schema.relationship id = .ok r ∧ q' = { q with
      tables := (q.tables.insert r.source).insert r.target
      relationships := q.relationships.insert id } := by
  obtain ⟨r, hr, h⟩ := bind_eq_ok.mp h
  exact ⟨r, mapError_eq_ok.mp hr, (pure_eq_ok.mp h).symm⟩

/-! ## Consistency -/

/-- What the query names is in the schema, and its two views of the conditions fit each other. -/
structure Consistent (g : Schema N) (q : Query N) : Prop extends Linked g q where
  tables : ∀ name ∈ q.tables, ∃ t, g.table name = .ok t
  groupBy : ∀ a ∈ q.groupBy, g.Declares a
  features : ∀ s ∈ q.aggregations, ∀ a, s.2.bind (·.feature?) = some a → g.Declares a
  conditionsOn : ∀ table, q.conditionsOn table = q.conditions.filter (·.column.table == table)

theorem conditionsOn_insert {c : Condition N}
    (h : ∀ table, q.conditionsOn table = q.conditions.filter (·.column.table == table))
    (table : String) :
    ((q.tableConditions.insert c.column.table (q.conditionsOn c.column.table ++ [c])).get?
        table).getD [] = (q.conditions ++ [c]).filter (·.column.table == table) := by
  rw [List.filter_append, ← h]
  rcases eq_or_ne table c.column.table with rfl | hne
  · simp
  · rw [SortedMap.get?_insert_of_ne hne]
    simp [conditionsOn, hne.symm]

theorem consistent_empty (kind : QueryKind) : Consistent g (.empty g kind) where
  toLinked := linked_empty kind
  tables _ h := by cases h
  groupBy _ h := by cases h
  features _ h := by cases h
  conditionsOn _ := rfl

namespace Consistent

theorem addTable {name : String} (h : Consistent g q) (hadd : q.addTable name = .ok q') :
    Consistent g q' := by
  have hlinked := h.toLinked.addTable hadd
  obtain ⟨hknown, rfl⟩ := addTable_eq_ok hadd
  refine ⟨hlinked, fun t ht => ?_, h.groupBy, h.features, h.conditionsOn⟩
  rcases SortedSet.mem_insert.mp ht with rfl | ht
  · exact h.schema ▸ hknown
  · exact h.tables t ht

theorem addCondition {c : Condition N} (h : Consistent g q) (hadd : q.addCondition c = .ok q') :
    Consistent g q' := by
  have hlinked := h.toLinked.addCondition hadd
  obtain ⟨⟨u, hu, -⟩, rfl⟩ := addCondition_eq_ok hadd
  refine ⟨hlinked, fun t ht => ?_, h.groupBy, h.features, conditionsOn_insert h.conditionsOn⟩
  rcases SortedSet.mem_insert.mp ht with rfl | ht
  · exact ⟨u, h.schema ▸ hu⟩
  · exact h.tables t ht

theorem addGroupBy {a : AttributeRef} (h : Consistent g q) (hadd : q.addGroupBy a = .ok q') :
    Consistent g q' := by
  have hlinked := h.toLinked.addGroupBy hadd
  obtain ⟨hdeclared, rfl⟩ := addGroupBy_eq_ok hadd
  refine ⟨hlinked, h.tables, fun b hb => ?_, h.features, h.conditionsOn⟩
  rcases List.mem_append.mp hb with hb | hb
  · exact h.groupBy b hb
  · cases List.mem_singleton.mp hb
    exact h.schema ▸ hdeclared

theorem addAggregation {step : AggregateStep} {a? : Option Aggregation} (h : Consistent g q)
    (hadd : q.addAggregation step a? = .ok q') : Consistent g q' := by
  have hlinked := h.toLinked.addAggregation hadd
  have hdeclared := h.schema ▸ @declares_of_addAggregation _ q q' step a? hadd
  cases eq_of_addAggregation hadd
  refine ⟨hlinked, h.tables, h.groupBy, fun s hs a ha => ?_, h.conditionsOn⟩
  rcases List.mem_append.mp hs with hs | hs
  · exact h.features s hs a ha
  · cases List.mem_singleton.mp hs
    exact hdeclared ha

theorem addRelationship {id : String} (hg : g.Linked) (h : Consistent g q)
    (hadd : q.addRelationship id = .ok q') : Consistent g q' := by
  have hlinked := h.toLinked.addRelationship hadd
  obtain ⟨r, hr, rfl⟩ := addRelationship_eq_ok hadd
  have hend {t : String} (ht : t = r.source ∨ t = r.target) : ∃ u, g.table t = .ok u := by
    refine JoinPath.exists_table_of_isEnd hg ⟨id, List.mem_singleton_self id, r, h.schema ▸ hr, ?_⟩
    exact ht.imp Eq.symm Eq.symm
  refine ⟨hlinked, fun t ht => ?_, h.groupBy, h.features, h.conditionsOn⟩
  rcases SortedSet.mem_insert.mp ht with rfl | ht
  · exact hend (.inr rfl)
  · rcases SortedSet.mem_insert.mp ht with rfl | ht
    · exact hend (.inl rfl)
    · exact h.tables t ht

end Consistent

theorem Built.consistent (hg : g.Linked) (h : Built g q) : Consistent g q := by
  induction h with
  | empty kind => exact consistent_empty kind
  | addTable built added ih => exact ih.addTable added
  | addRelationship built added ih => exact ih.addRelationship hg added
  | addCondition built added ih => exact ih.addCondition added
  | addGroupBy built added ih => exact ih.addGroupBy added
  | addAggregation built added ih => exact ih.addAggregation added

/-- The query for the number of rows joins and filters in the same way, and does nothing else. -/
theorem Consistent.toCardinality (h : Consistent g q) : Consistent g q.toCardinality where
  toLinked := h.toLinked.mono rfl rfl rfl fun t ht => ht
  tables := h.tables
  groupBy _ ha := by cases ha
  features _ hs := by cases hs
  conditionsOn := h.conditionsOn

/-- The answer to an addition, and the query after it. -/
def outcome (q : Query N) : Except QueryError (Query N) → Except QueryError Unit × Query N
  | .ok q' => (.ok (), q')
  | .error e => (.error e, q)

end Query

/-! ## Calls -/

namespace QueryUpdate

theorem run_checkColumn (a : AttributeRef) :
    (checkColumn a).run.run q = (q.checkColumn a, q) := by
  unfold checkColumn Query.checkColumn
  rw [Update.run_get_bind]
  cases q.schema.table a.table with
  | error e => rfl
  | ok t =>
    have hknown : (Except.ok t).mapError QueryError.schema = .ok t := rfl
    rw [hknown, Update.run_bind_ok Update.run_lift]
    change _ = (if t.declares a.name then _ else _, q)
    cases t.declares a.name <;> rfl

/-- A change that follows a check is made if the check passes. -/
theorem run_checkColumn_bind {x : QueryUpdate N Unit} (a : AttributeRef)
    (h : x.run.run q = (.ok (), q')) :
    (checkColumn a >>= fun _ => x).run.run q =
      q.outcome (q.checkColumn a >>= fun _ => .ok q') := by
  have hcheck := run_checkColumn (q := q) a
  cases hanswer : q.checkColumn a with
  | error e =>
    rw [hanswer] at hcheck
    exact Update.run_bind_error hcheck
  | ok u =>
    rw [hanswer] at hcheck
    rw [Update.run_bind_ok hcheck, h]
    rfl

theorem run_addTable (name : String) :
    (addTable name).run.run q = q.outcome (q.addTable name) := by
  unfold addTable Query.addTable
  rw [Update.run_get_bind]
  cases q.schema.table name <;> rfl

theorem run_addCondition (c : Condition N) :
    (addCondition c).run.run q = q.outcome (q.addCondition c) :=
  run_checkColumn_bind c.column rfl

theorem run_addConditionText (q : Query Float) (table text : String) :
    (addConditionText table text).run.run q = q.outcome (q.addConditionText table text) := by
  unfold addConditionText Query.addConditionText
  cases Condition.parse table text with
  | error e => rfl
  | ok c =>
    rw [Update.run_bind_ok Update.run_lift]
    exact run_addCondition c

theorem run_addGroupBy (a : AttributeRef) :
    (addGroupBy a).run.run q = q.outcome (q.addGroupBy a) :=
  run_checkColumn_bind a rfl

theorem run_addAggregation (step : AggregateStep) (a? : Option Aggregation) :
    (addAggregation step a?).run.run q = q.outcome (q.addAggregation step a?) := by
  unfold addAggregation Query.addAggregation
  cases a?.bind (·.feature?) with
  | none => rfl
  | some a => exact run_checkColumn_bind a rfl

theorem run_addRelationship (id : String) :
    (addRelationship id).run.run q = q.outcome (q.addRelationship id) := by
  unfold addRelationship Query.addRelationship
  rw [Update.run_get_bind]
  cases q.schema.relationship id <;> rfl

end QueryUpdate

namespace QueryCall

/-- What the call adds to a query. -/
def addition : QueryCall → Query Float → Except QueryError (Query Float)
  | addTable name, q => q.addTable name
  | addCondition c, q => q.addCondition c
  | addConditionText table text, q => q.addConditionText table text
  | addGroupBy a, q => q.addGroupBy a
  | addAggregation step aggregation?, q => q.addAggregation step aggregation?
  | addRelationship identifier, q => q.addRelationship identifier

theorem run_eq (call : QueryCall) (q : Query Float) : call.run q = q.outcome (call.addition q) := by
  cases call with
  | addTable name => exact QueryUpdate.run_addTable name
  | addCondition c => exact QueryUpdate.run_addCondition c
  | addConditionText table text => exact QueryUpdate.run_addConditionText q table text
  | addGroupBy a => exact QueryUpdate.run_addGroupBy a
  | addAggregation step aggregation? => exact QueryUpdate.run_addAggregation step aggregation?
  | addRelationship identifier => exact QueryUpdate.run_addRelationship identifier

variable {g : Schema Float} {q q' : Query Float}

theorem built_of_addition {call : QueryCall} (h : Query.Built g q) (hadd : call.addition q = .ok q') :
    Query.Built g q' := by
  cases call with
  | addTable name => exact h.addTable hadd
  | addCondition c => exact h.addCondition hadd
  | addConditionText table text =>
    obtain ⟨c, -, hadd⟩ := bind_eq_ok.mp hadd
    exact h.addCondition hadd
  | addGroupBy a => exact h.addGroupBy hadd
  | addAggregation step aggregation? => exact h.addAggregation hadd
  | addRelationship identifier => exact h.addRelationship hadd

theorem built_of_run (call : QueryCall) (h : Query.Built g q) : Query.Built g (call.run q).2 := by
  rw [run_eq]
  cases hadd : call.addition q with
  | error e => exact h
  | ok q' => exact built_of_addition h hadd

theorem built_after (g : Schema Float) (kind : QueryKind) (calls : List QueryCall) :
    Query.Built g (after g kind calls) := by
  unfold after
  refine List.foldlRecOn calls _ (Query.Built.empty kind) fun q h call _ => ?_
  exact built_of_run call h

theorem unchanged_of_error {call : QueryCall} {e : QueryError} (h : (call.run q).1 = .error e) :
    (call.run q).2 = q := by
  rw [run_eq] at h ⊢
  cases hadd : call.addition q with
  | error e' => rfl
  | ok q' =>
    rw [hadd] at h
    cases h

/-- After any calls on a fresh query, refused ones included, the query is consistent; a further call
that is refused changes nothing; and the query for the number of rows keeps what is joined and
filtered, without aggregations and groups. -/
theorem after_keeps_consistent (hg : g.Built) (kind : QueryKind) (calls : List QueryCall) :
    (after g kind calls).Consistent g ∧
    (∀ (call : QueryCall) e, (call.run (after g kind calls)).1 = .error e →
      (call.run (after g kind calls)).2 = after g kind calls) ∧
    (after g kind calls).toCardinality.tables = (after g kind calls).tables ∧
    (after g kind calls).toCardinality.relationships = (after g kind calls).relationships ∧
    (after g kind calls).toCardinality.conditions = (after g kind calls).conditions ∧
    (∀ table, (after g kind calls).toCardinality.conditionsOn table =
      (after g kind calls).conditionsOn table) ∧
    (after g kind calls).toCardinality.aggregations = [] ∧
    (after g kind calls).toCardinality.groupBy = [] ∧
    (after g kind calls).toCardinality.Consistent g := by
  have h := (built_after g kind calls).consistent hg.linked
  exact ⟨h, fun call e => unchanged_of_error, rfl, rfl, rfl, fun table => rfl, rfl, rfl,
    h.toCardinality⟩

end QueryCall

namespace Kiosk

def customers : Table Float := { Table.named "customers" with attributes := ["id", "region"] }

def orders : Table Float :=
  { Table.named "orders" with attributes := ["id", "customer", "amount"] }

def customer : Relationship := .between "orders" "customer" "customers" "id" none

def schema : Schema Float :=
  ⟨[customers, orders].map (Schema.link customer), [customer]⟩

theorem built : schema.Built := by
  have hcustomers : Schema.empty.addTable customers = .ok ⟨[customers], []⟩ := by decide +kernel
  have horders : (⟨[customers], []⟩ : Schema Float).addTable orders = .ok ⟨[customers, orders], []⟩ := by
    decide +kernel
  have hcustomer : (⟨[customers, orders], []⟩ : Schema Float).addRelationship customer = .ok schema := by
    decide +kernel
  exact ((Schema.Built.empty.addTable rfl rfl hcustomers).addTable rfl rfl horders).addRelationship
    hcustomer

/-- A condition on an attribute that no customer has. -/
def refused : QueryCall := .addConditionText "customers" "height > 2"

def calls : List QueryCall :=
  [.addConditionText "orders" "amount >= 3", refused, .addRelationship customer.identifier,
    .addConditionText "customers" "region = 'EU'", .addGroupBy ⟨"customers", "region"⟩,
    .addAggregation .aggregate (some ⟨.avg, some ⟨"orders", "amount"⟩⟩)]

/-- The refused condition is in neither list of conditions. -/
theorem after_keeps_consistent_kiosk :
    let q := QueryCall.after schema .aggregate calls
    q.Consistent schema ∧ (refused.run q).2 = q ∧ q.toCardinality.Consistent schema ∧
      q.tables.toList = ["customers", "orders"] ∧ q.conditions.length = 2 := by
  obtain ⟨hq, hrefused, -, -, -, -, -, -, hcardinality⟩ :=
    QueryCall.after_keeps_consistent built .aggregate calls
  obtain ⟨e, he⟩ : ∃ e, (refused.run (QueryCall.after schema .aggregate calls)).1 = .error e :=
    exists_eq_error (by decide +kernel)
  exact ⟨hq, hrefused refused e he, hcardinality, by decide +kernel, by decide +kernel⟩

end Kiosk

end ApproxQuery

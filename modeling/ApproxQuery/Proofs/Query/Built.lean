import ApproxQuery.Proofs.Outcome
import ApproxQuery.Proofs.Schema.Chain
import ApproxQuery.Query.Basic

/-!
# Queries made by additions

A query that is built on a schema has the tables of its relationships and of its conditions, and
filters on declared attributes.
-/

namespace ApproxQuery.Query

variable {N : Type} {g : Schema N} {q q' : Query N}

/-- The query results from additions to the empty one. -/
inductive Built (g : Schema N) : Query N → Prop where
  | empty (kind : QueryKind) : Built g (.empty g kind)
  | addTable {q q' : Query N} {name : String} (built : Built g q) (added : q.addTable name = .ok q') :
      Built g q'
  | addRelationship {q q' : Query N} {id : String} (built : Built g q)
      (added : q.addRelationship id = .ok q') : Built g q'
  | addCondition {q q' : Query N} {c : Condition N} (built : Built g q)
      (added : q.addCondition c = .ok q') : Built g q'
  | addGroupBy {q q' : Query N} {a : AttributeRef} (built : Built g q)
      (added : q.addGroupBy a = .ok q') : Built g q'
  | addAggregation {q q' : Query N} {step : AggregateStep} {a? : Option Aggregation}
      (built : Built g q) (added : q.addAggregation step a? = .ok q') : Built g q'

theorem eq_of_addAggregation {step : AggregateStep} {a? : Option Aggregation}
    (h : q.addAggregation step a? = .ok q') :
    q' = { q with aggregations := q.aggregations ++ [(step, a?)] } := by
  unfold Query.addAggregation at h
  split at h
  · obtain ⟨_, _, h⟩ := bind_eq_ok.mp h
    exact (pure_eq_ok.mp h).symm
  · exact (pure_eq_ok.mp h).symm

/-- The tables of relationships and conditions are among those of the query. -/
structure Linked (g : Schema N) (q : Query N) : Prop where
  schema : q.schema = g
  ends : ∀ id ∈ q.relationships, ∃ r, g.relationship id = .ok r ∧ r.source ∈ q.tables ∧
    r.target ∈ q.tables
  conditions : ∀ c ∈ q.conditions, c.column.table ∈ q.tables ∧
    ∃ t, g.table c.column.table = .ok t ∧ t.declares c.column.name = true

namespace Linked

theorem known (h : Linked g q) : ∀ id ∈ q.relationships.toList, ∃ r, g.relationship id = .ok r := by
  intro id hid
  obtain ⟨r, hr, -⟩ := h.ends id hid
  exact ⟨r, hr⟩

theorem mono (h : Linked g q) (hschema : q'.schema = q.schema)
    (hrelationships : q'.relationships = q.relationships) (hconditions : q'.conditions = q.conditions)
    (htables : ∀ t ∈ q.tables, t ∈ q'.tables) : Linked g q' := by
  refine ⟨hschema.trans h.schema, fun id hid => ?_, fun c hc => ?_⟩
  · rw [hrelationships] at hid
    obtain ⟨r, known, hs, ht⟩ := h.ends id hid
    exact ⟨r, known, htables _ hs, htables _ ht⟩
  · rw [hconditions] at hc
    obtain ⟨htable, hdeclared⟩ := h.conditions c hc
    exact ⟨htables _ htable, hdeclared⟩

theorem addTable {name : String} (h : Linked g q) (hadd : q.addTable name = .ok q') :
    Linked g q' := by
  obtain ⟨_, _, hadd⟩ := bind_eq_ok.mp hadd
  cases pure_eq_ok.mp hadd
  exact h.mono rfl rfl rfl fun t ht => SortedSet.mem_insert.mpr (.inr ht)

theorem addRelationship {id : String} (h : Linked g q) (hadd : q.addRelationship id = .ok q') :
    Linked g q' := by
  obtain ⟨r, known, hadd⟩ := bind_eq_ok.mp hadd
  cases pure_eq_ok.mp hadd
  have hold (t : String) (ht : t ∈ q.tables) : t ∈ (q.tables.insert r.source).insert r.target :=
    SortedSet.mem_insert.mpr (.inr (SortedSet.mem_insert.mpr (.inr ht)))
  refine ⟨h.schema, fun id' hid => ?_, fun c hc => ?_⟩
  · rcases SortedSet.mem_insert.mp hid with rfl | hid
    · refine ⟨r, h.schema ▸ mapError_eq_ok.mp known, ?_, SortedSet.mem_insert.mpr (.inl rfl)⟩
      exact SortedSet.mem_insert.mpr (.inr (SortedSet.mem_insert.mpr (.inl rfl)))
    · obtain ⟨r', known', hs, ht⟩ := h.ends id' hid
      exact ⟨r', known', hold _ hs, hold _ ht⟩
  · obtain ⟨htable, hdeclared⟩ := h.conditions c hc
    exact ⟨hold _ htable, hdeclared⟩

theorem addCondition {c : Condition N} (h : Linked g q) (hadd : q.addCondition c = .ok q') :
    Linked g q' := by
  obtain ⟨_, hcheck, hadd⟩ := bind_eq_ok.mp hadd
  cases pure_eq_ok.mp hadd
  have hold (t : String) (ht : t ∈ q.tables) : t ∈ q.tables.insert c.column.table :=
    SortedSet.mem_insert.mpr (.inr ht)
  refine ⟨h.schema, fun id hid => ?_, fun d hd => ?_⟩
  · obtain ⟨r, known, hs, ht⟩ := h.ends id hid
    exact ⟨r, known, hold _ hs, hold _ ht⟩
  · rcases List.mem_append.mp hd with hd | hd
    · obtain ⟨htable, hdeclared⟩ := h.conditions d hd
      exact ⟨hold _ htable, hdeclared⟩
    · cases List.mem_singleton.mp hd
      obtain ⟨t, ht, hdeclared⟩ := bind_eq_ok.mp hcheck
      refine ⟨SortedSet.mem_insert.mpr (.inl rfl), t, h.schema ▸ mapError_eq_ok.mp ht, ?_⟩
      split at hdeclared
      · assumption
      · cases hdeclared

theorem addGroupBy {a : AttributeRef} (h : Linked g q) (hadd : q.addGroupBy a = .ok q') :
    Linked g q' := by
  obtain ⟨_, _, hadd⟩ := bind_eq_ok.mp hadd
  cases pure_eq_ok.mp hadd
  exact h.mono rfl rfl rfl fun t ht => ht

theorem addAggregation {step : AggregateStep} {a? : Option Aggregation} (h : Linked g q)
    (hadd : q.addAggregation step a? = .ok q') : Linked g q' := by
  cases eq_of_addAggregation hadd
  exact h.mono rfl rfl rfl fun t ht => ht

end Linked

theorem linked_empty (kind : QueryKind) : Linked g (.empty g kind) := by
  refine ⟨rfl, fun id hid => ?_, fun c hc => ?_⟩
  · cases hid
  · cases hc

theorem Built.linked (h : Built g q) : Linked g q := by
  induction h with
  | empty kind => exact linked_empty kind
  | addTable built added ih => exact ih.addTable added
  | addRelationship built added ih => exact ih.addRelationship added
  | addCondition built added ih => exact ih.addCondition added
  | addGroupBy built added ih => exact ih.addGroupBy added
  | addAggregation built added ih => exact ih.addAggregation added

end ApproxQuery.Query

import ApproxQuery.Proofs.Query.Condition
import ApproxQuery.Proofs.Sample.OuterJoin
import ApproxQuery.Query.Basic

/-!
# Inner joins of raw tables

The inner join of the tables of a query has a row for each choice of one raw row of each table, where
the keys agree along all relationships and the conditions hold.
-/

namespace ApproxQuery

namespace RawSource

def rowCount (source : RawSource ℚ) (table : String) : Nat :=
  (source table).toOption.elim 0 RawTable.size

/-- The value of an attribute in a row of its table. -/
def value? (source : RawSource ℚ) (a : AttributeRef) (row : Nat) : Option (Value ℚ) :=
  (source a.table).toOption.bind fun raw => (raw.column? a.name).bind (·[row]?)

/-- The keys of the chosen rows are equal and not null. -/
def joins (source : RawSource ℚ) (r : Relationship) (rowOf : String → Nat) : Prop :=
  ∃ x ∈ source.value? r.sourceKey (rowOf r.source), ∃ y ∈ source.value? r.targetKey (rowOf r.target),
    x.isNull = false ∧ (x == y) = true

/-- The condition holds of the chosen row. -/
def satisfies (source : RawSource ℚ) (c : Condition ℚ) (rowOf : String → Nat) : Prop :=
  ∃ x ∈ source.value? c.column (rowOf c.column.table), c.holds x = true

variable {source : RawSource ℚ} {rowOf : String → Nat}

instance (r : Relationship) : Decidable (source.joins r rowOf) := by
  unfold joins
  infer_instance

instance (c : Condition ℚ) : Decidable (source.satisfies c rowOf) := by
  unfold satisfies
  infer_instance

end RawSource

namespace Query

/-- A row of each table of the query. -/
abbrev Choice (q : Query ℚ) := {table // table ∈ q.tables.toList} → Nat

def rowOf (q : Query ℚ) (choice : q.Choice) (table : String) : Nat :=
  if h : table ∈ q.tables.toList then choice ⟨table, h⟩ else 0

/-- The rows agree along the relationships of the query and satisfy its conditions. -/
def Matches (q : Query ℚ) (source : RawSource ℚ) (rowOf : String → Nat) : Prop :=
  (∀ id ∈ q.relationships.toList, ∀ r ∈ q.schema.relationship? id, source.joins r rowOf) ∧
    ∀ c ∈ q.conditions, source.satisfies c rowOf

instance (q : Query ℚ) (source : RawSource ℚ) (rowOf : String → Nat) :
    Decidable (q.Matches source rowOf) := by
  unfold Matches
  infer_instance

/-- The rows of the inner join that satisfy the conditions. -/
def innerJoin (q : Query ℚ) (source : RawSource ℚ) : Finset q.Choice :=
  (Fintype.piFinset fun table => Finset.range (source.rowCount table.1)).filter fun choice =>
    q.Matches source (q.rowOf choice)

variable {q : Query ℚ} {source : RawSource ℚ} {choice : q.Choice}

theorem rowOf_of_mem {table : String} (h : table ∈ q.tables.toList) :
    q.rowOf choice table = choice ⟨table, h⟩ :=
  dif_pos h

theorem mem_innerJoin : choice ∈ q.innerJoin source ↔
    (∀ table ∈ q.tables.toList, q.rowOf choice table < source.rowCount table) ∧
      q.Matches source (q.rowOf choice) := by
  rw [innerJoin, Finset.mem_filter, Fintype.mem_piFinset]
  refine and_congr_left fun _ => ⟨fun h table htable => ?_, fun h table => ?_⟩
  · rw [rowOf_of_mem htable]
    exact Finset.mem_range.mp (h ⟨table, htable⟩)
  · have hlt := h table.1 table.2
    rw [rowOf_of_mem table.2] at hlt
    exact Finset.mem_range.mpr hlt

end Query

end ApproxQuery

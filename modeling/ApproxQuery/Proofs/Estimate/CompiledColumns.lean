import ApproxQuery.Proofs.Estimate.CompiledFactors
import ApproxQuery.Proofs.Estimate.FanOutWalk
import ApproxQuery.Proofs.Sample.DefinedColumns

/-!
# What the compiler reads of a sample

The multipliers and the conditions that the compiler adds to a query name columns that every sample
of the join has, and its terms are asked of the tables of the sample.
-/

namespace ApproxQuery

open JoinPath

variable {N : Type}

namespace Factor

/-- The tables that the term is asked of; a probability leaves them open. -/
def tables? : Factor N → Option (SortedSet String)
  | indicator t => some t.tables
  | expectation t => some t.tables
  | probability _ => none

/-- The attributes that the term divides by. -/
def divisors : Factor N → List AttributeRef
  | indicator t => t.denominator
  | expectation t => t.normalizers
  | probability _ => []

/-- The term is asked of the tables of the sample. It divides by defined multipliers that relationships
of the sample give to their targets, and beyond the conditions of the query it has one on the null
indicator of each table of the query. All these are columns of the sample. -/
structure ReadsSample (q : Query N) (w : JoinSample N) (f : Factor N) : Prop where
  tables : f.tables? = some (.ofList w.tables)
  divisors : ∀ a ∈ f.divisors, ∃ id ∈ w.relationships, ∃ r, q.schema.relationship id = .ok r ∧
    r.target ∈ w.tables ∧ a = r.definedMultiplier ∧ a.qualified ∈ w.columns
  conditions : ∃ added, f.conditions = q.conditions ++ added ∧
    List.Forall₂ (fun table c => ∃ t, q.schema.table table = .ok t ∧
      c = .equals ⟨table, t.nullIndicator⟩ (.int 0) ∧ c.column.qualified ∈ w.columns)
      q.tables.toList added

end Factor

/-- The model is of the join that the sample is of, and covers the query. -/
structure DensityModel.Spans (m : DensityModel N) (q : Query N) (w : JoinSample N) : Prop where
  tables : m.tables = .ofList w.tables
  relationships : m.relationships = .ofList w.relationships
  join : 1 < m.tables.size
  covers : m.covers q = true

namespace DensityModel.Spans

variable {q : Query N} {m : DensityModel N} {w : JoinSample N} {denominator : List AttributeRef}
  {conditions : List (Condition N)} {f : Factor N}

theorem exists_relationship (h : m.Spans q w) (hw : w.HasOwnColumns q.schema) {id : String}
    (hid : id ∈ m.relationships) : id ∈ w.relationships ∧ ∃ r, q.schema.relationship id = .ok r ∧
      r.target ∈ w.tables ∧ r.definedMultiplier.qualified ∈ w.columns := by
  rw [h.relationships, SortedSet.mem_ofList] at hid
  exact ⟨hid, hw.multipliers id hid⟩

theorem exists_table (h : m.Spans q w) (hw : w.HasOwnColumns q.schema) {table : String}
    (htable : table ∈ q.tables) :
    ∃ t, q.schema.table table = .ok t ∧ t.qualifiedNullIndicator ∈ w.columns := by
  have hsub := SortedSet.subset_eq_true.mp (Bool.and_eq_true .. ▸ h.covers).1 table htable
  rw [h.tables, SortedSet.mem_ofList] at hsub
  exact hw.indicators table hsub

theorem divisors (h : m.Spans q w) (hw : w.HasOwnColumns q.schema) :
    ∃ denominator, q.normalizers m = .ok denominator ∧ ∀ a ∈ denominator, ∃ id ∈ w.relationships,
      ∃ r, q.schema.relationship id = .ok r ∧ r.target ∈ w.tables ∧ a = r.definedMultiplier ∧
        a.qualified ∈ w.columns := by
  obtain ⟨denominator, hdivided, hmultipliers⟩ := Query.exists_normalizers fun id hid => by
    obtain ⟨-, r, known, -⟩ := h.exists_relationship hw hid
    exact ⟨r, known⟩
  refine ⟨denominator, hdivided, fun a ha => ?_⟩
  obtain ⟨id, hid, r, known, rfl⟩ := hmultipliers a ha
  obtain ⟨hid, r', known', htarget, hcolumn⟩ := h.exists_relationship hw hid
  cases known.symm.trans known'
  exact ⟨id, hid, r, known, htarget, rfl, hcolumn⟩

theorem exists_termConditions (h : m.Spans q w) (hw : w.HasOwnColumns q.schema) :
    ∃ conditions, q.termConditions m = .ok conditions := by
  obtain ⟨added, hadded⟩ := exists_mapM_eq_ok (f := q.presence) fun table htable => by
    obtain ⟨t, ht, -⟩ := h.exists_table hw htable
    exact ⟨_, Query.presence_eq_ok.mpr ⟨t, ht, rfl⟩⟩
  exact ⟨_, (Query.termConditions_eq_ok h.join).mpr ⟨added, mapM_eq_ok.mp hadded, rfl⟩⟩

theorem exists_added (h : m.Spans q w) (hw : w.HasOwnColumns q.schema)
    (present : q.termConditions m = .ok conditions) : ∃ added, conditions = q.conditions ++ added ∧
      List.Forall₂ (fun table c => ∃ t, q.schema.table table = .ok t ∧
        c = .equals ⟨table, t.nullIndicator⟩ (.int 0) ∧ c.column.qualified ∈ w.columns)
        q.tables.toList added := by
  obtain ⟨added, hadded, rfl⟩ := (Query.termConditions_eq_ok h.join).mp present
  refine ⟨added, rfl, ?_⟩
  have hboth := (List.forall₂_and_left _ _).mpr ⟨fun table htable => h.exists_table hw htable, hadded⟩
  refine hboth.imp ?_
  rintro table c ⟨⟨t, ht, hcolumn⟩, hc⟩
  obtain ⟨t', ht', rfl⟩ := Query.presence_eq_ok.mp hc
  cases ht.symm.trans ht'
  rw [Table.qualifiedNullIndicator, Schema.name_of_table ht] at hcolumn
  exact ⟨t, ht, rfl, hcolumn⟩

theorem readsSample [Scalar N] (h : m.Spans q w) (hw : w.HasOwnColumns q.schema) (hf : q.Asks m f) :
    f.ReadsSample q w := by
  have htables : some m.tables = some (.ofList w.tables) := congrArg some h.tables
  obtain ⟨denominator, hdivided, hdivisors⟩ := h.divisors hw
  cases hf with
  | probability single => exact absurd single h.join.ne'
  | indicator divided present =>
    cases divided.symm.trans hdivided
    exact ⟨htables, hdivisors, h.exists_added hw present⟩
  | inverted divided present =>
    cases divided.symm.trans hdivided
    exact ⟨htables, hdivisors, h.exists_added hw present⟩
  | expectation divided present =>
    cases divided.symm.trans hdivided
    exact ⟨htables, hdivisors, h.exists_added hw present⟩

end DensityModel.Spans

namespace Sampler

variable [Scalar N] [NumericScalar N] {s : Sampler N} {source : RawSource N} {config : PreparationConfig N}
  {ids : List String} {cache : TableCache N} {w : JoinSample N} {q : Query N} {m : DensityModel N}

/-- On a model of a sampled join, the number of rows of a query that the model covers is compiled to one
term and its aggregates to terms, all of them on the tables of the sample. What they divide by and the
conditions that are added name columns of the sample. -/
theorem compiled_columns_exist (hs : s.Serves source config) (hg : s.schema.Built)
    (hkeeps : s.KeepsMultipliers) (hcache : s.Caches cache) (hw : s.Draws ids cache w)
    (hends : ∃ a b, IsEnd s.schema ids a ∧ IsEnd s.schema ids b ∧ a ≠ b)
    (htables : m.tables = .ofList w.tables) (hrelationships : m.relationships = .ofList w.relationships)
    (hq : q.schema = s.schema) (hcovers : m.covers q = true) :
    (∃ t, q.cardinalityFormula m = .ok ⟨m.fullJoinSize, [.indicator t]⟩ ∧
        (Factor.indicator t).ReadsSample q w) ∧
      ∀ parts, q.aggregateFormulas m = .ok parts →
        ∀ part ∈ parts, ∀ t ∈ part.2.factors, t.ReadsSample q w := by
  obtain ⟨a, b, ha, hb, hne⟩ := hends
  have hids : ids ≠ [] := by
    rintro rfl
    obtain ⟨id, hid, -⟩ := ha
    cases hid
  have hcolumns := hw.hasOwnColumns hs hg.linked hkeeps hcache hids
  rw [← hq] at hcolumns
  have hmem {table : String} (hend : IsEnd s.schema ids table) : table ∈ m.tables := by
    rw [htables, SortedSet.mem_ofList]
    exact (hw.mem_tables hs hg.linked hcache hids table).mpr hend
  have hspans : m.Spans q w :=
    ⟨htables, hrelationships, SortedSet.one_lt_size (hmem ha) (hmem hb) hne, hcovers⟩
  obtain ⟨denominator, hdivided, -⟩ := hspans.divisors hcolumns
  obtain ⟨conditions, hpresent⟩ := hspans.exists_termConditions hcolumns
  have hformula := Query.cardinalityFormula_eq hcovers hspans.join.ne' hdivided hpresent
  refine ⟨⟨_, hformula, ?_⟩, fun parts hparts part hpart t ht => ?_⟩
  · exact hspans.readsSample hcolumns
      (Query.asks_of_cardinalityFormula hformula _ List.mem_cons_self)
  · exact hspans.readsSample hcolumns (Query.asks_of_aggregateFormulas hparts part hpart t ht)

end Sampler

namespace Shop

theorem keepsMultipliers : sampler.KeepsMultipliers := by
  constructor
  · have hstored : ∀ t ∈ schema.tables,
        (sampler.load t.name).toOption.all (·.size != 0) = true := by decide +kernel
    intro t ht data hdata
    have hsize := hstored t ht
    rw [hdata] at hsize
    exact bne_iff_ne.mp hsize
  · have hnone : ∀ t ∈ schema.tables, t.irrelevant = [] := by decide
    intro r _ t ht
    rw [hnone t (Schema.mem_of_table_eq_ok ht)]
    exact List.not_mem_nil

/-- The average of the orders' numbers, in the join with customers, items and visits. -/
def averageOrder : Query ℚ :=
  { Query.empty schema .aggregate with
    tables := .ofList ["orders"]
    aggregations := [(.aggregate, some ⟨.avg, some ⟨"orders", "id"⟩⟩)] }

def joinModel : DensityModel ℚ where
  name := "shop"
  fullJoinSize := 3
  tables := .ofList path.tables
  relationships := .ofList relationships
  indicator _ := .ok 1
  expectation _ := .ok 10
  probability _ := .ok 1

/-- The items of an order and the visits of its customer repeat it. Its presence is asked for, and the
average is the quotient of two terms. -/
theorem compiled_columns_exist_orders : ∃ w t sum count,
    (sampler.sample ⟨.relationships relationships, 5, none⟩ (ChaCha.ofSeed 0)
      sampler.freshCache).1 = .ok w ∧
    averageOrder.normalizers joinModel = .ok [items.definedMultiplier, visits.definedMultiplier] ∧
    averageOrder.termConditions joinModel = .ok [.equals ⟨"orders", "orders_is_null"⟩ (.int 0)] ∧
    averageOrder.cardinalityFormula joinModel = .ok ⟨3, [.indicator t]⟩ ∧
    averageOrder.aggregateFormulas joinModel = .ok [(1, ⟨1, [.indicator sum, .indicator count]⟩)] ∧
    (Factor.indicator t).ReadsSample averageOrder w ∧
    (Factor.indicator sum).ReadsSample averageOrder w ∧
    (Factor.indicator count).ReadsSample averageOrder w := by
  have hsample : ((sampler.sample ⟨.relationships relationships, 5, none⟩ (ChaCha.ofSeed 0)
      sampler.freshCache).1.toOption.any fun w =>
        decide (w.tables = path.tables ∧ w.relationships = relationships)) = true := by
    decide +kernel
  obtain ⟨w, hw, hjoin⟩ := (Option.any_eq_true _ _).mp hsample
  obtain ⟨htables, hrelationships⟩ := of_decide_eq_true hjoin
  have hends : ∃ a b, IsEnd schema relationships a ∧ IsEnd schema relationships b ∧ a ≠ b :=
    ⟨"orders", "customers", ⟨orders.identifier, by decide, orders, rfl, .inl rfl⟩,
      ⟨orders.identifier, by decide, orders, rfl, .inr rfl⟩, by decide⟩
  obtain ⟨⟨t, hformula, hreads⟩, haverage⟩ := Sampler.compiled_columns_exist (q := averageOrder)
    (m := joinModel) (Sampler.ofPrepared_serves schema source .standard .standard) built
    keepsMultipliers (Sampler.caches_freshCache sampler) (.whole rfl (mem_toOption.mp hw)) hends
    (htables ▸ rfl) (hrelationships ▸ rfl) rfl (by decide +kernel)
  obtain ⟨sum, count, hparts⟩ : ∃ sum count, averageOrder.aggregateFormulas joinModel =
      .ok [(1, ⟨1, [.indicator sum, .indicator count]⟩)] := ⟨_, _, rfl⟩
  have hterms := haverage _ hparts _ List.mem_cons_self
  exact ⟨w, t, sum, count, mem_toOption.mp hw, rfl, rfl, hformula, hparts, hreads,
    hterms _ List.mem_cons_self, hterms _ (List.mem_cons_of_mem _ List.mem_cons_self)⟩

end Shop

end ApproxQuery

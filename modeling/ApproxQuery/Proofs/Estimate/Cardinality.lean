import ApproxQuery.Proofs.Estimate.TermConditions

/-!
# Exact cardinalities

On a complete sample of a tree, a connected query with the root of the tree is answered with the
number of rows of its inner join: each of these rows weighs one in all among the rows of the sample.
-/

namespace ApproxQuery

open Expansion JoinPath

theorem sum_map_finset_sum {α β : Type} (xs : List α) (s : Finset β) (f : α → β → ℚ) :
    (xs.map fun x => ∑ y ∈ s, f x y).sum = ∑ y ∈ s, (xs.map fun x => f x y).sum := by
  induction xs with
  | nil => simp
  | cons x xs ih =>
    simp only [List.map_cons, List.sum_cons]
    rw [ih, Finset.sum_add_distrib]

theorem Query.valueIn_indicatorTerm {m : DensityModel ℚ} {denominator : List AttributeRef}
    {conditions : List (Condition ℚ)} {bs : List (TableBlock ℚ)} {cells : List ℚ} :
    (indicatorTerm m [] denominator conditions).valueIn bs cells =
      if conditions.all fun c => c.holds (decodedCell bs cells c.column) then
        1 / (denominator.map (cellOf bs cells)).prod
      else 0 :=
  rfl

/-- The query is connected from the start table of the sample and filters on columns of the sample.
A row with all its tables has the tables of the compiled multipliers. -/
structure Query.FitsSample (q : Query ℚ) (s : Sampler ℚ) (p : SamplePlan ℚ) (bs : List (TableBlock ℚ))
    (w : JoinSample ℚ) (m : DensityModel ℚ) : Prop where
  built : q.Built s.schema
  root : p.path.start ∈ q.tables
  connected : ∀ table ∈ q.tables,
    Relation.ReflTransGen (Adjacent s.schema q.relationships.toList) p.path.start table
  columns : ∀ c ∈ q.conditions, HasColumn bs c.column
  present : ∀ denominator ∈ (q.normalizers m).toOption, ∀ t ∈ w.rowKeys,
    (∀ table ∈ q.tables.toList, rowIn bs t table ≠ none) →
      ∀ a ∈ denominator, rowIn bs t a.table ≠ none

/-- The model that answers from the sample. -/
def JoinSample.model (w : JoinSample ℚ) (bs : List (TableBlock ℚ)) : DensityModel ℚ where
  name := "sample"
  fullJoinSize := w.rows.length
  tables := .ofList w.tables
  relationships := .ofList w.relationships
  indicator t := .ok ((w.rows.map (t.valueIn bs)).sum / w.rows.length)
  expectation _ := .error "no expectation"
  probability _ := .error "no probability"

theorem JoinSample.model_describes (w : JoinSample ℚ) (bs : List (TableBlock ℚ)) :
    (w.model bs).Describes bs w :=
  ⟨rfl, rfl, rfl, fun _ _ => rfl⟩

namespace Sampler

variable {s : Sampler ℚ} {source : RawSource ℚ} {config : PreparationConfig ℚ}
  {ids : List String} {p : SamplePlan ℚ} {bs : List (TableBlock ℚ)} {w : JoinSample ℚ}
  {q : Query ℚ} {m : DensityModel ℚ} {t : JoinTuple} {denominator : List AttributeRef}

namespace Layout

/-- The compiled term of a row is the weight of the row of the inner join that it comes from. -/
theorem valueIn_eq (h : s.Layout source config ids p bs w)
    (hdata : CompleteData s.schema source config)
    (hacyclic : ∀ step ∈ p.path.steps, step.newTable? ≠ none) (hm : m.Describes bs w)
    (hq : q.Linked s.schema) (hcovers : m.covers q = true)
    (hcolumns : ∀ c ∈ q.conditions, HasColumn bs c.column) (ht : t ∈ w.rowKeys)
    (hperm : denominator.Perm ((fanOuts s.schema (p.path.steps.filter (¬ Within q.tables ·))).map
      (·.definedMultiplier)))
    (hpresent : (∀ table ∈ q.tables, rowIn bs t table ≠ none) →
      ∀ a ∈ denominator, rowIn bs t a.table ≠ none) :
    (Query.indicatorTerm m [] denominator
        (q.conditions ++ q.tables.toList.map (Query.presenceOf s.schema))).valueIn bs
          (cellsOf bs t) =
      ∑ choice ∈ q.innerJoin source, if Selected bs q.tables (q.rowOf choice) t then
        outerWeight s.schema bs q.tables p.path.steps t else 0 := by
  have hiff := h.conditions_hold_iff hdata hacyclic hm hq hcovers hcolumns ht
  rw [Query.valueIn_indicatorTerm]
  by_cases hhold : ((q.conditions ++ q.tables.toList.map (Query.presenceOf s.schema)).all fun c =>
      c.holds (decodedCell bs (cellsOf bs t) c.column)) = true
  · obtain ⟨choice, hchoice, hselected⟩ := hiff.mp hhold
    have hrows : ∀ table ∈ q.tables, rowIn bs t table ≠ none := by
      intro table htable
      rw [hselected table htable]
      exact Option.some_ne_none _
    have hweight := h.denominator_eq hdata ht hperm (hpresent hrows)
    rw [if_pos hhold, Finset.sum_eq_single choice]
    · rw [if_pos hselected, hweight]
    · intro choice' _ hne
      exact if_neg fun hselected' => hne (selected_inj hselected' hselected)
    · intro hnot
      exact absurd hchoice hnot
  · rw [if_neg hhold]
    refine (Finset.sum_eq_zero fun choice hchoice => if_neg fun hselected => hhold ?_).symm
    exact hiff.mpr ⟨choice, hchoice, hselected⟩

/-- A row of the inner join weighs one in all. -/
theorem sum_selected_eq_one (h : s.Layout source config ids p bs w)
    (hdata : CompleteData s.schema source config)
    (hacyclic : ∀ step ∈ p.path.steps, step.newTable? ≠ none) (hm : m.Describes bs w)
    (hq : q.Linked s.schema) (hcovers : m.covers q = true) (hroot : p.path.start ∈ q.tables)
    (hconnected : ∀ table ∈ q.tables,
      Relation.ReflTransGen (Adjacent s.schema q.relationships.toList) p.path.start table)
    {choice : q.Choice} (hchoice : choice ∈ q.innerJoin source) :
    (w.rowKeys.map fun t => if Selected bs q.tables (q.rowOf choice) t then
      outerWeight s.schema bs q.tables p.path.steps t else 0).sum = 1 := by
  obtain ⟨hrows, hjoins, -⟩ := Query.mem_innerJoin.mp hchoice
  have hclosed := h.closed_of_connected hm hacyclic hq hcovers hconnected
  refine h.sum_fibre hdata hacyclic hroot (fun table htable => h.tables_subset hm hcovers htable)
    (fun e he hchild => (hclosed e he hchild).1) ?_ fun e he hchild => ?_
  · obtain ⟨b, hb, hsize⟩ := h.first
    have hplace : placeOf? bs p.path.start = some 0 := by
      have hnames := h.names
      cases bs with
      | nil => cases hb
      | cons b bs =>
        have hname : b.name = p.path.start := List.head_eq_of_cons_eq hnames
        simp [placeOf?, List.findIdx?_cons, hname]
    have hget : bs[0]? = some b := by rw [← List.head?_eq_getElem?, hb]
    rw [← hsize, h.size_eq hdata hacyclic List.mem_cons_self hplace hget]
    exact hrows _ hroot
  · have hlisted := (hclosed e he hchild).2
    refine (h.meets_iff_joins hdata he).mpr (hjoins _ hlisted _ ?_)
    rw [hq.schema]
    exact Schema.relationship_eq_ok.mp (relationship_of_mem_edges he)

end Layout

/-- The cardinality of a covered query is exact, and at least one, on a complete sample of a tree. -/
theorem cardinality_of_complete_sample (hdata : CompleteData s.schema source config)
    (hs : s.Serves source config) (hw : s.IsComplete ids p bs w)
    (hacyclic : ∀ step ∈ p.path.steps, step.newTable? ≠ none) (hne : w.rows ≠ [])
    (hm : m.Describes bs w) (hq : q.FitsSample s p bs w m) (hcovers : m.covers q = true)
    (hash : IndicatorTerm ℚ → UInt64) :
    (((⟨[m]⟩ : Ensemble ℚ).cardinality q).run (.empty hash)).1 =
      .ok (max 1 ((q.innerJoin source).card : ℚ)) := by
  have h := hw.layout hs
  have hlinked := hq.built.linked
  have hclosed := h.closed_of_connected hm hacyclic hlinked hcovers hq.connected
  obtain ⟨denominator, hnormalizers, hperm⟩ := h.normalizers_perm hm hacyclic hlinked hq.root
    fun e he hchild => (hclosed e he hchild).1
  have hconditions := h.termConditions_eq hacyclic hm hlinked hcovers
  have hread : ∀ a ∈ denominator ++ (q.conditions ++
      q.tables.toList.map (Query.presenceOf s.schema)).map (·.column), HasColumn bs a := by
    intro a ha
    rcases List.mem_append.mp ha with ha | ha
    · obtain ⟨r, hr, rfl⟩ := List.mem_map.mp (hperm.mem_iff.mp ha)
      exact h.hasColumn_multiplier hdata (mem_fanOuts_filter hr)
    · obtain ⟨c, hc, rfl⟩ := List.mem_map.mp ha
      rcases List.mem_append.mp hc with hc | hc
      · exact hq.columns c hc
      · obtain ⟨table, htable, rfl⟩ := List.mem_map.mp hc
        exact h.hasColumn_presence (h.tables_subset hm hcovers htable)
  rw [Ensemble.cardinality_eq hm.size hne (hm.indicator _ hread) hcovers
    (h.one_lt_size hm hacyclic).ne' hnormalizers hconditions]
  have hsum : (w.rows.map ((Query.indicatorTerm m [] denominator
      (q.conditions ++ q.tables.toList.map (Query.presenceOf s.schema))).valueIn bs)).sum =
        ((q.innerJoin source).card : ℚ) := by
    have hvalue (t : JoinTuple) (ht : t ∈ w.rowKeys) :=
      h.valueIn_eq hdata hacyclic hm hlinked hcovers hq.columns ht hperm
        (hq.present denominator (mem_toOption.mpr hnormalizers) t ht)
    have hone (choice : q.Choice) (hchoice : choice ∈ q.innerJoin source) :=
      h.sum_selected_eq_one hdata hacyclic hm hlinked hcovers hq.root hq.connected hchoice
    calc _ = (w.rowKeys.map fun t => ∑ choice ∈ q.innerJoin source,
            if Selected bs q.tables (q.rowOf choice) t then
              outerWeight s.schema bs q.tables p.path.steps t else 0).sum := by
          rw [h.rows, List.map_map]
          exact congrArg List.sum (List.map_congr_left hvalue)
      _ = ∑ choice ∈ q.innerJoin source, 1 := by
          rw [sum_map_finset_sum]
          exact Finset.sum_congr rfl hone
      _ = ((q.innerJoin source).card : ℚ) := by
          rw [Finset.sum_const, nsmul_eq_mul, mul_one]
  rw [hsum]

end Sampler

/-! Customers of some age with the orders that they made or paid, and their visits. -/

namespace Market

def orders : Relationship := .between "orders" "customer" "customers" "id" none

def payments : Relationship := .between "orders" "payer" "customers" "id" none

def visits : Relationship := .between "visits" "customer" "customers" "id" none

/-- The customers have some null indicator and leave some columns out of samples. -/
def schema (nullIndicator : String) (irrelevant : List String) : Schema ℚ where
  tables := [
    { Table.named "customers" with
      attributes := ["id", "age"], nullIndicator := nullIndicator, irrelevant := irrelevant
      incoming := [orders.identifier, payments.identifier, visits.identifier] },
    { Table.named "orders" with
      attributes := ["id", "customer", "payer"]
      outgoing := [orders.identifier, payments.identifier] },
    { Table.named "visits" with
      attributes := ["id", "customer"], outgoing := [visits.identifier] }]
  relationships := [orders, payments, visits]

/-- The first customer has two orders and two visits, the second none, and the third an order. -/
def source : RawSource ℚ := .ofTables [
  ("customers", ⟨["id", "age"], [[.int 1, .int 30], [.int 2, .int 30], [.int 3, .int 20]]⟩),
  ("orders", ⟨["id", "customer", "payer"],
    [[.int 10, .int 1, .int 2], [.int 11, .int 1, .int 2], [.int 12, .int 3, .int 3]]⟩),
  ("visits", ⟨["id", "customer"], [[.int 20, .int 1], [.int 21, .int 1]]⟩)]

def relationships : List String := [orders.identifier, visits.identifier]

def sampler (nullIndicator : String) (irrelevant : List String) : Sampler ℚ :=
  .ofPrepared (schema nullIndicator irrelevant) source .standard .standard

/-- The rows of the join along one relationship. -/
def joined (g : Schema ℚ) (r : Relationship) : Query ℚ :=
  { Query.empty g .cardinality with
    tables := ((∅ : SortedSet String).insert r.source).insert r.target
    relationships := (∅ : SortedSet String).insert r.identifier }

def ofAge : Condition ℚ := .equals ⟨"customers", "age"⟩ (.int 30)

/-- The orders of the customers of an age. -/
def adults (g : Schema ℚ) : Query ℚ :=
  { joined g orders with
    tables := (joined g orders).tables.insert "customers"
    tableConditions := (∅ : SortedMap String (List (Condition ℚ))).insert "customers" [ofAge]
    conditions := [ofAge] }

variable {nullIndicator : String} {irrelevant : List String}

theorem built : (schema nullIndicator irrelevant).Built := by
  have h₀ : Schema.Built (.empty : Schema ℚ) := .empty
  have h₁ := h₀.addTable (t := { Table.named "customers" with
    attributes := ["id", "age"], nullIndicator := nullIndicator, irrelevant := irrelevant }) rfl rfl rfl
  have h₂ := h₁.addTable (t := { Table.named "orders" with
    attributes := ["id", "customer", "payer"] }) rfl rfl rfl
  have h₃ := h₂.addTable (t := { Table.named "visits" with
    attributes := ["id", "customer"] }) rfl rfl rfl
  have h₄ := h₃.addRelationship (r := orders) rfl
  have h₅ := h₄.addRelationship (r := payments) rfl
  exact h₅.addRelationship (r := visits) rfl

theorem wholeData : WholeData (schema nullIndicator irrelevant) source .standard where
  built := built
  rate := by
    intro t ht
    fin_cases ht <;> rfl
  size := by
    intro t ht raw hraw
    fin_cases ht <;> cases hraw <;> decide
  keys := by
    intro t ht raw hraw key hkey
    fin_cases ht <;> cases hraw <;> cases hkey <;> exact ⟨_, rfl, by decide, by decide⟩

theorem completeData : CompleteData (schema "customers_is_null" []) source .standard where
  toWholeData := wholeData
  names := by
    intro t ht raw hraw
    fin_cases ht <;> cases hraw <;> decide +kernel
  relevant := by decide +kernel

theorem serves : (sampler nullIndicator irrelevant).Serves source .standard :=
  Sampler.ofPrepared_serves (schema nullIndicator irrelevant) source .standard .standard

/-- What can be decided of a query on a sample that starts from the customers. -/
def Suits (q : Query ℚ) (p : SamplePlan ℚ) (bs : List (TableBlock ℚ)) (w : JoinSample ℚ) : Prop :=
  p.path.start = "customers" ∧ (∀ step ∈ p.path.steps, step.newTable? ≠ none) ∧ w.rows ≠ [] ∧
    (∀ c ∈ q.conditions, HasColumn bs c.column) ∧
    ∀ denominator ∈ (q.normalizers (w.model bs)).toOption, ∀ t ∈ w.rowKeys,
      (∀ table ∈ q.tables.toList, rowIn bs t table ≠ none) →
        ∀ a ∈ denominator, rowIn bs t a.table ≠ none

instance (q : Query ℚ) (p : SamplePlan ℚ) (bs : List (TableBlock ℚ)) (w : JoinSample ℚ) :
    Decidable (Suits q p bs w) := by
  unfold Suits
  infer_instance

variable {q : Query ℚ} {p : SamplePlan ℚ} {bs : List (TableBlock ℚ)} {w : JoinSample ℚ}

theorem Suits.fits {r : Relationship} (h : Suits q p bs w)
    (hbuilt : q.Built (schema nullIndicator irrelevant))
    (hknown : (schema nullIndicator irrelevant).relationship r.identifier = .ok r)
    (hends : r.source = "orders" ∧ r.target = "customers")
    (hlisted : r.identifier ∈ q.relationships.toList)
    (htables : q.tables.toList = ["customers", "orders"]) :
    q.FitsSample (sampler nullIndicator irrelevant) p bs w (w.model bs) := by
  obtain ⟨hstart, -, -, hcolumns, hpresent⟩ := h
  have hmem {table : String} : table ∈ q.tables ↔ table ∈ ["customers", "orders"] := htables ▸ .rfl
  refine ⟨hbuilt, hmem.mpr (hstart ▸ List.mem_cons_self), fun table htable => ?_, hcolumns, hpresent⟩
  rw [hstart]
  rcases List.mem_pair.mp (hmem.mp htable) with rfl | rfl
  · exact .refl
  · exact .single ⟨r.identifier, hlisted, r, hknown, .inr hends⟩

theorem payers_fit {n : String} {ls : List String}
    (h : Suits (joined (schema n ls) payments) p bs w) :
    (joined (schema n ls) payments).FitsSample (sampler n ls) p bs w (w.model bs) := by
  have hadded : (Query.empty (schema n ls) .cardinality).addRelationship payments.identifier =
      .ok (joined (schema n ls) payments) := rfl
  exact h.fits (.addRelationship (.empty .cardinality) hadded) rfl ⟨rfl, rfl⟩ List.mem_cons_self rfl

theorem adults_fit {n : String} {ls : List String} (h : Suits (adults (schema n ls)) p bs w) :
    (adults (schema n ls)).FitsSample (sampler n ls) p bs w (w.model bs) := by
  have hadded : (Query.empty (schema n ls) .cardinality).addRelationship orders.identifier =
      .ok (joined (schema n ls) orders) := rfl
  have hfiltered : (joined (schema n ls) orders).addCondition ofAge = .ok (adults (schema n ls)) := rfl
  exact h.fits (.addCondition (.addRelationship (.empty .cardinality) hadded) hfiltered) rfl ⟨rfl, rfl⟩ List.mem_cons_self rfl

/-- The cardinality is two for the two orders of the first customer. -/
theorem cardinality_of_adults : ∃ p bs w,
    (sampler "customers_is_null" []).IsComplete relationships p bs w ∧
    ((adults (schema "customers_is_null" [])).innerJoin source).card = 2 ∧
    ∀ hash, (((⟨[w.model bs]⟩ : Ensemble ℚ).cardinality
      (adults (schema "customers_is_null" []))).run (.empty hash)).1 = .ok 2 := by
  have hcard : ((adults (schema "customers_is_null" [])).innerJoin source).card = 2 := by
    decide +kernel
  obtain ⟨p, bs, w, hw, hsuits, hcovers⟩ : ∃ p bs w,
      (sampler "customers_is_null" []).IsComplete relationships p bs w ∧
        Suits (adults (schema "customers_is_null" [])) p bs w ∧
        (w.model bs).covers (adults (schema "customers_is_null" [])) = true := by
    apply Sampler.exists_isComplete
    decide +kernel
  refine ⟨p, bs, w, hw, hcard, fun hash => ?_⟩
  have hanswer := Sampler.cardinality_of_complete_sample completeData serves hw hsuits.2.1
    hsuits.2.2.1 (w.model_describes bs) (adults_fit hsuits) hcovers hash
  rw [hanswer, hcard]
  norm_num

/-- A complete sample of whole data whose model gives the query this answer. -/
def Answers (n : String) (ls : List String) (q : Query ℚ) (answer : Except EstimateError ℚ) : Prop :=
  WholeData (schema n ls) source .standard ∧ (sampler n ls).Serves source .standard ∧
    ∃ p bs w, (sampler n ls).IsComplete relationships p bs w ∧
      (∀ step ∈ p.path.steps, step.newTable? ≠ none) ∧ w.rows ≠ [] ∧
      (w.model bs).Describes bs w ∧ q.FitsSample (sampler n ls) p bs w (w.model bs) ∧
      ∀ hash, (((⟨[w.model bs]⟩ : Ensemble ℚ).cardinality q).run (.empty hash)).1 = answer

theorem answers_one {n : String} {ls : List String}
    (h : ∃ p bs w, (sampler n ls).IsComplete relationships p bs w ∧
      Suits (adults (schema n ls)) p bs w ∧ (w.model bs).covers (adults (schema n ls)) = true ∧
      (w.model bs).tables.size ≠ 1 ∧
      ∃ denominator ∈ ((adults (schema n ls)).normalizers (w.model bs)).toOption,
        ∃ conditions ∈ ((adults (schema n ls)).termConditions (w.model bs)).toOption,
          (w.rows.map ((Query.indicatorTerm (w.model bs) [] denominator conditions).valueIn bs)).sum =
            0) : Answers n ls (adults (schema n ls)) (.ok 1) := by
  obtain ⟨p, bs, w, hw, hsuits, hcovers, hsize, denominator, hdenominator, conditions, hconditions,
    hsum⟩ := h
  refine ⟨wholeData, serves, p, bs, w, hw, hsuits.2.1, hsuits.2.2.1, w.model_describes bs,
    adults_fit hsuits, fun hash => ?_⟩
  rw [Ensemble.cardinality_eq rfl hsuits.2.2.1 rfl hcovers hsize (mem_toOption.mp hdenominator)
    (mem_toOption.mp hconditions) hash, hsum]
  norm_num

/-- The cardinality is wrong if the null indicator has the name of the age, and if a compiled
multiplier is left out of samples. A query along a relationship that the model lacks has none. -/
theorem cardinality_off :
    (Answers "age" [] (adults (schema "age" [])) (.ok 1) ∧
      ((adults (schema "age" [])).innerJoin source).card = 2) ∧
    (Answers "customers_is_null" [visits.multiplierName]
        (adults (schema "customers_is_null" [visits.multiplierName])) (.ok 1) ∧
      ((adults (schema "customers_is_null" [visits.multiplierName])).innerJoin source).card = 2) ∧
    (Answers "customers_is_null" [] (joined (schema "customers_is_null" []) payments)
        (.error (.noCoveringModel ["customers", "orders"])) ∧
      ((joined (schema "customers_is_null" []) payments).innerJoin source).card = 3) := by
  refine ⟨⟨answers_one ?_, by decide +kernel⟩, ⟨answers_one ?_, by decide +kernel⟩,
    ⟨wholeData, serves, ?_⟩, by decide +kernel⟩
  · apply Sampler.exists_isComplete
    decide +kernel
  · apply Sampler.exists_isComplete
    decide +kernel
  · obtain ⟨p, bs, w, hw, hsuits, hcovers⟩ : ∃ p bs w,
        (sampler "customers_is_null" []).IsComplete relationships p bs w ∧
          Suits (joined (schema "customers_is_null" []) payments) p bs w ∧
          (w.model bs).covers (joined (schema "customers_is_null" []) payments) = false := by
      apply Sampler.exists_isComplete
      decide +kernel
    exact ⟨p, bs, w, hw, hsuits.2.1, hsuits.2.2.1, w.model_describes bs, payers_fit hsuits, fun hash =>
      Ensemble.cardinality_of_not_covers hcovers (.empty hash)⟩

end Market

end ApproxQuery

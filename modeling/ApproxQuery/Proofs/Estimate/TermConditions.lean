import ApproxQuery.Proofs.Estimate.CompiledTerm

/-!
# The compiled conditions and denominators

On a row of a complete sample the compiled conditions hold if the row has all tables of the query and
their rows match the query. The compiled denominator divides by the numbers of rows that the fan-outs
to other tables repeat the row for.
-/

namespace ApproxQuery

open Expansion JoinPath

namespace Query

/-- The row holds the table, by its null indicator. -/
def presenceOf (g : Schema ℚ) (table : String) : Condition ℚ :=
  .equals ⟨table, (g.table table).toOption.elim "" (·.nullIndicator)⟩ (.int 0)

theorem presence_eq {q : Query ℚ} {name : String} {table : Table ℚ}
    (h : q.schema.table name = .ok table) : q.presence name = .ok (presenceOf q.schema name) := by
  rw [presenceOf, h]
  exact bind_eq_ok.mpr ⟨table, h, rfl⟩

end Query

namespace Sampler.Layout

variable {s : Sampler ℚ} {source : RawSource ℚ} {config : PreparationConfig ℚ}
  {ids : List String} {p : SamplePlan ℚ} {bs : List (TableBlock ℚ)} {w : JoinSample ℚ}
  {q : Query ℚ} {m : DensityModel ℚ} {t : JoinTuple} {v : String → Nat} {table : String}

theorem exists_place (h : s.Layout source config ids p bs w) (ht : t ∈ w.rowKeys)
    (htable : table ∈ p.path.tables) :
    ∃ place b, placeOf? bs table = some place ∧ bs[place]? = some b ∧
      BlockOf s.schema source config (!p.path.steps.isEmpty) table b ∧
      t[place]? = some (rowIn bs t table) ∧ ∀ i ∈ rowIn bs t table, i < b.table.size := by
  obtain ⟨place, b, hplace, hlt, hb, hblock⟩ := h.exists_block htable
  obtain ⟨hholds, -⟩ := h.holds_of_mem ht
  have hget := List.getElem?_eq_getElem (hholds.length ▸ hlt : place < t.length)
  have hrow : t[place]? = some (rowIn bs t table) := by
    rw [rowIn, hplace, Option.bind_some, hget, Option.join_some]
  refine ⟨place, b, hplace, hb, hblock, hrow, fun i hi => ?_⟩
  rw [hi] at hrow
  obtain ⟨c, hc, hlt⟩ := hholds.fits place i hrow
  cases hb.symm.trans hc
  exact hlt

theorem presenceOf_eq {tab : Table ℚ} (known : s.schema.table table = .ok tab) :
    Query.presenceOf s.schema table = .equals ⟨table, tab.nullIndicator⟩ (.int 0) := by
  rw [Query.presenceOf, known]
  rfl

theorem presence_holds (h : s.Layout source config ids p bs w)
    (hdata : CompleteData s.schema source config) (ht : t ∈ w.rowKeys)
    (htable : table ∈ p.path.tables) :
    (Query.presenceOf s.schema table).holds (decodedCell bs (cellsOf bs t)
      (Query.presenceOf s.schema table).column) = true ↔ rowIn bs t table ≠ none := by
  obtain ⟨place, b, hplace, hb, hblock, hrow, -⟩ := h.exists_place ht htable
  obtain ⟨_, tab, -, known, -⟩ := hblock.prepared
  have hjoined : (!p.path.steps.isEmpty) = true := by simpa using h.steps_ne_nil
  have hcell := hblock.decodedCell_of_indicator hdata hjoined known hplace hb hrow
  rw [presenceOf_eq known]
  change (Condition.equals ⟨table, tab.nullIndicator⟩ (.int 0)).holds
    (decodedCell bs (cellsOf bs t) ⟨table, tab.nullIndicator⟩) = true ↔ _
  rw [hcell, Condition.holds_equals_zero, decide_eq_true_eq]
  cases rowIn bs t table with
  | none => simp
  | some i => simp

theorem hasColumn_presence (h : s.Layout source config ids p bs w)
    (htable : table ∈ p.path.tables) : HasColumn bs (Query.presenceOf s.schema table).column := by
  obtain ⟨place, b, -, -, hb, hblock⟩ := h.exists_block htable
  obtain ⟨_, tab, -, known, -⟩ := hblock.prepared
  refine ⟨b, List.mem_of_getElem? hb, ?_, ?_⟩
  · exact hblock.name_eq
  · have hjoined : (!p.path.steps.isEmpty) = true := by simpa using h.steps_ne_nil
    rw [presenceOf_eq known, TableBlock.columns, hblock.indicator?_eq known, if_pos hjoined]
    exact List.mem_append_right _ List.mem_cons_self

theorem hasColumn_multiplier (h : s.Layout source config ids p bs w)
    (hdata : CompleteData s.schema source config) {r : Relationship}
    (hr : r ∈ fanOuts s.schema p.path.steps) : HasColumn bs r.definedMultiplier := by
  obtain ⟨id, _, hstep, known⟩ := mem_fanOuts.mp hr
  obtain ⟨place, place', c, c', htarget, hsource, -⟩ := h.sides hstep known
  have href : r ∈ s.schema.references c.name := Schema.mem_references.mpr
    ⟨Schema.Linked.mem_of_relationship_eq_ok known, htarget.name_eq.symm⟩
  have hmem := List.mem_of_getElem? htarget.block
  obtain ⟨kept, hmul, -⟩ := (h.blocks c hmem).exists_multiplier hdata href
    (h.blocks c' (List.mem_of_getElem? hsource.block)) hsource.name_eq.symm htarget.stores
    hsource.stores
  refine ⟨c, hmem, htarget.name_eq, ?_⟩
  rw [TableBlock.columns]
  refine List.mem_append_left _ (List.mem_append_right _ ?_)
  exact List.mem_map.mpr ⟨_, hmul, rfl⟩

/-- A condition of the query holds of a cell as it does of the raw value. -/
theorem condition_holds (h : s.Layout source config ids p bs w)
    (hdata : CompleteData s.schema source config) (hq : q.Linked s.schema) (ht : t ∈ w.rowKeys)
    {c : Condition ℚ} (hc : c ∈ q.conditions) (hcolumn : HasColumn bs c.column)
    (hrow : rowIn bs t c.column.table = some (v c.column.table)) :
    c.holds (decodedCell bs (cellsOf bs t) c.column) = true ↔ source.satisfies c v := by
  obtain ⟨-, tab, known, hdeclared⟩ := hq.conditions c hc
  obtain ⟨b, hmem, hname, hqualified⟩ := hcolumn
  have htable : c.column.table ∈ p.path.tables := by
    rw [← h.names, ← hname]
    exact List.mem_map_of_mem hmem
  obtain ⟨place, b', hplace, hb, hblock, hget, hlt⟩ := h.exists_place ht htable
  have hsame : b' = b := by
    have hnodup : (bs.map TableBlock.name).Nodup := by
      rw [h.names]
      exact h.chain.nodup (List.nodup_singleton _)
    exact List.inj_on_of_nodup_map hnodup (List.mem_of_getElem? hb) hmem (hblock.name_eq.trans hname.symm)
  subst hsame
  obtain ⟨prepared, tab', hprepared, known', -⟩ := hblock.prepared
  cases known.symm.trans known'
  obtain ⟨prep⟩ := Schema.prepare_eq_ok hprepared
  cases known.symm.trans prep.known
  have hraw := Frame.mem_columns_of_declares prep.whole_eq hdeclared
  rw [hrow] at hget
  obtain ⟨x, hx, heq⟩ := hblock.decodedCell_of_raw hdata prep.source_eq hraw hqualified hplace hb hget
    (hlt _ hrow)
  have hholds := Condition.holds_congr heq c
  constructor
  · intro hc
    exact ⟨x, hx, hholds ▸ hc⟩
  · rintro ⟨y, hy, hc⟩
    cases hx.symm.trans hy
    exact hholds.trans hc

/-! A query that the model covers, and whose conditions are on columns of the sample. -/

theorem termConditions_eq (h : s.Layout source config ids p bs w)
    (hacyclic : ∀ step ∈ p.path.steps, step.newTable? ≠ none) (hm : m.Describes bs w)
    (hq : q.Linked s.schema) (hcovers : m.covers q = true) :
    q.termConditions m =
      .ok (q.conditions ++ q.tables.toList.map (Query.presenceOf s.schema)) := by
  have hpresence : q.tables.toList.mapM q.presence =
      .ok (q.tables.toList.map (Query.presenceOf s.schema)) := by
    apply mapM_eq_ok_map
    intro name hname
    obtain ⟨place, b, -, -, -, hblock⟩ := h.exists_block (h.tables_subset hm hcovers hname)
    obtain ⟨_, table, -, known, -⟩ := hblock.prepared
    rw [← hq.schema] at known ⊢
    exact Query.presence_eq known
  unfold Query.termConditions
  rw [if_neg (Nat.not_le.mpr (h.one_lt_size hm hacyclic))]
  exact bind_eq_ok.mpr ⟨_, hpresence, rfl⟩

theorem selected_getD (hrows : ∀ table ∈ q.tables, rowIn bs t table ≠ none) :
    Selected bs q.tables (q.rowOf fun table => (rowIn bs t table.1).getD 0) t := by
  intro table htable
  obtain ⟨i, hi⟩ := Option.ne_none_iff_exists'.mp (hrows table htable)
  rw [Query.rowOf_of_mem htable, hi, Option.getD_some]

theorem selected_inj {choice choice' : q.Choice} (h : Selected bs q.tables (q.rowOf choice) t)
    (h' : Selected bs q.tables (q.rowOf choice') t) : choice = choice' := by
  funext ⟨table, htable⟩
  have hsame := (h table htable).symm.trans (h' table htable)
  rw [Query.rowOf_of_mem htable, Query.rowOf_of_mem htable] at hsame
  exact Option.some.inj hsame

theorem joins_of_selected (h : s.Layout source config ids p bs w)
    (hdata : CompleteData s.schema source config)
    (hacyclic : ∀ step ∈ p.path.steps, step.newTable? ≠ none) (hm : m.Describes bs w)
    (hq : q.Linked s.schema) (hcovers : m.covers q = true) (ht : t ∈ w.rowKeys)
    (hselected : Selected bs q.tables v t) :
    ∀ id ∈ q.relationships.toList, ∀ r ∈ q.schema.relationship? id, source.joins r v := by
  intro id hid r hr
  have hlisted := SortedSet.subset_eq_true.mp (Bool.and_eq_true .. ▸ hcovers).2 id hid
  obtain ⟨e, he, rfl⟩ := (h.mem_relationships hm hacyclic id).mp hlisted
  rw [hq.schema] at hr
  cases (relationship_of_mem_edges he).symm.trans (Schema.relationship_eq_ok.mpr hr)
  obtain ⟨r, known, hs, ht'⟩ := hq.ends _ hid
  cases (relationship_of_mem_edges he).symm.trans known
  exact (h.meets_iff_joins hdata he).mp
    (h.meets_of_rows ht he (hselected _ hs) (hselected _ ht'))

/-- The compiled conditions hold of the rows that come from a row of the inner join. -/
theorem conditions_hold_iff (h : s.Layout source config ids p bs w)
    (hdata : CompleteData s.schema source config)
    (hacyclic : ∀ step ∈ p.path.steps, step.newTable? ≠ none) (hm : m.Describes bs w)
    (hq : q.Linked s.schema) (hcovers : m.covers q = true)
    (hcolumns : ∀ c ∈ q.conditions, HasColumn bs c.column) (ht : t ∈ w.rowKeys) :
    ((q.conditions ++ q.tables.toList.map (Query.presenceOf s.schema)).all fun c =>
        c.holds (decodedCell bs (cellsOf bs t) c.column)) = true ↔
      ∃ choice ∈ q.innerJoin source, Selected bs q.tables (q.rowOf choice) t := by
  have hmem {table : String} (htable : table ∈ q.tables) : table ∈ p.path.tables :=
    h.tables_subset hm hcovers htable
  rw [List.all_append, Bool.and_eq_true, List.all_eq_true, List.all_eq_true]
  constructor
  · rintro ⟨hconditions, hpresent⟩
    have hrows : ∀ table ∈ q.tables, rowIn bs t table ≠ none := by
      intro table htable
      exact (h.presence_holds hdata ht (hmem htable)).mp (hpresent _ (List.mem_map_of_mem htable))
    have hselected := selected_getD hrows
    refine ⟨_, Query.mem_innerJoin.mpr ⟨?_, ?_, ?_⟩, hselected⟩
    · intro table htable
      obtain ⟨place, b, hplace, hb, -, -, hlt⟩ := h.exists_place ht (hmem htable)
      have hrow := hlt _ (hselected table htable)
      rwa [h.size_eq hdata hacyclic (hmem htable) hplace hb] at hrow
    · exact h.joins_of_selected hdata hacyclic hm hq hcovers ht hselected
    · intro c hc
      obtain ⟨htable, -⟩ := hq.conditions c hc
      exact (h.condition_holds hdata hq ht hc (hcolumns c hc) (hselected _ htable)).mp
        (hconditions c hc)
  · rintro ⟨choice, hchoice, hselected⟩
    obtain ⟨-, -, hsatisfied⟩ := Query.mem_innerJoin.mp hchoice
    constructor
    · intro c hc
      obtain ⟨htable, -⟩ := hq.conditions c hc
      exact (h.condition_holds hdata hq ht hc (hcolumns c hc) (hselected _ htable)).mpr
        (hsatisfied c hc)
    · intro c hc
      obtain ⟨table, htable, rfl⟩ := List.mem_map.mp hc
      apply (h.presence_holds hdata ht (hmem htable)).mpr
      rw [hselected table htable]
      exact Option.some_ne_none _

/-- The compiled denominator is the number of rows among which the fan-outs to other tables share out
one row of the query. -/
theorem denominator_eq (h : s.Layout source config ids p bs w)
    (hdata : CompleteData s.schema source config) (ht : t ∈ w.rowKeys)
    {denominator : List AttributeRef} (hperm : denominator.Perm
      ((fanOuts s.schema (p.path.steps.filter (¬ Within q.tables ·))).map (·.definedMultiplier)))
    (hpresent : ∀ a ∈ denominator, rowIn bs t a.table ≠ none) :
    1 / (denominator.map (cellOf bs (cellsOf bs t))).prod =
      outerWeight s.schema bs q.tables p.path.steps t := by
  have hcell : ∀ r ∈ fanOuts s.schema (p.path.steps.filter (¬ Within q.tables ·)),
      (1 : ℚ) / cellOf bs (cellsOf bs t) r.definedMultiplier =
        1 / ((options bs r.targetKey r.sourceKey t).length : ℚ) := by
    intro r hr
    have hrow := hpresent r.definedMultiplier (hperm.mem_iff.mpr (List.mem_map_of_mem hr))
    obtain ⟨i, hi⟩ := Option.ne_none_iff_exists'.mp hrow
    have hi : rowIn bs t r.target = some i := hi
    rw [h.cellOf_fanOut hdata (h.holds_of_mem ht).1 (mem_fanOuts_filter hr), hi, Option.elim_some]
  have hprod := (hperm.map fun a => (1 : ℚ) / cellOf bs (cellsOf bs t) a).prod_eq
  rw [List.map_map] at hprod
  rw [outerWeight, weightOf_share, ← List.map_congr_left hcell, one_div, List.prod_inv, List.map_map]
  refine Eq.trans (congrArg List.prod (List.map_congr_left fun a _ => ?_)) hprod
  exact (one_div _).symm

end Sampler.Layout

end ApproxQuery

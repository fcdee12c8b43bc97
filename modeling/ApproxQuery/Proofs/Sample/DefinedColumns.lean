import ApproxQuery.Proofs.Query.Joinability
import ApproxQuery.Proofs.Sample.Parts

/-!
# Columns that every sample has

A prepared table with a row has a column for each of its multipliers, so its block has the defined
multipliers of those that are not irrelevant. In a join it has a null indicator as well. Every sample
of the join, and either part of an incremental one, has the columns of all blocks.
-/

namespace ApproxQuery

variable {N : Type}

/-- The sample has the null indicator of each of its tables, and the defined multiplier of each of its
relationships, which is one of the referenced table. -/
structure JoinSample.HasOwnColumns (w : JoinSample N) (g : Schema N) : Prop where
  indicators : ∀ table ∈ w.tables, ∃ t, g.table table = .ok t ∧ t.qualifiedNullIndicator ∈ w.columns
  multipliers : ∀ id ∈ w.relationships, ∃ r, g.relationship id = .ok r ∧
    r.target ∈ w.tables ∧ r.definedMultiplier.qualified ∈ w.columns

variable [Scalar N]

namespace Preparation

variable [NumericScalar N] {g : Schema N} {source : RawSource N} {config : PreparationConfig N}
  {name : String} {p : PreparedTable N}

theorem raw_size_ne_zero (h : Preparation g source config name p) (hsize : p.table.size ≠ 0) :
    h.raw.size ≠ 0 := by
  intro hempty
  apply hsize
  rw [h.table_of_size_le (hempty.trans_le (Nat.zero_le _)), EncodedTable.size]
  cases hd : h.untruncated.table.data with
  | nil => rfl
  | cons first rest => exact (h.numbers_of_mem (hd ▸ List.mem_cons_self)).1.trans hempty

/-- Numbers are stored whatever they are, as long as there are any. -/
theorem mem_columns_of_incoming (h : Preparation g source config name p) (hsize : p.table.size ≠ 0)
    {r : Relationship} (hr : r ∈ h.rs) : r.multiplier.qualified ∈ p.table.columns := by
  obtain ⟨m, hm, f, -, hcompute⟩ := h.adds.exists_compute hr
  refine h.mem_columns_iff.mpr ⟨m.column, h.column_mem_frame hm, ?_, ?_⟩
  · rw [Multiplier.isUnfit_column, List.isEmpty_eq_false_iff]
    exact h.counts_ne_nil hm (h.raw_size_ne_zero hsize)
  · rw [Multiplier.column, (Multiplier.compute_eq_ok hcompute).1]

end Preparation

namespace Sampler

section

variable {g : Schema N} {source : RawSource N} {config : PreparationConfig N} {joined : Bool}
  {name : String} {b : TableBlock N} {t : Table N}

theorem BlockOf.indicator_mem_columns (h : BlockOf g source config joined name b)
    (hjoined : joined = true) (ht : g.table name = .ok t) :
    t.qualifiedNullIndicator ∈ b.columns := by
  have hindicator := h.indicator?_eq ht
  rw [if_pos hjoined] at hindicator
  rw [Table.qualifiedNullIndicator, Schema.name_of_table ht]
  refine List.mem_append_right _ ?_
  rw [hindicator]
  exact List.mem_singleton_self _

theorem BlockOf.multiplier_mem_columns [NumericScalar N] {r : Relationship}
    (h : BlockOf g source config joined r.target b) (hsize : b.table.size ≠ 0) (hg : g.Linked)
    (ht : g.table r.target = .ok t) (hr : r ∈ g.relationships)
    (hrelevant : r.multiplierName ∉ t.irrelevant) : r.definedMultiplier.qualified ∈ b.columns := by
  obtain ⟨p, t', hp, ht', hb⟩ := h.prepared
  cases ht.symm.trans ht'
  obtain ⟨prep⟩ := Schema.prepare_eq_ok hp
  obtain ⟨-, htable, -⟩ := TableBlock.ofTable_eq_ok hb
  rw [htable] at hsize
  have hincoming : prep.rs = g.relationships.filter (·.target == r.target) :=
    Except.ok.inj (prep.incoming.symm.trans (hg.incoming_eq ht))
  have hlisted : r ∈ prep.rs := by
    rw [hincoming]
    exact List.mem_filter.mpr ⟨hr, beq_self_eq_true r.target⟩
  obtain ⟨place, hplace⟩ := exists_findIdx?_of_mem (prep.mem_columns_of_incoming hsize hlisted)
  have hentry := TableBlock.mem_multipliers hb hg hr ht hrelevant hplace
  refine List.mem_append_left _ (List.mem_append_right _ ?_)
  exact List.mem_map_of_mem (f := Prod.snd) hentry

end

/-! What a join draws from. -/

variable {s : Sampler N} {ids : List String} {cache : TableCache N} {w : JoinSample N}

/-- The samples that are drawn of a join: whole ones, and both parts of incremental ones. -/
inductive Draws (s : Sampler N) (ids : List String) (cache : TableCache N) (w : JoinSample N) :
    Prop where
  | whole {G : Type} [Generator G] {request : SampleRequest N} {gen : G}
      (target : request.target = .relationships ids)
      (drawn : (s.sample request gen cache).1 = .ok w)
  | primary {G : Type} [Generator G] {request : SampleRequest N} {rate : N} {gen : G}
      {rest : JoinSample N} (target : request.target = .relationships ids)
      (drawn : (s.sampleWithIncremental request rate gen cache).1 = .ok (w, rest))
  | incremental {G : Type} [Generator G] {request : SampleRequest N} {rate : N} {gen : G}
      {rest : JoinSample N} (target : request.target = .relationships ids)
      (drawn : (s.sampleWithIncremental request rate gen cache).1 = .ok (rest, w))

/-- The sample lists what a plan joins, with the columns of the blocks. -/
structure LaidOut (p : SamplePlan N) (bs : List (TableBlock N)) (w : JoinSample N) : Prop where
  tables : w.tables = bs.map (·.name)
  relationships : w.relationships = p.path.steps.map (·.relationship)
  columns : w.columns = bs.flatMap (·.columns)

theorem LaidOut.tables_eq [NumericScalar N] {g : Schema N} {p : SamplePlan N}
    {bs : List (TableBlock N)} (h : LaidOut p bs w)
    (hbs : List.Forall₂ (TableBlock.IsPrepared g) p.path.tables bs) : w.tables = p.path.tables :=
  h.tables.trans (TableBlock.names_of_prepared hbs).1

theorem laidOut_of_expand {G : Type} [Generator G] {p : SamplePlan N} {bs : List (TableBlock N)}
    {start : List Nat} {size : Nat} {gen gen' : G}
    (h : s.expand p bs start size gen = .ok (w, gen')) : LaidOut p bs w := by
  obtain ⟨tuples, -, h⟩ := bind_eq_ok.mp h
  obtain ⟨v, hcollect, h⟩ := bind_eq_ok.mp h
  cases congrArg Prod.fst (pure_eq_ok.mp h)
  obtain ⟨rows, -, h⟩ := bind_eq_ok.mp hcollect
  cases pure_eq_ok.mp h
  exact ⟨rfl, rfl, rfl⟩

theorem rate_of_parts {G : Type} [Generator G] {request : SampleRequest N} {rate : N} {gen : G}
    {parts : JoinSample N × JoinSample N}
    (h : (s.sampleWithIncremental request rate gen cache).1 = .ok parts) :
    Scalar.lt 0 rate = true ∧ Scalar.lt rate 1 = true := by
  unfold sampleWithIncremental at h
  split at h
  · cases h
  · rename_i hrate
    simpa using hrate

theorem known_of_startTable {start : String} (h : s.startTable ids = .ok start) :
    ∀ id ∈ ids, ∃ r, s.schema.relationship id = .ok r := by
  obtain ⟨names, hnames, -⟩ := bind_eq_ok.mp h
  obtain ⟨rs, hrs, -⟩ := bind_eq_ok.mp (mapError_eq_ok.mp hnames)
  intro id hid
  obtain ⟨r, -, known⟩ := exists_result_of_mapM hrs hid
  exact ⟨r, known⟩

theorem Draws.exists_blocks (h : s.Draws ids cache w) :
    ∃ p bs, s.plan (.relationships ids) = .ok p ∧
      (s.blocks (!p.path.steps.isEmpty) p.path.tables cache).1 = .ok bs ∧ LaidOut p bs w := by
  cases h with
  | whole target drawn =>
    obtain ⟨p, bs, gen', hplan, hblocks, hexpand⟩ := sample_eq_ok.mp drawn
    exact ⟨p, bs, target ▸ hplan, hblocks, laidOut_of_expand hexpand⟩
  | primary target drawn =>
    obtain ⟨hpos, hone⟩ := rate_of_parts drawn
    obtain ⟨p, bs, gen', gen'', hplan, hblocks, hfirst, -⟩ :=
      (sampleWithIncremental_eq_ok hpos hone).mp drawn
    exact ⟨p, bs, target ▸ hplan, hblocks, laidOut_of_expand hfirst⟩
  | incremental target drawn =>
    obtain ⟨hpos, hone⟩ := rate_of_parts drawn
    obtain ⟨p, bs, gen', gen'', hplan, hblocks, -, hsecond⟩ :=
      (sampleWithIncremental_eq_ok hpos hone).mp drawn
    exact ⟨p, bs, target ▸ hplan, hblocks, laidOut_of_expand hsecond⟩

/-- Every table has a stored row, and no multiplier is left out of samples. -/
structure KeepsMultipliers (s : Sampler N) : Prop where
  stored : ∀ t ∈ s.schema.tables, ∀ data, s.load t.name = .ok data → data.size ≠ 0
  relevant : ∀ r ∈ s.schema.relationships, ∀ t, s.schema.table r.target = .ok t →
    r.multiplierName ∉ t.irrelevant

variable {source : RawSource N} {config : PreparationConfig N}

/-- The block of a joined table has rows, and the sample has its columns. -/
theorem LaidOut.exists_block {p : SamplePlan N} {bs : List (TableBlock N)} {joined : Bool}
    {table : String} (hw : LaidOut p bs w) (hs : s.Serves source config) (hkeeps : s.KeepsMultipliers)
    (hloads : List.Forall₂ (s.Loads joined) p.path.tables bs) (htable : table ∈ p.path.tables) :
    ∃ b t, BlockOf s.schema source config joined table b ∧ s.schema.table table = .ok t ∧
      b.table.size ≠ 0 ∧ b.columns ⊆ w.columns := by
  obtain ⟨i, hi, rfl⟩ := List.getElem_of_mem htable
  have hi' : i < bs.length := hloads.length_eq ▸ hi
  have hload : s.Loads joined p.path.tables[i] bs[i] := hloads.get hi hi'
  have hof : BlockOf s.schema source config joined p.path.tables[i] bs[i] := hload.blockOf hs
  obtain ⟨t, data, m, ht, hdata, -, hb⟩ := hload
  obtain ⟨-, htable, -⟩ := TableBlock.ofTable_eq_ok hb
  rw [← Schema.name_of_table ht] at hdata
  refine ⟨bs[i], t, hof, ht, ?_, fun column hcolumn => ?_⟩
  · rw [htable]
    exact hkeeps.stored t (Schema.mem_of_table_eq_ok ht) data hdata
  · rw [hw.columns]
    exact List.mem_flatMap.mpr ⟨bs[i], List.getElem_mem hi', hcolumn⟩

variable [NumericScalar N]

theorem Draws.hasOwnColumns (h : s.Draws ids cache w) (hs : s.Serves source config)
    (hg : s.schema.Linked) (hkeeps : s.KeepsMultipliers) (hcache : s.Caches cache) (hids : ids ≠ []) :
    w.HasOwnColumns s.schema := by
  obtain ⟨p, bs, hplan, hblocks, hw⟩ := h.exists_blocks
  obtain ⟨-, hpath, -⟩ := plan_eq_ok hplan
  obtain ⟨hstart, hchain⟩ := JoinPath.assemble_isChain hpath
  have hloads := blocks_load hcache hblocks
  have htables := hw.tables_eq (hloads.imp fun _ _ hb => (hb.blockOf hs).isPrepared)
  have hjoined : (!p.path.steps.isEmpty) = true := by
    simpa using JoinPath.steps_ne_nil hpath hids
  refine ⟨fun table htable => ?_, fun id hid => ?_⟩
  · rw [htables] at htable
    obtain ⟨b, t, hof, ht, -, hsub⟩ := hw.exists_block hs hkeeps hloads htable
    exact ⟨t, ht, hsub (hof.indicator_mem_columns hjoined ht)⟩
  · rw [hw.relationships] at hid
    obtain ⟨step, hstep, rfl⟩ := List.mem_map.mp hid
    obtain ⟨r, known, -, htarget⟩ := hchain.ends_of_mem hstep
    rw [← hstart] at htarget
    have hr := Schema.Linked.mem_of_relationship_eq_ok known
    obtain ⟨b, t, hof, ht, hsize, hsub⟩ := hw.exists_block hs hkeeps hloads htarget
    refine ⟨r, known, htables ▸ htarget, hsub ?_⟩
    exact hof.multiplier_mem_columns hsize hg ht hr (hkeeps.relevant r hr t ht)

/-- The sample joins the tables at the ends of the listed relationships. -/
theorem Draws.mem_tables (h : s.Draws ids cache w) (hs : s.Serves source config)
    (hg : s.schema.Linked) (hcache : s.Caches cache) (hids : ids ≠ []) (table : String) :
    table ∈ w.tables ↔ JoinPath.IsEnd s.schema ids table := by
  obtain ⟨p, bs, hplan, hblocks, hw⟩ := h.exists_blocks
  obtain ⟨hstart, hpath, -⟩ := plan_eq_ok hplan
  have known := known_of_startTable hstart
  obtain ⟨start, hstart', hend⟩ := startTable_isEnd hg known hids
  cases hstart.symm.trans hstart'
  rw [hw.tables_eq ((blocks_spec hs hcache hblocks).imp fun _ _ hb => hb.isPrepared)]
  exact JoinPath.mem_tables_of_assemble hg known hend hpath table

end Sampler

end ApproxQuery

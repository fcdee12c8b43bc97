import ApproxQuery.Proofs.Prepare.Compression
import ApproxQuery.Proofs.Query.Joinability
import ApproxQuery.Proofs.Sample.JoinKeys
import ApproxQuery.Proofs.Sample.Parts
import ApproxQuery.Proofs.Store.AllOrNothing

/-!
# Key columns of joins

A column without a value is not stored, even if a relationship joins along it. So a join of prepared
tables can fail although every key was taken over: exactly for a key column that is empty or holds
nulls only. Any other join is answered, with no row where there is no partner.
-/

namespace ApproxQuery

variable {N : Type}

/-! ## Keys in the raw data -/

/-- The value stands in a column of this name. -/
def RawTable.Lists (raw : RawTable N) (a : String) (v : Value N) : Prop :=
  ∃ place, raw.columns[place]? = some a ∧ v ∈ raw.valuesAt place

/-- Preparation takes over the raw values of the attribute: it is neither ignored nor a dependent of a
rule, and holds no texts. -/
structure Table.TakesOver (t : Table N) (raw : RawTable N) (a : String) : Prop where
  kept : a ∉ t.ignored
  free : ∀ d ∈ t.dependencies, d.dependent ≠ qualify t.name a
  noText : ∀ v, raw.Lists a v → v.isText = false

/-- The raw data of its table is taken over for the attribute. -/
def Schema.TakesOver (g : Schema N) (source : RawSource N) (a : AttributeRef) : Prop :=
  ∀ t raw, g.table a.table = .ok t → source a.table = .ok raw → t.TakesOver raw a.name

/-- Some row has a value of the attribute. -/
def RawSource.HasValue (source : RawSource N) (a : AttributeRef) : Prop :=
  ∃ raw, source a.table = .ok raw ∧ ∃ v, raw.Lists a.name v ∧ v.isNull = false

theorem RawTable.Lists.isText_eq_false {raw : RawTable N} {a : String} {v : Value N} (h : raw.Lists a v)
    (hraw : ∀ row ∈ raw.rows, ∀ w ∈ row, w.isText = false) : v.isText = false := by
  obtain ⟨place, -, hv⟩ := h
  rcases RawTable.holds_of_mem_valuesAt hv with rfl | ⟨row, hrow, hv⟩
  · rfl
  · exact hraw row hrow v hv

theorem Schema.KeyOf.isEnd {g : Schema N} {ids : List String} {a : AttributeRef} (h : g.KeyOf ids a) :
    JoinPath.IsEnd g ids a.table := by
  obtain ⟨id, hid, r, known, rfl | rfl⟩ := h
  · exact ⟨id, hid, r, known, .inl rfl⟩
  · exact ⟨id, hid, r, known, .inr rfl⟩

/-! ## Keys in the prepared tables -/

namespace Preparation

variable [Scalar N] {g : Schema N} {source : RawSource N} {config : PreparationConfig N}
  {name a : String} {p : PreparedTable N} (h : Preparation g source config name p)

/-- A key that is taken over is stored if it has a value. -/
theorem mem_columns_of_value (hkey : h.table.TakesOver h.raw a)
    (hvalue : ∃ v, h.raw.Lists a v ∧ v.isNull = false) : qualify name a ∈ p.table.columns := by
  obtain ⟨v, ⟨place, hplace, hv⟩, hnull⟩ := hvalue
  have hwhole := Frame.mem_ofRaw h.whole_eq hplace hkey.kept
  have hfit : Column.isUnfit config.maxUnique ⟨qualify h.table.name a, h.raw.valuesAt place⟩ = false :=
    Column.isUnfit_eq_false (fun w hw => hkey.noText w ⟨place, hplace, hw⟩) hv hnull
  rw [← Schema.name_of_table h.known]
  refine h.mem_columns_iff.mpr ⟨_, List.mem_append_left _ ?_, hfit, rfl⟩
  exact Frame.mem_erase_of_not_mem hwhole (h.not_mem_via hkey.free)

/-- A stored column that is no multiplier has a value. -/
theorem exists_value_of_mem_columns
    (hmultiplier : ∀ r ∈ h.rs, r.multiplier.qualified ≠ qualify name a)
    (hstored : qualify name a ∈ p.table.columns) : ∃ v, h.raw.Lists a v ∧ v.isNull = false := by
  obtain ⟨c, hc, hfit, hname⟩ := h.mem_columns_iff.mp hstored
  rcases List.mem_append.mp hc with hc | hc
  · obtain ⟨place, b, hplace, -, rfl⟩ :=
      Frame.exists_place_of_mem_ofRaw h.whole_eq ((Frame.sublist_erase _ _).subset hc)
    rw [Schema.name_of_table h.known] at hname
    cases qualify_inj.mp hname
    rw [Column.isUnfit, Bool.or_eq_false_iff, List.isEmpty_eq_false_iff] at hfit
    obtain ⟨v, hv⟩ := List.exists_mem_of_ne_nil _ hfit.1
    obtain ⟨hv, hnull⟩ := List.mem_filter.mp hv
    exact ⟨v, ⟨place, hplace, hv⟩, by simpa using hnull⟩
  · obtain ⟨m, hm, rfl⟩ := List.mem_map.mp hc
    have hrelationship : m.relationship ∈ h.rs := by
      rw [← h.adds.relationships]
      exact List.mem_map_of_mem hm
    exact absurd hname (hmultiplier _ hrelationship)

end Preparation

/-! ## Samples of prepared tables -/

namespace Sampler

open Expansion JoinPath

section

variable {s : Sampler N} {source : RawSource N} {config : PreparationConfig N} [Scalar N]

/-- The sampler has every table of its schema as preparation makes it of the source. -/
def HasPrepared (s : Sampler N) (source : RawSource N) (config : PreparationConfig N) : Prop :=
  ∀ t ∈ s.schema.tables, ∃ p, s.schema.prepare source config t.name = .ok p ∧
    s.load t.name = .ok p.table ∧ s.metadata.get? t.name = some p.metadata

/-- Each row of the sample is one of an outer join along the path of its plan: where a table is added,
it holds a row with an equal key, or none if there is no such row. -/
def JoinsRows (s : Sampler N) (ids : List String) (cache : TableCache N) (w : JoinSample N) : Prop :=
  ∃ p bs, s.plan (.relationships ids) = .ok p ∧
    (s.blocks (!p.path.steps.isEmpty) p.path.tables cache).1 = .ok bs ∧
    ∀ t ∈ w.rowKeys, t.length = p.path.tables.length ∧
      ∀ step ∈ p.path.steps, Obeys s.schema bs t step

/-! A block stores a key column. -/

section

variable {g : Schema N} {joined : Bool} {name : String} {a : AttributeRef} {b : TableBlock N}

theorem BlockOf.exists_stores_iff (h : BlockOf g source config joined name b) :
    ∃ p, g.prepare source config name = .ok p ∧
      ∀ key, b.Stores key ↔ qualify name key ∈ p.table.columns := by
  have hname := h.name_eq
  obtain ⟨p, t, hp, -, hb⟩ := h.prepared
  obtain ⟨-, htable, -⟩ := TableBlock.ofTable_eq_ok hb
  refine ⟨p, hp, fun key => ?_⟩
  rw [TableBlock.Stores, hname, htable]

theorem BlockOf.stores_of_hasValue (h : BlockOf g source config joined a.table b)
    (hkey : g.TakesOver source a) (hvalue : source.HasValue a) : b.Stores a.name := by
  obtain ⟨p, hp, hstores⟩ := h.exists_stores_iff
  obtain ⟨prep⟩ := Schema.prepare_eq_ok hp
  obtain ⟨raw, hraw, hvalue⟩ := hvalue
  cases hraw.symm.trans prep.source_eq
  exact (hstores a.name).mpr
    (prep.mem_columns_of_value (hkey _ _ prep.known prep.source_eq) hvalue)

theorem BlockOf.hasValue_of_stores (h : BlockOf g source config joined a.table b) (hg : g.Linked)
    (hmultiplier : ∀ r ∈ g.relationships, r.multiplier ≠ a) (hstored : b.Stores a.name) :
    source.HasValue a := by
  obtain ⟨p, hp, hstores⟩ := h.exists_stores_iff
  obtain ⟨prep⟩ := Schema.prepare_eq_ok hp
  refine ⟨prep.raw, prep.source_eq,
    prep.exists_value_of_mem_columns (fun r hr heq => ?_) ((hstores a.name).mp hstored)⟩
  rw [Except.ok.inj (prep.incoming.symm.trans (hg.incoming_eq prep.known))] at hr
  obtain ⟨hr, htarget⟩ := List.mem_filter.mp hr
  have htarget : r.multiplier.table = a.table := beq_iff_eq.mp htarget
  rw [AttributeRef.qualified, htarget] at heq
  refine hmultiplier r hr ?_
  cases a
  exact congrArg₂ AttributeRef.mk htarget (qualify_inj.mp heq)

end

section

variable (hs : s.HasPrepared source config)
include hs

theorem HasPrepared.blockOf {joined : Bool} {name : String} {b : TableBlock N}
    (h : s.Loads joined name b) : BlockOf s.schema source config joined name b := by
  obtain ⟨t, data, m, ht, hload, hm, hb⟩ := h
  obtain ⟨p, hp, hload', hm'⟩ := hs t (Schema.mem_of_table_eq_ok ht)
  rw [Schema.name_of_table ht] at hp hload' hm'
  cases hload.symm.trans hload'
  cases hm.symm.trans hm'
  exact ⟨⟨p, t, hp, ht, hb⟩⟩

theorem HasPrepared.exists_block (hg : s.schema.Linked) (joined : Bool) {t : Table N}
    (ht : t ∈ s.schema.tables) (hknown : s.schema.table t.name = .ok t) {cache : TableCache N}
    (hcache : s.Caches cache) : ∃ b, (s.block joined t.name cache).1 = .ok b := by
  obtain ⟨p, -, hload, hm⟩ := hs t ht
  obtain ⟨hval, -⟩ := getOrLoad_spec hcache t.name
  rw [hload] at hval
  unfold block tableMetadata
  rw [hknown]
  dsimp only
  cases hread : cache.getOrLoad t.name s.load with
  | mk r next =>
    rw [hread] at hval
    cases hval
    simp only [hm]
    exact ⟨_, mapError_eq_ok.mpr (bind_eq_ok.mpr ⟨_, hg.incoming_eq hknown, rfl⟩)⟩

theorem HasPrepared.exists_blocks (hg : s.schema.Linked) {joined : Bool} {names : List String}
    (hnames : ∀ name ∈ names, ∃ t, s.schema.table name = .ok t) {cache : TableCache N}
    (hcache : s.Caches cache) : ∃ bs, (s.blocks joined names cache).1 = .ok bs := by
  induction names generalizing cache with
  | nil => exact ⟨[], rfl⟩
  | cons name names ih =>
    obtain ⟨⟨t, ht⟩, hrest⟩ := List.forall_mem_cons.mp hnames
    obtain rfl := Schema.name_of_table ht
    obtain ⟨b, hb⟩ := hs.exists_block hg joined (Schema.mem_of_table_eq_ok ht) ht hcache
    obtain ⟨bs, hbs⟩ := ih hrest (block_loads hcache joined t.name).1
    refine ⟨b :: bs, ?_⟩
    unfold blocks
    cases hnext : s.block joined t.name cache with
    | mk r next =>
      rw [hnext] at hb hbs
      cases hb
      exact map_eq_ok.mpr ⟨bs, hbs, rfl⟩

theorem HasPrepared.prepared {target : SampleTarget} {p : SamplePlan N} {bs : List (TableBlock N)}
    {joined : Bool} (hplan : s.plan target = .ok p)
    (hbs : List.Forall₂ (BlockOf s.schema source config joined) p.path.tables bs) :
    s.Prepared p bs := by
  obtain ⟨hpath, m, hm, hrows, -⟩ := path_of_plan hplan
  refine ⟨hpath, hbs.imp fun _ _ hb => hb.isPrepared, ?_⟩
  obtain ⟨t, ht⟩ : ∃ t, s.schema.table p.path.start = .ok t := by
    cases hbs with
    | cons hb _ =>
      obtain ⟨_, t, -, ht, -⟩ := hb.prepared
      exact ⟨t, ht⟩
  obtain ⟨q, hq, -, hm'⟩ := hs t (Schema.mem_of_table_eq_ok ht)
  rw [Schema.name_of_table ht] at hq hm'
  cases hm.symm.trans hm'
  exact first_block hbs hq hrows

/-- Connected relationships have a plan with blocks, whose keys are those of the relationships. -/
theorem HasPrepared.exists_plan {ids : List String} {cache : TableCache N} (hg : s.schema.Linked)
    (hcache : s.Caches cache) (known : ∀ id ∈ ids, ∃ r, s.schema.relationship id = .ok r)
    (hids : ids ≠ []) (hconnected : Connected s.schema ids) :
    ∃ p bs, s.plan (.relationships ids) = .ok p ∧
      (s.blocks (!p.path.steps.isEmpty) p.path.tables cache).1 = .ok bs ∧
      List.Forall₂ (BlockOf s.schema source config (!p.path.steps.isEmpty)) p.path.tables bs ∧
      (∀ t, t ∈ p.path.tables ↔ IsEnd s.schema ids t) ∧
      ∀ a, s.schema.KeyOf (p.path.steps.map (·.relationship)) a ↔ s.schema.KeyOf ids a := by
  have hmetadata (t : String) (ht : IsEnd s.schema ids t) : ∃ m, s.metadata.get? t = some m := by
    obtain ⟨u, hu, rfl⟩ := List.mem_map.mp (ht.mem_names hg)
    obtain ⟨q, -, -, hm⟩ := hs u hu
    exact ⟨_, hm⟩
  obtain ⟨p, hplan⟩ := ((plan_of_relationships hg known hids).2 hmetadata).mpr hconnected
  obtain ⟨hstart, hpath, -⟩ := plan_eq_ok hplan
  obtain ⟨start, hstart', hend⟩ := startTable_isEnd hg known hids
  cases hstart.symm.trans hstart'
  have htables := mem_tables_of_assemble hg known hend hpath
  obtain ⟨bs, hblocks⟩ : ∃ bs, (s.blocks (!p.path.steps.isEmpty) p.path.tables cache).1 = .ok bs :=
    hs.exists_blocks hg (fun name hname => exists_table_of_isEnd hg ((htables name).mp hname)) hcache
  refine ⟨p, bs, hplan, hblocks, (blocks_load hcache hblocks).imp fun _ _ hb => hs.blockOf hb, htables,
    fun a => ?_⟩
  have hperm := (isPlan_of_assemble known hpath).relationships
  exact exists_congr fun id => and_congr_left' hperm.mem_iff

end

section

variable [NumericScalar N] {p : SamplePlan N} {bs : List (TableBlock N)} {cache : TableCache N}
  {request : SampleRequest N} {G : Type} [Generator G]

namespace Prepared

variable (h : s.Prepared p bs) (hplan : s.plan request.target = .ok p)
  (hblocks : (s.blocks (!p.path.steps.isEmpty) p.path.tables cache).1 = .ok bs)
include h hplan hblocks

theorem exists_sample (hstored : KeysStored s.schema bs p.path.steps) (gen : G) :
    ∃ w, (s.sample request gen cache).1 = .ok w ∧ ∀ t ∈ w.rowKeys,
      t.length = p.path.tables.length ∧ ∀ step ∈ p.path.steps, Obeys s.schema bs t step := by
  obtain ⟨hnodup, hlt⟩ := drawStart_valid s p.storedRows (s.rateOf p request) gen
  obtain ⟨w, gen', hexpand, -⟩ := h.expand hnodup hlt hstored request.size
    (s.drawStart p.storedRows (s.rateOf p request) gen).2
  refine ⟨w, sample_eq_ok.mpr ⟨p, bs, gen', hplan, hblocks, hexpand⟩, fun t ht => ?_⟩
  have hadmissible := h.admissible_of_expand hnodup hlt hexpand t ht
  exact ⟨hadmissible.length, hadmissible.obeys⟩

theorem sample_eq_error (hnot : ¬ KeysStored s.schema bs p.path.steps) (gen : G) :
    ∃ a, s.schema.KeyOf (p.path.steps.map (·.relationship)) a ∧ ¬ Stored bs a ∧
      (s.sample request gen cache).1 = .error (.missingKeyColumn a.table a.qualified) := by
  obtain ⟨-, hlt⟩ := drawStart_valid s p.storedRows (s.rateOf p request) gen
  obtain ⟨a, hkey, hmissing, hexpand⟩ := h.expand_of_not_stored hlt hnot request.size
    (s.drawStart p.storedRows (s.rateOf p request) gen).2
  refine ⟨a, hkey, hmissing, ?_⟩
  unfold sample
  rw [hplan]
  dsimp only
  rw [hblocks]
  exact bind_eq_error.mpr (.inr ⟨bs, rfl, bind_eq_error.mpr (.inl hexpand)⟩)

theorem keysStored_of_sample {gen : G} {w : JoinSample N}
    (hsample : (s.sample request gen cache).1 = .ok w) : KeysStored s.schema bs p.path.steps := by
  by_contra hnot
  obtain ⟨a, -, -, herror⟩ := h.sample_eq_error hplan hblocks hnot gen
  cases hsample.symm.trans herror

end Prepared

section

variable {ids : List String} (hg : s.schema.Built) (hs : s.HasPrepared source config)
  (hcache : s.Caches cache) (known : ∀ id ∈ ids, ∃ r, s.schema.relationship id = .ok r)
  (hids : ids ≠ []) (hconnected : Connected s.schema ids)
  (htarget : request.target = .relationships ids)
include hg hs hcache known hids hconnected htarget

/-- If the keys are taken over, the join is sampled or the error names a key without values. -/
theorem joins_or_lacks_values (hkeys : ∀ a, s.schema.KeyOf ids a → s.schema.TakesOver source a)
    (gen : G) :
    (∃ w, (s.sample request gen cache).1 = .ok w ∧ s.JoinsRows ids cache w) ∨
      ∃ a, s.schema.KeyOf ids a ∧ ¬ source.HasValue a ∧
        (s.sample request gen cache).1 = .error (.missingKeyColumn a.table a.qualified) := by
  obtain ⟨p, bs, hplan, hblocks, hof, -, hkeyOf⟩ :=
    hs.exists_plan hg.linked hcache known hids hconnected
  have hprepared := hs.prepared hplan hof
  rw [← htarget] at hplan
  by_cases hall : KeysStored s.schema bs p.path.steps
  · obtain ⟨w, hw, hrows⟩ := hprepared.exists_sample hplan hblocks hall gen
    exact .inl ⟨w, hw, p, bs, htarget ▸ hplan, hblocks, hrows⟩
  · obtain ⟨a, ha, hmissing, herror⟩ := hprepared.sample_eq_error hplan hblocks hall gen
    have ha := (hkeyOf a).mp ha
    refine .inr ⟨a, ha, fun hvalue => hmissing fun c hc hname => ?_, herror⟩
    have hblock := BlockOf.of_mem hof hc
    rw [hname] at hblock
    exact hblock.stores_of_hasValue (hkeys a ha) hvalue

/-- A join that is sampled has values in its keys, as far as these are no multipliers. -/
theorem hasValue_of_sample {gen : G} {w : JoinSample N}
    (hsample : (s.sample request gen cache).1 = .ok w) {a : AttributeRef}
    (ha : s.schema.KeyOf ids a) (hmultiplier : ∀ r ∈ s.schema.relationships, r.multiplier ≠ a) :
    source.HasValue a := by
  obtain ⟨p, bs, hplan, hblocks, hof, htables, hkeyOf⟩ :=
    hs.exists_plan hg.linked hcache known hids hconnected
  have hprepared := hs.prepared hplan hof
  rw [← htarget] at hplan
  have hstored : Stored bs a :=
    keysStored_iff_keyOf.mp (hprepared.keysStored_of_sample hplan hblocks hsample) a
      ((hkeyOf a).mpr ha)
  obtain ⟨hnames, -⟩ := TableBlock.names_of_prepared hprepared.blocks
  rw [← hnames] at htables
  obtain ⟨b, hb, hname⟩ := List.mem_map.mp ((htables a.table).mpr ha.isEnd)
  have hblock := BlockOf.of_mem hof hb
  rw [hname] at hblock
  exact hblock.hasValue_of_stores hg.linked hmultiplier (hstored b hb hname)

/-- When the keys of connected relationships are taken over, a sample of their join fails only for a
key column without values. It does if there is one, unless a multiplier has the name of the column. -/
theorem sample_fails_only_without_key_values
    (hkeys : ∀ a, s.schema.KeyOf ids a → s.schema.TakesOver source a) (gen : G) :
    ((∃ w, (s.sample request gen cache).1 = .ok w ∧ s.JoinsRows ids cache w) ∨
      ∃ a, s.schema.KeyOf ids a ∧ ¬ source.HasValue a ∧
        (s.sample request gen cache).1 = .error (.missingKeyColumn a.table a.qualified)) ∧
    ((∀ a, s.schema.KeyOf ids a → ∀ r ∈ s.schema.relationships, r.multiplier ≠ a) →
      ((∃ w, (s.sample request gen cache).1 = .ok w) ↔
        ∀ a, s.schema.KeyOf ids a → source.HasValue a)) := by
  have hanswer := joins_or_lacks_values hg hs hcache known hids hconnected htarget hkeys gen
  refine ⟨hanswer, fun hmultiplier => ⟨?_, fun hvalues => ?_⟩⟩
  · rintro ⟨w, hw⟩ a ha
    exact hasValue_of_sample hg hs hcache known hids hconnected htarget hw ha (hmultiplier a ha)
  · rcases hanswer with ⟨w, hw, -⟩ | ⟨a, ha, hmissing, -⟩
    · exact ⟨w, hw⟩
    · exact absurd (hvalues a ha) hmissing

end

end

end

end Sampler

/-! ## Prepared stores -/

namespace Store

/-- The sampler over a store. -/
def sampler (store : Store) (g : Schema Float) (m : SortedMap String (TableMetadata Float))
    (config : SamplingConfig Float) : Sampler Float :=
  ⟨g, store.loadTable, m, config⟩

/-- After all tables of a schema were prepared, the sampler over the store has them. -/
theorem HoldsAll.hasPrepared {g : Schema Float} {source : RawSource Float}
    {config : PreparationConfig Float} {s s' : Store} {m : SortedMap String (TableMetadata Float)}
    (h : HoldsAll g source config s s' m) (sampling : SamplingConfig Float)
    (hfits : ∀ t ∈ g.tables, ∀ p, g.prepare source config t.name = .ok p → TableFile.Fits p.table) :
    (s'.sampler g m sampling).HasPrepared source config := by
  intro t ht
  obtain ⟨p, hp, -, hload⟩ := h.tables t ht
  exact ⟨p, hp, hload (hfits t ht p hp), (h.entries t.name p.metadata).mpr ⟨t, ht, rfl, p, hp, rfl⟩⟩

end Store

namespace Ledger

def ids : List String := [posting.identifier]

theorem relationship_posting : schema.relationship posting.identifier = .ok posting := by
  decide +kernel

theorem known : ∀ id ∈ ids, ∃ r, schema.relationship id = .ok r := by
  intro id hid
  cases List.mem_singleton.mp hid
  exact ⟨posting, relationship_posting⟩

theorem connected : JoinPath.Connected schema ids := by
  have hend : JoinPath.IsEnd schema ids "account" :=
    ⟨posting.identifier, List.mem_singleton_self _, posting, relationship_posting, .inr rfl⟩
  exact (JoinPath.exists_assemble_iff built.linked known hend).mp (exists_eq_ok (by decide +kernel))

theorem eq_of_keyOf {a : AttributeRef} (h : schema.KeyOf ids a) :
    a = posting.sourceKey ∨ a = posting.targetKey := by
  obtain ⟨id, hid, r, hr, hkey⟩ := h
  cases List.mem_singleton.mp hid
  cases relationship_posting.symm.trans hr
  exact hkey

/-- Keys are taken over that are numbers or null. -/
theorem takesOver {v w : Value Float} (hv : v.isText = false) (hw : w.isText = false) {a : AttributeRef}
    (ha : schema.KeyOf ids a) : schema.TakesOver (source v w) a := by
  intro t raw ht hraw
  rcases eq_of_keyOf ha with rfl | rfl
  · have htable : schema.table posting.source = .ok (Schema.link posting entry) := rfl
    cases ht.symm.trans htable
    cases hraw
    refine ⟨List.not_mem_nil, nofun, fun x hx => hx.isText_eq_false fun row hrow y hy => ?_⟩
    cases List.mem_singleton.mp hrow
    rcases List.mem_pair.mp hy with rfl | rfl
    · rfl
    · exact hw
  · have htable : schema.table posting.target = .ok (Schema.link posting account) := rfl
    cases ht.symm.trans htable
    cases hraw
    refine ⟨List.not_mem_nil, nofun, fun x hx => hx.isText_eq_false fun row hrow y hy => ?_⟩
    cases List.mem_singleton.mp hrow
    cases List.mem_singleton.mp hy
    exact hv

/-- Every account has an identifier. -/
theorem hasValue_targetKey {v w : Value Float} (hv : v.isNull = false) :
    (source v w).HasValue posting.targetKey :=
  ⟨accounts v, rfl, v, ⟨0, rfl, List.mem_singleton_self v⟩, hv⟩

theorem multiplier_ne {a : AttributeRef} (ha : schema.KeyOf ids a) :
    ∀ r ∈ schema.relationships, r.multiplier ≠ a := by
  intro r hr
  cases List.mem_singleton.mp hr
  rcases eq_of_keyOf ha with rfl | rfl
  · decide +kernel
  · decide +kernel

theorem exists_sampler {v w : Value Float}
    (hok : (Store.empty.prepareAll schema (source v w) .standard).1.toOption.isSome = true)
    (hfit : (schema.tables.all fun t =>
      (schema.prepare (source v w) .standard t.name).toOption.all
        fun p => decide (TableFile.Fits p.table)) = true) :
    ∃ m store, Store.empty.prepareAll schema (source v w) .standard = (.ok m, store) ∧
      (store.sampler schema m .standard).HasPrepared (source v w) .standard := by
  obtain ⟨m, hm⟩ := exists_eq_ok hok
  have hall : Store.empty.prepareAll schema (source v w) .standard = (.ok m, _) := Prod.ext hm rfl
  refine ⟨m, _, hall, ?_⟩
  have hholds := Store.holdsAll_of_prepareAll built.linked (by decide +kernel) hall
  refine hholds.hasPrepared .standard fun t ht p hp => ?_
  have hfits := List.all_eq_true.mp hfit t ht
  rw [hp] at hfits
  exact of_decide_eq_true hfits

def request : SampleRequest Float := ⟨.relationships ids, 10, none⟩

theorem target_request : request.target = .relationships ids := rfl

/-- The entry has an account. -/
theorem sample_of_posted : ∃ m store,
    Store.empty.prepareAll schema (source (.int 7) (.num 7)) .standard = (.ok m, store) ∧
    ∃ w, ((store.sampler schema m .standard).sample request (ChaCha.ofSeed 0)
      (store.sampler schema m .standard).freshCache).1 = .ok w := by
  obtain ⟨m, store, hall, hs⟩ :=
    exists_sampler (v := .int 7) (w := .num 7) (by decide +kernel) (by decide +kernel)
  refine ⟨m, store, hall, ?_⟩
  obtain ⟨-, hiff⟩ := Sampler.sample_fails_only_without_key_values built hs
    (Sampler.caches_freshCache _) known (List.cons_ne_nil _ _) connected target_request
    (fun a ha => takesOver rfl rfl ha) (ChaCha.ofSeed 0)
  refine (hiff fun a ha => multiplier_ne ha).mpr fun a ha => ?_
  rcases eq_of_keyOf ha with rfl | rfl
  · exact ⟨_, rfl, .num 7, ⟨1, rfl, List.mem_singleton_self _⟩, rfl⟩
  · exact hasValue_targetKey rfl

/-- The entry has no account, so its key is not stored, and a sample with the accounts fails. -/
theorem sample_lacks_account : ∃ m store,
    Store.empty.prepareAll schema (source (.int 1) .null) .standard = (.ok m, store) ∧
    JoinPath.Connected schema ids ∧
    (∀ a, schema.KeyOf ids a → schema.TakesOver (source (.int 1) .null) a) ∧
    ((store.sampler schema m .standard).sample request (ChaCha.ofSeed 0)
      (store.sampler schema m .standard).freshCache).1 =
        .error (.missingKeyColumn "entry" "entry.account") := by
  obtain ⟨m, store, hall, hs⟩ :=
    exists_sampler (v := .int 1) (w := .null) (by decide +kernel) (by decide +kernel)
  have hcache := Sampler.caches_freshCache (store.sampler schema m .standard)
  refine ⟨m, store, hall, connected, fun a ha => takesOver rfl rfl ha, ?_⟩
  rcases Sampler.joins_or_lacks_values built hs hcache known (List.cons_ne_nil _ _) connected
    target_request (fun a ha => takesOver rfl rfl ha) (ChaCha.ofSeed 0)
    with ⟨w, hw, -⟩ | ⟨a, ha, hmissing, herror⟩
  · have hkey : schema.KeyOf ids posting.sourceKey :=
      ⟨posting.identifier, List.mem_singleton_self _, posting, relationship_posting, .inl rfl⟩
    obtain ⟨raw, hraw, v, ⟨place, hplace, hv⟩, hnull⟩ := Sampler.hasValue_of_sample built hs hcache
      known (List.cons_ne_nil _ _) connected target_request hw hkey (multiplier_ne hkey)
    cases hraw
    -- the key stands at the second place, and the only value there is null
    match place with
    | 0 => exact absurd hplace (by decide)
    | 1 =>
      cases List.mem_singleton.mp hv
      cases hnull
    | _ + 2 => cases hplace
  · rcases eq_of_keyOf ha with rfl | rfl
    · exact herror
    · exact absurd (hasValue_targetKey rfl) hmissing

end Ledger

end ApproxQuery

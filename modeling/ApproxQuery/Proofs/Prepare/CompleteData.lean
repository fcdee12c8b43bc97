import ApproxQuery.Proofs.Prepare.Columns
import ApproxQuery.Proofs.Prepare.References
import ApproxQuery.Proofs.Schema.Built

/-!
# Preparation of complete data

Data is complete if no table is a sample or is cut down. If, moreover, primary keys are unique and
columns have different names, a prepared table holds the values of the raw one, and its multipliers
are the numbers of raw rows that reference a row.
-/

namespace ApproxQuery

/-- The values are different from each other and not null. -/
structure UniqueKeys (values : List (Value ℚ)) : Prop where
  notNull : ∀ v ∈ values, v.isNull = false
  distinct : values.Pairwise fun v w => (v == w) = false

/-- The relationships that reference a table. -/
def Schema.references (g : Schema ℚ) (table : String) : List Relationship :=
  g.relationships.filter (·.target == table)

theorem Schema.mem_references {g : Schema ℚ} {table : String} {r : Relationship} :
    r ∈ g.references table ↔ r ∈ g.relationships ∧ r.target = table := by
  simp [references]

/-- The names of the columns that a table has in its raw form, once prepared, and in samples. -/
def Schema.columnNames (g : Schema ℚ) (t : Table ℚ) (raw : RawTable ℚ) : List String :=
  raw.columns ++ (g.references t.name).map (·.multiplierName) ++
    (g.references t.name).map (·.definedMultiplier.name) ++ [t.nullIndicator]

/-- All rows of all tables are there, and rows can be told apart. -/
structure WholeData (g : Schema ℚ) (source : RawSource ℚ) (config : PreparationConfig ℚ) :
    Prop where
  built : g.Built
  rate : ∀ t ∈ g.tables, t.sampleRate = 1
  size : ∀ t ∈ g.tables, ∀ raw, source t.name = .ok raw → raw.size ≤ config.maxData
  keys : ∀ t ∈ g.tables, ∀ raw, source t.name = .ok raw → ∀ key, t.primaryKeys = [key] →
    ∃ values, raw.column? key = some values ∧ UniqueKeys values

/-- Moreover, columns can be told apart, and samples have the multipliers. -/
structure CompleteData (g : Schema ℚ) (source : RawSource ℚ) (config : PreparationConfig ℚ) : Prop
    extends WholeData g source config where
  names : ∀ t ∈ g.tables, ∀ raw, source t.name = .ok raw → (g.columnNames t raw).Nodup
  relevant : ∀ t ∈ g.tables, ∀ r ∈ g.references t.name, r.multiplierName ∉ t.irrelevant

namespace Preparation

variable {g : Schema ℚ} {source : RawSource ℚ} {config : PreparationConfig ℚ} {name : String}
  {p : PreparedTable ℚ}

theorem rs_eq (h : Preparation g source config name p) (hdata : CompleteData g source config) :
    h.rs = g.references name := by
  have hin := hdata.built.linked.incoming_eq h.known
  rw [h.incoming] at hin
  exact Except.ok.inj hin

section

variable (h : Preparation g source config name p) (hdata : CompleteData g source config)
include hdata

theorem nodup_columnNames : (g.columnNames h.table h.raw).Nodup := by
  have hname := Schema.name_of_table h.known
  apply hdata.names h.table (Schema.mem_of_table_eq_ok h.known) h.raw
  rw [hname]
  exact h.source_eq

theorem nodup_columns : h.raw.columns.Nodup := by
  have hnodup := h.nodup_columnNames hdata
  simp only [Schema.columnNames, List.append_assoc] at hnodup
  exact (List.nodup_append.mp hnodup).1

theorem names_frame : (h.frame.map Column.name).Sublist
    ((h.raw.columns ++ (g.references name).map (·.multiplierName)).map (qualify name)) := by
  have hwhole := Frame.names_ofRaw h.whole_eq
  rw [Schema.name_of_table h.known] at hwhole
  rw [frame, List.map_append, List.map_append]
  apply (((Frame.sublist_erase _ _).map _).trans hwhole).append
  have hmul : (h.multipliers.map Multiplier.column).map Column.name =
      h.rs.map fun r => r.multiplier.qualified := by
    rw [← h.adds.relationships, List.map_map, List.map_map]
    rfl
  have hsame : (g.references name).map (fun r => r.multiplier.qualified) =
      ((g.references name).map (·.multiplierName)).map (qualify name) := by
    rw [List.map_map]
    apply List.map_congr_left
    intro r hr
    rw [← (Schema.mem_references.mp hr).2]
    rfl
  rw [hmul, h.rs_eq hdata, hsame]

theorem nodup_frame : (h.frame.map Column.name).Nodup := by
  have hnodup := h.nodup_columnNames hdata
  unfold Schema.columnNames at hnodup
  rw [List.append_assoc, List.nodup_append, Schema.name_of_table h.known] at hnodup
  exact (hnodup.1.map fun a b hab => qualify_inj.mp hab).sublist (h.names_frame hdata)

theorem column?_of_mem_frame {c : Column ℚ} {a : String} (hc : c ∈ h.frame)
    (hname : c.name = qualify name a) (ha : a ∈ h.raw.columns) : h.raw.column? a = some c.values := by
  have hknown := Schema.name_of_table h.known
  rcases List.mem_append.mp hc with hc | hc
  · obtain ⟨b, hb, hcb, hvalues⟩ := Frame.column?_of_mem_ofRaw h.whole_eq (h.nodup_columns hdata)
      ((Frame.sublist_erase _ _).subset hc)
    rw [hknown, hname, qualify_inj] at hcb
    exact hcb ▸ hvalues
  · obtain ⟨m, hm, rfl⟩ := List.mem_map.mp hc
    have hr : m.relationship ∈ g.references name := by
      rw [← h.rs_eq hdata, ← h.adds.relationships]
      exact List.mem_map_of_mem hm
    have hmul : a = m.relationship.multiplierName := by
      have htarget := (Schema.mem_references.mp hr).2
      rw [← htarget] at hname
      exact (qualify_inj.mp hname).symm
    have hnodup := h.nodup_columnNames hdata
    unfold Schema.columnNames at hnodup
    rw [List.append_assoc, List.nodup_append, List.nodup_append, hknown] at hnodup
    exact absurd hmul (hnodup.1.2.2 a ha _ (List.mem_map_of_mem hr))

theorem size_le : h.raw.size ≤ config.maxData := by
  apply hdata.size h.table (Schema.mem_of_table_eq_ok h.known) h.raw
  rw [Schema.name_of_table h.known]
  exact h.source_eq

/-- A stored column of a raw attribute is decoded to the values of the raw column. -/
theorem decoded_column {a : String} (ha : a ∈ h.raw.columns)
    (hstored : qualify name a ∈ p.table.columns) :
    ∃ numbers values, p.table.column? (qualify name a) = some numbers ∧
      h.raw.column? a = some values ∧
      List.Forall₂ (fun x v => (p.metadata.decoded (qualify name a) x == v) = true) numbers values := by
  obtain ⟨e, he, hename, numbers, hn⟩ := h.exists_of_mem_columns hstored
  obtain ⟨place, hplace, hdata'⟩ :=
    h.columnIndex?_eq (h.nodup_stored (h.nodup_frame hdata)) he (h.size_le hdata) hn
  have hdecoded := EncodedColumn.decoded_of_ofColumn (h.encodes.2 e he) hn
    (h.describedBy (h.nodup_stored (h.nodup_frame hdata)) he)
  rw [hename] at hplace hdecoded
  refine ⟨numbers, e.1.values, ?_, h.column?_of_mem_frame hdata (h.mem_frame he) hename ha, hdecoded⟩
  rw [EncodedTable.column?, hplace, Option.bind_some, hdata']

/-- The multiplier of a relationship counts, for each row, the raw rows of the source that reference
the raw key of the row. -/
theorem exists_multiplier {r : Relationship} (hr : r ∈ g.references name) :
    ∃ m ∈ h.multipliers, m.relationship = r ∧ ∃ raw references keys, source r.source = .ok raw ∧
      raw.column? r.sourceAttribute = some references ∧
      h.raw.column? r.targetAttribute = some keys ∧ UniqueKeys keys ∧
      m.counts = keys.map fun v => (Multiplier.count references v : ℚ) := by
  have hname := Schema.name_of_table h.known
  rw [← h.rs_eq hdata] at hr
  obtain ⟨m, hm, f, hsub, hcompute⟩ := h.adds.exists_compute hr
  obtain ⟨rfl, c, referencing, raw, references, hc, href, hraw, hreferences, hcounts⟩ :=
    Multiplier.compute_eq_ok hcompute
  obtain ⟨hcmem, hcname, hkey⟩ := Multiplier.key_eq_ok hc
  rw [hname] at hcname
  have hprimary : h.table.primaryKeys = [m.relationship.targetAttribute] := by
    unfold Table.singlePrimaryKey? at hkey
    split at hkey
    · rename_i key hprimary
      cases hkey
      exact hprimary
    · cases hkey
  obtain ⟨values, hvalues, hunique⟩ :=
    hdata.keys h.table (Schema.mem_of_table_eq_ok h.known) h.raw
      (by rw [hname, h.source_eq]) _ hprimary
  obtain ⟨place, hplace, -⟩ := (RawTable.column?_eq_some (h.nodup_columns hdata)).mp hvalues
  have hkeys := h.column?_of_mem_frame hdata (hsub hcmem) hcname (List.mem_of_getElem? hplace)
  cases hvalues.symm.trans hkeys
  refine ⟨m, hm, rfl, raw, references, c.values, hraw, hreferences, hkeys, hunique, ?_⟩
  simp only [Tally.get_ofValues] at hcounts
  rw [hcounts, hdata.rate referencing (Schema.mem_of_table_eq_ok href)]
  exact List.map_congr_left fun v _ => div_one _

theorem columnIndex?_multiplier {m : Multiplier ℚ} (hm : m ∈ h.multipliers) (hrows : h.raw.size ≠ 0) :
    ∃ place, p.table.columnIndex? m.relationship.multiplier.qualified = some place ∧
      p.table.data[place]? = some m.counts := by
  obtain ⟨e, he, hecolumn, hnumbers⟩ := h.exists_stored hm hrows
  obtain ⟨place, hplace, hcolumn⟩ :=
    h.columnIndex?_eq (h.nodup_stored (h.nodup_frame hdata)) he (h.size_le hdata) hnumbers
  rw [hecolumn] at hplace
  exact ⟨place, hplace, hcolumn⟩

end

end Preparation

end ApproxQuery

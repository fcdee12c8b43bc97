import ApproxQuery.Proofs.Query.InnerJoin
import ApproxQuery.Proofs.Sample.Cells

/-!
# Attributes in samples of complete data

In complete data the cell of a raw attribute is decoded to the raw value, and the null indicator is
zero or one. Keys meet if the raw keys are equal and not null.
-/

namespace ApproxQuery

theorem forall₂_getElem? {α β : Type} {R : α → β → Prop} {xs : List α} {ys : List β}
    (h : List.Forall₂ R xs ys) {i : Nat} {x : α} (hx : xs[i]? = some x) :
    ∃ y, ys[i]? = some y ∧ R x y := by
  obtain ⟨hlt, rfl⟩ := List.getElem?_eq_some_iff.mp hx
  have hlt' : i < ys.length := h.length_eq ▸ hlt
  exact ⟨ys[i], List.getElem?_eq_getElem hlt', h.get hlt hlt'⟩

theorem RawSource.value?_eq {source : RawSource ℚ} {a : AttributeRef} {raw : RawTable ℚ}
    {values : List (Value ℚ)} (hraw : source a.table = .ok raw)
    (hvalues : raw.column? a.name = some values) (i : Nat) : source.value? a i = values[i]? := by
  simp [RawSource.value?, hraw, hvalues, Except.toOption]

namespace Expansion

variable {bs : List (TableBlock ℚ)} {t : JoinTuple}

/-- The value that the cell of an attribute stands for. -/
def decodedCell (bs : List (TableBlock ℚ)) (cells : List ℚ) (a : AttributeRef) : Value ℚ :=
  ((placeOf? bs a.table).bind (bs[·]?)).elim .null fun b =>
    b.metadata.decoded a.qualified (cellOf bs cells a)

theorem decodedCell_eq {a : AttributeRef} {place index : Nat} {b : TableBlock ℚ}
    {row? : Option Nat} (hplace : placeOf? bs a.table = some place) (hb : bs[place]? = some b)
    (hrow : t[place]? = some row?) (hindex : b.columns.findIdx? (· == a.qualified) = some index) :
    decodedCell bs (cellsOf bs t) a =
      b.metadata.decoded a.qualified (((b.cellList row?)[index]?).getD 0) := by
  rw [decodedCell, hplace, Option.bind_some, hb, Option.elim_some,
    cellOf_cellsOf hplace hb hrow hindex]

end Expansion

namespace TableBlock

theorem getElem?_cellList_indicator {b : TableBlock ℚ} {name : String}
    (h : b.indicator? = some name) :
    b.columns[b.kept.length + b.multipliers.length]? = some name ∧
      ∀ row? : Option Nat, (b.cellList row?)[b.kept.length + b.multipliers.length]? =
        some (row?.elim 1 fun _ => 0) := by
  constructor
  · rw [columns, List.getElem?_append_right (by simp), h]
    simp
  · intro row?
    cases row? with
    | none =>
      rw [cellList, List.getElem?_append_right (by simp [places]), h]
      simp [places]
    | some row =>
      rw [cellList, List.getElem?_append_right (by simp), h]
      simp

/-- The cells of a kept column are the stored numbers of the column. -/
theorem exists_kept {b : TableBlock ℚ} {column : String} (hnodup : b.columns.Nodup)
    (hmem : column ∈ b.kept.map b.columnName) : ∃ index place,
      b.columns.findIdx? (· == column) = some index ∧ place ∈ b.kept ∧
      b.columnName place = column ∧
      ∀ row, (b.cellList (some row))[index]? = some (b.number row place) := by
  obtain ⟨index, hindex⟩ := List.getElem?_of_mem hmem
  obtain ⟨place, hplace, hname⟩ := Option.map_eq_some_iff.mp ((List.getElem?_map ..).symm.trans hindex)
  have hlt := (List.getElem?_eq_some_iff.mp hplace).1
  refine ⟨index, place, findIdx?_of_nodup hnodup ?_, List.mem_of_getElem? hplace, hname, fun row => ?_⟩
  · rw [columns, List.append_assoc, List.getElem?_append_left (by simpa using hlt), hindex]
  · rw [cellList, List.append_assoc, List.getElem?_append_left (by simpa using hlt),
      List.getElem?_map, hplace]
    rfl

end TableBlock

/-- Nothing is known under the name of the null indicator. -/
theorem Preparation.get?_nullIndicator {g : Schema ℚ} {source : RawSource ℚ}
    {config : PreparationConfig ℚ} {name : String} {p : PreparedTable ℚ}
    (h : Preparation g source config name p) (hdata : CompleteData g source config) :
    p.metadata.categoricals.get? (qualify name h.table.nullIndicator) = none ∧
      p.metadata.nullValues.get? (qualify name h.table.nullIndicator) = none := by
  have hnames := h.nodup_columnNames hdata
  rw [Schema.columnNames, Schema.name_of_table h.known, List.nodup_append] at hnames
  obtain ⟨hc, hn⟩ := h.metadata_get? (qualify name h.table.nullIndicator)
  have hother : ∀ e ∈ h.encoded, e.1.name ≠ qualify name h.table.nullIndicator := by
    intro e he heq
    have hmem := (h.names_frame hdata).subset (List.mem_map_of_mem (h.mem_frame he))
    rw [heq] at hmem
    obtain ⟨c, hc, hqualified⟩ := List.mem_map.mp hmem
    exact hnames.2.2 c (List.mem_append_left _ hc) _ List.mem_cons_self (qualify_inj.mp hqualified)
  obtain ⟨hc', hn'⟩ :=
    EncodedColumn.get?_addEach_of_not_mem (p := ⟨⟨name, [], []⟩, h.blank⟩) hother
  rw [h.blank_eq] at hc' hn'
  rw [hc, hn, untruncated, h.blank_eq]
  exact ⟨hc', hn'⟩

namespace Sampler.BlockOf

open Expansion

variable {g : Schema ℚ} {source : RawSource ℚ} {config : PreparationConfig ℚ} {joined : Bool}
  {name : String} {b : TableBlock ℚ} {bs : List (TableBlock ℚ)} {t : JoinTuple} {place : Nat}
  (h : BlockOf g source config joined name b) (hdata : CompleteData g source config)
include h hdata

theorem size_eq {column : String} (hc : column ∈ b.table.columns) :
    b.table.size = source.rowCount name := by
  obtain ⟨p, t, hp, ht, hb⟩ := h.prepared
  obtain ⟨prep⟩ := Schema.prepare_eq_ok hp
  obtain ⟨-, htable, -⟩ := TableBlock.ofTable_eq_ok hb
  have hwidth := prep.rectangular.width
  rw [htable] at hc ⊢
  cases hd : p.table.data with
  | nil =>
    rw [hd] at hwidth
    rw [List.length_eq_zero_iff.mp hwidth.symm] at hc
    cases hc
  | cons first rest =>
    have hfirst : first ∈ p.table.data := hd ▸ List.mem_cons_self
    rw [← prep.rectangular.length first hfirst]
    rw [prep.table_of_size_le (prep.size_le hdata)] at hfirst
    rw [(prep.numbers_of_mem hfirst).1, RawSource.rowCount, prep.source_eq]
    rfl

/-- The name of a raw attribute is not that of a defined multiplier or of the null indicator. -/
theorem mem_kept_of_raw {raw : RawTable ℚ} {a : String} (hraw : source name = .ok raw)
    (ha : a ∈ raw.columns) (hcolumn : qualify name a ∈ b.columns) :
    qualify name a ∈ b.kept.map b.columnName := by
  obtain ⟨p, t, hp, ht, -⟩ := h.prepared
  obtain ⟨prep⟩ := Schema.prepare_eq_ok hp
  cases hraw.symm.trans prep.source_eq
  have hsame : prep.table = t := Except.ok.inj (prep.known.symm.trans ht)
  have hnames := prep.nodup_columnNames hdata
  rw [Schema.columnNames, Schema.name_of_table prep.known, hsame, List.append_assoc,
    List.append_assoc, List.nodup_append] at hnames
  unfold TableBlock.columns at hcolumn
  rcases List.mem_append.mp hcolumn with hcolumn | hcolumn
  · rcases List.mem_append.mp hcolumn with hcolumn | hcolumn
    · exact hcolumn
    · obtain ⟨c, hc, heq⟩ := List.mem_map.mp ((h.defined_names hdata).subset hcolumn)
      refine absurd (qualify_inj.mp heq).symm (hnames.2.2 a ha c ?_)
      exact List.mem_append_right _ (List.mem_append_left _ hc)
  · rw [h.indicator?_eq ht] at hcolumn
    split at hcolumn
    · have heq := qualify_inj.mp (List.mem_singleton.mp hcolumn)
      refine absurd heq (hnames.2.2 a ha t.nullIndicator ?_)
      exact List.mem_append_right _ (List.mem_append_right _ List.mem_cons_self)
    · cases hcolumn

/-- The cell of a raw attribute is decoded to a value equal to the raw one. -/
theorem decodedCell_of_raw {raw : RawTable ℚ} {a : String} (hraw : source name = .ok raw)
    (ha : a ∈ raw.columns) (hcolumn : qualify name a ∈ b.columns)
    (hplace : placeOf? bs name = some place) (hget : bs[place]? = some b) {i : Nat}
    (hrow : t[place]? = some (some i)) (hlt : i < b.table.size) :
    ∃ x, source.value? ⟨name, a⟩ i = some x ∧
      (decodedCell bs (cellsOf bs t) ⟨name, a⟩ == x) = true := by
  have hmem := h.mem_kept_of_raw hdata hraw ha hcolumn
  obtain ⟨j, kept, hindex, hkp, hname, hcell⟩ := TableBlock.exists_kept (h.nodup_columns hdata) hmem
  obtain ⟨p, t, hp, ht, hb⟩ := h.prepared
  obtain ⟨prep⟩ := Schema.prepare_eq_ok hp
  obtain ⟨-, htable, hmetadata, -, hkept, -⟩ := TableBlock.ofTable_eq_ok hb
  cases hraw.symm.trans prep.source_eq
  have hstored : p.table.columns[kept]? = some (qualify name a) := by
    obtain ⟨c, hc, -⟩ := (hkept kept).mp hkp
    rw [TableBlock.columnName, htable, List.getD_eq_getElem?_getD, hc, Option.getD_some] at hname
    rw [hc, hname]
  obtain ⟨numbers, values, hnumbers, hvalues, hdecoded⟩ :=
    prep.decoded_column hdata ha (List.mem_of_getElem? hstored)
  have hcolumns := prep.nodup_stored (prep.nodup_frame hdata)
  rw [EncodedTable.column?, EncodedTable.columnIndex?, findIdx?_of_nodup hcolumns hstored,
    Option.bind_some] at hnumbers
  have hnumber : numbers[i]? = some (b.number i kept) := by
    have hlength : i < numbers.length := by
      rwa [prep.rectangular.length numbers (List.mem_of_getElem? hnumbers), ← htable]
    rw [TableBlock.number, htable, hnumbers, Option.bind_some, List.getElem?_eq_getElem hlength]
    rfl
  obtain ⟨x, hx, heq⟩ := forall₂_getElem? hdecoded hnumber
  refine ⟨x, (RawSource.value?_eq prep.source_eq hvalues i).trans hx, ?_⟩
  have hcellOf := decodedCell_eq (a := ⟨name, a⟩) hplace hget hrow hindex
  rw [hcellOf, hcell, hmetadata]
  exact heq

/-- The null indicator is one in the rows without the table. -/
theorem decodedCell_of_indicator (hjoined : joined = true) {table : Table ℚ}
    (htable : g.table name = .ok table) (hplace : placeOf? bs name = some place)
    (hget : bs[place]? = some b) {row? : Option Nat} (hrow : t[place]? = some row?) :
    decodedCell bs (cellsOf bs t) ⟨name, table.nullIndicator⟩ =
      .num (row?.elim 1 fun _ => 0) := by
  obtain ⟨p, t, hp, ht, hb⟩ := h.prepared
  cases ht.symm.trans htable
  obtain ⟨prep⟩ := Schema.prepare_eq_ok hp
  obtain ⟨-, -, hmetadata, -⟩ := TableBlock.ofTable_eq_ok hb
  have hindicator := h.indicator?_eq ht
  rw [if_pos hjoined] at hindicator
  obtain ⟨hname, hcell⟩ := TableBlock.getElem?_cellList_indicator hindicator
  have hindex := findIdx?_of_nodup (h.nodup_columns hdata) hname
  have hsame : prep.table = table := Except.ok.inj (prep.known.symm.trans ht)
  have hunknown := prep.get?_nullIndicator hdata
  rw [hsame] at hunknown
  have hdecode (x : ℚ) :
      b.metadata.decoded (AttributeRef.qualified ⟨name, table.nullIndicator⟩) x = .num x := by
    rw [AttributeRef.qualified, hmetadata]
    simp [TableMetadata.decoded, TableMetadata.decode, hunknown, Except.toOption]
  have hcellOf := decodedCell_eq (a := ⟨name, table.nullIndicator⟩) hplace hget hrow hindex
  rw [hcellOf, hcell, Option.getD_some]
  exact hdecode _

theorem exists_key_columns {r : Relationship} (hr : r ∈ g.references name) :
    (∃ raw keys, source name = .ok raw ∧ raw.column? r.targetAttribute = some keys) ∧
      ∃ raw references, source r.source = .ok raw ∧
        raw.column? r.sourceAttribute = some references := by
  obtain ⟨p, t, hp, -, -⟩ := h.prepared
  obtain ⟨prep⟩ := Schema.prepare_eq_ok hp
  obtain ⟨_, _, _, raw, references, keys, hraw, hreferences, hkeys, -⟩ :=
    prep.exists_multiplier hdata hr
  exact ⟨⟨prep.raw, keys, prep.source_eq, hkeys⟩, raw, references, hraw, hreferences⟩

end Sampler.BlockOf

namespace Expansion

variable {g : Schema ℚ} {source : RawSource ℚ} {config : PreparationConfig ℚ} {flag : Bool}
  {bs : List (TableBlock ℚ)} {r : Relationship} {place place' : Nat}
  {target referencing : TableBlock ℚ}

/-- Stored keys meet if the raw ones are equal and not null. -/
theorem meets_iff (hdata : CompleteData g source config)
    (hblocks : ∀ c ∈ bs, Sampler.BlockOf g source config flag c.name c) (hr : r ∈ g.relationships)
    (htarget : IsSide bs r.targetKey place target)
    (hsource : IsSide bs r.sourceKey place' referencing) {i j : Nat} :
    Meets bs r.sourceKey r.targetKey i j ↔
      ∃ x ∈ source.value? r.sourceKey i, ∃ y ∈ source.value? r.targetKey j,
        x.isNull = false ∧ (x == y) = true := by
  have hblock := hblocks target (List.mem_of_getElem? htarget.block)
  have hblock' := hblocks referencing (List.mem_of_getElem? hsource.block)
  have href : r ∈ g.references target.name :=
    Schema.mem_references.mpr ⟨hr, htarget.name_eq.symm⟩
  obtain ⟨⟨raw, keys, hraw, hkeys⟩, raw', references, hraw', hreferences⟩ :=
    hblock.exists_key_columns hdata href
  have hdecoded := hblock.decodedKeys_eq hdata hraw hkeys htarget.stores
  have hdecoded' := hblock'.decodedKeys_eq hdata (hsource.name_eq ▸ hraw') hreferences
    hsource.stores
  rw [htarget.name_eq] at hraw
  have hvalue := RawSource.value?_eq (a := r.targetKey) hraw hkeys j
  have hvalue' := RawSource.value?_eq (a := r.sourceKey) hraw' hreferences i
  unfold Meets
  rw [htarget.keysOf_eq, hsource.keysOf_eq, hvalue, hvalue']
  constructor
  · rintro ⟨k, l, hk, hl, hnull, heq⟩
    obtain ⟨x, hx, hkx⟩ := forall₂_getElem? hdecoded' hk
    obtain ⟨y, hy, hly⟩ := forall₂_getElem? hdecoded hl
    exact ⟨x, hx, y, hy, Value.isNull_eq_of_beq hkx ▸ hnull, Value.beq_congr hkx hly ▸ heq⟩
  · rintro ⟨x, hx, y, hy, hnull, heq⟩
    obtain ⟨k, hk, hkx⟩ := forall₂_getElem? hdecoded'.flip hx
    obtain ⟨l, hl, hly⟩ := forall₂_getElem? hdecoded.flip hy
    exact ⟨k, l, hk, hl, Value.isNull_eq_of_beq hkx ▸ hnull, Value.beq_congr hkx hly ▸ heq⟩

end Expansion

end ApproxQuery

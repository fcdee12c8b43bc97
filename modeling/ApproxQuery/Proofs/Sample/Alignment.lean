import ApproxQuery.Proofs.Prepare.ColumnFates
import ApproxQuery.Proofs.Sample.Parts

/-!
# Rows, columns and null markers of samples

The columns of a sample are those of its tables in the order of the path: for each table its stored
columns, then the defined multipliers, then the null indicator of a join. Names, null markers and the
cells of every row list these columns in the same order.
-/

namespace ApproxQuery

variable {N : Type}

/-- A column of a prepared table. -/
structure StoredColumn (N : Type) where
  name : String
  /-- The number that stands for null. -/
  marker : N
  numbers : List N

/-- What a column of a sample shows of a table. -/
inductive SampleColumn (N : Type) where
  | stored (c : StoredColumn N)
  | defined (name : String) (c : StoredColumn N)
  | indicator (name : String)

namespace SampleColumn

def name : SampleColumn N → String
  | stored c => c.name
  | defined name _ => name
  | indicator name => name

/-- The stored column that the cells are taken from. -/
def source? : SampleColumn N → Option (StoredColumn N)
  | stored c => some c
  | defined _ c => some c
  | indicator _ => none

def marker? (c : SampleColumn N) : Option N :=
  c.source?.map (·.marker)

/-- The column has a cell for the row, if there is one. -/
def Covers (c : SampleColumn N) (row? : Option Nat) : Prop :=
  ∀ row ∈ row?, ∀ s ∈ c.source?, row < s.numbers.length

variable [Scalar N]

/-- The cell of a row of the table, or of none. A multiplier that is zero is shown as one. -/
def cell (row? : Option Nat) : SampleColumn N → N
  | stored c => row?.elim c.marker fun row => c.numbers.getD row 0
  | defined _ c => row?.elim c.marker fun row =>
    if Scalar.eq (c.numbers.getD row 0) 0 then 1 else c.numbers.getD row 0
  | indicator _ => row?.elim 1 fun _ => 0

end SampleColumn

namespace PreparedTable

def storedColumns (p : PreparedTable N) : List (StoredColumn N) :=
  (p.table.columns.zip p.table.data).filterMap fun (name, numbers) =>
    (p.metadata.nullValues.get? name).map fun marker => ⟨name, marker, numbers⟩

end PreparedTable

/-- The columns of a table in a sample: the stored ones but the irrelevant, a defined multiplier for
each multiplier among them, and the indicator of a join. -/
def Table.sampleColumns (t : Table N) (p : PreparedTable N) (incoming : List Relationship)
    (joined : Bool) : List (SampleColumn N) :=
  let kept := p.storedColumns.filter fun c => !(t.irrelevant.map (qualify t.name)).contains c.name
  kept.map .stored ++
    incoming.filterMap (fun r => (kept.find? (·.name == r.multiplier.qualified)).map
      (.defined r.definedMultiplier.qualified)) ++
    if joined then [.indicator t.qualifiedNullIndicator] else []

namespace TableBlock

variable {b : TableBlock N} {g : Schema N} {t : Table N} {data : EncodedTable N} {metadata : TableMetadata N} {joined : Bool}

theorem zipIdx_columns (data : EncodedTable N) : data.columns.zipIdx =
    (List.range data.columns.length).map fun place => (data.columns.getD place "", place) := by
  refine List.ext_getElem (by simp) fun place hlt _ => ?_
  rw [List.length_zipIdx] at hlt
  simp [List.getElem?_eq_getElem hlt]

theorem kept_eq (h : ofTable g t data metadata joined = .ok b) :
    b.kept = (List.range b.table.columns.length).filter fun place =>
      !(t.irrelevant.map (qualify t.name)).contains (b.columnName place) := by
  obtain ⟨rs, -, h⟩ := bind_eq_ok.mp h
  cases pure_eq_ok.mp h
  rw [zipIdx_columns, List.filter_map, List.map_map]
  exact List.map_id _

theorem columnIndex?_eq (b : TableBlock N) (column : String) : b.table.columnIndex? column =
    (List.range b.table.columns.length).find? fun place => b.columnName place == column := by
  rw [EncodedTable.columnIndex?, List.findIdx?_eq_fst_find?_zipIdx, zipIdx_columns, List.find?_map,
    Option.map_map]
  exact Option.map_id'

theorem mem_kept_iff (h : ofTable g t data metadata joined = .ok b) {place : Nat} :
    place ∈ b.kept ↔ place < b.table.columns.length ∧
      (t.irrelevant.map (qualify t.name)).contains (b.columnName place) = false := by
  rw [kept_eq h, List.mem_filter, List.mem_range, Bool.not_eq_true']

theorem columnName_of_columnIndex? {column : String} {place : Nat}
    (h : b.table.columnIndex? column = some place) :
    place < b.table.columns.length ∧ b.columnName place = column := by
  rw [columnIndex?_eq] at h
  have hname := List.find?_some h
  exact ⟨List.mem_range.mp (List.mem_of_find?_eq_some h), beq_iff_eq.mp hname⟩

/-- The first column of a name is kept, or none of that name is. -/
theorem find?_kept (h : ofTable g t data metadata joined = .ok b) (column : String) :
    b.kept.find? (fun place => b.columnName place == column) =
      (b.table.columnIndex? column).bind fun place =>
        if b.kept.contains place then some place else none := by
  -- whether a column is kept depends on its name alone
  cases hirrelevant : (t.irrelevant.map (qualify t.name)).contains column with
  | true =>
    have hnot {place : Nat} (hname : b.columnName place = column) : place ∉ b.kept := by
      rw [mem_kept_iff h, hname, hirrelevant]
      exact fun hkept => Bool.false_ne_true hkept.2.symm
    have hnone : b.kept.find? (fun place => b.columnName place == column) = none :=
      List.find?_eq_none.mpr fun place hkept hname => hnot (beq_iff_eq.mp hname) hkept
    rw [hnone]
    cases hindex : b.table.columnIndex? column with
    | none => rfl
    | some place => exact (if_neg (mt List.contains_iff_mem.mp
        (hnot (columnName_of_columnIndex? hindex).2))).symm
  | false =>
    have hall : b.kept.find? (fun place => b.columnName place == column) =
        b.table.columnIndex? column := by
      rw [columnIndex?_eq, kept_eq h, List.find?_filter]
      congr 1
      funext place
      cases hname : b.columnName place == column with
      | true =>
        rw [beq_iff_eq.mp hname, hirrelevant]
        rfl
      | false => exact decide_eq_false fun h => Bool.false_ne_true h.2
    rw [hall]
    cases hindex : b.table.columnIndex? column with
    | none => rfl
    | some place =>
      obtain ⟨hlt, hname⟩ := columnName_of_columnIndex? hindex
      have hkept : place ∈ b.kept := (mem_kept_iff h).mpr ⟨hlt, hname ▸ hirrelevant⟩
      exact (if_pos (List.contains_iff_mem.mpr hkept)).symm

variable [Scalar N]

/-- The stored column at a place. -/
def storedColumn (b : TableBlock N) (place : Nat) : StoredColumn N where
  name := b.columnName place
  marker := (b.metadata.nullValues.get? (b.columnName place)).getD 0
  numbers := b.table.data.getD place []

/-- The columns of the block in a sample. -/
def sampleColumns (b : TableBlock N) : List (SampleColumn N) :=
  b.kept.map (fun place => .stored (b.storedColumn place)) ++
    b.multipliers.map (fun m => .defined m.2 (b.storedColumn m.1)) ++
    b.indicator?.toList.map .indicator

variable {b : TableBlock N}

theorem columns_eq (b : TableBlock N) : b.columns = b.sampleColumns.map SampleColumn.name := by
  simp only [columns, sampleColumns, List.map_append, List.map_map]
  congr 1
  exact (List.map_id _).symm

theorem cellList_eq (b : TableBlock N) (row? : Option Nat) :
    b.cellList row? = b.sampleColumns.map (SampleColumn.cell row?) := by
  cases row? with
  | none =>
    simp only [cellList, sampleColumns, places, List.map_append, List.map_map]
    rfl
  | some row =>
    have hnumber : b.number row = fun place => (b.storedColumn place).numbers.getD row 0 := by
      funext place
      simp only [number, storedColumn, List.getD_eq_getElem?_getD]
      cases b.table.data[place]? <;> rfl
    simp only [cellList, sampleColumns, List.map_append, List.map_map, hnumber]
    rfl

/-- Every column has a null marker. -/
def Marked (b : TableBlock N) : Prop :=
  ∀ c ∈ b.table.columns, ∃ marker, b.metadata.nullValues.get? c = some marker

theorem columnName_mem (h : b.Sound) {place : Nat} (hplace : place ∈ b.places) :
    b.columnName place ∈ b.table.columns := by
  have hlt := h.places_lt place hplace
  rw [columnName, List.getD_eq_getElem?_getD, List.getElem?_eq_getElem hlt]
  exact List.getElem_mem hlt

theorem nullValues_eq (h : b.Sound) (hmarked : b.Marked) :
    b.nullValues = b.sampleColumns.map SampleColumn.marker? := by
  have hmarker {place : Nat} (hplace : place ∈ b.places) :
      b.metadata.nullValues.get? (b.columnName place) = some (b.storedColumn place).marker := by
    obtain ⟨marker, hget⟩ := hmarked _ (columnName_mem h hplace)
    rw [storedColumn, hget]
    rfl
  have hplaces : b.places.map (fun place => b.metadata.nullValues.get? (b.columnName place)) =
      b.places.map fun place => some (b.storedColumn place).marker :=
    List.map_congr_left fun place hplace => hmarker hplace
  rw [nullValues, hplaces]
  simp only [sampleColumns, places, List.map_append, List.map_map]
  rfl

theorem covers (h : b.Sound) {row? : Option Nat} (hrow : ∀ row ∈ row?, row < b.table.size) :
    ∀ c ∈ b.sampleColumns, c.Covers row? := by
  have hstored {place : Nat} (hplace : place ∈ b.places) :
      ∀ row ∈ row?, row < (b.storedColumn place).numbers.length := by
    intro row hmem
    have hlt : place < b.table.data.length := by
      rw [h.rectangular.width]
      exact h.places_lt place hplace
    rw [storedColumn, List.getD_eq_getElem?_getD, List.getElem?_eq_getElem hlt, Option.getD_some,
      h.rectangular.length _ (List.getElem_mem hlt)]
    exact hrow row hmem
  intro c hc row hmem s hs
  unfold sampleColumns at hc
  rcases List.mem_append.mp hc with hc | hc
  · rcases List.mem_append.mp hc with hc | hc
    · obtain ⟨place, hplace, rfl⟩ := List.mem_map.mp hc
      cases hs
      exact hstored (List.mem_append_left _ hplace) row hmem
    · obtain ⟨m, hm, rfl⟩ := List.mem_map.mp hc
      cases hs
      exact hstored (List.mem_append_right _ (List.mem_map_of_mem hm)) row hmem
  · obtain ⟨indicator, -, rfl⟩ := List.mem_map.mp hc
    cases hs

variable {g : Schema N} {t : Table N} {p : PreparedTable N} {joined : Bool}

theorem storedColumns_eq (htable : b.table = p.table) (hmetadata : b.metadata = p.metadata)
    (hwidth : b.table.data.length = b.table.columns.length) (hmarked : b.Marked) :
    p.storedColumns = (List.range b.table.columns.length).map b.storedColumn := by
  have hzip : b.table.columns.zip b.table.data = (List.range b.table.columns.length).map fun place =>
      (b.columnName place, b.table.data.getD place []) := by
    refine List.ext_getElem (by simp [hwidth]) fun place _ hlt => ?_
    rw [List.length_map, List.length_range] at hlt
    simp [columnName, List.getElem?_eq_getElem hlt, List.getElem?_eq_getElem (hwidth ▸ hlt)]
  rw [PreparedTable.storedColumns, ← htable, ← hmetadata, hzip, List.filterMap_map,
    ← List.filterMap_eq_map]
  refine List.filterMap_congr fun place hplace => ?_
  have hlt := List.mem_range.mp hplace
  have hname : b.columnName place ∈ b.table.columns := by
    rw [columnName, List.getD_eq_getElem?_getD, List.getElem?_eq_getElem hlt]
    exact List.getElem_mem hlt
  obtain ⟨marker, hget⟩ := hmarked _ hname
  simp [storedColumn, hget]

theorem sampleColumns_eq (h : ofTable g t p.table p.metadata joined = .ok b)
    (hwidth : b.table.data.length = b.table.columns.length) (hmarked : b.Marked)
    {rs : List Relationship} (hrs : g.incoming t.name = .ok rs) :
    t.sampleColumns p rs joined = b.sampleColumns := by
  obtain ⟨-, htable, hmetadata, -, -, ⟨rs', hrs', hmultipliers⟩, hindicator⟩ := ofTable_eq_ok h
  cases hrs.symm.trans hrs'
  have hkept : (p.storedColumns.filter fun c =>
      !(t.irrelevant.map (qualify t.name)).contains c.name) = b.kept.map b.storedColumn := by
    rw [storedColumns_eq htable hmetadata hwidth hmarked, List.filter_map, kept_eq h]
    rfl
  have hdefined (r : Relationship) :
      (((b.kept.map b.storedColumn).find? (·.name == r.multiplier.qualified)).map
        (SampleColumn.defined r.definedMultiplier.qualified)) =
      ((p.table.columnIndex? r.multiplier.qualified).bind fun place =>
        if b.kept.contains place then some (place, r.definedMultiplier.qualified) else none).map
          fun m => .defined m.2 (b.storedColumn m.1) := by
    have hfind : b.kept.find? ((·.name == r.multiplier.qualified) ∘ b.storedColumn) = _ :=
      find?_kept h r.multiplier.qualified
    rw [List.find?_map, hfind, htable]
    cases p.table.columnIndex? r.multiplier.qualified with
    | none => rfl
    | some place => cases b.kept.contains place <;> simp
  unfold Table.sampleColumns sampleColumns
  dsimp only
  rw [hkept, hmultipliers, List.map_filterMap, hindicator, List.map_map]
  simp only [hdefined]
  congr 1
  cases joined <;> rfl

end TableBlock

/-- What the tables show is listed in one order: in the names of the columns, in their null markers and
in the cells of every row, which are those of a row of each table or of none. -/
structure JoinSample.Aligned [Scalar N] (w : JoinSample N) (layout : List (List (SampleColumn N))) :
    Prop where
  columns : w.columns = layout.flatten.map SampleColumn.name
  nullValues : w.nullValues = layout.flatten.map SampleColumn.marker?
  rows : w.rows = w.rowKeys.map fun keys =>
    (layout.zipWith (fun columns row? => columns.map (SampleColumn.cell row?)) keys).flatten
  keys : ∀ keys ∈ w.rowKeys, List.Forall₂ (fun columns row? => ∀ c ∈ columns, c.Covers row?) layout keys

namespace JoinSample.Aligned

variable [Scalar N] {w : JoinSample N} {layout : List (List (SampleColumn N))}

theorem length_nullValues (h : w.Aligned layout) : w.nullValues.length = w.columns.length := by
  rw [h.nullValues, h.columns, List.length_map, List.length_map]

theorem length_row (h : w.Aligned layout) : ∀ row ∈ w.rows, row.length = w.columns.length := by
  intro row hrow
  rw [h.rows] at hrow
  obtain ⟨keys, hkeys, rfl⟩ := List.mem_map.mp hrow
  rw [h.columns, List.length_map]
  have hlength := (h.keys keys hkeys).length_eq
  clear h hkeys hrow
  induction layout generalizing keys with
  | nil => rfl
  | cons columns layout ih =>
    cases keys with
    | nil => cases hlength
    | cons row? keys => simp [ih keys (Nat.succ.inj hlength)]

/-- Blocks that the rows are taken from show their columns. -/
theorem of_blocks {bs : List (TableBlock N)} {names : List String} (hsound : ∀ b ∈ bs, b.Sound)
    (hmarked : ∀ b ∈ bs, b.Marked) (hlength : bs.length = names.length)
    (hholds : ∀ t ∈ w.rowKeys, Expansion.Holds bs names t)
    (hrows : w.rows = w.rowKeys.map (Expansion.cellsOf bs))
    (hcolumns : w.columns = bs.flatMap (·.columns))
    (hnull : w.nullValues = bs.flatMap (·.nullValues)) :
    w.Aligned (bs.map TableBlock.sampleColumns) where
  columns := by
    rw [hcolumns, List.flatMap_def, List.map_flatten, List.map_map]
    exact congrArg List.flatten (List.map_congr_left fun b _ => b.columns_eq)
  nullValues := by
    rw [hnull, List.flatMap_def, List.map_flatten, List.map_map]
    exact congrArg List.flatten
      (List.map_congr_left fun b hb => TableBlock.nullValues_eq (hsound b hb) (hmarked b hb))
  rows := by
    rw [hrows]
    refine List.map_congr_left fun t _ => ?_
    rw [Expansion.cellsOf, List.zipWith_map_left, List.zip_eq_zipWith, List.map_zipWith]
    simp only [TableBlock.cellList_eq]
  keys := by
    intro t ht
    have hholds := hholds t ht
    refine List.forall₂_map_left_iff.mpr (List.forall₂_iff_zip.mpr ⟨?_, fun {b row?} hmem => ?_⟩)
    · rw [hlength, hholds.length]
    · obtain ⟨place, hplace⟩ := List.getElem?_of_mem hmem
      obtain ⟨hb, hrow⟩ := List.getElem?_zip_eq_some.mp hplace
      refine TableBlock.covers (hsound b (List.mem_of_getElem? hb)) fun row hmem => ?_
      obtain ⟨c, hc, hlt⟩ := hholds.fits place row (hmem ▸ hrow)
      cases hb.symm.trans hc
      exact hlt

end JoinSample.Aligned

namespace Sampler

open Expansion

variable [Scalar N] {s : Sampler N} {source : RawSource N} {config : PreparationConfig N}
  {p : SamplePlan N} {bs : List (TableBlock N)} {w : JoinSample N}

/-- The columns are what the prepared table of the name shows, and nothing stored is missing. -/
def LaysOut (s : Sampler N) (source : RawSource N) (config : PreparationConfig N) (joined : Bool)
    (name : String) (columns : List (SampleColumn N)) : Prop :=
  ∃ t q rs, s.schema.table name = .ok t ∧ s.schema.prepare source config name = .ok q ∧
    s.schema.incoming name = .ok rs ∧
    q.storedColumns.map StoredColumn.name = q.table.columns ∧
    q.storedColumns.map StoredColumn.numbers = q.table.data ∧
    columns = t.sampleColumns q rs joined

theorem BlockOf.marked {g : Schema N} {joined : Bool} {name : String} {b : TableBlock N}
    (h : BlockOf g source config joined name b) : b.Marked := by
  obtain ⟨p, t, hp, -, hb⟩ := h.prepared
  obtain ⟨prep⟩ := Schema.prepare_eq_ok hp
  obtain ⟨-, htable, hmetadata, -⟩ := TableBlock.ofTable_eq_ok hb
  intro c hc
  rw [htable] at hc
  rw [hmetadata]
  exact SortedMap.mem_keys.mp (prep.mem_nullValues.mpr hc)

theorem BlockOf.laysOut [NumericScalar N] {joined : Bool} {name : String} {b : TableBlock N}
    (h : BlockOf s.schema source config joined name b) :
    s.LaysOut source config joined name b.sampleColumns := by
  obtain ⟨q, t, hq, ht, hb⟩ := h.prepared
  obtain ⟨-, htable, hmetadata, -, -, ⟨rs, hrs, -⟩, -⟩ := TableBlock.ofTable_eq_ok hb
  have hwidth := h.isPrepared.sound.2.rectangular.width
  have hstored := TableBlock.storedColumns_eq htable hmetadata hwidth h.marked
  refine ⟨t, q, rs, ht, hq, Schema.name_of_table ht ▸ hrs, ?_, ?_,
    (TableBlock.sampleColumns_eq hb hwidth h.marked hrs).symm⟩
  · rw [hstored, List.map_map, ← htable]
    refine List.ext_getElem (by simp) fun place _ hlt => ?_
    simp [TableBlock.storedColumn, TableBlock.columnName, List.getElem?_eq_getElem hlt]
  · rw [hstored, List.map_map, ← htable]
    refine List.ext_getElem (by simp [hwidth]) fun place _ hlt => ?_
    simp [TableBlock.storedColumn, List.getElem?_eq_getElem hlt]

theorem collected {ts : List JoinTuple} (h : collect p bs ts = .ok w) :
    w.tables = bs.map (·.name) ∧ w.columns = bs.flatMap (·.columns) ∧
      w.nullValues = bs.flatMap (·.nullValues) := by
  obtain ⟨rows, -, h⟩ := bind_eq_ok.mp h
  cases pure_eq_ok.mp h
  exact ⟨rfl, rfl, rfl⟩

variable [NumericScalar N] {G : Type} [Generator G]

/-- The rows of an expansion are the cells of tuples of stored rows. -/
theorem Prepared.rows_of_expand (h : s.Prepared p bs) {start : List Nat} (hstart : start.Nodup)
    (hlt : ∀ row ∈ start, row < p.storedRows) {size : Nat} {gen gen' : G}
    (hexpand : s.expand p bs start size gen = .ok (w, gen')) :
    (∀ t ∈ w.rowKeys, Holds bs p.path.tables t) ∧ w.rows = w.rowKeys.map (cellsOf bs) ∧
      w.tables = p.path.tables ∧ w.columns = bs.flatMap (·.columns) ∧
      w.nullValues = bs.flatMap (·.nullValues) := by
  obtain ⟨table, ids, hpath⟩ := h.path
  obtain ⟨hnames, hsound⟩ := TableBlock.names_of_prepared h.blocks
  obtain ⟨hrun, hholds, -, -⟩ := run_of_path hpath hnames hsound hstart (h.valid hlt)
    (h.keysStored hlt hexpand)
  obtain ⟨all, hall, hexpand⟩ := bind_eq_ok.mp hexpand
  cases hrun.symm.trans hall
  obtain ⟨w', hcollect, heq⟩ := bind_eq_ok.mp hexpand
  cases congrArg Prod.fst (pure_eq_ok.mp heq)
  obtain ⟨hsub, -⟩ := thin_sublist size (complete s.schema p.path bs start) gen
  have hkept : ∀ t ∈ (thin size (complete s.schema p.path bs start) gen).1,
      Holds bs p.path.tables t := fun t ht => hholds t (hsub.subset ht)
  obtain ⟨w, hcollect', hkeys, hcolumns, hrows⟩ := collect_eq_ok hsound fun t ht => (hkept t ht).fits
  cases hcollect.symm.trans hcollect'
  obtain ⟨htables, -, hnull⟩ := collected hcollect
  exact ⟨hkeys ▸ hkept, hkeys ▸ hrows, htables.trans hnames, hcolumns, hnull⟩

section

variable {cache : TableCache N} {request : SampleRequest N} {gen : G}
  (hs : s.Serves source config) (hcache : s.Caches cache)
  (h : (s.sample request gen cache).1 = .ok w)
include hs hcache h

/-- A sample lists what the blocks of its tables show. -/
theorem aligned_of_sample : ∃ p bs, s.plan request.target = .ok p ∧ w.tables = p.path.tables ∧
    List.Forall₂ (BlockOf s.schema source config (!p.path.steps.isEmpty)) p.path.tables bs ∧
    w.Aligned (bs.map TableBlock.sampleColumns) := by
  obtain ⟨p, bs, gen', hplan, hblocks, hexpand⟩ := sample_eq_ok.mp h
  have hof := blocks_spec hs hcache hblocks
  obtain ⟨hnodup, hlt⟩ := drawStart_valid s p.storedRows (s.rateOf p request) gen
  obtain ⟨hholds, hrows, htables, hcolumns, hnull⟩ :=
    (prepared_of_plan hs hcache hplan hblocks).rows_of_expand hnodup hlt hexpand
  have hsound := (TableBlock.names_of_prepared (hof.imp fun _ _ hb => hb.isPrepared)).2
  have hmarked : ∀ b ∈ bs, b.Marked :=
    ((List.forall₂_and_left _ _).mp
      (List.Forall₂.flip (hof.imp fun _ _ hb => ⟨hb.marked, hb.isPrepared⟩))).1
  exact ⟨p, bs, hplan, htables, hof,
    .of_blocks hsound hmarked hof.length_eq.symm hholds hrows hcolumns hnull⟩

/-- What the tables of a sample show depends on the plan and the store. Every row lists it under the
names of the columns and their null markers. -/
theorem sample_aligned : ∃ p layout, s.plan request.target = .ok p ∧ w.tables = p.path.tables ∧
    List.Forall₂ (s.LaysOut source config (!p.path.steps.isEmpty)) p.path.tables layout ∧
    w.Aligned layout ∧ w.nullValues.length = w.columns.length ∧
    ∀ row ∈ w.rows, row.length = w.columns.length := by
  obtain ⟨p, bs, hplan, htables, hof, haligned⟩ := aligned_of_sample hs hcache h
  have hlayout : List.Forall₂ (s.LaysOut source config (!p.path.steps.isEmpty)) p.path.tables
      (bs.map TableBlock.sampleColumns) :=
    List.forall₂_map_right_iff.mpr (hof.imp fun _ _ hb => hb.laysOut)
  exact ⟨p, _, hplan, htables, hlayout, haligned, haligned.length_nullValues, haligned.length_row⟩

end

end Sampler

namespace Shop

def sampleColumns : List String := ["customers.id", "customers.mul_orders.customer",
  "customers.mul_visits.customer", "customers.mul_orders.customer_nn",
  "customers.mul_visits.customer_nn", "customers.customers_is_null", "orders.id", "orders.customer",
  "orders.mul_items.order", "orders.mul_items.order_nn", "orders.orders_is_null", "items.id",
  "items.order", "items.items_is_null", "visits.id", "visits.customer", "visits.visits_is_null"]

def sampleNullValues : List (Option ℚ) := [some 1.5001, some 0.5001, some 0.5001, some 0.5001,
  some 0.5001, none, some 10.0001, some 1.0001, some 2.0001, some 2.0001, none, some 5.5001,
  some 10.0001, none, some 7.0001, some 1.0001, none]

/-- The second customer has no order and no visit: the multipliers are zero, the defined ones are one,
and the cells of the other tables are their null markers. -/
def sampleRows : List (List ℚ) := [
  [1, 1, 1, 1, 1, 0, 10, 1, 2, 2, 0, 5, 10, 0, 7, 1, 0],
  [1, 1, 1, 1, 1, 0, 10, 1, 2, 2, 0, 6, 10, 0, 7, 1, 0],
  [2, 0, 0, 1, 1, 0, 10.0001, 1.0001, 2.0001, 2.0001, 1, 5.5001, 10.0001, 1, 7.0001, 1.0001, 1]]

theorem exists_sample : ∃ w,
    (sampler.sample ⟨.relationships relationships, 3, none⟩ (ChaCha.ofSeed 0) sampler.freshCache).1 =
      .ok w ∧
    w.columns = sampleColumns ∧ w.nullValues = sampleNullValues ∧ w.rowKeys = tuples ∧
      w.rows = sampleRows :=
  exists_eq_ok_of_any (by decide +kernel)

/-- Customers, orders, items and visits side by side in three rows. -/
theorem sample_aligned_three_rows : ∃ w layout,
    (sampler.sample ⟨.relationships relationships, 3, none⟩ (ChaCha.ofSeed 0) sampler.freshCache).1 =
      .ok w ∧
    w.tables = ["customers", "orders", "items", "visits"] ∧
    List.Forall₂ (sampler.LaysOut source .standard true) w.tables layout ∧ w.Aligned layout ∧
    w.nullValues.length = w.columns.length ∧ (∀ row ∈ w.rows, row.length = w.columns.length) ∧
    w.columns = sampleColumns ∧ w.nullValues = sampleNullValues ∧ w.rowKeys = tuples ∧
    w.rows = sampleRows := by
  obtain ⟨w, h, hsample⟩ := exists_sample
  obtain ⟨p, layout, hplan, htables, hlayout, haligned, hnull, hrows⟩ := Sampler.sample_aligned
    (Sampler.ofPrepared_serves schema source .standard .standard) (Sampler.caches_freshCache sampler) h
  obtain ⟨p', hplan', hpath⟩ := plan_path
  cases hplan.symm.trans hplan'
  rw [← htables, hpath] at hlayout
  rw [hpath] at htables
  exact ⟨w, layout, h, htables, hlayout, haligned, hnull, hrows, hsample⟩

end Shop

end ApproxQuery

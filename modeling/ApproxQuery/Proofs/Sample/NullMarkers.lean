import ApproxQuery.Proofs.Number.Counts
import ApproxQuery.Proofs.Sample.Alignment

/-!
# Null markers in samples

The null marker of a stored column is the number of null and of no other value. A defined multiplier
shares the marker of its multiplier, but shows one where this is zero. So a marker that is one stands
for no reference there, although a multiplier is never null.
-/

namespace ApproxQuery

namespace EncodedColumn

section

variable {N : Type} [Scalar N]

/-- The number that stands for null. -/
def marker? : EncodedColumn N → Option N
  | dropped => none
  | categorical _ _ => some 0
  | numeric s _ => some s

theorem isSome_numbers?_of_marker? {e : EncodedColumn N} {x : N} (h : e.marker? = some x) :
    e.numbers?.isSome = true := by
  cases e with
  | dropped => cases h
  | categorical d codes => rfl
  | numeric s numbers => rfl

/-- Every null marker is that of a stored column. -/
theorem exists_of_get?_addEach {p : PreparedTable N} {es : List (Column N × EncodedColumn N)}
    {name : String} {x : N} (h : (addEach p es).metadata.nullValues.get? name = some x) :
    p.metadata.nullValues.get? name = some x ∨
      ∃ e ∈ es, e.1.name = name ∧ e.2.marker? = some x := by
  induction es generalizing p with
  | nil => exact .inl h
  | cons first es ih =>
    rcases ih (p := first.2.addTo p first.1.name) h with hget | ⟨e, he, hmarked⟩
    · by_cases hname : first.2.numbers?.isSome = true ∧ name = first.1.name
      · obtain ⟨hstored, rfl⟩ := hname
        refine .inr ⟨first, List.mem_cons_self, rfl, ?_⟩
        cases hcolumn : first.2 with
        | dropped =>
          rw [hcolumn] at hstored
          cases hstored
        | categorical d codes =>
          rw [hcolumn] at hget
          exact SortedMap.get?_insert_self.symm.trans hget
        | numeric s numbers =>
          rw [hcolumn] at hget
          exact SortedMap.get?_insert_self.symm.trans hget
      · rw [(get?_addTo_of_ne fun hstored heq => hname ⟨hstored, heq⟩).2] at hget
        exact .inl hget
    · exact .inr ⟨e, List.mem_cons_of_mem _ he, hmarked⟩

end

variable {table : String} {config : PreparationConfig Float} {c : Column Float}
  {e : EncodedColumn Float} {numbers : List Float} {x : Float}

theorem isNaN_marker (h : ofColumn table config c = .ok e) (hx : e.marker? = some x) :
    Scalar.isNaN x = false := by
  cases encodedBy_of_ofColumn h with
  | dropped unfit => cases hx
  | categorical fit text =>
    cases hx
    exact NumericScalar.isNaN_ofInt 0
  | numeric fit text finite chosen =>
    cases hx
    exact NumericScalar.isNaN_of_isFinite _ (Sentinel.isFinite_of_choose chosen)

/-- The numbers of nulls are the null marker, and no other number is equal to it. -/
theorem eq_marker_of_ofColumn (hunique : config.maxUnique < 2 ^ 64)
    (h : ofColumn table config c = .ok e) (hn : e.numbers? = some numbers) (hx : e.marker? = some x) :
    List.Forall₂ (fun number v => Scalar.eq number x = v.isNull) numbers c.values := by
  cases encodedBy_of_ofColumn h with
  | dropped unfit => cases hn
  | categorical fit text =>
    cases hn
    cases hx
    rw [List.forall₂_map_left_iff]
    refine List.forall₂_same.mpr fun v hv => ?_
    cases hnull : v.isNull with
    | true =>
      rw [Dictionary.code?, if_pos hnull]
      exact LawfulScalar.eq_self _ (isNaN_marker h rfl)
    | false =>
      have hpresent : v ∈ c.present := List.mem_filter.mpr ⟨hv, by simp [hnull]⟩
      obtain ⟨i, hlt, hcode, -⟩ := Dictionary.exists_code? hnull (Value.exists_mem_distinct hpresent)
      have hfew := Column.length_distinct_le fit text
      rw [hcode]
      exact Binary64.eq_zero_ofNat (Nat.succ_pos i) (by omega)
  | numeric fit text finite chosen =>
    cases hn
    cases hx
    rw [List.forall₂_map_left_iff]
    refine List.forall₂_same.mpr fun v hv => ?_
    have hnumber {y : Float} (hy : v.toScalar? = some y) : Scalar.eq y x = false :=
      Sentinel.eq_false_of_choose chosen y (List.mem_filterMap.mpr ⟨v, hv, hy⟩)
    cases v with
    | null => exact LawfulScalar.eq_self _ (isNaN_marker h rfl)
    | int i => exact hnumber rfl
    | num y => exact hnumber rfl
    | text t =>
      have htext : c.hasText = true := List.any_eq_true.mpr ⟨_, hv, rfl⟩
      rw [text] at htext
      cases htext

end EncodedColumn

/-- What a stored column is made of: the values at a place of the raw table, or the numbers of a
multiplier. -/
inductive Schema.ValuesBehind {N : Type} (g : Schema N) (name : String) (raw : RawTable N)
    (column : String) : List (Value N) → Prop where
  | raw {place : Nat} {a : String} (named : raw.columns[place]? = some a)
      (column_eq : column = qualify name a) : ValuesBehind g name raw column (raw.valuesAt place)
  | multiplier {rs : List Relationship} {r : Relationship} (counts : List N)
      (incoming : g.incoming name = .ok rs) (mem : r ∈ rs)
      (column_eq : column = r.multiplier.qualified) :
      ValuesBehind g name raw column (counts.map .num)

/-- The raw value of a stored row. -/
def PreparationConfig.keptValue? {N : Type} (config : PreparationConfig N) (raw : RawTable N)
    (values : List (Value N)) (row : Nat) : Option (Value N) :=
  (config.keptRows raw.size)[row]?.bind (values[·]?)

/-- Which cells are equal to the null marker of their column: those of no row; of a stored column also
those of null; and of a defined multiplier, if its marker is one, those of rows without reference. -/
def SampleColumn.MarksNull (g : Schema Float) (config : PreparationConfig Float) (name : String)
    (raw : RawTable Float) : SampleColumn Float → Prop
  | stored c => ∃ values, g.ValuesBehind name raw c.name values ∧
      ∀ row?, (stored c).Covers row? → (Scalar.eq ((stored c).cell row?) c.marker = true ↔
        row? = none ∨ ∃ row v, row? = some row ∧ config.keptValue? raw values row = some v ∧
          v.isNull = true)
  | defined column c => ∃ rs r, g.incoming name = .ok rs ∧ r ∈ rs ∧
      column = r.definedMultiplier.qualified ∧ c.name = r.multiplier.qualified ∧
      ∀ row?, (defined column c).Covers row? → (Scalar.eq ((defined column c).cell row?) c.marker = true ↔
        row? = none ∨ ∃ row, row? = some row ∧ Scalar.eq (c.numbers.getD row 0) 0 = true ∧
          Scalar.eq 1 c.marker = true)
  | indicator _ => True

theorem SampleColumn.eq_one_for_zero {N : Type} [Scalar N] {x marker : N}
    (h : Scalar.eq x marker = false) : Scalar.eq (if Scalar.eq x 0 then 1 else x) marker = true ↔
      Scalar.eq x 0 = true ∧ Scalar.eq 1 marker = true := by
  cases hzero : Scalar.eq x 0 with
  | true => simp
  | false => simp [h]

theorem PreparedTable.name_mem_columns {N : Type} [Scalar N] {p : PreparedTable N} {c : StoredColumn N}
    (hc : c ∈ p.storedColumns) : c.name ∈ p.table.columns := by
  obtain ⟨⟨column, numbers⟩, hmem, hmarker⟩ := List.mem_filterMap.mp hc
  obtain ⟨marker, -, rfl⟩ := Option.map_eq_some_iff.mp hmarker
  exact (List.of_mem_zip hmem).1

namespace Preparation

variable {g : Schema Float} {source : RawSource Float} {config : PreparationConfig Float}
  {name : String} {p : PreparedTable Float} {c : StoredColumn Float}

theorem valuesBehind (h : Preparation g source config name p) {e : Column Float × EncodedColumn Float}
    (he : e ∈ h.encoded) : g.ValuesBehind name h.raw e.1.name e.1.values := by
  rcases List.mem_append.mp (h.mem_frame he) with hremaining | hmultiplier
  · have hwhole := (Frame.sublist_erase _ _).subset hremaining
    obtain ⟨place, a, hplace, -, hcolumn⟩ := Frame.exists_place_of_mem_ofRaw h.whole_eq hwhole
    rw [hcolumn, Schema.name_of_table h.known]
    exact .raw hplace rfl
  · obtain ⟨m, hm, hcolumn⟩ := List.mem_map.mp hmultiplier
    have hr : m.relationship ∈ h.rs := by
      rw [← h.adds.relationships]
      exact List.mem_map_of_mem hm
    rw [← hcolumn]
    exact .multiplier m.counts h.incoming hr rfl

variable (h : Preparation g source config name p) (hnodup : p.table.columns.Nodup)
  (hunique : config.maxUnique < 2 ^ 64) (hc : c ∈ p.storedColumns)
include hnodup hc

theorem exists_encoded : ∃ e ∈ h.encoded, e.1.name = c.name ∧ e.2.marker? = some c.marker ∧
    ∃ all, e.2.numbers? = some all ∧ c.numbers = h.rows.filterMap (all[·]?) := by
  obtain ⟨⟨column, numbers⟩, hmem, hmarker⟩ := List.mem_filterMap.mp hc
  obtain ⟨marker, hget, rfl⟩ := Option.map_eq_some_iff.mp hmarker
  obtain ⟨place, hplace⟩ := List.getElem?_of_mem hmem
  obtain ⟨hcolumn, hdata⟩ := List.getElem?_zip_eq_some.mp hplace
  have hfound : p.table.column? column = some numbers := by
    rw [EncodedTable.column?, EncodedTable.columnIndex?, findIdx?_of_nodup hnodup hcolumn]
    exact hdata
  obtain ⟨e, he, hname, all, hall, hnumbers⟩ := h.exists_of_column? hfound
  rw [(h.metadata_get? column).2] at hget
  rcases EncodedColumn.exists_of_get?_addEach hget with hblank | ⟨e', he', hname', hmarker⟩
  · rw [h.blank_eq] at hblank
    cases hblank
  · have hsame : e' = e := h.eq_of_name hnodup he (by rw [hall]; rfl) he'
      (EncodedColumn.isSome_numbers?_of_marker? hmarker) (hname'.trans hname.symm)
    exact ⟨e, he, hname, hsame ▸ hmarker, all, hall, hnumbers⟩

include hunique

/-- A stored number is the null marker exactly if the value of its row is null. -/
theorem exists_values : ∃ e ∈ h.encoded, e.1.name = c.name ∧ e.2.numbers?.isSome = true ∧
    Scalar.isNaN c.marker = false ∧ ∀ row < c.numbers.length, ∃ v ∈ e.1.values,
      config.keptValue? h.raw e.1.values row = some v ∧
        Scalar.eq (c.numbers.getD row 0) c.marker = v.isNull := by
  obtain ⟨e, he, hname, hmarker, all, hall, hnumbers⟩ := h.exists_encoded hnodup hc
  have hencoded := h.encodes.2 e he
  refine ⟨e, he, hname, by rw [hall]; rfl, EncodedColumn.isNaN_marker hencoded hmarker,
    fun row hrow => ?_⟩
  have hdata : h.untruncated.table.data ≠ [] := by
    rw [untruncated, EncodedColumn.data_addEach, List.nil_append]
    exact List.ne_nil_of_mem (List.mem_filterMap.mpr ⟨e, he, hall⟩)
  have hrows : List.Forall₂ (fun i number => ∃ v, e.1.values[i]? = some v ∧
      Scalar.eq number c.marker = v.isNull) h.rows c.numbers := by
    rw [hnumbers]
    refine forall₂_filterMap_getElem?
      (EncodedColumn.eq_marker_of_ofColumn hunique hencoded hall hmarker) ?_
    rw [h.hasLength_frame _ (h.mem_frame he)]
    exact h.chosenRows.lt
  have hlt : row < h.rows.length := hrows.length_eq ▸ hrow
  obtain ⟨v, hv, heq⟩ := hrows.get hlt hrow
  refine ⟨v, List.mem_of_getElem? hv, ?_, ?_⟩
  · rw [PreparationConfig.keptValue?, ← h.rows_eq hdata, List.getElem?_eq_getElem hlt]
    exact hv
  · rw [List.getD_eq_getElem?_getD, List.getElem?_eq_getElem hrow]
    exact heq

theorem marksNull_stored : (SampleColumn.stored c).MarksNull g config name h.raw := by
  obtain ⟨e, he, hname, -, hnumber, hvalues⟩ := h.exists_values hnodup hunique hc
  refine ⟨e.1.values, hname ▸ h.valuesBehind he, fun row? hcovers => ?_⟩
  cases row? with
  | none => exact iff_of_true (LawfulScalar.eq_self _ hnumber) (.inl rfl)
  | some row =>
    obtain ⟨v, -, hkept, heq⟩ := hvalues row (hcovers row rfl c rfl)
    change Scalar.eq (c.numbers.getD row 0) c.marker = true ↔ _
    rw [heq]
    constructor
    · exact fun hnull => .inr ⟨row, v, rfl, hkept, hnull⟩
    · rintro (hnone | ⟨row', v', hrow, hkept', hnull⟩)
      · cases hnone
      · cases hrow
        cases hkept.symm.trans hkept'
        exact hnull

/-- A multiplier is never null. -/
theorem marksNull_defined {r : Relationship} (hr : r ∈ h.rs) (hname : c.name = r.multiplier.qualified) :
    (SampleColumn.defined r.definedMultiplier.qualified c).MarksNull g config name h.raw := by
  obtain ⟨e, he, hename, hstored, hnumber, hvalues⟩ := h.exists_values hnodup hunique hc
  obtain ⟨m, hm, rfl⟩ : ∃ m ∈ h.multipliers, m.relationship = r := by
    rw [← h.adds.relationships] at hr
    exact List.mem_map.mp hr
  obtain ⟨e', he', hmultiplier, hn⟩ := h.exists_stored hm
    (h.size_ne_zero_of_mem_columns (PreparedTable.name_mem_columns hc))
  have hsame : e' = e := by
    refine h.eq_of_name hnodup he hstored he' (by rw [hn]; rfl) ?_
    rw [hmultiplier, hename, hname]
    rfl
  have hnever : ∀ v ∈ e.1.values, v.isNull = false := by
    intro v hv
    rw [← hsame, hmultiplier] at hv
    obtain ⟨x, -, rfl⟩ := List.mem_map.mp hv
    rfl
  refine ⟨h.rs, m.relationship, h.incoming, hr, rfl, hname, fun row? hcovers => ?_⟩
  cases row? with
  | none => exact iff_of_true (LawfulScalar.eq_self _ hnumber) (.inl rfl)
  | some row =>
    obtain ⟨v, hv, -, heq⟩ := hvalues row (hcovers row rfl c rfl)
    rw [hnever v hv] at heq
    refine (SampleColumn.eq_one_for_zero heq).trans ⟨fun hone => .inr ⟨row, rfl, hone⟩, ?_⟩
    rintro (hnone | ⟨row', hrow, hone⟩)
    · cases hnone
    · cases hrow
      exact hone

end Preparation

namespace Sampler

variable {s : Sampler Float} {source : RawSource Float} {config : PreparationConfig Float}

/-- The columns of a table mark nulls, if the names of its stored columns are different. -/
def MarksNulls (s : Sampler Float) (source : RawSource Float) (config : PreparationConfig Float)
    (name : String) (columns : List (SampleColumn Float)) : Prop :=
  ∀ q raw, s.schema.prepare source config name = .ok q → source name = .ok raw →
    q.table.columns.Nodup → ∀ c ∈ columns, c.MarksNull s.schema config name raw

theorem LaysOut.marksNulls {joined : Bool} {name : String} {columns : List (SampleColumn Float)}
    (h : s.LaysOut source config joined name columns) (hunique : config.maxUnique < 2 ^ 64) :
    s.MarksNulls source config name columns := by
  obtain ⟨t, q, rs, -, hq, hrs, -, -, rfl⟩ := h
  intro q' raw hq' hraw hnodup c hc
  cases hq.symm.trans hq'
  obtain ⟨prep⟩ := Schema.prepare_eq_ok hq
  cases hraw.symm.trans prep.source_eq
  cases hrs.symm.trans prep.incoming
  rcases List.mem_append.mp hc with hc | hc
  · rcases List.mem_append.mp hc with hc | hc
    · obtain ⟨stored, hstored, rfl⟩ := List.mem_map.mp hc
      exact prep.marksNull_stored hnodup hunique (List.mem_filter.mp hstored).1
    · obtain ⟨r, hr, hc⟩ := List.mem_filterMap.mp hc
      obtain ⟨stored, hfind, rfl⟩ := Option.map_eq_some_iff.mp hc
      have hstored := (List.mem_filter.mp (List.mem_of_find?_eq_some hfind)).1
      have hname := List.find?_some hfind
      exact prep.marksNull_defined hnodup hunique hstored hr (beq_iff_eq.mp hname)
  · split at hc
    · cases List.mem_singleton.mp hc
      trivial
    · cases hc

/-- In a sample a cell is the null marker of its column exactly if there is no row or the raw value is
null, except that a defined multiplier is one where there is no reference, which can be its marker. -/
theorem sample_marks_nulls {cache : TableCache Float} {request : SampleRequest Float} {G : Type}
    [Generator G] {gen : G} {w : JoinSample Float} (hs : s.Serves source config)
    (hcache : s.Caches cache) (hunique : config.maxUnique < 2 ^ 64)
    (h : (s.sample request gen cache).1 = .ok w) :
    ∃ p layout, s.plan request.target = .ok p ∧ w.tables = p.path.tables ∧ w.Aligned layout ∧
      List.Forall₂ (s.LaysOut source config (!p.path.steps.isEmpty)) p.path.tables layout ∧
      List.Forall₂ (s.MarksNulls source config) p.path.tables layout := by
  obtain ⟨p, bs, hplan, htables, hof, haligned⟩ := aligned_of_sample hs hcache h
  refine ⟨p, _, hplan, htables, haligned, ?_, ?_⟩
  · exact List.forall₂_map_right_iff.mpr (hof.imp fun _ _ hb => hb.laysOut)
  · exact List.forall₂_map_right_iff.mpr (hof.imp fun _ _ hb => hb.laysOut.marksNulls hunique)

end Sampler

namespace Newcomer

def orders : Relationship := .between "orders" "customer" "customers" "id" none

def schema : Schema Float where
  tables := [
    { Table.named "customers" with incoming := [orders.identifier] },
    { Table.named "orders" with outgoing := [orders.identifier] }]
  relationships := [orders]

def customers : RawTable Float := ⟨["id"], [[.int 1]]⟩

/-- The only customer has no order. -/
def source : RawSource Float := .ofTables [("customers", customers), ("orders", ⟨["id", "customer"], []⟩)]

def config : PreparationConfig Float := { (.standard : PreparationConfig Float) with nullEpsilon := 1 }

def sampler : Sampler Float := .ofPrepared schema source config .standard

def request : SampleRequest Float := ⟨.table "customers", 1, none⟩

theorem exists_prepared :
    ∃ q, schema.prepare source config "customers" = .ok q ∧ q.table.columns.Nodup :=
  exists_eq_ok_of_any (by decide +kernel)

theorem exists_sample : ∃ w, (sampler.sample request (ChaCha.ofSeed 0) sampler.freshCache).1 = .ok w ∧
    w.tables = ["customers"] ∧ w.columns = ["customers.id", "customers.mul_orders.customer",
      "customers.mul_orders.customer_nn"] ∧
    w.nullValues = [some 2, some 1, some 1] ∧ w.rows = [[1, 0, 1]] ∧ w.rowKeys = [[some 0]] :=
  exists_eq_ok_of_any (by decide +kernel)

theorem sample_marks_nulls_customers : ∃ w columns,
    (sampler.sample request (ChaCha.ofSeed 0) sampler.freshCache).1 = .ok w ∧ w.Aligned [columns] ∧
      ∀ c ∈ columns, c.MarksNull schema config "customers" customers := by
  obtain ⟨w, h, htables, -⟩ := exists_sample
  obtain ⟨p, layout, -, hpath, haligned, -, hmarks⟩ := Sampler.sample_marks_nulls
    (Sampler.ofPrepared_serves schema source config .standard) (Sampler.caches_freshCache sampler)
    (by decide) h
  rw [← hpath, htables] at hmarks
  obtain ⟨columns, rest, hcolumns, hrest, rfl⟩ := List.forall₂_cons_left_iff.mp hmarks
  cases hrest
  obtain ⟨q, hq, hnodup⟩ := exists_prepared
  exact ⟨w, columns, h, haligned, hcolumns q customers hq rfl hnodup⟩

/-- The customer is there with a defined multiplier of one, and one is the null marker. -/
theorem defined_multiplier_is_null_marker :
    ∃ w, (sampler.sample request (ChaCha.ofSeed 0) sampler.freshCache).1 = .ok w ∧
      w.columns[2]? = some "customers.mul_orders.customer_nn" ∧
      w.nullValues[2]? = some (some 1) ∧ w.rows = [[1, 0, 1]] ∧ w.rowKeys = [[some 0]] := by
  obtain ⟨w, h, -, hcolumns, hnull, hrows, hkeys⟩ := exists_sample
  exact ⟨w, h, by rw [hcolumns]; rfl, by rw [hnull]; rfl, hrows, hkeys⟩

end Newcomer

end ApproxQuery

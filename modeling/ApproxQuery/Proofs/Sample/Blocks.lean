import ApproxQuery.Proofs.Prepare.Stored
import ApproxQuery.Sample.Expansion

/-!
# Blocks of prepared tables

The block of a prepared table has cells for each of its rows, and a value of a key attribute for
each of its rows if the column of the attribute is stored.
-/

namespace ApproxQuery

theorem exists_findIdx?_of_mem {α : Type} [BEq α] [LawfulBEq α] {xs : List α} {x : α} (h : x ∈ xs) :
    ∃ i, xs.findIdx? (· == x) = some i := by
  refine Option.isSome_iff_exists.mp (List.findIdx?_isSome.trans ?_)
  exact List.any_eq_true.mpr ⟨x, h, beq_self_eq_true x⟩

/-- The value that an encoded number stands for. -/
def TableMetadata.decoded {N : Type} [Scalar N] (m : TableMetadata N) (column : String) (x : N) :
    Value N :=
  (m.decode column x).toOption.getD .null

theorem TableMetadata.decode_eq {N : Type} [Scalar N] {m : TableMetadata N} {column : String} {x : N}
    (h : Scalar.isNaN x = false) : m.decode column x = .ok (m.decoded column x) := by
  have hok : ∃ v, m.decode column x = .ok v := by
    unfold decode
    cases m.categoricals.get? column with
    | none => cases m.nullValues.get? column <;> exact ⟨_, rfl⟩
    | some d =>
      have hvalue : ∃ v, Dictionary.value? d x = some v := by
        simp only [Dictionary.value?, h, Bool.false_eq_true, if_false]
        split
        · exact ⟨_, rfl⟩
        · split <;> exact ⟨_, rfl⟩
      obtain ⟨v, hv⟩ := hvalue
      exact ⟨v, by simp [hv]⟩
  obtain ⟨v, hv⟩ := hok
  simp [decoded, hv, Except.toOption]

namespace TableBlock

variable {N : Type} [Scalar N] {g : Schema N} {b : TableBlock N} {key : String}

/-- The block belongs to a table that was prepared. -/
def IsPrepared (g : Schema N) (name : String) (b : TableBlock N) : Prop :=
  ∃ source config p t joined, g.prepare source config name = .ok p ∧ g.table name = .ok t ∧
    ofTable g t p.table p.metadata joined = .ok b

/-- The table of the block is rectangular, and has every column that the block has. -/
structure Sound (b : TableBlock N) : Prop where
  rectangular : b.table.Rectangular
  places_lt : ∀ place ∈ b.places, place < b.table.columns.length

omit [Scalar N] in
theorem ofTable_eq_ok {t : Table N} {data : EncodedTable N} {metadata : TableMetadata N}
    {joined : Bool} (h : ofTable g t data metadata joined = .ok b) :
    b.name = t.name ∧ b.table = data ∧ b.metadata = metadata ∧ b.kept.Nodup ∧
      (∀ place, place ∈ b.kept ↔ ∃ c, data.columns[place]? = some c ∧
        c ∉ t.irrelevant.map (qualify t.name)) ∧
      (∃ rs, g.incoming t.name = .ok rs ∧ b.multipliers = rs.filterMap fun r =>
        (data.columnIndex? r.multiplier.qualified).bind fun place =>
          if b.kept.contains place then some (place, r.definedMultiplier.qualified) else none) ∧
      b.indicator? = if joined then some t.qualifiedNullIndicator else none := by
  unfold ofTable at h
  obtain ⟨rs, hrs, h⟩ := bind_eq_ok.mp h
  cases pure_eq_ok.mp h
  refine ⟨rfl, rfl, rfl, ?_, fun place => ?_, ⟨rs, hrs, rfl⟩, rfl⟩
  · have hplaces : (data.columns.zipIdx.map Prod.snd).Nodup := by
      rw [List.zipIdx_map_snd]
      exact List.nodup_range' 1
    exact hplaces.sublist (List.filter_sublist.map _)
  simp only [List.mem_map, List.mem_filter, List.mem_zipIdx_iff_getElem?, Prod.exists]
  constructor
  · rintro ⟨c, i, ⟨hc, hnot⟩, rfl⟩
    exact ⟨c, hc, by simpa using hnot⟩
  · rintro ⟨c, hc, hnot⟩
    exact ⟨c, place, ⟨hc, by simpa using hnot⟩, rfl⟩

theorem IsPrepared.sound [NumericScalar N] {name : String} (h : b.IsPrepared g name) :
    b.name = name ∧ b.Sound := by
  obtain ⟨source, config, p, t, joined, hp, ht, hb⟩ := h
  obtain ⟨hname, htable, -, -, hkept, ⟨rs, -, hmul⟩, -⟩ := ofTable_eq_ok hb
  obtain ⟨prep⟩ := Schema.prepare_eq_ok hp
  refine ⟨hname.trans (Schema.name_of_table ht), ⟨htable ▸ prep.rectangular, ?_⟩⟩
  have hlt {place : Nat} (hmem : place ∈ b.kept) : place < b.table.columns.length := by
    obtain ⟨c, hc, _⟩ := (hkept place).mp hmem
    rw [htable]
    exact (List.getElem?_eq_some_iff.mp hc).1
  intro place hplace
  rcases List.mem_append.mp hplace with hplace | hplace
  · exact hlt hplace
  · obtain ⟨m, hm, rfl⟩ := List.mem_map.mp hplace
    rw [hmul] at hm
    obtain ⟨r, _, hr⟩ := List.mem_filterMap.mp hm
    obtain ⟨i, _, hi⟩ := Option.bind_eq_some_iff.mp hr
    split at hi
    · rename_i hcontains
      cases hi
      exact hlt (List.contains_iff_mem.mp hcontains)
    · cases hi

/-- The stored number of a row. -/
def number (b : TableBlock N) (row place : Nat) : N :=
  ((b.table.data[place]?).bind (·[row]?)).getD 0

/-- The cells that are listed for a row of the table, or for a missing one. A defined multiplier is
one where nothing references the row. -/
def cellList (b : TableBlock N) : Option Nat → List N
  | some row => b.kept.map (b.number row) ++
      b.multipliers.map (fun m =>
        if Scalar.eq (b.number row m.1) 0 then 1 else b.number row m.1) ++
      b.indicator?.toList.map fun _ => 0
  | none => (b.places.map fun place => (b.metadata.nullValues.get? (b.columnName place)).getD 0) ++
      b.indicator?.toList.map fun _ => 1

/-- The column of the key attribute is stored. -/
def Stores (b : TableBlock N) (key : String) : Prop :=
  qualify b.name key ∈ b.table.columns

/-- The values of a key attribute, in all rows if it is stored. -/
def decodedKeys (b : TableBlock N) (key : String) : List (Value N) :=
  ((b.table.column? (qualify b.name key)).getD []).map (b.metadata.decoded (qualify b.name key))

theorem keys_of_not_stores (h : ¬ b.Stores key) :
    b.keys key = .error (.missingKeyColumn b.name (qualify b.name key)) := by
  have hnone : b.table.columnIndex? (qualify b.name key) = none := by
    refine List.findIdx?_eq_none_iff.mpr fun c hc => ?_
    apply beq_eq_false_iff_ne.mpr
    rintro rfl
    exact h hc
  simp [keys, EncodedTable.column?, hnone]

namespace Sound

theorem cell_eq (h : b.Sound) {row place : Nat} (hrow : row < b.table.size)
    (hplace : place ∈ b.places) : b.cell row place = .ok (b.number row place) := by
  have hlt : place < b.table.data.length := by
    rw [h.rectangular.width]
    exact h.places_lt place hplace
  have hlen : row < b.table.data[place].length := by
    rwa [h.rectangular.length _ (List.getElem_mem hlt)]
  simp [cell, number, List.getElem?_eq_getElem hlt, List.getElem?_eq_getElem hlen]

theorem cells_eq (h : b.Sound) {row? : Option Nat} (hrow : ∀ row ∈ row?, row < b.table.size) :
    b.cells row? = .ok (b.cellList row?) := by
  cases row? with
  | none => rfl
  | some row =>
    have hcell (place : Nat) (hplace : place ∈ b.places) := h.cell_eq (hrow row rfl) hplace
    have hkept : b.kept.mapM (b.cell row) = .ok (b.kept.map (b.number row)) :=
      mapM_eq_ok_map fun place hplace => hcell place (List.mem_append_left _ hplace)
    have hmul : (b.multipliers.mapM fun m => return defined (← b.cell row m.1) :
        Except SampleError (List N)) = .ok (b.multipliers.map fun m =>
          if Scalar.eq (b.number row m.1) 0 then 1 else b.number row m.1) := by
      apply mapM_eq_ok_map
      intro m hm
      rw [hcell m.1 (List.mem_append_right _ (List.mem_map_of_mem hm))]
      rfl
    exact bind_eq_ok.mpr ⟨_, hkept, bind_eq_ok.mpr ⟨_, hmul, rfl⟩⟩

theorem exists_column? (h : b.Sound) (hkey : b.Stores key) :
    ∃ numbers ∈ b.table.data, b.table.column? (qualify b.name key) = some numbers := by
  obtain ⟨place, hplace⟩ : ∃ place, b.table.columnIndex? (qualify b.name key) = some place :=
    exists_findIdx?_of_mem hkey
  have hlt : place < b.table.data.length := by
    rw [h.rectangular.width]
    exact (List.findIdx?_eq_some_iff_getElem.mp hplace).1
  refine ⟨_, List.getElem_mem hlt, ?_⟩
  rw [EncodedTable.column?, hplace, Option.bind_some, List.getElem?_eq_getElem hlt]

theorem keys_eq (h : b.Sound) (hkey : b.Stores key) :
    b.keys key = .ok (b.decodedKeys key) ∧ (b.decodedKeys key).length = b.table.size := by
  obtain ⟨numbers, hmem, hcolumn⟩ := h.exists_column? hkey
  have hdecode : numbers.mapM (b.metadata.decode (qualify b.name key)) =
      .ok (numbers.map (b.metadata.decoded (qualify b.name key))) :=
    mapM_eq_ok_map fun x hx => TableMetadata.decode_eq (h.rectangular.numeric _ hmem x hx)
  constructor
  · simp [keys, decodedKeys, hcolumn, hdecode, Except.mapError]
  · simpa [decodedKeys, hcolumn] using h.rectangular.length _ hmem

end Sound

end TableBlock

end ApproxQuery

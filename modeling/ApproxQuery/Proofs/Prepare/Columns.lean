import ApproxQuery.Proofs.Prepare.Decoding

/-!
# The stored columns of a table

When all columns of a table have different names, every stored column is found by its name and
described by the metadata under its name, so its values can be read back.
-/

namespace ApproxQuery

theorem findIdx?_of_nodup {α : Type} [BEq α] [LawfulBEq α] {xs : List α} {x : α} {i : Nat}
    (h : xs.Nodup) (hi : xs[i]? = some x) : xs.findIdx? (· == x) = some i := by
  obtain ⟨hlt, rfl⟩ := List.getElem?_eq_some_iff.mp hi
  refine List.findIdx?_eq_some_iff_getElem.mpr ⟨hlt, beq_self_eq_true _, fun j hj heq => ?_⟩
  have hij : j = i := h.getElem_inj_iff.mp (beq_iff_eq.mp heq)
  omega

theorem qualify_inj {table a b : String} : qualify table a = qualify table b ↔ a = b := by
  constructor
  · intro h
    have hlist := congrArg String.toList h
    simp only [qualify, String.toList_append] at hlist
    exact String.toList_injective (List.append_cancel_left hlist)
  · rintro rfl
    rfl

section

variable {N : Type}

theorem RawTable.column?_eq_some {raw : RawTable N} {a : String} {values : List (Value N)}
    (hnodup : raw.columns.Nodup) :
    raw.column? a = some values ↔ ∃ place, raw.columns[place]? = some a ∧ values = raw.valuesAt place := by
  unfold column? columnIndex?
  rw [Option.map_eq_some_iff]
  constructor
  · rintro ⟨place, hplace, rfl⟩
    obtain ⟨hlt, hname, _⟩ := List.findIdx?_eq_some_iff_getElem.mp hplace
    exact ⟨place, by rw [List.getElem?_eq_getElem hlt, beq_iff_eq.mp hname], rfl⟩
  · rintro ⟨place, hplace, rfl⟩
    exact ⟨place, findIdx?_of_nodup hnodup hplace, rfl⟩

theorem Frame.names_ofRaw_eq {t : Table N} {raw : RawTable N} {f : Frame N} (h : ofRaw t raw = .ok f) :
    f.map Column.name = (raw.columns.filter fun a => !t.ignored.contains a).map (qualify t.name) := by
  unfold ofRaw at h
  split at h
  · cases h
  · cases h
    conv_rhs => rw [← List.zipIdx_map_fst 0 raw.columns, List.filter_map, List.map_map]
    rw [List.map_map]
    rfl

theorem Frame.names_ofRaw {t : Table N} {raw : RawTable N} {f : Frame N} (h : ofRaw t raw = .ok f) :
    (f.map Column.name).Sublist (raw.columns.map (qualify t.name)) := by
  rw [names_ofRaw_eq h]
  exact List.filter_sublist.map _

/-- A column of the frame stands at a place of the raw table and is not ignored. -/
theorem Frame.exists_place_of_mem_ofRaw {t : Table N} {raw : RawTable N} {f : Frame N} {c : Column N}
    (h : ofRaw t raw = .ok f) (hc : c ∈ f) :
    ∃ place a, raw.columns[place]? = some a ∧ t.ignored.contains a = false ∧
      c = ⟨qualify t.name a, raw.valuesAt place⟩ := by
  unfold ofRaw at h
  split at h
  · cases h
  · cases h
    obtain ⟨⟨a, place⟩, hmem, rfl⟩ := List.mem_map.mp hc
    obtain ⟨hmem, hkept⟩ := List.mem_filter.mp hmem
    exact ⟨place, a, List.mem_zipIdx_iff_getElem?.mp hmem, by simpa using hkept, rfl⟩

theorem Frame.mem_ofRaw {t : Table N} {raw : RawTable N} {f : Frame N} {a : String} {place : Nat}
    (h : ofRaw t raw = .ok f) (hplace : raw.columns[place]? = some a) (hkept : a ∉ t.ignored) :
    ⟨qualify t.name a, raw.valuesAt place⟩ ∈ f := by
  unfold ofRaw at h
  split at h
  · cases h
  · cases h
    refine List.mem_map.mpr ⟨(a, place), List.mem_filter.mpr ⟨?_, by simpa using hkept⟩, rfl⟩
    exact List.mem_zipIdx_iff_getElem?.mpr hplace

theorem Frame.column?_of_mem_ofRaw {t : Table N} {raw : RawTable N} {f : Frame N} {c : Column N}
    (h : ofRaw t raw = .ok f) (hnodup : raw.columns.Nodup) (hc : c ∈ f) :
    ∃ a ∈ raw.columns, c.name = qualify t.name a ∧ raw.column? a = some c.values := by
  obtain ⟨place, a, hplace, -, rfl⟩ := exists_place_of_mem_ofRaw h hc
  exact ⟨a, List.mem_of_getElem? hplace, rfl,
    (RawTable.column?_eq_some hnodup).mpr ⟨place, hplace, rfl⟩⟩

theorem Frame.mem_columns_of_declares {t : Table N} {raw : RawTable N} {f : Frame N} {a : String}
    (h : ofRaw t raw = .ok f) (ha : t.declares a = true) : a ∈ raw.columns := by
  unfold ofRaw at h
  split at h
  · cases h
  · rename_i hnone
    have hfound := List.find?_eq_none.mp hnone a (List.contains_iff_mem.mp ha)
    rw [Option.isNone_iff_eq_none] at hfound
    obtain ⟨place, hplace⟩ := Option.ne_none_iff_exists'.mp hfound
    obtain ⟨hlt, hname, _⟩ := List.findIdx?_eq_some_iff_getElem.mp hplace
    exact beq_iff_eq.mp hname ▸ List.getElem_mem hlt

end

/-- A column without texts is fit if it has a value. -/
theorem Column.isUnfit_eq_false {N : Type} [Scalar N] {c : Column N} {maxUnique : Nat} {v : Value N}
    (htext : ∀ w ∈ c.values, w.isText = false) (hv : v ∈ c.values) (hnull : v.isNull = false) :
    c.isUnfit maxUnique = false := by
  have hpresent : c.present.isEmpty = false :=
    List.isEmpty_eq_false_iff.mpr (List.ne_nil_of_mem (List.mem_filter.mpr ⟨hv, by simp [hnull]⟩))
  have hnumbers : c.hasText = false :=
    List.any_eq_false.mpr fun w hw => by simp [htext w hw]
  simp [isUnfit, hpresent, hnumbers]

namespace EncodedColumn

variable {N : Type} [Scalar N] {p : PreparedTable N} {es : List (Column N × EncodedColumn N)}

/-- The stored columns with their names. -/
def stored (es : List (Column N × EncodedColumn N)) : List (String × List N) :=
  es.filterMap fun e => e.2.numbers?.map (e.1.name, ·)

theorem table_addEach (p : PreparedTable N) (es : List (Column N × EncodedColumn N)) :
    (addEach p es).table.columns = p.table.columns ++ (stored es).map Prod.fst ∧
      (addEach p es).table.data = p.table.data ++ (stored es).map Prod.snd := by
  rw [columns_addEach, data_addEach, stored, List.map_filterMap, List.map_filterMap]
  simp [Function.comp_def]

omit [Scalar N] in
theorem map_fst_stored (es : List (Column N × EncodedColumn N)) :
    (stored es).map Prod.fst = (es.filter fun e => e.2.numbers?.isSome).map fun e => e.1.name := by
  induction es with
  | nil => rfl
  | cons e es ih => cases hn : e.2.numbers? <;> simpa [stored, hn] using ih

theorem isSome_numbers? {table : String} {config : PreparationConfig N} {c : Column N}
    {e : EncodedColumn N} (h : ofColumn table config c = .ok e) :
    e.numbers?.isSome = !c.isUnfit config.maxUnique := by
  cases encodedBy_of_ofColumn h with
  | dropped unfit => simp [numbers?, unfit]
  | categorical fit text => simp [numbers?, fit]
  | numeric fit text finite chosen => simp [numbers?, fit]

/-- Only a stored column changes what is known under its name. -/
theorem get?_addTo_of_ne {name column : String} {c : EncodedColumn N}
    (h : c.numbers?.isSome = true → column ≠ name) :
    (c.addTo p name).metadata.categoricals.get? column = p.metadata.categoricals.get? column ∧
      (c.addTo p name).metadata.nullValues.get? column = p.metadata.nullValues.get? column := by
  cases c with
  | dropped => exact ⟨rfl, rfl⟩
  | categorical d codes => exact ⟨SortedMap.get?_insert_of_ne (h rfl), SortedMap.get?_insert_of_ne (h rfl)⟩
  | numeric s numbers => exact ⟨rfl, SortedMap.get?_insert_of_ne (h rfl)⟩

theorem get?_addEach_of_not_mem {name : String} (h : ∀ e ∈ es, e.1.name ≠ name) :
    (addEach p es).metadata.categoricals.get? name = p.metadata.categoricals.get? name ∧
      (addEach p es).metadata.nullValues.get? name = p.metadata.nullValues.get? name := by
  induction es generalizing p with
  | nil => exact ⟨rfl, rfl⟩
  | cons e es ih =>
    obtain ⟨hc, hn⟩ := ih (p := e.2.addTo p e.1.name) fun e he => h e (List.mem_cons_of_mem _ he)
    obtain ⟨hc', hn'⟩ := get?_addTo_of_ne (p := p) fun _ => (h e List.mem_cons_self).symm
    exact ⟨hc.trans hc', hn.trans hn'⟩

/-- The metadata describes a column that is the only stored one of its name. -/
theorem describedBy_addEach {e : Column N × EncodedColumn N}
    (honly : ∀ e' ∈ es, e'.2.numbers?.isSome = true → e'.1.name = e.1.name → e' = e)
    (h : e ∈ es ∧ p.metadata.categoricals.get? e.1.name = none ∨
      e.2.DescribedBy p.metadata e.1.name) : e.2.DescribedBy (addEach p es).metadata e.1.name := by
  induction es generalizing p with
  | nil => exact h.resolve_left fun h => List.not_mem_nil h.1
  | cons first es ih =>
    have haddEach : addEach p (first :: es) = addEach (first.2.addTo p first.1.name) es := rfl
    rw [haddEach]
    refine ih (fun e' he' => honly e' (List.mem_cons_of_mem _ he')) ?_
    by_cases hfirst : first = e
    · subst hfirst
      cases hcolumn : first.2 with
      | dropped => exact .inr trivial
      | categorical d codes => exact .inr SortedMap.get?_insert_self
      | numeric s numbers =>
        refine .inr ⟨?_, SortedMap.get?_insert_self⟩
        rcases h with ⟨-, hnone⟩ | hdescribed
        · exact hnone
        · rw [hcolumn] at hdescribed
          exact hdescribed.1
    · obtain ⟨hcat, hnull⟩ := get?_addTo_of_ne (p := p) (c := first.2) fun hstored hname =>
        hfirst (honly first List.mem_cons_self hstored hname.symm)
      rcases h with ⟨hmem, hnone⟩ | hdescribed
      · exact .inl ⟨(List.mem_cons.mp hmem).resolve_left (Ne.symm hfirst), hcat.trans hnone⟩
      · right
        cases hcolumn : e.2 with
        | dropped => trivial
        | categorical d codes =>
          rw [hcolumn] at hdescribed
          exact hcat.trans hdescribed
        | numeric s numbers =>
          rw [hcolumn] at hdescribed
          exact ⟨hcat.trans hdescribed.1, hnull.trans hdescribed.2⟩

end EncodedColumn

namespace Preparation

variable {N : Type} [Scalar N] {g : Schema N} {source : RawSource N} {config : PreparationConfig N}
  {name : String} {p : PreparedTable N}

theorem metadata_get? (h : Preparation g source config name p) (column : String) :
    p.metadata.categoricals.get? column = h.untruncated.metadata.categoricals.get? column ∧
      p.metadata.nullValues.get? column = h.untruncated.metadata.nullValues.get? column := by
  rw [h.metadata_eq]
  exact ⟨rfl, rfl⟩

theorem table_eq_truncate (h : Preparation g source config name p) :
    p.table = h.untruncated.table.truncate config.maxData config.seed :=
  h.table_eq

theorem columns_eq_stored (h : Preparation g source config name p) :
    p.table.columns = (EncodedColumn.stored h.encoded).map Prod.fst := by
  have hcolumns : p.table.columns = h.untruncated.table.columns := by
    rw [h.table_eq_truncate]
    unfold EncodedTable.truncate
    split <;> rfl
  rw [hcolumns, untruncated, (EncodedColumn.table_addEach _ _).1, List.nil_append]

theorem map_fst_encoded (h : Preparation g source config name p) : h.encoded.map Prod.fst = h.frame :=
  h.encodes.1

/-- Just the columns that are fit are stored. -/
theorem columns_eq (h : Preparation g source config name p) :
    p.table.columns = (h.frame.filter fun c => !c.isUnfit config.maxUnique).map Column.name := by
  rw [h.columns_eq_stored, EncodedColumn.map_fst_stored, ← h.map_fst_encoded, List.filter_map,
    List.map_map]
  refine congrArg (List.map _) (List.filter_congr fun e he => ?_)
  exact EncodedColumn.isSome_numbers? (h.encodes.2 e he)

theorem mem_columns_iff (h : Preparation g source config name p) {column : String} :
    column ∈ p.table.columns ↔
      ∃ c ∈ h.frame, c.isUnfit config.maxUnique = false ∧ c.name = column := by
  simp only [h.columns_eq, List.mem_map, List.mem_filter, Bool.not_eq_true', and_assoc]

/-- All multipliers are stored if there are rows. -/
theorem filter_multipliers (h : Preparation g source config name p) (hrows : h.raw.size ≠ 0) :
    (h.multipliers.map Multiplier.column).filter (fun c => !c.isUnfit config.maxUnique) =
      h.multipliers.map Multiplier.column := by
  refine List.filter_eq_self.mpr fun c hc => ?_
  obtain ⟨m, hm, rfl⟩ := List.mem_map.mp hc
  simp [Multiplier.isUnfit_column, h.counts_ne_nil hm hrows]

theorem exists_of_mem_columns (h : Preparation g source config name p) {column : String}
    (hc : column ∈ p.table.columns) :
    ∃ e ∈ h.encoded, e.1.name = column ∧ ∃ numbers, e.2.numbers? = some numbers := by
  rw [h.columns_eq_stored] at hc
  obtain ⟨⟨_, numbers⟩, hmem, rfl⟩ := List.mem_map.mp hc
  obtain ⟨e, he, hpair⟩ := List.mem_filterMap.mp hmem
  obtain ⟨_, hn, hpair⟩ := Option.map_eq_some_iff.mp hpair
  cases hpair
  exact ⟨e, he, rfl, _, hn⟩

theorem size_ne_zero_of_mem_columns (h : Preparation g source config name p) {column : String}
    (hc : column ∈ p.table.columns) : h.raw.size ≠ 0 := by
  obtain ⟨e, he, -, numbers, hn⟩ := h.exists_of_mem_columns hc
  intro hzero
  have hvalues : e.1.values = [] := by
    rw [← List.length_eq_zero_iff, h.hasLength_frame e.1 (h.mem_frame he), hzero]
  have hdropped : e.2 = .dropped := by
    have hcolumn := h.encodes.2 e he
    simp only [EncodedColumn.ofColumn, Column.isUnfit, Column.present, hvalues, List.filter_nil,
      List.isEmpty_nil, Bool.true_or, if_true, Except.ok.injEq] at hcolumn
    exact hcolumn.symm
  rw [hdropped] at hn
  cases hn

theorem describedBy_of_only (h : Preparation g source config name p) {e : Column N × EncodedColumn N}
    (he : e ∈ h.encoded)
    (honly : ∀ e' ∈ h.encoded, e'.2.numbers?.isSome = true → e'.1.name = e.1.name → e' = e) :
    e.2.DescribedBy p.metadata e.1.name := by
  have hdescribed := EncodedColumn.describedBy_addEach (p := ⟨⟨name, [], []⟩, h.blank⟩) honly
    (.inl ⟨he, by rw [h.blank_eq]; rfl⟩)
  obtain ⟨hc, hn⟩ := h.metadata_get? e.1.name
  cases hcolumn : e.2 with
  | dropped => trivial
  | categorical d codes =>
    rw [hcolumn] at hdescribed
    exact hc.trans hdescribed
  | numeric s numbers =>
    rw [hcolumn] at hdescribed
    exact ⟨hc.trans hdescribed.1, hn.trans hdescribed.2⟩

theorem nodup_encoded (h : Preparation g source config name p)
    (hnodup : (h.frame.map Column.name).Nodup) : (h.encoded.map fun e => e.1.name).Nodup := by
  rwa [← h.map_fst_encoded, List.map_map] at hnodup

theorem nodup_stored (h : Preparation g source config name p)
    (hnodup : (h.frame.map Column.name).Nodup) : p.table.columns.Nodup := by
  rw [h.columns_eq_stored, EncodedColumn.map_fst_stored]
  exact (h.nodup_encoded hnodup).sublist (List.filter_sublist.map _)

section

variable (h : Preparation g source config name p) (hnodup : p.table.columns.Nodup)
  {e : Column N × EncodedColumn N} (he : e ∈ h.encoded)
include hnodup he

/-- No other stored column has the name of a stored one. -/
theorem eq_of_name {e' : Column N × EncodedColumn N} (hstored : e.2.numbers?.isSome = true)
    (he' : e' ∈ h.encoded) (hstored' : e'.2.numbers?.isSome = true)
    (hname : e'.1.name = e.1.name) : e' = e := by
  rw [h.columns_eq_stored, EncodedColumn.map_fst_stored] at hnodup
  exact List.inj_on_of_nodup_map hnodup (List.mem_filter.mpr ⟨he', hstored'⟩)
    (List.mem_filter.mpr ⟨he, hstored⟩) hname

theorem describedBy : e.2.DescribedBy p.metadata e.1.name := by
  cases hnumbers : e.2.numbers? with
  | none =>
    cases hcolumn : e.2 with
    | dropped => trivial
    | categorical d codes => simp [hcolumn, EncodedColumn.numbers?] at hnumbers
    | numeric s numbers => simp [hcolumn, EncodedColumn.numbers?] at hnumbers
  | some numbers =>
    refine h.describedBy_of_only he fun e' he' hstored hname => ?_
    exact h.eq_of_name hnodup he (by rw [hnumbers]; rfl) he' hstored hname

/-- A stored column is found under its name. -/
theorem exists_place {numbers : List N} (hn : e.2.numbers? = some numbers) :
    ∃ place, p.table.columnIndex? e.1.name = some place ∧
      h.untruncated.table.data[place]? = some numbers := by
  obtain ⟨-, hdata⟩ := EncodedColumn.table_addEach ⟨⟨name, [], []⟩, h.blank⟩ h.encoded
  rw [List.nil_append] at hdata
  have hmem : (e.1.name, numbers) ∈ EncodedColumn.stored h.encoded :=
    List.mem_filterMap.mpr ⟨e, he, by simp [hn]⟩
  obtain ⟨place, hplace⟩ := List.getElem?_of_mem hmem
  refine ⟨place, findIdx?_of_nodup hnodup ?_, ?_⟩
  · rw [h.columns_eq_stored, List.getElem?_map, hplace]
    rfl
  · rw [untruncated, hdata, List.getElem?_map, hplace]
    rfl

theorem columnIndex?_eq [NumericScalar N] (hsize : h.raw.size ≤ config.maxData) {numbers : List N}
    (hn : e.2.numbers? = some numbers) :
    ∃ place, p.table.columnIndex? e.1.name = some place ∧ p.table.data[place]? = some numbers := by
  obtain ⟨place, hplace, hnumbers⟩ := h.exists_place hnodup he hn
  exact ⟨place, hplace, by rw [h.table_of_size_le hsize]; exact hnumbers⟩

end

end Preparation

end ApproxQuery

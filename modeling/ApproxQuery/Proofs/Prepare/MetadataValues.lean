import ApproxQuery.Proofs.Prepare.Compression

/-!
# The values in metadata are raw values

Preparation makes up no value: what a dictionary lists, and what a dependency map relates, stands in
the raw table, or is null where a raw row is too short.
-/

namespace ApproxQuery

variable {N : Type}

/-- The value is null or stands in a row. -/
def RawTable.Holds (raw : RawTable N) (v : Value N) : Prop :=
  v = .null ∨ ∃ row ∈ raw.rows, v ∈ row

/-- The dictionaries and the dependency maps are made of values of the raw table. -/
structure TableMetadata.MadeOf (m : TableMetadata N) (raw : RawTable N) : Prop where
  dictionary : ∀ e ∈ m.categoricals.toList, ∀ v ∈ e.2, raw.Holds v
  map : ∀ e ∈ m.dependencies.toList, ∀ f ∈ e.2.toList, ∀ p ∈ f.2, raw.Holds p.1 ∧ raw.Holds p.2

theorem RawTable.holds_of_mem_valuesAt {raw : RawTable N} {place : Nat} {v : Value N}
    (h : v ∈ raw.valuesAt place) : raw.Holds v := by
  obtain ⟨row, hrow, rfl⟩ := List.mem_map.mp h
  rw [List.getD_eq_getElem?_getD]
  cases hv : row[place]? with
  | none => exact .inl rfl
  | some v => exact .inr ⟨row, hrow, List.mem_of_getElem? hv⟩

theorem Frame.holds_of_ofRaw {t : Table N} {raw : RawTable N} {f : Frame N} (h : ofRaw t raw = .ok f) :
    ∀ c ∈ f, ∀ v ∈ c.values, raw.Holds v := by
  unfold ofRaw at h
  split at h
  · cases h
  · cases h
    intro c hc v hv
    obtain ⟨⟨a, place⟩, -, rfl⟩ := List.mem_map.mp hc
    exact RawTable.holds_of_mem_valuesAt hv

variable [Scalar N] {raw : RawTable N}

/-! ## Dependency maps -/

namespace DependencyMap

theorem subset_of_build {table : String} {determinant dependent : Column N} {m : DependencyMap N}
    (h : build table determinant dependent = .ok m) : m ⊆ determinant.values.zip dependent.values := by
  refine foldlM_induction (P := (· ⊆ determinant.values.zip dependent.values)) h (List.nil_subset _)
    fun entry hentry known known' hknown hstep => ?_
  unfold add at hstep
  split at hstep
  · cases hstep
    exact List.append_subset.mpr ⟨hknown, List.cons_subset.mpr ⟨hentry, List.nil_subset _⟩⟩
  · split at hstep
    · cases hstep
      exact hknown
    · cases hstep

end DependencyMap

namespace Compression

variable {t : Table N} {f : Frame N} {s s' : Compression N}

/-- The maps so far are made of raw values. -/
def MadeOf (s : Compression N) (raw : RawTable N) : Prop :=
  ∀ e ∈ s.maps.toList, ∀ d ∈ e.2.toList, ∀ p ∈ d.2, raw.Holds p.1 ∧ raw.Holds p.2

omit [Scalar N] in
theorem MadeOf.extend (h : s.MadeOf raw) (determinant dependent : String) {map : DependencyMap N}
    (hmap : ∀ p ∈ map, raw.Holds p.1 ∧ raw.Holds p.2) :
    (s.extend determinant dependent map).MadeOf raw := by
  intro e he d hd p hp
  rcases SortedMap.insertInto_subset he with rfl | he
  · rcases SortedMap.insertInto_subset hd with rfl | hd
    · exact hmap p hp
    · cases hget : s.maps.get? determinant with
      | none =>
        rw [hget] at hd
        cases hd
      | some maps =>
        rw [hget] at hd
        exact h _ (SortedMap.get?_eq_some.mp hget) d hd p hp
  · exact h e he d hd p hp

theorem MadeOf.step (h : s.MadeOf raw) (hf : ∀ c ∈ f, ∀ v ∈ c.values, raw.Holds v)
    {determinant : Column N} {dependent : String} (hdeterminant : determinant ∈ f)
    (hstep : step t f s (determinant, dependent) = .ok s') : s'.MadeOf raw := by
  obtain rfl | ⟨column, map, -, hallows, rfl⟩ := step_eq_ok hstep
  · exact h
  · refine h.extend determinant.name column.name fun p hp => ?_
    obtain ⟨hkey, hvalue⟩ := List.of_mem_zip (DependencyMap.subset_of_build hallows.built hp)
    exact ⟨hf _ hdeterminant _ hkey, hf _ hallows.mem _ hvalue⟩

theorem madeOf_run {maxUnique : Nat} (hf : ∀ c ∈ f, ∀ v ∈ c.values, raw.Holds v)
    (h : run t f maxUnique = .ok s) : s.MadeOf raw := by
  refine foldlM_induction (P := (MadeOf · raw)) h nofun fun r hr s s' hs hstep => ?_
  exact hs.step hf (mem_rules hr).1 hstep

end Compression

/-! ## Dictionaries -/

namespace EncodedColumn

theorem holds_addEach {table : String} {config : PreparationConfig N} {p : PreparedTable N}
    {es : List (Column N × EncodedColumn N)} (hes : ∀ e ∈ es, ofColumn table config e.1 = .ok e.2)
    (hvalues : ∀ e ∈ es, e.1.hasText = true → ∀ v ∈ e.1.values, raw.Holds v)
    (h : ∀ e ∈ p.metadata.categoricals.toList, ∀ v ∈ e.2, raw.Holds v) :
    ∀ e ∈ (addEach p es).metadata.categoricals.toList, ∀ v ∈ e.2, raw.Holds v := by
  induction es generalizing p with
  | nil => exact h
  | cons e es ih =>
    obtain ⟨c, e⟩ := e
    have hencoded : ofColumn table config c = .ok e := hes (c, e) List.mem_cons_self
    refine ih (p := e.addTo p c.name) (fun e' he' => hes e' (List.mem_cons_of_mem _ he'))
      (fun e' he' => hvalues e' (List.mem_cons_of_mem _ he')) ?_
    cases encodedBy_of_ofColumn hencoded with
    | dropped unfit => exact h
    | numeric fit text finite chosen => exact h
    | categorical fit text =>
      intro e' he' v hv
      rcases SortedMap.insertInto_subset he' with rfl | he'
      · exact hvalues (c, _) List.mem_cons_self text v
          (List.mem_of_mem_filter ((Value.distinct_sublist c.present).subset hv))
      · exact h e' he' v hv

end EncodedColumn

theorem Preparation.madeOf {g : Schema N} {source : RawSource N} {config : PreparationConfig N}
    {name : String} {p : PreparedTable N} (h : Preparation g source config name p) :
    p.metadata.MadeOf h.raw := by
  have hwhole := Frame.holds_of_ofRaw h.whole_eq
  refine ⟨?_, ?_⟩
  · rw [h.metadata_eq]
    refine EncodedColumn.holds_addEach h.encodes.2 (fun e he htext => ?_) (by rw [h.blank_eq]; nofun)
    rcases List.mem_append.mp (h.mem_frame he) with hcolumn | hmultiplier
    · exact hwhole e.1 ((Frame.sublist_erase _ _).subset hcolumn)
    · obtain ⟨m, -, hm⟩ := List.mem_map.mp hmultiplier
      rw [← hm, m.hasText_column] at htext
      cases htext
  · rw [h.dependencies_eq]
    exact Compression.madeOf_run hwhole h.compression_eq

end ApproxQuery

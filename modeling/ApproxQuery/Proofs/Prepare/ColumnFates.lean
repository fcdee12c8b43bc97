import ApproxQuery.Proofs.Prepare.Ancestors

/-!
# What becomes of columns

A raw column is ignored, dropped, compressed or stored, and only one of these: the names of the
dropped, compressed and stored columns are those of the frame, rearranged. A column is judged before
it can determine others and again when it is encoded, with one result, so no determinant is dropped.
-/

namespace ApproxQuery

namespace SortedMap

variable {κ α : Type} [Ord κ] [Std.LawfulEqOrd κ]

theorem nodup_keys (m : SortedMap κ α) : m.keys.Nodup := by
  refine List.pairwise_map.mpr (m.sorted.imp fun {a b} hlt heq => ?_)
  have hself : compare b.1 b.1 = .eq := Std.ReflCmp.compare_self
  rw [heq, hself] at hlt
  cases hlt

variable [Std.TransOrd κ] {m : SortedMap κ α}

theorem mem_keys {k : κ} : k ∈ m.keys ↔ ∃ v, m.get? k = some v := by
  simp only [keys, List.mem_map, get?_eq_some]
  constructor
  · rintro ⟨⟨_, v⟩, hmem, rfl⟩
    exact ⟨v, hmem⟩
  · rintro ⟨v, hmem⟩
    exact ⟨(k, v), hmem, rfl⟩

theorem mem_keys_insert {j k : κ} {v : α} : j ∈ (m.insert k v).keys ↔ j = k ∨ j ∈ m.keys := by
  rw [mem_keys, mem_keys]
  by_cases hj : j = k
  · rw [hj, get?_insert_self]
    exact iff_of_true ⟨v, rfl⟩ (.inl rfl)
  · rw [get?_insert_of_ne hj, or_iff_right hj]

end SortedMap

variable {N : Type} [Scalar N]

namespace EncodedColumn

variable {p : PreparedTable N} {es : List (Column N × EncodedColumn N)}

theorem dropped_addEach (p : PreparedTable N) (es : List (Column N × EncodedColumn N)) :
    (addEach p es).metadata.dropped =
      p.metadata.dropped ++ (es.filter fun e => e.2.numbers?.isNone).map fun e => e.1.name := by
  induction es generalizing p with
  | nil => simp [addEach]
  | cons e es ih =>
    obtain ⟨c, e⟩ := e
    have hcons := ih (e.addTo p c.name)
    cases e <;> simpa [addEach, addTo, numbers?] using hcons

/-- Just the stored columns get null markers. -/
theorem mem_keys_addEach {column : String} :
    column ∈ (addEach p es).metadata.nullValues.keys ↔
      column ∈ p.metadata.nullValues.keys ∨ column ∈ (stored es).map Prod.fst := by
  induction es generalizing p with
  | nil => simp [addEach, stored]
  | cons e es ih =>
    obtain ⟨c, e⟩ := e
    have haddEach : addEach p ((c, e) :: es) = addEach (e.addTo p c.name) es := rfl
    rw [haddEach, ih]
    cases e with
    | dropped => simp [addTo, stored, numbers?]
    | categorical d codes =>
      simp only [addTo, SortedMap.mem_keys_insert, stored, numbers?, List.filterMap_cons, Option.map_some,
        List.map_cons, List.mem_cons, or_assoc, or_left_comm]
    | numeric s numbers =>
      simp only [addTo, SortedMap.mem_keys_insert, stored, numbers?, List.filterMap_cons, Option.map_some,
        List.map_cons, List.mem_cons, or_assoc, or_left_comm]

end EncodedColumn

/-- The table accounts for the columns of a raw table and for the multipliers of these relationships. -/
structure PreparedTable.AccountsFor (p : PreparedTable N) (t : Table N) (raw : RawTable N)
    (rs : List Relationship) : Prop where
  /-- A raw column that is not ignored is dropped, compressed or stored, and only one of these. -/
  once : ∀ a ∈ raw.columns,
    (p.metadata.dropped ++ p.metadata.dependents ++ p.table.columns).count (qualify t.name a) =
      if a ∈ t.ignored then 0 else 1
  listed : p.metadata.columns = p.table.columns
  /-- The columns that survive stand in their order, and the multipliers after them. -/
  order : p.table.columns = (raw.columns.filter fun a => !t.ignored.contains a &&
      !p.metadata.dropped.contains (qualify t.name a) &&
      !p.metadata.dependents.contains (qualify t.name a)).map (qualify t.name) ++
    if raw.size = 0 then [] else rs.map (·.multiplier.qualified)
  dropped_multiplier : ∀ r ∈ rs, r.multiplier.qualified ∈ p.metadata.dropped ↔ raw.size = 0
  width : p.table.data.length = p.table.columns.length
  length : ∀ column ∈ p.table.data, column.length = p.metadata.storedLength
  /-- Just the stored columns have a null marker. -/
  marked : ∀ column, p.metadata.nullValues.keys.count column =
    if column ∈ p.table.columns then 1 else 0
  determinant : ∀ determinant dependent map, p.metadata.map? determinant dependent = some map →
    determinant ∉ p.metadata.dropped ∧
      (determinant ∈ p.table.columns ∨ determinant ∈ p.metadata.dependents) ∧
      ∃ a ∈ raw.columns, a ∉ t.ignored ∧ determinant = qualify t.name a

namespace Preparation

variable {g : Schema N} {source : RawSource N} {config : PreparationConfig N} {name : String}
  {p : PreparedTable N} (h : Preparation g source config name p)

theorem dropped_eq :
    p.metadata.dropped = (h.frame.filter (·.isUnfit config.maxUnique)).map Column.name := by
  have hdropped : p.metadata.dropped =
      (h.encoded.filter fun e => e.2.numbers?.isNone).map fun e => e.1.name := by
    rw [h.metadata_eq]
    refine (EncodedColumn.dropped_addEach _ _).trans ?_
    rw [h.blank_eq]
    exact List.nil_append _
  rw [hdropped, ← h.map_fst_encoded, List.filter_map, List.map_map]
  refine congrArg (List.map _) (List.filter_congr fun e he => ?_)
  rw [← Option.not_isSome, EncodedColumn.isSome_numbers? (h.encodes.2 e he), Bool.not_not]
  rfl

include h in
theorem mem_nullValues {column : String} :
    column ∈ p.metadata.nullValues.keys ↔ column ∈ p.table.columns := by
  rw [h.columns_eq_stored, h.metadata_eq]
  refine EncodedColumn.mem_keys_addEach.trans ?_
  rw [h.blank_eq]
  exact or_iff_right List.not_mem_nil

theorem mem_dependents_iff {dependent : String} :
    dependent ∈ p.metadata.dependents ↔ dependent ∈ h.compression.via.map Prod.fst := by
  rw [h.mem_dependents]
  constructor
  · rintro ⟨determinant, map, hmap⟩
    exact List.mem_map_of_mem (f := Prod.fst) (h.recorded.mem_via _ _ _ hmap)
  · intro hmem
    obtain ⟨e, he, rfl⟩ := List.mem_map.mp hmem
    obtain ⟨c, d, rfl, hcompresses⟩ := h.recorded.compresses e he
    obtain ⟨map, hmap, -⟩ := hcompresses.exists_map
    exact ⟨d.name, map, hmap⟩

include h in
/-- A column has a map of one determinant only. -/
theorem nodup_dependents : p.metadata.dependents.Nodup := by
  unfold TableMetadata.dependents
  refine List.nodup_flatMap.mpr ⟨fun e _ => e.2.nodup_keys, ?_⟩
  refine p.metadata.dependencies.sorted.imp_of_mem fun {a b} ha hb hlt => ?_
  rw [Function.onFun, List.disjoint_left]
  intro dependent hda hdb
  have hmap {e : String × SortedMap String (DependencyMap N)} (he : e ∈ p.metadata.dependencies.toList)
      (hd : dependent ∈ e.2.keys) : (dependent, e.1) ∈ h.compression.via := by
    obtain ⟨map, hmap⟩ := SortedMap.mem_keys.mp hd
    refine h.recorded.mem_via _ _ map ?_
    rw [h.dependencies_eq] at he
    rw [Compression.map?, SortedMap.get?_eq_some.mpr he, Option.bind_some, hmap]
  have hsame := List.inj_on_of_nodup_map h.recorded.keys (hmap ha hda) (hmap hb hdb) rfl
  have hself : compare b.1 b.1 = .eq := Std.ReflCmp.compare_self
  injection hsame with _ hsame
  rw [hsame, hself] at hlt
  cases hlt

/-- A column of the frame is dropped or stored. -/
theorem perm_frame :
    (p.metadata.dropped ++ p.table.columns).Perm (h.frame.map Column.name) := by
  rw [h.dropped_eq, h.columns_eq, ← List.map_append]
  exact (List.filter_append_perm _ _).map _

theorem names_multipliers :
    (h.multipliers.map Multiplier.column).map Column.name = h.rs.map (·.multiplier.qualified) := by
  rw [← h.adds.relationships, List.map_map, List.map_map]
  rfl

theorem names_whole :
    h.whole.map Column.name =
      (h.raw.columns.filter fun a => !h.table.ignored.contains a).map (qualify name) := by
  rw [Frame.names_ofRaw_eq h.whole_eq, Schema.name_of_table h.known]

section

variable (hnames : g.DistinctNames name h.raw)
include hnames

theorem names_remaining :
    (h.compression.remaining h.whole).map Column.name =
      (h.whole.map Column.name).filter fun c => !p.metadata.dependents.contains c := by
  rw [Compression.remaining, Frame.erase_eq_filter (h.nodup_whole hnames), List.filter_map]
  refine congrArg (List.map _) (List.filter_congr fun c _ => congrArg (! ·) ?_)
  rw [Bool.eq_iff_iff, List.contains_iff_mem, List.contains_iff_mem]
  exact h.mem_dependents_iff.symm

open scoped List in
/-- The names of the frame, rearranged. -/
theorem perm_names :
    (p.metadata.dropped ++ p.metadata.dependents ++ p.table.columns).Perm
      (h.whole.map Column.name ++ h.rs.map (·.multiplier.qualified)) := by
  have hdependents : p.metadata.dependents.Perm
      ((h.whole.map Column.name).filter p.metadata.dependents.contains) := by
    refine (List.perm_ext_iff_of_nodup h.nodup_dependents ((h.nodup_whole hnames).filter _)).mpr
      fun c => ?_
    rw [List.mem_filter, List.contains_iff_mem, iff_and_self]
    intro hc
    obtain ⟨determinant, map, hmap⟩ := h.mem_dependents.mp hc
    obtain ⟨c', d, heq, hcompresses⟩ := h.recorded.compresses _ (h.recorded.mem_via _ _ _ hmap)
    cases heq
    exact List.mem_map_of_mem hcompresses.dependent_mem
  calc p.metadata.dropped ++ p.metadata.dependents ++ p.table.columns
    _ ~ p.metadata.dependents ++ (p.metadata.dropped ++ p.table.columns) := by
        rw [← List.append_assoc]
        exact List.perm_append_comm.append_right _
    _ ~ p.metadata.dependents ++ h.frame.map Column.name := h.perm_frame.append_left _
    _ ~ h.whole.map Column.name ++ h.rs.map (·.multiplier.qualified) := by
        rw [frame, List.map_append, h.names_multipliers, h.names_remaining hnames, ← List.append_assoc]
        exact ((hdependents.append_right _).trans (List.filter_append_perm _ _)).append_right _

theorem count_names {a : String} (ha : a ∈ h.raw.columns) :
    (p.metadata.dropped ++ p.metadata.dependents ++ p.table.columns).count (qualify name a) =
      if a ∈ h.table.ignored then 0 else 1 := by
  have hmultiplier : (h.rs.map (·.multiplier.qualified)).count (qualify name a) = 0 := by
    refine List.count_eq_zero.mpr fun hmem => ?_
    obtain ⟨r, hr, heq⟩ := List.mem_map.mp hmem
    exact hnames.multiplier h.rs h.incoming r hr a ha heq
  rw [(h.perm_names hnames).count_eq, List.count_append, hmultiplier, Nat.add_zero, h.names_whole,
    List.count_map_of_injective _ _ fun _ _ => qualify_inj.mp]
  split
  · rename_i hignored
    exact List.count_eq_zero.mpr fun hmem => by simp [hignored] at hmem
  · rename_i hkept
    rw [List.count_filter (by simpa using hkept)]
    exact List.count_eq_one_of_mem hnames.nodup ha

/-- The columns that stay are told apart by whether they are among the dropped ones. -/
theorem mem_dropped_iff {c : Column N} (hc : c ∈ h.compression.remaining h.whole) :
    c.name ∈ p.metadata.dropped ↔ c.isUnfit config.maxUnique = true := by
  rw [h.dropped_eq]
  constructor
  · intro hmem
    obtain ⟨d, hd, hname⟩ := List.mem_map.mp hmem
    obtain ⟨hd, hunfit⟩ := List.mem_filter.mp hd
    have hwhole {c : Column N} (hc : c ∈ h.compression.remaining h.whole) : c ∈ h.whole :=
      (Frame.sublist_erase _ _).subset hc
    obtain ⟨a, ha, -, hca⟩ := h.exists_kept (hwhole hc)
    have hd := hwhole (h.mem_remaining hnames hd ha (hname.trans hca))
    rwa [← List.inj_on_of_nodup_map (h.nodup_whole hnames) hd (hwhole hc) hname]
  · intro hunfit
    exact List.mem_map_of_mem (List.mem_filter.mpr ⟨List.mem_append_left _ hc, hunfit⟩)

theorem names_stored_remaining :
    ((h.compression.remaining h.whole).filter fun c => !c.isUnfit config.maxUnique).map Column.name =
      (h.raw.columns.filter fun a => !h.table.ignored.contains a &&
        !p.metadata.dropped.contains (qualify name a) &&
        !p.metadata.dependents.contains (qualify name a)).map (qualify name) := by
  have hfit : ((h.compression.remaining h.whole).filter fun c => !c.isUnfit config.maxUnique).map
      Column.name = ((h.compression.remaining h.whole).map Column.name).filter
        fun c => !p.metadata.dropped.contains c := by
    rw [List.filter_map]
    refine congrArg (List.map _) (List.filter_congr fun c hc => congrArg (! ·) ?_)
    rw [Bool.eq_iff_iff, List.contains_iff_mem]
    exact (h.mem_dropped_iff hnames hc).symm
  rw [hfit, h.names_remaining hnames, h.names_whole, List.filter_filter, List.filter_map,
    List.filter_filter]
  refine congrArg (List.map _) (List.filter_congr fun a _ => ?_)
  simp only [Function.comp_apply]
  ac_rfl

omit hnames in
theorem names_stored_multipliers :
    ((h.multipliers.map Multiplier.column).filter fun c => !c.isUnfit config.maxUnique).map
      Column.name = if h.raw.size = 0 then [] else h.rs.map (·.multiplier.qualified) := by
  split
  · rename_i hempty
    refine List.map_eq_nil_iff.mpr (List.filter_eq_nil_iff.mpr fun c hc => ?_)
    obtain ⟨m, hm, rfl⟩ := List.mem_map.mp hc
    simp [Multiplier.isUnfit_column, h.counts_eq_nil_iff hm, hempty]
  · rename_i hrows
    rw [h.filter_multipliers hrows, h.names_multipliers]

/-- The raw columns that are neither ignored nor dropped nor compressed are stored in their order, and
the multipliers after them if there are rows. -/
theorem columns_eq_names :
    p.table.columns = (h.raw.columns.filter fun a => !h.table.ignored.contains a &&
        !p.metadata.dropped.contains (qualify name a) &&
        !p.metadata.dependents.contains (qualify name a)).map (qualify name) ++
      if h.raw.size = 0 then [] else h.rs.map (·.multiplier.qualified) := by
  rw [h.columns_eq, frame, List.filter_append, List.map_append, h.names_stored_remaining hnames,
    h.names_stored_multipliers]

theorem multiplier_mem_dropped {r : Relationship} (hr : r ∈ h.rs) :
    r.multiplier.qualified ∈ p.metadata.dropped ↔ h.raw.size = 0 := by
  rw [h.dropped_eq]
  constructor
  · intro hmem
    obtain ⟨c, hc, hname⟩ := List.mem_map.mp hmem
    obtain ⟨hc, hunfit⟩ := List.mem_filter.mp hc
    rcases List.mem_append.mp hc with hc | hc
    · obtain ⟨a, ha, -, hca⟩ := h.exists_kept ((Frame.sublist_erase _ _).subset hc)
      exact absurd (hname.symm.trans hca) (hnames.multiplier h.rs h.incoming r hr a ha)
    · obtain ⟨m, hm, rfl⟩ := List.mem_map.mp hc
      rw [Multiplier.isUnfit_column, List.isEmpty_iff] at hunfit
      exact (h.counts_eq_nil_iff hm).mp hunfit
  · intro hempty
    obtain ⟨m, hm, f, -, hcompute⟩ := h.adds.exists_compute hr
    refine List.mem_map.mpr ⟨m.column, List.mem_filter.mpr ⟨h.column_mem_frame hm, ?_⟩, ?_⟩
    · rw [Multiplier.isUnfit_column, List.isEmpty_iff]
      exact (h.counts_eq_nil_iff hm).mpr hempty
    · rw [Multiplier.column, (Multiplier.compute_eq_ok hcompute).1]

end

include h in
theorem count_nullValues (column : String) :
    p.metadata.nullValues.keys.count column = if column ∈ p.table.columns then 1 else 0 := by
  rw [p.metadata.nullValues.nodup_keys.count]
  exact if_congr h.mem_nullValues rfl rfl

theorem accountsFor [NumericScalar N] (hnames : g.DistinctNames name h.raw) :
    p.AccountsFor h.table h.raw h.rs := by
  have hname := Schema.name_of_table h.known
  refine ⟨fun a ha => by rw [hname, h.count_names hnames ha], by rw [h.metadata_eq],
    by rw [hname, ← h.columns_eq_names hnames], fun r hr => h.multiplier_mem_dropped hnames hr,
    h.rectangular.width, ?_, h.count_nullValues, fun determinant dependent map hmap => ?_⟩
  · rw [h.metadata_eq]
    exact h.rectangular.length
  · obtain ⟨d, hd, -, -, rfl, -⟩ := h.exists_compresses hmap
    obtain ⟨a, ha, hkept, hda⟩ := h.exists_kept hd
    have hplace : d.name ∈ p.table.columns ∨ d.name ∈ p.metadata.dependents := by
      rw [h.map?_eq] at hmap
      exact (h.mem_columns_or_mem_via hmap).imp_right h.mem_dependents_iff.mpr
    refine ⟨fun hdropped => ?_, hplace, a, ha, hkept, by rw [hname, hda]⟩
    -- a dropped determinant would be listed twice
    have hcount := h.count_names hnames ha
    rw [if_neg hkept, ← hda, List.count_append, List.count_append] at hcount
    have hone := List.count_pos_iff.mpr hdropped
    rcases hplace with hmem | hmem
    · have htwo := List.count_pos_iff.mpr hmem
      omega
    · have htwo := List.count_pos_iff.mpr hmem
      omega

end Preparation

/-- Preparation accounts for all columns, whatever is ignored, dropped or compressed. -/
theorem Schema.prepare_accounts_for_columns {g : Schema Float} {source : RawSource Float}
    {config : PreparationConfig Float} {name : String} {t : Table Float} {p : PreparedTable Float}
    {raw : RawTable Float} {rs : List Relationship} (h : g.prepare source config name = .ok p)
    (ht : g.table name = .ok t) (hraw : source name = .ok raw) (hrs : g.incoming name = .ok rs)
    (hnames : g.DistinctNames name raw) : p.AccountsFor t raw rs := by
  obtain ⟨prep⟩ := Schema.prepare_eq_ok h
  cases Except.ok.inj (prep.known.symm.trans ht)
  cases Except.ok.inj (prep.source_eq.symm.trans hraw)
  cases Except.ok.inj (prep.incoming.symm.trans hrs)
  exact prep.accountsFor hnames

namespace Guests

/-- One column is ignored, one has no values, and the room determines the floor. -/
def guest : Table Float :=
  { (Table.named "guest").withDependency "room" "floor" with ignored := ["name"] }

def stays : Relationship := .between "stay" "guest" "guest" "id" none

def schema : Schema Float :=
  ⟨[Schema.link stays guest, Schema.link stays (.named "stay")], [stays]⟩

def raw : RawTable Float where
  columns := ["id", "name", "floor", "room", "note"]
  rows := [[.int 1, .text "Ada", .int 2, .int 21, .null], [.int 2, .text "Bob", .null, .null, .null],
    [.int 3, .text "Cid", .int 2, .int 22, .null]]

def source : RawSource Float :=
  .ofTables [("guest", raw), ("stay", ⟨["id", "guest"], [[.int 7, .int 3]]⟩)]

theorem incoming : schema.incoming "guest" = .ok [stays] := rfl

theorem distinctNames : schema.DistinctNames "guest" raw := by
  refine ⟨by decide, fun rs hrs r hr a ha => ?_⟩
  cases Except.ok.inj (incoming.symm.trans hrs)
  cases List.mem_singleton.mp hr
  revert a
  decide +kernel

theorem prepare_accounts_for_guests :
    ∃ p, schema.prepare source .standard "guest" = .ok p ∧
      schema.table "guest" = .ok (Schema.link stays guest) ∧ source "guest" = .ok raw ∧
      schema.incoming "guest" = .ok [stays] ∧ schema.DistinctNames "guest" raw ∧
      p.AccountsFor (Schema.link stays guest) raw [stays] := by
  obtain ⟨p, hp⟩ := exists_eq_ok (x := schema.prepare source .standard "guest") (by decide +kernel)
  exact ⟨p, hp, rfl, rfl, incoming, distinctNames,
    Schema.prepare_accounts_for_columns hp rfl rfl incoming distinctNames⟩

end Guests

end ApproxQuery

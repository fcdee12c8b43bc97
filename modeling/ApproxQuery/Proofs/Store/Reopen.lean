import ApproxQuery.Proofs.Prepare.FiniteNumbers
import ApproxQuery.Proofs.Prepare.MetadataValues
import ApproxQuery.Proofs.Store.TableFile
import ApproxQuery.Store.Basic

/-!
# Opening a prepared store again

After all tables of a schema were prepared, every table whose file is its own is read from the store
as it was prepared. The metadata is read as it was returned exactly if no value in it is an infinity
or the result of an undefined operation; else nothing of it can be read.
-/

namespace ApproxQuery

theorem EncodedTable.map_toBits_ofBits (t : EncodedTable Float) :
    (t.map Float.toBits).map Float.ofBits = t := by
  have hnumber : Float.ofBits ∘ Float.toBits = id := funext Float.ofBits_toBits
  have hcolumn : List.map Float.ofBits ∘ List.map Float.toBits = id := by
    rw [List.map_comp_map, hnumber, List.map_id_fun]
  have hdata : (t.data.map (List.map Float.toBits)).map (List.map Float.ofBits) = t.data := by
    rw [List.map_map, hcolumn, List.map_id]
  exact congrArg (EncodedTable.mk t.name t.columns) hdata

theorem TableFile.Fits.toBits {t : EncodedTable Float} (h : Fits t) : Fits (t.map Float.toBits) := by
  refine ⟨h.name, h.columns, h.column, (List.length_map _).trans_lt h.width, fun numbers hn => ?_⟩
  obtain ⟨xs, hxs, rfl⟩ := List.mem_map.mp hn
  exact (List.length_map _).trans_lt (h.length xs hxs)

theorem TableFile.Fits.size {t : EncodedTable Float} (h : Fits t) : t.size < 2 ^ 64 := by
  unfold EncodedTable.size
  cases hd : t.data with
  | nil => exact Nat.two_pow_pos 64
  | cons first rest => exact h.length first (hd ▸ List.mem_cons_self)

/-- The table and the number of its raw rows fit the memory of a machine. -/
@[mk_iff]
structure PreparedTable.Fits (p : PreparedTable Float) : Prop where
  table : TableFile.Fits p.table
  length : p.metadata.length < 2 ^ 64

instance (p : PreparedTable Float) : Decidable p.Fits :=
  decidable_of_iff' _ (PreparedTable.fits_iff p)

theorem TableMetadata.MadeOf.finiteValues {m : TableMetadata Float} {raw : RawTable Float}
    (h : m.MadeOf raw) (hraw : ∀ row ∈ raw.rows, ∀ v ∈ row, v.Finite) : m.FiniteValues := by
  have hfinite {v : Value Float} (hv : raw.Holds v) : v.Finite := by
    rcases hv with rfl | ⟨row, hrow, hv⟩
    · trivial
    · exact hraw row hrow v hv
  refine ⟨fun e he v hv => hfinite (h.dictionary e he v hv), fun e he f hf p hp => ?_⟩
  obtain ⟨hkey, hvalue⟩ := h.map e he f hf p hp
  exact ⟨hfinite hkey, hfinite hvalue⟩

namespace Store

variable {s s' : Store}

/-! ## Table files -/

/-- The bytes that a table is saved as. -/
def image (t : EncodedTable Float) : List UInt8 :=
  TableFile.write (t.map Float.toBits)

theorem saveTable_eq_ok {t : EncodedTable Float} (h : s.saveTable t = .ok s') :
    ∃ l, Location.location? t.name = some l ∧ s' = { s with files := s.files.insert l (image t) } := by
  unfold saveTable saveBits writeFile at h
  split at h
  · rename_i l hl
    cases h
    exact ⟨l, hl, rfl⟩
  · cases h

theorem file?_saveTable {t : EncodedTable Float} (h : s.saveTable t = .ok s') :
    s'.file? t.name = some (image t) := by
  obtain ⟨l, hl, rfl⟩ := saveTable_eq_ok h
  rw [file?, hl]
  exact SortedMap.get?_insert_self

/-- Saving a table leaves the files of all other locations as they are. -/
theorem file?_saveTable_of_ne {t : EncodedTable Float} {name : String} (h : s.saveTable t = .ok s')
    (hne : Location.location? name ≠ Location.location? t.name) : s'.file? name = s.file? name := by
  obtain ⟨l, hl, rfl⟩ := saveTable_eq_ok h
  unfold file?
  cases hname : Location.location? name with
  | none => rfl
  | some k =>
    refine SortedMap.get?_insert_of_ne fun heq => hne ?_
    rw [hname, hl, heq]

theorem file?_saveTables_of_ne {ts : List (EncodedTable Float)} {name : String}
    (h : saveTables ts s = (.ok (), s'))
    (hne : ∀ t ∈ ts, Location.location? name ≠ Location.location? t.name) :
    s'.file? name = s.file? name := by
  induction ts generalizing s with
  | nil =>
    cases h
    rfl
  | cons t ts ih =>
    unfold saveTables at h
    split at h
    · cases h
    · rename_i s₁ hs₁
      rw [ih h fun u hu => hne u (List.mem_cons_of_mem t hu)]
      exact file?_saveTable_of_ne hs₁ (hne t List.mem_cons_self)

theorem file?_saveTables {ts : List (EncodedTable Float)} {t : EncodedTable Float}
    (h : saveTables ts s = (.ok (), s')) (ht : t ∈ ts)
    (hown : ∀ u ∈ ts, Location.location? t.name = Location.location? u.name → u = t) :
    s'.file? t.name = some (image t) := by
  induction ts generalizing s with
  | nil => cases ht
  | cons u ts ih =>
    unfold saveTables at h
    split at h
    · cases h
    · rename_i s₁ hs₁
      -- a table that comes twice is written again, with the same bytes
      by_cases hrest : t ∈ ts
      · exact ih h hrest fun v hv => hown v (List.mem_cons_of_mem u hv)
      · have hfirst : t = u := (List.mem_cons.mp ht).resolve_right hrest
        rw [file?_saveTables_of_ne h]
        · exact hfirst ▸ file?_saveTable hs₁
        · intro v hv heq
          exact hrest (hown v (List.mem_cons_of_mem u hv) heq ▸ hv)

theorem loadTable_eq {t : EncodedTable Float} (hfits : TableFile.Fits t)
    (h : s.file? t.name = some (image t)) : s.loadTable t.name = .ok t := by
  unfold loadTable
  rw [h]
  change (TableFile.read (image t)).map _ = _
  rw [image, TableFile.read_write hfits.toBits]
  exact congrArg Except.ok t.map_toBits_ofBits

/-! ## The whole store -/

variable {g : Schema Float} {source : RawSource Float} {config : PreparationConfig Float}
  {m : SortedMap String (TableMetadata Float)}

theorem names_of_prepare {name : String} {p : PreparedTable Float}
    (h : g.prepare source config name = .ok p) : p.table.name = name ∧ p.metadata.table = name := by
  obtain ⟨prep⟩ := Schema.prepare_eq_ok h
  exact ⟨prep.name_eq, prep.metadata_known.1⟩

theorem prepareAll_eq_ok (h : s.prepareAll g source config = (.ok m, s')) :
    ∃ prepared s₁, g.tables.mapM (fun t => g.prepare source config t.name) = .ok prepared ∧
      saveTables (prepared.map (·.table)) s = (.ok (), s₁) ∧
      m = .ofList (prepared.map fun p => (p.metadata.table, p.metadata)) ∧ s' = s₁.saveMetadata m := by
  unfold prepareAll at h
  split at h
  · cases h
  · rename_i prepared hprepared
    split at h
    · cases h
    · rename_i s₁ hs₁
      cases h
      exact ⟨prepared, s₁, hprepared, hs₁, rfl, rfl⟩

/-- The returned map holds the metadata of the tables of the schema, and of no other ones. -/
theorem exists_of_mem_metadata (h : s.prepareAll g source config = (.ok m, s'))
    {e : String × TableMetadata Float} (he : e ∈ m.toList) :
    ∃ t ∈ g.tables, ∃ p, g.prepare source config t.name = .ok p ∧ e.2 = p.metadata := by
  obtain ⟨prepared, s₁, hprepared, -, rfl, -⟩ := prepareAll_eq_ok h
  obtain ⟨p, hp, heq⟩ := List.mem_map.mp (SortedMap.mem_of_get?_ofList (SortedMap.get?_eq_some.mpr he))
  obtain ⟨t, ht, hprep⟩ := exists_origin_of_mapM hprepared hp
  exact ⟨t, ht, p, hprep, (congrArg Prod.snd heq).symm⟩

theorem exists_prepared (hg : g.Linked) (h : s.prepareAll g source config = (.ok m, s')) {t : Table Float}
    (ht : t ∈ g.tables) :
    ∃ p, g.prepare source config t.name = .ok p ∧ m.get? t.name = some p.metadata := by
  obtain ⟨prepared, s₁, hprepared, -, rfl, -⟩ := prepareAll_eq_ok h
  obtain ⟨p, hp, hprep⟩ := exists_result_of_mapM hprepared ht
  have hnames : prepared.map (·.metadata.table) = g.tables.map Table.name := by
    have hforall := mapM_eq_ok.mp hprepared
    refine List.forall₂_eq_eq_eq ▸ List.forall₂_map_left_iff.mpr (List.forall₂_map_right_iff.mpr ?_)
    exact (hforall.imp fun u q hq => (names_of_prepare hq).2).flip
  refine ⟨p, hprep, SortedMap.get?_ofList_of_nodup ?_ ?_⟩
  · rw [List.map_map]
    exact hnames ▸ hg.names
  · exact List.mem_map.mpr ⟨p, hp, congrArg (·, p.metadata) (names_of_prepare hprep).2⟩

/-- A table whose file is its own is stored as it was prepared. -/
theorem file?_prepareAll (h : s.prepareAll g source config = (.ok m, s')) {t : Table Float}
    {p : PreparedTable Float} (ht : t ∈ g.tables) (hp : g.prepare source config t.name = .ok p)
    (hown : ∀ u ∈ g.tables, Location.location? t.name = Location.location? u.name → u.name = t.name) :
    s'.file? t.name = some (image p.table) := by
  obtain ⟨prepared, s₁, hprepared, hsaved, -, rfl⟩ := prepareAll_eq_ok h
  obtain ⟨q, hq, hprep⟩ := exists_result_of_mapM hprepared ht
  cases Except.ok.inj (hp.symm.trans hprep)
  have hname : p.table.name = t.name := (names_of_prepare hp).1
  have hfile : s₁.file? p.table.name = some (image p.table) := by
    refine file?_saveTables hsaved (List.mem_map_of_mem hq) fun v hv hloc => ?_
    obtain ⟨q', hq', rfl⟩ := List.mem_map.mp hv
    obtain ⟨u, hu, hprep'⟩ := exists_origin_of_mapM hprepared hq'
    rw [hname, (names_of_prepare hprep').1] at hloc
    rw [hown u hu hloc, hp] at hprep'
    exact (congrArg PreparedTable.table (Except.ok.inj hprep')).symm
  exact hname ▸ hfile

/-- A table whose file is its own is read as it was prepared. -/
theorem loadTable_prepareAll (h : s.prepareAll g source config = (.ok m, s')) {t : Table Float}
    {p : PreparedTable Float} (ht : t ∈ g.tables) (hp : g.prepare source config t.name = .ok p)
    (hfits : TableFile.Fits p.table)
    (hown : ∀ u ∈ g.tables, Location.location? t.name = Location.location? u.name → u.name = t.name) :
    s'.loadTable t.name = .ok p.table := by
  have hname : p.table.name = t.name := (names_of_prepare hp).1
  have hfile : s'.file? p.table.name = some (image p.table) := hname ▸ file?_prepareAll h ht hp hown
  exact hname ▸ loadTable_eq hfits hfile

theorem loadMetadata_prepareAll (hg : g.Built) (h : s.prepareAll g source config = (.ok m, s'))
    (hfits : ∀ t ∈ g.tables, ∀ p, g.prepare source config t.name = .ok p → p.Fits) :
    (s'.loadMetadata = .ok m ↔ ∀ e ∈ m.toList, e.2.FiniteValues) ∧
      ((¬ ∀ e ∈ m.toList, e.2.FiniteValues) → s'.loadMetadata = .error .malformedMetadata) := by
  have hread : s'.loadMetadata = MetadataFile.read (MetadataFile.write m) := by
    obtain ⟨prepared, s₁, -, -, -, rfl⟩ := prepareAll_eq_ok h
    rfl
  have hnumbers : ∀ e ∈ m.toList, e.2.FiniteNumbers := by
    intro e he
    obtain ⟨t, ht, p, hp, hmetadata⟩ := exists_of_mem_metadata h he
    obtain ⟨prep⟩ := Schema.prepare_eq_ok hp
    have hfit := hfits t ht p hp
    exact hmetadata ▸ prep.finiteNumbers hg hfit.length hfit.table.size
  rw [hread]
  refine ⟨⟨fun hok => ?_, fun hvalues => ?_⟩, MetadataFile.read_write_eq_error⟩
  · by_contra hvalues
    rw [MetadataFile.read_write_eq_error hvalues] at hok
    cases hok
  · exact MetadataFile.read_write fun e he => ⟨hvalues e he, hnumbers e he⟩

theorem finiteValues_prepareAll (h : s.prepareAll g source config = (.ok m, s'))
    (hsource : ∀ t ∈ g.tables, ∀ raw, source t.name = .ok raw → ∀ row ∈ raw.rows, ∀ v ∈ row, v.Finite) :
    ∀ e ∈ m.toList, e.2.FiniteValues := by
  intro e he
  obtain ⟨t, ht, p, hp, hmetadata⟩ := exists_of_mem_metadata h he
  obtain ⟨prep⟩ := Schema.prepare_eq_ok hp
  exact hmetadata ▸ prep.madeOf.finiteValues (hsource t ht prep.raw prep.source_eq)

/-- After all tables were prepared, the store gives back every table that shares its file with no
other one, and the returned metadata if all values in it are finite, as they are if all raw values
are. The metadata can not be read if one of them is not. -/
theorem prepareAll_reopens (hg : g.Built) (h : s.prepareAll g source config = (.ok m, s'))
    (hfits : ∀ t ∈ g.tables, ∀ p, g.prepare source config t.name = .ok p → p.Fits) :
    (s'.loadMetadata = .ok m ↔ ∀ e ∈ m.toList, e.2.FiniteValues) ∧
      ((¬ ∀ e ∈ m.toList, e.2.FiniteValues) → s'.loadMetadata = .error .malformedMetadata) ∧
      ((∀ t ∈ g.tables, ∀ raw, source t.name = .ok raw → ∀ row ∈ raw.rows, ∀ v ∈ row, v.Finite) →
        ∀ e ∈ m.toList, e.2.FiniteValues) ∧
      ∀ t ∈ g.tables, ∃ p, g.prepare source config t.name = .ok p ∧
        m.get? t.name = some p.metadata ∧
        ((∀ u ∈ g.tables, Location.location? t.name = Location.location? u.name → u.name = t.name) →
          s'.loadTable t.name = .ok p.table) := by
  obtain ⟨hload, hfail⟩ := loadMetadata_prepareAll hg h hfits
  refine ⟨hload, hfail, finiteValues_prepareAll h, fun t ht => ?_⟩
  obtain ⟨p, hp, hmetadata⟩ := exists_prepared hg.linked h ht
  exact ⟨p, hp, hmetadata, loadTable_prepareAll h ht hp (hfits t ht p hp).table⟩

end Store

namespace Archive

def item : Table Float := { Table.named "item" with attributes := ["id"] }

def schema : Schema Float := ⟨[item], []⟩

theorem built : schema.Built := by
  have hitem : Schema.empty.addTable item = .ok schema := by decide +kernel
  exact Schema.Built.empty.addTable rfl rfl hitem

/-- Two items, the first with a text and the second with another value. -/
def source (tag : Value Float) : RawSource Float :=
  .ofTables [("item", ⟨["id", "tag"], [[.int 1, .text "new"], [.int 2, tag]]⟩)]

theorem exists_prepareAll (tag : Value Float)
    (h : (Store.empty.prepareAll schema (source tag) .standard).1.toOption.isSome = true) :
    ∃ m s', Store.empty.prepareAll schema (source tag) .standard = (.ok m, s') := by
  obtain ⟨m, hm⟩ := exists_eq_ok h
  exact ⟨m, _, Prod.ext hm rfl⟩

theorem fits (tag : Value Float)
    (h : (schema.prepare (source tag) .standard "item").toOption.all (fun p => decide p.Fits) = true) :
    ∀ t ∈ schema.tables, ∀ p, schema.prepare (source tag) .standard t.name = .ok p → p.Fits := by
  intro t ht p hp
  cases List.mem_singleton.mp ht
  have hp : schema.prepare (source tag) .standard "item" = .ok p := hp
  rw [hp] at h
  exact of_decide_eq_true h

/-- A number in a column of texts is kept. -/
theorem prepareAll_reopens_number :
    ∃ m s' p, Store.empty.prepareAll schema (source (.num 2.5)) .standard = (.ok m, s') ∧
      schema.prepare (source (.num 2.5)) .standard "item" = .ok p ∧ m.get? "item" = some p.metadata ∧
      s'.loadMetadata = .ok m ∧ s'.loadTable "item" = .ok p.table := by
  obtain ⟨m, s', h⟩ := exists_prepareAll (.num 2.5) (by decide +kernel)
  obtain ⟨hload, -, hvalues, htables⟩ :=
    Store.prepareAll_reopens built h (fits (.num 2.5) (by decide +kernel))
  obtain ⟨p, hp, hmetadata, htable⟩ := htables _ List.mem_cons_self
  refine ⟨m, s', p, h, hp, hmetadata, hload.mpr (hvalues fun t ht raw hraw => ?_), htable ?_⟩
  · cases List.mem_singleton.mp ht
    cases hraw
    decide +kernel
  · intro u hu _
    cases List.mem_singleton.mp hu
    rfl

/-- The metadata of a table with an infinity in a column of texts can not be read. -/
theorem prepareAll_loses_infinity :
    ∃ m s', Store.empty.prepareAll schema (source (.num (1 / 0))) .standard = (.ok m, s') ∧
      s'.loadMetadata = .error .malformedMetadata := by
  obtain ⟨m, s', h⟩ := exists_prepareAll (.num (1 / 0)) (by decide +kernel)
  have hinfinite : ∃ e ∈ m.toList, ∃ d ∈ e.2.categoricals.toList, ∃ v ∈ d.2, ¬ v.Finite := by
    have hdictionary : (Store.empty.prepareAll schema (source (.num (1 / 0))) .standard).1.toOption.any
        (fun m => decide (∃ e ∈ m.toList, ∃ d ∈ e.2.categoricals.toList, ∃ v ∈ d.2, ¬ v.Finite)) =
          true := by
      decide +kernel
    rw [h] at hdictionary
    exact of_decide_eq_true hdictionary
  obtain ⟨-, hfail⟩ :=
    Store.loadMetadata_prepareAll built h (fits (.num (1 / 0)) (by decide +kernel))
  refine ⟨m, s', h, hfail fun hvalues => ?_⟩
  obtain ⟨e, he, d, hd, v, hv, hnot⟩ := hinfinite
  exact hnot ((hvalues e he).dictionary d hd v hv)

end Archive

end ApproxQuery

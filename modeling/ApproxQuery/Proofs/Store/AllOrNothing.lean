import ApproxQuery.Proofs.Store.Reopen

/-!
# All tables are prepared or none is stored

No file of a store is written before the last table is prepared, so a table that cannot be prepared
leaves the store as it was. Else every table has an entry and a file of its own, as a built schema
has no two tables of one name and names without a stroke have different files.
-/

namespace ApproxQuery

namespace Location

theorem tablePath_injective : Function.Injective tablePath := by
  intro a b h
  have hlist := congrArg String.toList h
  rw [toList_tablePath, toList_tablePath] at hlist
  exact String.toList_injective (List.append_cancel_right hlist)

/-- The file of a name that is no path lies in the store itself. -/
theorem eq_tablePath {name l : String} (hplain : '/' ∉ name.toList) (h : location? name = some l) :
    l = tablePath name := by
  have hway : (parts (tablePath name).toList).filter leads = [(tablePath name).toList] := by
    rw [parts_of_plain hplain, List.filter_cons_of_pos (leads_tablePath name), List.filter_nil]
  unfold location? at h
  simp only [hway] at h
  split at h
  · cases h
    simp
  · cases h

/-- Two names that are no paths have one file only if they are one name. -/
theorem eq_of_location? {a b l : String} (ha : '/' ∉ a.toList) (hb : '/' ∉ b.toList)
    (hal : location? a = some l) (hbl : location? b = some l) : a = b :=
  tablePath_injective ((eq_tablePath ha hal).symm.trans (eq_tablePath hb hbl))

end Location

namespace Store

variable {s s' : Store}

theorem exists_saveTable_eq_ok {t : EncodedTable Float} :
    (∃ s', s.saveTable t = .ok s') ↔ (Location.location? t.name).isSome = true := by
  unfold saveTable saveBits writeFile
  cases h : Location.location? t.name with
  | none => simp [EncodedTable.map, h]
  | some l => simp [EncodedTable.map, h]

/-- Tables are saved unless one of them can have no file. -/
theorem exists_saveTables_eq_ok {ts : List (EncodedTable Float)} :
    (∃ s', saveTables ts s = (.ok (), s')) ↔
      ∀ t ∈ ts, (Location.location? t.name).isSome = true := by
  induction ts generalizing s with
  | nil => exact ⟨fun _ t ht => (List.not_mem_nil ht).elim, fun _ => ⟨s, rfl⟩⟩
  | cons t ts ih =>
    rw [List.forall_mem_cons, ← exists_saveTable_eq_ok (s := s)]
    unfold saveTables
    cases hs : s.saveTable t with
    | error e => simp
    | ok s₁ => simp [ih]

/-- A location that is not the one of a saved table keeps its bytes. -/
theorem get?_files_saveTables {ts : List (EncodedTable Float)} {l : String}
    (h : saveTables ts s = (.ok (), s')) (hne : ∀ t ∈ ts, Location.location? t.name ≠ some l) :
    s'.files.get? l = s.files.get? l := by
  induction ts generalizing s with
  | nil =>
    cases h
    rfl
  | cons t ts ih =>
    unfold saveTables at h
    split at h
    · cases h
    · rename_i s₁ hs₁
      rw [ih h fun u hu => hne u (List.mem_cons_of_mem t hu)]
      obtain ⟨k, hk, rfl⟩ := saveTable_eq_ok hs₁
      refine SortedMap.get?_insert_of_ne fun heq => hne t List.mem_cons_self ?_
      rw [hk, heq]

variable {g : Schema Float} {source : RawSource Float} {config : PreparationConfig Float}
  {m : SortedMap String (TableMetadata Float)}

/-- A table that cannot be prepared leaves the store as it was. -/
theorem prepareAll_of_failing
    (h : ∃ t ∈ g.tables, ∃ e, g.prepare source config t.name = .error e) :
    ∃ t ∈ g.tables, ∃ e, g.prepare source config t.name = .error e ∧
      s.prepareAll g source config = (.error e, s) := by
  cases hall : g.tables.mapM fun t => g.prepare source config t.name with
  | error e =>
    obtain ⟨t, ht, hte⟩ := exists_of_mapM_eq_error hall
    refine ⟨t, ht, e, hte, ?_⟩
    rw [prepareAll, hall]
  | ok prepared =>
    obtain ⟨t, ht, e, hte⟩ := h
    obtain ⟨p, -, hp⟩ := exists_result_of_mapM hall ht
    cases hp.symm.trans hte

/-- When all tables are prepared, only a table that can have no file is in the way. -/
theorem exists_prepareAll_eq_ok (h : ∀ t ∈ g.tables, ∃ p, g.prepare source config t.name = .ok p) :
    (∃ m s', s.prepareAll g source config = (.ok m, s')) ↔
      ∀ t ∈ g.tables, (Location.location? t.name).isSome = true := by
  obtain ⟨prepared, hall⟩ := exists_mapM_eq_ok h
  have hsaved : (∃ m s', s.prepareAll g source config = (.ok m, s')) ↔
      ∃ s₁, saveTables (prepared.map (·.table)) s = (.ok (), s₁) := by
    rw [prepareAll, hall]
    rcases hs : saveTables (prepared.map (·.table)) s with ⟨_ | _, s₁⟩ <;> simp [hs]
  rw [hsaved, exists_saveTables_eq_ok, List.forall_mem_map]
  constructor
  · intro hlocated t ht
    obtain ⟨p, hp, hprep⟩ := exists_result_of_mapM hall ht
    exact (names_of_prepare hprep).1 ▸ hlocated p hp
  · intro hlocated p hp
    obtain ⟨t, ht, hprep⟩ := exists_origin_of_mapM hall hp
    exact (names_of_prepare hprep).1 ▸ hlocated t ht

/-- The entries of the returned map are the names of the tables with their metadata. -/
theorem get?_metadata_iff (hg : g.Linked) (h : s.prepareAll g source config = (.ok m, s'))
    {name : String} {metadata : TableMetadata Float} :
    m.get? name = some metadata ↔
      ∃ t ∈ g.tables, t.name = name ∧
        ∃ p, g.prepare source config t.name = .ok p ∧ p.metadata = metadata := by
  constructor
  · intro hget
    obtain ⟨prepared, s₁, hprepared, -, rfl, -⟩ := prepareAll_eq_ok h
    obtain ⟨p, hp, heq⟩ := List.mem_map.mp (SortedMap.mem_of_get?_ofList hget)
    obtain ⟨t, ht, hprep⟩ := exists_origin_of_mapM hprepared hp
    cases heq
    exact ⟨t, ht, (names_of_prepare hprep).2.symm, p, hprep, rfl⟩
  · rintro ⟨t, ht, rfl, p, hp, rfl⟩
    obtain ⟨q, hq, hget⟩ := exists_prepared hg h ht
    cases Except.ok.inj (hp.symm.trans hq)
    exact hget

/-- What is returned and stored after all tables of a schema were prepared. -/
structure HoldsAll (g : Schema Float) (source : RawSource Float) (config : PreparationConfig Float)
    (s s' : Store) (m : SortedMap String (TableMetadata Float)) : Prop where
  entries : ∀ name metadata, m.get? name = some metadata ↔
    ∃ t ∈ g.tables, t.name = name ∧
      ∃ p, g.prepare source config t.name = .ok p ∧ p.metadata = metadata
  tables : ∀ t ∈ g.tables, ∃ p, g.prepare source config t.name = .ok p ∧
    s'.file? t.name = some (image p.table) ∧
    (TableFile.Fits p.table → s'.loadTable t.name = .ok p.table)
  /-- Tables outside the schema keep their files. -/
  others : ∀ name, (∀ t ∈ g.tables, t.name ≠ name) → '/' ∉ name.toList → s'.file? name = s.file? name
  /-- No file but those of the tables is written. -/
  locations : ∀ l, (∀ t ∈ g.tables, Location.tablePath t.name ≠ l) → s'.files.get? l = s.files.get? l
  metadata : s'.metadata? = some (MetadataFile.write m)

theorem holdsAll_of_prepareAll (hg : g.Linked) (hplain : ∀ t ∈ g.tables, '/' ∉ t.name.toList)
    (h : s.prepareAll g source config = (.ok m, s')) : HoldsAll g source config s s' m := by
  have hlocated {t : Table Float} (ht : t ∈ g.tables) :
      Location.location? t.name = some (Location.tablePath t.name) := by
    have hprepared (u : Table Float) (hu : u ∈ g.tables) :
        ∃ p, g.prepare source config u.name = .ok p := by
      obtain ⟨p, hp, -⟩ := exists_prepared hg h hu
      exact ⟨p, hp⟩
    obtain ⟨l, hl⟩ := Option.isSome_iff_exists.mp
      ((exists_prepareAll_eq_ok hprepared).mp ⟨m, s', h⟩ t ht)
    rw [hl, Location.eq_tablePath (hplain t ht) hl]
  have hown {t u : Table Float} (ht : t ∈ g.tables) (hu : u ∈ g.tables)
      (heq : Location.location? t.name = Location.location? u.name) : u.name = t.name :=
    Location.eq_of_location? (hplain u hu) (hplain t ht) (hlocated hu) (heq ▸ hlocated hu)
  have hlocations (l : String) (hl : ∀ t ∈ g.tables, Location.tablePath t.name ≠ l) :
      s'.files.get? l = s.files.get? l := by
    obtain ⟨prepared, s₁, hprepared, hsaved, -, rfl⟩ := prepareAll_eq_ok h
    have hkept : s₁.files.get? l = s.files.get? l := by
      refine get?_files_saveTables hsaved fun v hv heq => ?_
      obtain ⟨p, hp, rfl⟩ := List.mem_map.mp hv
      obtain ⟨t, ht, hprep⟩ := exists_origin_of_mapM hprepared hp
      rw [(names_of_prepare hprep).1, hlocated ht] at heq
      exact hl t ht (Option.some.inj heq)
    exact hkept
  refine ⟨fun name metadata => get?_metadata_iff hg h, fun t ht => ?_, fun name hname hp => ?_,
    hlocations, ?_⟩
  · obtain ⟨p, hp, -⟩ := exists_prepared hg h ht
    exact ⟨p, hp, file?_prepareAll h ht hp fun u hu => hown ht hu,
      fun hfits => loadTable_prepareAll h ht hp hfits fun u hu => hown ht hu⟩
  · unfold file?
    cases hl : Location.location? name with
    | none => rfl
    | some l =>
      refine hlocations l fun t ht heq => hname t ht ?_
      exact Location.tablePath_injective (heq.trans (Location.eq_tablePath hp hl))
  · obtain ⟨prepared, s₁, -, -, -, rfl⟩ := prepareAll_eq_ok h
    rfl

/-- If a table of a schema cannot be prepared, its error is returned and the store is left as it was.
Else, unless a table can have no file, the returned map has an entry for each table and for nothing
else, and the store holds each table as it was prepared and everything else as before. -/
theorem prepareAll_all_or_nothing (hg : g.Built) (hplain : ∀ t ∈ g.tables, '/' ∉ t.name.toList) :
    ((∃ t ∈ g.tables, ∃ e, g.prepare source config t.name = .error e) →
      ∃ t ∈ g.tables, ∃ e, g.prepare source config t.name = .error e ∧
        s.prepareAll g source config = (.error e, s)) ∧
    ((∀ t ∈ g.tables, ∃ p, g.prepare source config t.name = .ok p) →
      ((∃ m s', s.prepareAll g source config = (.ok m, s')) ↔
        ∀ t ∈ g.tables, (Location.location? t.name).isSome = true) ∧
      ∀ m s', s.prepareAll g source config = (.ok m, s') → HoldsAll g source config s s' m) := by
  refine ⟨prepareAll_of_failing, fun h => ⟨exists_prepareAll_eq_ok h, fun m s' hok => ?_⟩⟩
  exact holdsAll_of_prepareAll hg.linked hplain hok

end Store

namespace Depot

def part : Table Float := { Table.named "part" with attributes := ["id"] }

def bin : Table Float := { Table.named "bin" with attributes := ["id", "part"] }

def schema : Schema Float := ⟨[part, bin], []⟩

theorem built : schema.Built := by
  have hpart : Schema.empty.addTable part = .ok ⟨[part], []⟩ := by decide +kernel
  have hbin : (⟨[part], []⟩ : Schema Float).addTable bin = .ok schema := by decide +kernel
  exact (Schema.Built.empty.addTable rfl rfl hpart).addTable rfl rfl hbin

def parts : RawTable Float := ⟨["id"], [[.int 1], [.int 2]]⟩

def bins : RawTable Float := ⟨["id", "part"], [[.int 7, .int 1]]⟩

/-- A store with an earlier file of the parts and a file of another table. -/
def store : Store := ⟨.ofList [("part.bin", [1, 2]), ("crate.bin", [3])], none⟩

/-- The source has the parts, and the bins too unless they are missing. -/
def source (missing : Bool) : RawSource Float :=
  .ofTables (("part", parts) :: if missing then [] else [("bin", bins)])

/-- When the bins are missing nothing is stored, not even the parts. Else both are, and the crates stay
where they were. -/
theorem prepareAll_all_or_nothing_depot :
    (∃ e, schema.prepare (source true) .standard "bin" = .error e ∧
      store.prepareAll schema (source true) .standard = (.error e, store)) ∧
    ∃ m s' p, store.prepareAll schema (source false) .standard = (.ok m, s') ∧
      schema.prepare (source false) .standard "part" = .ok p ∧
      m.get? "part" = some p.metadata ∧ s'.file? "part" = some (Store.image p.table) ∧
      s'.file? "crate" = some [3] := by
  have hplain : ∀ t ∈ schema.tables, '/' ∉ t.name.toList := by decide +kernel
  have hbin : bin ∈ schema.tables := List.mem_cons_of_mem part List.mem_cons_self
  have hpart : part ∈ schema.tables := List.mem_cons_self
  constructor
  · obtain ⟨hfailing, -⟩ := @Store.prepareAll_all_or_nothing store schema (source true) .standard
      built hplain
    have hmissing : ∃ e, schema.prepare (source true) .standard bin.name = .error e :=
      exists_eq_error (by decide +kernel)
    obtain ⟨t, ht, e, he, hstore⟩ := hfailing ⟨bin, hbin, hmissing⟩
    rcases List.mem_pair.mp ht with rfl | rfl
    · obtain ⟨p, hp⟩ : ∃ p, schema.prepare (source true) .standard part.name = .ok p :=
        exists_eq_ok (by decide +kernel)
      cases hp.symm.trans he
    · exact ⟨e, he, hstore⟩
  · obtain ⟨-, hprepared⟩ := @Store.prepareAll_all_or_nothing store schema (source false) .standard
      built hplain
    have hall : ∀ t ∈ schema.tables, ∃ p, schema.prepare (source false) .standard t.name = .ok p := by
      intro t ht
      rcases List.mem_pair.mp ht with rfl | rfl
      · exact exists_eq_ok (by decide +kernel)
      · exact exists_eq_ok (by decide +kernel)
    obtain ⟨hsome, hholds⟩ := hprepared hall
    obtain ⟨m, s', hok⟩ := hsome.mpr (by decide +kernel)
    have h := hholds m s' hok
    obtain ⟨p, hp, hfile, -⟩ := h.tables part hpart
    have hcrate : s'.file? "crate" = store.file? "crate" :=
      h.others "crate" (by decide +kernel) (by decide +kernel)
    refine ⟨m, s', p, hok, hp, (h.entries "part" p.metadata).mpr ⟨part, hpart, rfl, p, hp, rfl⟩, hfile, ?_⟩
    exact hcrate.trans (by decide +kernel)

end Depot

end ApproxQuery

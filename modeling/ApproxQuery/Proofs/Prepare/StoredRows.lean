import ApproxQuery.Proofs.Number.Machine
import ApproxQuery.Proofs.Prepare.Columns
import ApproxQuery.Proofs.Random.Indices

/-!
# The rows of a prepared table

A prepared table holds some rows of the raw one, in their order and the same ones in every column.
Each stored number stands for the raw value of its row, provided that columns can be told apart.
-/

namespace ApproxQuery

variable {N : Type}

/-- So many rows of a table as fit, in their order. -/
structure ChosenRows (total max : Nat) (rows : List Nat) : Prop where
  increasing : rows.Pairwise (· < ·)
  lt : ∀ i ∈ rows, i < total
  size : rows.length = min total max

theorem chosenRows_range (total max : Nat) : ChosenRows total max (List.range (min total max)) := by
  refine ⟨List.pairwise_lt_range, fun i hi => ?_, List.length_range⟩
  have hlt := List.mem_range.mp hi
  omega

/-- The rows of a table that are kept: all of them, or the drawn ones of a table that is too long. -/
def PreparationConfig.keptRows (config : PreparationConfig N) (total : Nat) : List Nat :=
  if config.maxData < total then
    ((Draw.sortedIndices total config.maxData : StateM ChaCha (List Nat)) (.ofSeed config.seed)).1
  else List.range total

theorem PreparationConfig.chosenRows_keptRows (config : PreparationConfig N) (total : Nat) :
    ChosenRows total config.maxData (config.keptRows total) := by
  unfold keptRows
  split
  · rename_i hlong
    obtain ⟨hchoice, hincreasing⟩ :=
      Draw.sortedIndices_isChoice (G := ChaCha) hlong.le (.ofSeed config.seed)
    refine ⟨hincreasing, hchoice.lt, ?_⟩
    rw [hchoice.size]
    omega
  · rename_i hshort
    have hmin : min total config.maxData = total := by omega
    have hall := chosenRows_range total config.maxData
    rwa [hmin] at hall

/-- The raw columns have different names, none of which is that of a multiplier of the table. -/
structure Schema.DistinctNames (g : Schema N) (name : String) (raw : RawTable N) : Prop where
  nodup : raw.columns.Nodup
  multiplier : ∀ rs, g.incoming name = .ok rs → ∀ r ∈ rs, ∀ a ∈ raw.columns,
    r.multiplier.qualified ≠ qualify name a

variable [Scalar N]

/-- The stored columns of raw ones hold numbers for the values in these rows. -/
def PreparedTable.HoldsRows (p : PreparedTable N) (name : String) (raw : RawTable N)
    (rows : List Nat) : Prop :=
  ∀ a ∈ raw.columns, ∀ numbers, p.table.column? (qualify name a) = some numbers →
    ∃ values, raw.column? a = some values ∧
      List.Forall₂ (fun i x => ∃ v, values[i]? = some v ∧
        p.metadata.Represents (qualify name a) (values.any Value.isText) v x) rows numbers

theorem filterMap_getElem?_range {α : Type} (xs : List α) :
    (List.range xs.length).filterMap (xs[·]?) = xs := by
  have hmap : (List.range xs.length).map (xs[·]?) = xs.map some := by
    refine List.ext_getElem? fun i => ?_
    by_cases hi : i < xs.length
    · simp [hi]
    · simp [hi]
  calc (List.range xs.length).filterMap (xs[·]?)
      = ((List.range xs.length).map (xs[·]?)).filterMap id := by rw [List.filterMap_map]; rfl
    _ = xs := by rw [hmap, List.filterMap_map]; exact List.filterMap_some

/-- Taking the places out of two lists that correspond gives lists that correspond. -/
theorem forall₂_filterMap_getElem? {α β : Type} {R : α → β → Prop} {xs : List α} {ys : List β}
    (h : List.Forall₂ R xs ys) {places : List Nat} (hplaces : ∀ i ∈ places, i < ys.length) :
    List.Forall₂ (fun i x => ∃ y, ys[i]? = some y ∧ R x y) places (places.filterMap (xs[·]?)) := by
  induction places with
  | nil => exact .nil
  | cons i places ih =>
    have hy : i < ys.length := hplaces i List.mem_cons_self
    have hx : i < xs.length := h.length_eq ▸ hy
    rw [List.filterMap_cons, List.getElem?_eq_getElem hx]
    refine .cons ⟨ys[i], List.getElem?_eq_getElem hy, h.get hx hy⟩ ?_
    exact ih fun j hj => hplaces j (List.mem_cons_of_mem _ hj)

namespace Preparation

variable {g : Schema N} {source : RawSource N} {config : PreparationConfig N} {name : String}
  {p : PreparedTable N}

/-- The rows that are kept when the table is cut down. -/
def rows (h : Preparation g source config name p) : List Nat :=
  if config.maxData < h.untruncated.table.size then
    ((Draw.sortedIndices h.untruncated.table.size config.maxData :
      StateM ChaCha (List Nat)) (.ofSeed config.seed)).1
  else List.range (min h.raw.size config.maxData)

variable [LawfulScalar N]

theorem size_untruncated (h : Preparation g source config name p)
    (hdata : h.untruncated.table.data ≠ []) : h.untruncated.table.size = h.raw.size := by
  unfold EncodedTable.size
  cases hd : h.untruncated.table.data with
  | nil => exact absurd hd hdata
  | cons first rest => exact (h.numbers_of_mem (hd ▸ List.mem_cons_self)).1

/-- What is kept depends on the number of raw rows, as soon as there is a column. -/
theorem rows_eq (h : Preparation g source config name p) (hdata : h.untruncated.table.data ≠ []) :
    h.rows = config.keptRows h.raw.size := by
  unfold rows PreparationConfig.keptRows
  rw [h.size_untruncated hdata]
  split
  · rfl
  · rw [min_eq_left (by omega)]

theorem chosenRows (h : Preparation g source config name p) :
    ChosenRows h.raw.size config.maxData h.rows := by
  by_cases hdata : h.untruncated.table.data = []
  · have hsize : h.untruncated.table.size = 0 := by rw [EncodedTable.size, hdata]; rfl
    rw [rows, hsize, if_neg (Nat.not_lt_zero _)]
    exact chosenRows_range _ _
  · rw [h.rows_eq hdata]
    exact config.chosenRows_keptRows _

theorem data_eq (h : Preparation g source config name p) :
    p.table.data = h.untruncated.table.data.map fun column => h.rows.filterMap (column[·]?) := by
  rw [h.table_eq_truncate]
  unfold EncodedTable.truncate rows
  split
  · rfl
  · rename_i hshort
    symm
    conv_rhs => rw [← List.map_id h.untruncated.table.data]
    refine List.map_congr_left fun column hcolumn => ?_
    have hlen := (h.numbers_of_mem hcolumn).1
    have hsize : h.raw.size ≤ config.maxData := by
      rw [← h.size_untruncated (List.ne_nil_of_mem hcolumn)]
      exact not_lt.mp hshort
    rw [min_eq_left hsize, ← hlen]
    exact filterMap_getElem?_range column

theorem rows_eq_of_stored (h : Preparation g source config name p) (hdata : p.table.data ≠ []) :
    h.rows = config.keptRows h.raw.size := by
  refine h.rows_eq fun hnone => hdata ?_
  rw [h.data_eq, hnone]
  rfl

theorem exists_of_column? (h : Preparation g source config name p) {column : String} {numbers : List N}
    (hc : p.table.column? column = some numbers) :
    ∃ e ∈ h.encoded, e.1.name = column ∧ ∃ all, e.2.numbers? = some all ∧
      numbers = h.rows.filterMap (all[·]?) := by
  obtain ⟨place, hplace, hnumbers⟩ := Option.bind_eq_some_iff.mp hc
  obtain ⟨hlt, hname, -⟩ := List.findIdx?_eq_some_iff_getElem.mp hplace
  have hdata : h.untruncated.table.data = (EncodedColumn.stored h.encoded).map Prod.snd := by
    rw [untruncated, (EncodedColumn.table_addEach _ _).2, List.nil_append]
  rw [h.data_eq, hdata, List.map_map, List.getElem?_map] at hnumbers
  obtain ⟨⟨found, all⟩, hpair, rfl⟩ := Option.map_eq_some_iff.mp hnumbers
  obtain ⟨e, he, hstored⟩ := List.mem_filterMap.mp (List.mem_of_getElem? hpair)
  obtain ⟨all', hall, heq⟩ := Option.map_eq_some_iff.mp hstored
  cases heq
  refine ⟨e, he, ?_, all, hall, rfl⟩
  have hfound : p.table.columns[place] = e.1.name := by
    have hget : p.table.columns[place]? = some e.1.name := by
      rw [h.columns_eq_stored, List.getElem?_map, hpair]
      rfl
    exact Option.some.inj ((List.getElem?_eq_getElem hlt).symm.trans hget)
  rw [← hfound]
  exact beq_iff_eq.mp hname

section

variable (h : Preparation g source config name p) (hnames : g.DistinctNames name h.raw)
include hnames

omit [LawfulScalar N] in
/-- A column under the name of a raw one is that one. -/
theorem mem_remaining {c : Column N} {a : String} (hc : c ∈ h.frame) (ha : a ∈ h.raw.columns)
    (hname : c.name = qualify name a) : c ∈ h.compression.remaining h.whole := by
  refine (List.mem_append.mp hc).resolve_right fun hmul => ?_
  obtain ⟨m, hm, rfl⟩ := List.mem_map.mp hmul
  have hr : m.relationship ∈ h.rs := by
    rw [← h.adds.relationships]
    exact List.mem_map_of_mem hm
  exact hnames.multiplier h.rs h.incoming _ hr a ha hname

omit [LawfulScalar N] in
theorem nodup_whole : (h.whole.map Column.name).Nodup := by
  refine (hnames.nodup.map fun a b hab => ?_).sublist (Frame.names_ofRaw h.whole_eq)
  exact qualify_inj.mp hab

omit [LawfulScalar N] in
theorem column?_eq {c : Column N} {a : String} (hc : c ∈ h.whole) (hname : c.name = qualify name a) :
    h.raw.column? a = some c.values := by
  obtain ⟨b, -, hcb, hvalues⟩ := Frame.column?_of_mem_ofRaw h.whole_eq hnames.nodup hc
  rw [Schema.name_of_table h.known, hname, qualify_inj] at hcb
  exact hcb ▸ hvalues

omit [LawfulScalar N] in
theorem only_of_name {e e' : Column N × EncodedColumn N} {a : String} (he : e ∈ h.encoded)
    (he' : e' ∈ h.encoded) (ha : a ∈ h.raw.columns) (hname : e.1.name = qualify name a)
    (heq : e'.1.name = e.1.name) : e' = e := by
  have hwhole {d : Column N × EncodedColumn N} (hd : d ∈ h.encoded)
      (hdname : d.1.name = qualify name a) : d.1 ∈ h.whole :=
    (Frame.sublist_erase _ _).subset (h.mem_remaining hnames (h.mem_frame hd) ha hdname)
  have hcolumn : e'.1 = e.1 :=
    List.inj_on_of_nodup_map (h.nodup_whole hnames) (hwhole he' (heq.trans hname)) (hwhole he hname) heq
  have hencoded := h.encodes.2 e' he'
  rw [hcolumn, h.encodes.2 e he] at hencoded
  exact Prod.ext hcolumn (Except.ok.inj hencoded).symm

theorem represents_of_mem {e : Column N × EncodedColumn N} {a : String} {all : List N}
    (hcount : Scalar.CountsTo N (min config.maxUnique h.raw.size)) (he : e ∈ h.encoded)
    (ha : a ∈ h.raw.columns) (hname : e.1.name = qualify name a) (hall : e.2.numbers? = some all) :
    List.Forall₂ (fun x v => p.metadata.Represents (qualify name a) e.1.hasText v x) all
      e.1.values := by
  have hdescribed := h.describedBy_of_only he fun e' he' _ heq => h.only_of_name hnames he he' ha hname heq
  rw [← hname]
  refine EncodedColumn.represents_of_ofColumn (fun _ => ?_) (h.encodes.2 e he) hall hdescribed
  rwa [h.hasLength_frame _ (h.mem_frame he)]

theorem holdsRows (hcount : Scalar.CountsTo N (min config.maxUnique h.raw.size)) :
    p.HoldsRows name h.raw h.rows := by
  intro a ha numbers hnumbers
  obtain ⟨e, he, hname, all, hall, rfl⟩ := h.exists_of_column? hnumbers
  have hmem := h.mem_remaining hnames (h.mem_frame he) ha hname
  refine ⟨e.1.values, h.column?_eq hnames ((Frame.sublist_erase _ _).subset hmem) hname, ?_⟩
  refine forall₂_filterMap_getElem? (h.represents_of_mem hnames hcount he ha hname hall) ?_
  rw [h.hasLength_frame _ (h.mem_frame he)]
  exact h.chosenRows.lt

end

end Preparation

/-- The numbers of a stored column are the codes of the raw values of its rows. -/
theorem PreparedTable.HoldsRows.codes_eq {p : PreparedTable N} {name a : String} {raw : RawTable N}
    {rows : List Nat} {numbers : List N} {values : List (Value N)} (h : p.HoldsRows name raw rows)
    (ha : a ∈ raw.columns) (hnumbers : p.table.column? (qualify name a) = some numbers)
    (hvalues : raw.column? a = some values) :
    numbers.map some = rows.map fun i => values[i]?.bind (p.metadata.encode? (qualify name a)) := by
  obtain ⟨values', hvalues', hrows⟩ := h a ha numbers hnumbers
  cases hvalues.symm.trans hvalues'
  have hcodes : List.Forall₂ Eq (numbers.map some)
      (rows.map fun i => values[i]?.bind (p.metadata.encode? (qualify name a))) := by
    rw [List.forall₂_map_left_iff, List.forall₂_map_right_iff]
    refine hrows.flip.imp ?_
    rintro x i ⟨v, hv, hrepresents⟩
    rw [hv, Option.bind_some, hrepresents.encode]
  rwa [List.forall₂_eq_eq_eq] at hcodes

theorem Schema.holdsRows_of_prepare {g : Schema Float} {source : RawSource Float}
    {config : PreparationConfig Float} {name : String} {p : PreparedTable Float}
    {raw : RawTable Float} (h : g.prepare source config name = .ok p) (hraw : source name = .ok raw)
    (hnames : g.DistinctNames name raw) (hcount : min config.maxUnique raw.size < 2 ^ 53) :
    p.HoldsRows name raw (config.keptRows raw.size) := by
  obtain ⟨prep⟩ := Schema.prepare_eq_ok h
  cases Except.ok.inj (prep.source_eq.symm.trans hraw)
  have hholds := prep.holdsRows hnames fun n hpos hle => Binary64.countsTo n hpos (by omega)
  by_cases hdata : p.table.data = []
  · intro a _ numbers hnumbers
    obtain ⟨place, -, hplace⟩ := Option.bind_eq_some_iff.mp hnumbers
    rw [hdata] at hplace
    cases hplace
  · rwa [prep.rows_eq_of_stored hdata] at hholds

/-- Preparation stores, in every column alike, as many rows as fit in their order, and each stored
number is the code of the raw value of its row and is decoded to that value. -/
theorem Schema.prepare_holds_rows {g : Schema Float} {source : RawSource Float}
    {config : PreparationConfig Float} {name : String} {p : PreparedTable Float}
    {raw : RawTable Float} (h : g.prepare source config name = .ok p) (hraw : source name = .ok raw)
    (hnames : g.DistinctNames name raw) (hcount : min config.maxUnique raw.size < 2 ^ 53) :
    ∃ rows, ChosenRows raw.size config.maxData rows ∧ p.HoldsRows name raw rows :=
  ⟨config.keptRows raw.size, config.chosenRows_keptRows _, holdsRows_of_prepare h hraw hnames hcount⟩

namespace Stock

def schema : Schema Float := ⟨[.named "item"], []⟩

/-- A column of integers, a column of texts and numbers, and one with a null. -/
def raw : RawTable Float where
  columns := ["id", "tag", "price"]
  rows := [[.int 1, .text "new", .num 1.5], [.int 2, .int 7, .null], [.int 3, .num 7, .num 2.5]]

def source : RawSource Float := .ofTables [("item", raw)]

def config : PreparationConfig Float := { PreparationConfig.standard with maxData := 2 }

theorem distinctNames : schema.DistinctNames "item" raw := by
  refine ⟨by decide, fun rs hrs => ?_⟩
  have hnone : schema.incoming "item" = .ok [] := rfl
  cases Except.ok.inj (hnone.symm.trans hrs)
  nofun

theorem exists_prepared : ∃ p, schema.prepare source config "item" = .ok p ∧
    p.table.columns = ["item.id", "item.tag", "item.price"] ∧
    (p.table.column? "item.tag").isSome = true ∧ (p.table.column? "item.price").isSome = true ∧
    p.metadata.encode? "item.tag" (.text "new") = some 1 ∧
    p.metadata.encode? "item.tag" (.int 7) = some 2 ∧
    p.metadata.encode? "item.price" (.num 1.5) = some 1.5 ∧
    p.metadata.encode? "item.price" .null = some 2.0001 :=
  exists_eq_ok_of_any (by decide +kernel)

/-- The second row is drawn before the first. -/
theorem keptRows_eq : config.keptRows 3 = [0, 1] := by
  have hdrawn : ((Draw.indices 3 2).run (ChaCha.ofSeed config.seed)).1 = [1, 0] := by decide +kernel
  have hsorted : config.keptRows 3 =
      ((Draw.indices 3 2).run (ChaCha.ofSeed config.seed)).1.mergeSort := rfl
  rw [hsorted, hdrawn]
  simp [List.mergeSort]

/-- The second price is missing: its number is the null marker, which lies above the mean of all. -/
theorem prepare_holds_two_rows :
    ∃ p, schema.prepare source config "item" = .ok p ∧ source "item" = .ok raw ∧
      schema.DistinctNames "item" raw ∧ min config.maxUnique raw.size < 2 ^ 53 ∧
      p.table.columns = ["item.id", "item.tag", "item.price"] ∧
      p.table.column? "item.tag" = some [1, 2] ∧ p.table.column? "item.price" = some [1.5, 2.0001] ∧
      ∃ rows, ChosenRows 3 2 rows ∧ p.HoldsRows "item" raw rows := by
  obtain ⟨p, hp, hcolumns, htag, hprice, hnew, hseven, hcheap, hnull⟩ := exists_prepared
  have hcount : min config.maxUnique raw.size < 2 ^ 53 := by decide
  have hholds : p.HoldsRows "item" raw [0, 1] :=
    keptRows_eq ▸ Schema.holdsRows_of_prepare hp rfl distinctNames hcount
  obtain ⟨tags, htags⟩ := Option.isSome_iff_exists.mp htag
  obtain ⟨prices, hprices⟩ := Option.isSome_iff_exists.mp hprice
  have htagCodes : tags.map some = [some 1, some 2] := by
    have hmem : "tag" ∈ raw.columns := by decide
    rw [hholds.codes_eq hmem htags rfl]
    exact congrArg₂ (fun x y => [x, y]) hnew hseven
  have hpriceCodes : prices.map some = [some 1.5, some 2.0001] := by
    have hmem : "price" ∈ raw.columns := by decide
    rw [hholds.codes_eq hmem hprices rfl]
    exact congrArg₂ (fun x y => [x, y]) hcheap hnull
  have hsome := List.map_injective_iff.mpr (Option.some_injective Float)
  exact ⟨p, hp, rfl, distinctNames, hcount, hcolumns, htags.trans (congrArg some (hsome htagCodes)),
    hprices.trans (congrArg some (hsome hpriceCodes)),
    Schema.prepare_holds_rows hp rfl distinctNames hcount⟩

end Stock

end ApproxQuery

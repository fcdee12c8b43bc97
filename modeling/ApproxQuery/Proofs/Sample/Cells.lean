import ApproxQuery.Proofs.Sample.Partners

/-!
# Cells of a sample

A row of a sample lists the cells of one block after another. The cell of an attribute stands where
the block of its table has the column of the attribute.
-/

namespace ApproxQuery

theorem filterMap_sublist_map {α β : Type} {f : α → Option β} {g : α → β} {xs : List α}
    (h : ∀ x ∈ xs, ∀ y, f x = some y → y = g x) : (xs.filterMap f).Sublist (xs.map g) := by
  induction xs with
  | nil => exact .refl _
  | cons x xs ih =>
    have hrest := ih fun y hy => h y (List.mem_cons_of_mem x hy)
    cases hf : f x with
    | none =>
      rw [List.filterMap_cons_none hf]
      exact hrest.cons _
    | some y =>
      rw [List.filterMap_cons_some hf, h x List.mem_cons_self y hf]
      exact hrest.cons_cons _

namespace TableBlock

variable {N : Type} [Scalar N] {b : TableBlock N}

theorem length_cellList (b : TableBlock N) (row? : Option Nat) :
    (b.cellList row?).length = b.columns.length := by
  cases row? <;> simp [cellList, columns, places]

end TableBlock

namespace Expansion

variable {N : Type} [Scalar N] {bs : List (TableBlock N)} {t : JoinTuple}

def cellsOf (bs : List (TableBlock N)) (t : JoinTuple) : List N :=
  ((bs.zip t).map fun (b, row) => b.cellList row).flatten

/-- The place of the column of an attribute in the rows of a sample. -/
def columnPlace? (bs : List (TableBlock N)) (a : AttributeRef) : Option Nat :=
  (placeOf? bs a.table).bind fun place => bs[place]?.bind fun b =>
    (b.columns.findIdx? (· == a.qualified)).map (((bs.take place).flatMap (·.columns)).length + ·)

/-- The cell of an attribute in a row of a sample. -/
def cellOf (bs : List (TableBlock N)) (cells : List N) (a : AttributeRef) : N :=
  ((columnPlace? bs a).bind (cells[·]?)).getD 0

theorem getElem?_cellsOf {place index : Nat} {b : TableBlock N} {row? : Option Nat}
    (hb : bs[place]? = some b) (hrow : t[place]? = some row?) (hindex : index < b.columns.length) :
    (cellsOf bs t)[((bs.take place).flatMap (·.columns)).length + index]? =
      (b.cellList row?)[index]? := by
  induction bs generalizing t place with
  | nil => cases hb
  | cons c bs ih =>
    cases t with
    | nil => cases hrow
    | cons x t =>
      have hcells : cellsOf (c :: bs) (x :: t) = c.cellList x ++ cellsOf bs t := rfl
      rw [hcells]
      cases place with
      | zero =>
        cases hb
        cases hrow
        rw [List.take_zero, List.flatMap_nil, List.length_nil, Nat.zero_add]
        exact List.getElem?_append_left (TableBlock.length_cellList b row? ▸ hindex)
      | succ place =>
        have hnext := @ih t place hb hrow
        rw [List.take_succ_cons, List.flatMap_cons, List.length_append, Nat.add_assoc,
          List.getElem?_append_right, ← hnext]
        · rw [TableBlock.length_cellList, Nat.add_sub_cancel_left]
        · rw [TableBlock.length_cellList]
          exact Nat.le_add_right _ _

theorem cellOf_cellsOf {a : AttributeRef} {place index : Nat} {b : TableBlock N} {row? : Option Nat}
    (hplace : placeOf? bs a.table = some place) (hb : bs[place]? = some b)
    (hrow : t[place]? = some row?) (hindex : b.columns.findIdx? (· == a.qualified) = some index) :
    cellOf bs (cellsOf bs t) a = ((b.cellList row?)[index]?).getD 0 := by
  have hlt := (List.findIdx?_eq_some_iff_getElem.mp hindex).1
  rw [cellOf, columnPlace?, hplace, Option.bind_some, hb, Option.bind_some, hindex, Option.map_some,
    Option.bind_some, getElem?_cellsOf hb hrow hlt]

end Expansion

namespace Sampler.BlockOf

variable {g : Schema ℚ} {source : RawSource ℚ} {config : PreparationConfig ℚ} {joined : Bool}
  {name : String} {b : TableBlock ℚ}

theorem kept_names (h : BlockOf g source config joined name b) (hdata : CompleteData g source config)
    {raw : RawTable ℚ} (hraw : source name = .ok raw) :
    (b.kept.map b.columnName).Nodup ∧ b.kept.map b.columnName ⊆
      (raw.columns ++ (g.references name).map (·.multiplierName)).map (qualify name) := by
  obtain ⟨p, t, hp, ht, hb⟩ := h.prepared
  obtain ⟨prep⟩ := Schema.prepare_eq_ok hp
  obtain ⟨-, htable, -, hkeptNodup, hkept, -⟩ := TableBlock.ofTable_eq_ok hb
  cases hraw.symm.trans prep.source_eq
  have hcolumns := prep.nodup_stored (prep.nodup_frame hdata)
  have hname {place : Nat} (hplace : place ∈ b.kept) :
      ∃ hlt : place < p.table.columns.length, b.columnName place = p.table.columns[place] := by
    obtain ⟨c, hc, _⟩ := (hkept place).mp hplace
    obtain ⟨hlt, _⟩ := List.getElem?_eq_some_iff.mp hc
    exact ⟨hlt, by simp [TableBlock.columnName, htable, List.getD_eq_getElem?_getD, hlt]⟩
  constructor
  · refine List.Nodup.map_on (fun i hi j hj heq => ?_) hkeptNodup
    obtain ⟨hlt, hi⟩ := hname hi
    obtain ⟨hlt', hj⟩ := hname hj
    rw [hi, hj] at heq
    exact (hcolumns.getElem_inj_iff).mp heq
  · intro c hc
    obtain ⟨place, hplace, rfl⟩ := List.mem_map.mp hc
    obtain ⟨hlt, heq⟩ := hname hplace
    obtain ⟨e, he, hename, -⟩ := prep.exists_of_mem_columns (List.getElem_mem hlt)
    rw [heq, ← hename]
    exact (prep.names_frame hdata).subset (List.mem_map_of_mem (prep.mem_frame he))

theorem defined_names (h : BlockOf g source config joined name b)
    (hdata : CompleteData g source config) :
    (b.multipliers.map Prod.snd).Sublist
      (((g.references name).map (·.definedMultiplier.name)).map (qualify name)) := by
  obtain ⟨p, t, hp, ht, hb⟩ := h.prepared
  obtain ⟨-, -, -, -, -, ⟨rs, hrs, hmul⟩, -⟩ := TableBlock.ofTable_eq_ok hb
  have hrefs : rs = g.references name := by
    rw [Schema.name_of_table ht, hdata.built.linked.incoming_eq ht] at hrs
    exact (Except.ok.inj hrs).symm
  rw [hmul, hrefs, List.map_filterMap, List.map_map]
  apply filterMap_sublist_map
  intro r hr c hc
  obtain ⟨⟨place, column⟩, hentry, rfl⟩ := Option.map_eq_some_iff.mp hc
  obtain ⟨index, _, hentry⟩ := Option.bind_eq_some_iff.mp hentry
  split at hentry
  · cases hentry
    rw [← (Schema.mem_references.mp hr).2]
    rfl
  · cases hentry

theorem nodup_columns (h : BlockOf g source config joined name b)
    (hdata : CompleteData g source config) : b.columns.Nodup := by
  obtain ⟨p, t, hp, ht, hb⟩ := h.prepared
  obtain ⟨prep⟩ := Schema.prepare_eq_ok hp
  obtain ⟨hkept, hsub⟩ := h.kept_names hdata prep.source_eq
  have hdefined := h.defined_names hdata
  have hsame : prep.table = t := Except.ok.inj (prep.known.symm.trans ht)
  have hnull : b.indicator?.toList.Sublist ([t.nullIndicator].map (qualify name)) := by
    rw [h.indicator?_eq ht]
    split
    · exact .refl _
    · exact List.nil_sublist _
  have hall := (prep.nodup_columnNames hdata).map (f := qualify name) fun a b hab => qualify_inj.mp hab
  rw [Schema.columnNames, Schema.name_of_table prep.known, hsame, List.map_append, List.map_append,
    List.nodup_append, List.nodup_append] at hall
  obtain ⟨⟨-, hmulNodup, hkeptMul⟩, -, hrest⟩ := hall
  unfold TableBlock.columns
  refine List.nodup_append.mpr ⟨List.nodup_append.mpr ⟨hkept, hmulNodup.sublist hdefined, ?_⟩, ?_, ?_⟩
  · intro c hc d hd
    exact hkeptMul c (hsub hc) d (hdefined.subset hd)
  · exact (List.nodup_singleton _).sublist hnull
  · intro c hc d hd
    refine hrest c ?_ d (hnull.subset hd)
    rcases List.mem_append.mp hc with hc | hc
    · exact List.mem_append_left _ (hsub hc)
    · exact List.mem_append_right _ (hdefined.subset hc)

end Sampler.BlockOf

end ApproxQuery

import ApproxQuery.Proofs.Sample.FanOutWeights

/-!
# Rows with given rows of some tables

The tables of a query are a connected part of the tree of a path, with the root. For rows of these
tables that meet along the edges between them, the rows of the complete sample that hold them weigh
one in all, where the fan-outs that lead out of the part are divided out.
-/

namespace ApproxQuery

namespace Expansion

open JoinPath

variable {g : Schema ℚ} {bs : List (TableBlock ℚ)} {joined : List String} {s : JoinStep}
  {steps rest : List JoinStep} {r : Relationship} {tables : SortedSet String} {v : String → Nat}
  {t : JoinTuple}

/-- The tuple holds the selected rows of all tables among those joined so far. -/
def Agrees (bs : List (TableBlock ℚ)) (tables : SortedSet String) (v : String → Nat)
    (joined : List String) (t : JoinTuple) : Prop :=
  ∀ table ∈ tables, table ∈ joined → rowIn bs t table = some (v table)

/-- The step adds one of the tables. -/
def Within (tables : SortedSet String) (s : JoinStep) : Prop :=
  ∃ table ∈ s.newTable?, table ∈ tables

instance : DecidablePred (Within tables) := fun s =>
  match hs : s.newTable? with
  | none => isFalse fun ⟨table, htable, _⟩ => by
    rw [hs] at htable
    cases htable
  | some table => decidable_of_iff (table ∈ tables) (by simp [Within, hs])

/-- A step within the tables has to add the selected row, another one shares out one unit. -/
def selectionWeight (g : Schema ℚ) (bs : List (TableBlock ℚ)) (tables : SortedSet String)
    (v : String → Nat) (s : JoinStep) (t : JoinTuple) : ℚ :=
  if Within tables s then
    if ∀ table ∈ s.newTable?, rowIn bs t table = some (v table) then 1 else 0
  else share g bs s t

theorem selectionWeight_of_new {table : String} (hnew : s.newTable? = some table)
    (htable : table ∈ tables) : selectionWeight g bs tables v s t =
      if rowIn bs t table = some (v table) then 1 else 0 := by
  have hwithin : Within tables s := ⟨table, hnew, htable⟩
  rw [selectionWeight, if_pos hwithin]
  simp [hnew]

theorem within_iff {table : String} (hnew : s.newTable? = some table) :
    Within tables s ↔ table ∈ tables := by
  simp [Within, hnew]

theorem selectionWeight_of_not_within (hout : ¬ Within tables s) :
    selectionWeight g bs tables v s = share g bs s :=
  funext fun _ => if_neg hout

theorem sum_ite_eq_one {α : Type} [DecidableEq α] {xs : List α} {x : α} (h : xs.Nodup)
    (hx : x ∈ xs) : (xs.map fun y => if y = x then (1 : ℚ) else 0).sum = 1 := by
  rw [List.sum_map_ite_eq, List.count_eq_one_of_mem h hx]
  simp

theorem sum_selected {a b : AttributeRef} {names : List String}
    (hbs : bs.map TableBlock.name = joined ++ b.table :: names)
    (hb : b.table ∉ joined) (ht : Holds bs joined t) {row : Nat} (hrow : Partner bs a b t (some row)) :
    ((extended bs a b t).map fun u => if rowIn bs u b.table = some row then (1 : ℚ) else 0).sum =
      1 := by
  have hnew (x : Option Nat) : rowIn bs (t ++ [x]) b.table = x := by
    rw [rowIn_new hbs hb, ← ht.length, List.getElem?_concat_length, Option.join_some]
  rw [extended, List.map_map]
  refine Eq.trans (congrArg List.sum (List.map_congr_left fun x _ => ?_))
    (sum_ite_eq_one nodup_options (mem_options.mpr hrow))
  simp only [Function.comp_apply, hnew]

section

variable {source : RawSource ℚ} {config : PreparationConfig ℚ} {flag : Bool}
  (hdata : CompleteData g source config)
  (hblocks : ∀ c ∈ bs, Sampler.BlockOf g source config flag c.name c)
  (hstored : KeysStored g bs steps)
  (hclosed : ∀ e ∈ edges g steps, e.child ∈ tables → e.parent ∈ tables)
  (hmeets : ∀ e ∈ edges g steps, e.child ∈ tables →
    Meets bs e.relationship.sourceKey e.relationship.targetKey (v e.relationship.source)
      (v e.relationship.target))
include hdata hblocks hstored hclosed hmeets

theorem selectionWeight_shares (hs : s ∈ steps) (hadds : s.newTable? ≠ none) :
    Shares g bs (Agrees bs tables v) (selectionWeight g bs tables v) s := by
  constructor
  · intro joined rest r hat u
    obtain ⟨a, b, e, hnew, -⟩ := hat.exists_extended hadds
    have hmem : b.table ∈ joined ++ s.newTable?.toList := by
      rw [hnew]
      exact List.mem_append_right _ List.mem_cons_self
    by_cases hb : b.table ∈ tables
    · rw [selectionWeight_of_new hnew hb, selectionWeight_of_new hnew hb,
        rowIn_take hat.names_append hmem le_rfl]
    · rw [selectionWeight_of_not_within (mt (within_iff hnew).mp hb)]
      apply share_take hat u
      rw [List.length_append]
      exact Nat.le_add_right _ _
  · intro joined rest r hat t ht hgood
    obtain ⟨a, b, e, hnew, ha, hb, hstep, hkeys, rfl, hparent, hchild, hedge⟩ :=
      hat.exists_extended hadds
    by_cases htable : b.table ∈ tables
    · have hweight : (stepped bs e.relationship [t] s).map (selectionWeight g bs tables v s) =
          (stepped bs e.relationship [t] s).map fun u =>
            if rowIn bs u b.table = some (v b.table) then 1 else 0 :=
        List.map_congr_left fun u _ => selectionWeight_of_new hnew htable
      have hnames := hat.names
      rw [added_cons, hnew] at hnames
      rw [hweight, hstep]
      refine sum_selected hnames hb ht ⟨v a.table, ?_, ?_⟩
      · refine hgood a.table ?_ ha
        exact hparent ▸ hclosed e (hedge steps hs) (hchild ▸ htable)
      · have hmeet := hmeets e (hedge steps hs) (hchild ▸ htable)
        rcases hkeys with ⟨rfl, rfl⟩ | ⟨rfl, rfl⟩
        · exact hmeet.symm
        · exact hmeet
    · rw [selectionWeight_of_not_within (mt (within_iff hnew).mp htable)]
      exact sum_share hdata hblocks hat (hstored s hs _ hat.known) hadds ht
  · intro joined rest r hat t ht hgood u hu hweight
    obtain ⟨a, b, e, hnew, ha, hb, hstep, -⟩ := hat.exists_extended hadds
    rw [hstep] at hu
    obtain ⟨x, -, rfl⟩ := List.mem_map.mp hu
    intro table htable hjoined
    rw [hnew] at hjoined
    rcases List.mem_append.mp hjoined with hjoined | hjoined
    · have htake : (t ++ [x]).take joined.length = t := by
        rw [← ht.length, List.take_left]
      rw [← rowIn_take hat.names hjoined le_rfl, htake]
      exact hgood table htable hjoined
    · cases List.mem_singleton.mp hjoined
      rw [selectionWeight_of_new hnew htable] at hweight
      by_contra hrow
      exact hweight (if_neg hrow)

end

/-- The tuple holds the selected rows of all tables. -/
def Selected (bs : List (TableBlock ℚ)) (tables : SortedSet String) (v : String → Nat)
    (t : JoinTuple) : Prop :=
  ∀ table ∈ tables.toList, rowIn bs t table = some (v table)

instance : DecidablePred (Selected bs tables v) := fun t =>
  inferInstanceAs (Decidable (∀ table ∈ tables.toList, rowIn bs t table = some (v table)))

/-- The shares of the steps that lead to other tables. -/
def outerWeight (g : Schema ℚ) (bs : List (TableBlock ℚ)) (tables : SortedSet String)
    (steps : List JoinStep) (t : JoinTuple) : ℚ :=
  weightOf (share g bs) (steps.filter (¬ Within tables ·)) t

theorem mem_added {table : String} :
    table ∈ added steps ↔ ∃ s ∈ steps, s.newTable? = some table := by
  simp [added]

theorem weightOf_selection {start : String} (hstart : rowIn bs t start = some (v start))
    (hsub : ∀ table ∈ tables, table ∈ start :: added steps) :
    weightOf (selectionWeight g bs tables v) steps t =
      if Selected bs tables v t then outerWeight g bs tables steps t else 0 := by
  split
  · rename_i hselected
    have hwithin : (steps.filter (Within tables ·)).map (selectionWeight g bs tables v · t) =
        (steps.filter (Within tables ·)).map fun _ => 1 := by
      apply List.map_congr_left
      intro s hs
      obtain ⟨table, hnew, htable⟩ := of_decide_eq_true (List.mem_filter.mp hs).2
      rw [selectionWeight_of_new hnew htable, if_pos (hselected table htable)]
    have houtside : (steps.filter (¬ Within tables ·)).map (selectionWeight g bs tables v · t) =
        (steps.filter (¬ Within tables ·)).map (share g bs · t) := by
      apply List.map_congr_left
      intro s hs
      rw [selectionWeight_of_not_within (of_decide_eq_true (List.mem_filter.mp hs).2)]
    rw [weightOf, ← List.prod_map_filter_mul_prod_map_filter_not (Within tables), hwithin,
      houtside, List.map_const', List.prod_replicate, one_pow, one_mul]
    rfl
  · rename_i hselected
    unfold Selected at hselected
    push Not at hselected
    obtain ⟨table, htable, hrow⟩ := hselected
    have hadded : table ∈ added steps := by
      rcases List.mem_cons.mp (hsub table htable) with rfl | hadded
      · exact absurd hstart hrow
      · exact hadded
    obtain ⟨s, hs, hnew⟩ := mem_added.mp hadded
    refine List.prod_eq_zero (List.mem_map.mpr ⟨s, hs, ?_⟩)
    rw [selectionWeight_of_new hnew htable, if_neg hrow]

end Expansion

namespace Sampler.Layout

open Expansion JoinPath

variable {s : Sampler ℚ} {source : RawSource ℚ} {config : PreparationConfig ℚ}
  {ids : List String} {p : SamplePlan ℚ} {bs : List (TableBlock ℚ)} {w : JoinSample ℚ}
  {tables : SortedSet String} {v : String → Nat}

theorem rowIn_start (h : s.Layout source config ids p bs w) (t : JoinTuple) :
    rowIn bs t p.path.start = t.head?.join := by
  have hnames : bs.map TableBlock.name = [] ++ p.path.start :: added p.path.steps := h.names
  rw [rowIn_new hnames List.not_mem_nil, List.head?_eq_getElem?]
  rfl

/-- The rows of a complete sample that hold selected rows which meet weigh one in all. -/
theorem sum_fibre (h : s.Layout source config ids p bs w)
    (hdata : CompleteData s.schema source config)
    (hacyclic : ∀ step ∈ p.path.steps, step.newTable? ≠ none) (hroot : p.path.start ∈ tables)
    (hsub : ∀ table ∈ tables, table ∈ p.path.tables)
    (hclosed : ∀ e ∈ edges s.schema p.path.steps, e.child ∈ tables → e.parent ∈ tables)
    (hstart : v p.path.start < p.storedRows)
    (hmeets : ∀ e ∈ edges s.schema p.path.steps, e.child ∈ tables →
      Meets bs e.relationship.sourceKey e.relationship.targetKey (v e.relationship.source)
        (v e.relationship.target)) :
    (w.rowKeys.map fun t => if Selected bs tables v t then
      outerWeight s.schema bs tables p.path.steps t else 0).sum = 1 := by
  have hrows : ∀ row ∈ List.range p.storedRows,
      ((expanded s.schema bs p.path.steps [[some row]]).map fun t =>
        if Selected bs tables v t then outerWeight s.schema bs tables p.path.steps t
        else 0).sum = if row = v p.path.start then 1 else 0 := by
    intro row hrow
    have hlt := List.mem_range.mp hrow
    have hhead : ∀ t ∈ expanded s.schema bs p.path.steps [[some row]],
        rowIn bs t p.path.start = some row := by
      intro t ht
      rw [h.rowIn_start, (h.holds_expanded hlt ht).2.1, Option.join_some]
    split
    · rename_i hrow
      subst hrow
      have hshares : ∀ step ∈ p.path.steps, Shares s.schema bs (Agrees bs tables v)
          (selectionWeight s.schema bs tables v) step := fun step hstep =>
        selectionWeight_shares hdata h.blocks h.stored hclosed hmeets hstep (hacyclic step hstep)
      have hgood : Agrees bs tables v [p.path.start] [some (v p.path.start)] := by
        intro table _ hjoined
        cases List.mem_singleton.mp hjoined
        rw [h.rowIn_start]
        rfl
      rw [← sum_weights h.sound h.chain h.names h.stored hshares (h.holds_start hlt) hgood]
      refine congrArg List.sum (List.map_congr_left fun t ht => ?_)
      exact (weightOf_selection (hhead t ht) hsub).symm
    · rename_i hne
      apply List.sum_eq_zero
      intro x hx
      obtain ⟨t, ht, rfl⟩ := List.mem_map.mp hx
      refine if_neg fun hselected => hne ?_
      have hrow := (hhead t ht).symm.trans (hselected p.path.start hroot)
      exact Option.some.inj hrow
  rw [h.rowKeys_eq, sum_map_flatMap hrows]
  exact sum_ite_eq_one List.nodup_range (List.mem_range.mpr hstart)

end Sampler.Layout

end ApproxQuery

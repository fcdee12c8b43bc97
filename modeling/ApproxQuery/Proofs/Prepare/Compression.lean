import ApproxQuery.Proofs.Prepare.Stored

/-!
# Compressed columns

Each compressed column has one determinant, and a map that gives its value for every value of the
determinant. Every chain of determinants is anchored in a column that is not compressed, unless a
column has been compressed through itself.
-/

namespace ApproxQuery

variable {N : Type}

namespace Frame

theorem mem_erase_of_not_mem {f : Frame N} {names : List String} {c : Column N} (hc : c ∈ f)
    (hname : c.name ∉ names) : c ∈ f.erase names := by
  unfold erase
  induction names generalizing f with
  | nil => exact hc
  | cons name names ih =>
    obtain ⟨hne, hname⟩ := not_or.mp (mt List.mem_cons.mpr hname)
    refine ih ((List.mem_eraseP_of_neg ?_).mpr hc) hname
    simpa using hne

theorem eraseP_eq_filter {f : Frame N} {name : String} (hnodup : (f.map Column.name).Nodup) :
    f.eraseP (·.name == name) = f.filter (·.name != name) := by
  induction f with
  | nil => rfl
  | cons d f ih =>
    obtain ⟨hd, hnodup⟩ := List.nodup_cons.mp hnodup
    rw [List.eraseP_cons, List.filter_cons]
    by_cases heq : d.name = name
    · have hrest : f.filter (·.name != name) = f := List.filter_eq_self.mpr fun c hc =>
        bne_iff_ne.mpr fun hname => hd (List.mem_map.mpr ⟨c, hc, hname.trans heq.symm⟩)
      simp [heq, hrest]
    · have hfalse : (d.name == name) = false := beq_eq_false_iff_ne.mpr heq
      simp [hfalse, heq, ih hnodup]

/-- When names are different, the columns without these names are left. -/
theorem erase_eq_filter {f : Frame N} (hnodup : (f.map Column.name).Nodup) (names : List String) :
    f.erase names = f.filter fun c => !names.contains c.name := by
  unfold erase
  induction names generalizing f with
  | nil => simp
  | cons name names ih =>
    have hsub : (f.filter (·.name != name)).Sublist f := List.filter_sublist
    rw [List.foldl_cons, eraseP_eq_filter hnodup, ih (hnodup.sublist (hsub.map _)), List.filter_filter]
    refine List.filter_congr fun c _ => ?_
    rw [List.contains_cons, Bool.not_or, Bool.and_comm, bne]

theorem not_mem_of_mem_erase {f : Frame N} {names : List String} {c : Column N}
    (hnodup : (f.map Column.name).Nodup) (hc : c ∈ f.erase names) : c.name ∉ names := by
  rw [erase_eq_filter hnodup] at hc
  simpa using (List.mem_filter.mp hc).2

end Frame

variable [Scalar N]

namespace DependencyMap

/-- The entries have different keys. -/
def Distinct (m : DependencyMap N) : Prop :=
  m.Pairwise fun e e' => (e.1 == e'.1) = false

/-- The map gives the value for the key. -/
def Gives (m : DependencyMap N) (key value : Value N) : Prop :=
  ∃ e ∈ m, (e.1 == key) = true ∧ (e.2 == value) = true

variable [LawfulScalar N]

theorem value_beq {m : DependencyMap N} {key value w : Value N} (hdistinct : m.Distinct)
    (h : m.Gives key value) (hw : (w == key) = true) : (m.value w == value) = true := by
  obtain ⟨e, he, hkey, hvalue⟩ := h
  have hew : (e.1 == w) = true := Value.beq_trans hkey (Value.beq_comm w key ▸ hw)
  unfold DependencyMap.value
  cases hfind : m.reverse.find? (·.1 == w) with
  | none => exact absurd hew (List.find?_eq_none.mp hfind e (List.mem_reverse.mpr he))
  | some e' =>
    have he' := List.mem_reverse.mp (List.mem_of_find?_eq_some hfind)
    have hew' := List.find?_some hfind
    have hsame : (e'.1 == e.1) = true := Value.beq_trans hew' (Value.beq_comm e.1 w ▸ hew)
    have heq : e' = e := by
      by_contra hne
      have hsymm : Std.Symm fun a b : Value N × Value N => (a.1 == b.1) = false :=
        ⟨fun a b hab => by rwa [Value.beq_comm]⟩
      have hfalse := hdistinct.forall he' he hne
      rw [hsame] at hfalse
      cases hfalse
    rw [heq]
    exact hvalue

theorem add_eq_ok {table determinant dependent : String} {m m' : DependencyMap N}
    {entry : Value N × Value N} (hdistinct : m.Distinct)
    (h : add table determinant dependent m entry = .ok m') :
    m'.Distinct ∧ m ⊆ m' ∧ m'.Gives entry.1 entry.2 := by
  unfold add at h
  split at h
  · rename_i hnone
    cases h
    refine ⟨List.pairwise_append.mpr ⟨hdistinct, List.pairwise_singleton _ _, ?_⟩,
      List.subset_append_left _ _, entry, List.mem_append_right _ List.mem_cons_self,
      Value.beq_refl _, Value.beq_refl _⟩
    intro e he e' he'
    cases List.mem_singleton.mp he'
    exact Bool.eq_false_iff.mpr (List.find?_eq_none.mp hnone e he)
  · rename_i known hknown
    have hkey := List.find?_some hknown
    split at h
    · rename_i hvalue
      cases h
      exact ⟨hdistinct, List.Subset.refl _, known, List.mem_of_find?_eq_some hknown, hkey, hvalue⟩
    · cases h

theorem foldlM_add_eq_ok {table determinant dependent : String} {m m' : DependencyMap N}
    {entries : List (Value N × Value N)} (hdistinct : m.Distinct)
    (h : entries.foldlM (add table determinant dependent) m = .ok m') :
    m'.Distinct ∧ m ⊆ m' ∧ ∀ e ∈ entries, m'.Gives e.1 e.2 := by
  induction entries generalizing m with
  | nil =>
    cases h
    exact ⟨hdistinct, List.Subset.refl _, by simp⟩
  | cons entry entries ih =>
    rw [List.foldlM_cons] at h
    obtain ⟨next, hstep, h⟩ := bind_eq_ok.mp h
    obtain ⟨hnext, hsub, hgives⟩ := add_eq_ok hdistinct hstep
    obtain ⟨hdistinct', hsub', hrest⟩ := ih hnext h
    refine ⟨hdistinct', List.Subset.trans hsub hsub', ?_⟩
    intro e he
    rcases List.mem_cons.mp he with rfl | he
    · obtain ⟨known, hmem, hkey, hvalue⟩ := hgives
      exact ⟨known, hsub' hmem, hkey, hvalue⟩
    · exact hrest e he

/-- The map of two columns is right for each of their pairs. -/
theorem build_eq_ok {table : String} {determinant dependent : Column N} {m : DependencyMap N}
    (h : build table determinant dependent = .ok m) :
    m.Distinct ∧ ∀ e ∈ determinant.values.zip dependent.values, m.Gives e.1 e.2 := by
  obtain ⟨hdistinct, -, hgives⟩ := foldlM_add_eq_ok .nil h
  exact ⟨hdistinct, hgives⟩

end DependencyMap

namespace Compression

theorem lookup_isSome {via : List (String × String)} {c : String} :
    (via.lookup c).isSome = true ↔ c ∈ via.map Prod.fst := by
  rw [List.lookup_isSome_iff]
  simp

theorem lookup_eq_none {via : List (String × String)} {c : String} :
    via.lookup c = none ↔ c ∉ via.map Prod.fst := by
  rw [← lookup_isSome, Option.not_isSome_iff_eq_none]

theorem mem_of_lookup {via : List (String × String)} {c d : String} (h : via.lookup c = some d) :
    (c, d) ∈ via := by
  obtain ⟨l₁, l₂, rfl, -⟩ := List.lookup_eq_some_iff.mp h
  exact List.mem_append_right _ List.mem_cons_self

/-- The chain of determinants of a column has this length, and ends. -/
inductive Anchored (via : List (String × String)) : Nat → String → Prop where
  | root {column : String} (stored : via.lookup column = none) : Anchored via 0 column
  | step {column determinant : String} {n : Nat} (via_eq : via.lookup column = some determinant)
      (rest : Anchored via n determinant) : Anchored via (n + 1) column

namespace Anchored

variable {via : List (String × String)}

theorem unique {n m : Nat} {column : String} (h : Anchored via n column) (h' : Anchored via m column) :
    n = m := by
  induction h generalizing m with
  | root stored =>
    cases h' with
    | root _ => rfl
    | step via_eq _ =>
      rw [stored] at via_eq
      cases via_eq
  | step via_eq _ ih =>
    cases h' with
    | root stored =>
      rw [stored] at via_eq
      cases via_eq
    | step via_eq' rest =>
      rw [via_eq] at via_eq'
      cases via_eq'
      rw [ih rest]

/-- The columns on a chain are different, so it is no longer than the list of compressed columns. -/
theorem length_le {n : Nat} {column : String} (h : Anchored via n column) {names : List String}
    (hnames : ∀ c ∈ via, c.1 ∈ names) : n ≤ names.length := by
  have hchain : ∃ l : List String, l.length = n ∧ l.Nodup ∧
      ∀ c ∈ l, c ∈ names ∧ ∃ k, k ≤ n ∧ 0 < k ∧ Anchored via k c := by
    induction h with
    | root _ => exact ⟨[], rfl, List.nodup_nil, by simp⟩
    | @step c d n via_eq rest ih =>
      obtain ⟨l, hlen, hnodup, hl⟩ := ih
      have hc : c ∉ l := by
        intro hmem
        obtain ⟨-, k, hk, -, hanchored⟩ := hl c hmem
        have hsame := hanchored.unique (.step via_eq rest)
        omega
      refine ⟨c :: l, by rw [List.length_cons, hlen], List.nodup_cons.mpr ⟨hc, hnodup⟩, ?_⟩
      intro x hx
      rcases List.mem_cons.mp hx with rfl | hx
      · exact ⟨hnames (x, d) (mem_of_lookup via_eq), n + 1, le_rfl, Nat.succ_pos n,
          .step via_eq rest⟩
      · obtain ⟨hx, k, hk, hpos, hanchored⟩ := hl x hx
        exact ⟨hx, k, by omega, hpos, hanchored⟩
  obtain ⟨l, rfl, hnodup, hl⟩ := hchain
  exact (List.subperm_of_subset hnodup fun c hc => (hl c hc).1).length_le

end Anchored

theorem lookup_append_of_ne {via : List (String × String)} {target determinant c : String}
    (hc : c ≠ target) : (via ++ [(target, determinant)]).lookup c = via.lookup c := by
  have hfalse : (c == target) = false := beq_eq_false_iff_ne.mpr hc
  rw [List.lookup_append]
  simp [List.lookup, hfalse]

/-- A chain that does not meet a column is not changed when that column is compressed. -/
theorem anchored_of_walk {via : List (String × String)} {target : String} {fuel : Nat}
    {column : String} (determinant : String) (h : walk via target fuel (some column) = .clear) :
    ∃ n, Anchored (via ++ [(target, determinant)]) n column := by
  induction fuel generalizing column with
  | zero => cases h
  | succ fuel ih =>
    unfold walk at h
    split at h
    · cases h
    · rename_i hne
      have hlookup : (via ++ [(target, determinant)]).lookup column = via.lookup column :=
        lookup_append_of_ne (by simpa using hne)
      cases hd : via.lookup column with
      | none => exact ⟨0, .root (hlookup.trans hd)⟩
      | some d =>
        rw [hd] at h
        obtain ⟨n, hn⟩ := ih h
        exact ⟨n + 1, .step (hlookup.trans hd) hn⟩

/-- Compressing a column that is not met on the way up from its determinant keeps all chains
anchored. -/
theorem anchored_append {via : List (String × String)} {target determinant : String}
    (h : ∀ c, ∃ n, Anchored via n c) (hfree : via.lookup target = none) (hne : determinant ≠ target)
    (hwalk : ancestry via determinant target = .clear) :
    ∀ c, ∃ n, Anchored (via ++ [(target, determinant)]) n c := by
  have hdeterminant : ∃ n, Anchored (via ++ [(target, determinant)]) n determinant := by
    cases hd : via.lookup determinant with
    | none => exact ⟨0, .root ((lookup_append_of_ne hne).trans hd)⟩
    | some d =>
      rw [ancestry, hd] at hwalk
      obtain ⟨n, hn⟩ := anchored_of_walk determinant hwalk
      exact ⟨n + 1, .step ((lookup_append_of_ne hne).trans hd) hn⟩
  have htarget : ∃ n, Anchored (via ++ [(target, determinant)]) n target := by
    obtain ⟨n, hn⟩ := hdeterminant
    refine ⟨n + 1, .step ?_ hn⟩
    rw [List.lookup_append, hfree]
    simp [List.lookup]
  intro c
  obtain ⟨n, hn⟩ := h c
  induction hn with
  | @root c stored =>
    by_cases hc : c = target
    · exact hc ▸ htarget
    · exact ⟨0, .root ((lookup_append_of_ne hc).trans stored)⟩
  | @step c d n via_eq _ ih =>
    have hc : c ≠ target := by
      rintro rfl
      rw [hfree] at via_eq
      cases via_eq
    obtain ⟨m, hm⟩ := ih
    exact ⟨m + 1, .step ((lookup_append_of_ne hc).trans via_eq) hm⟩

/-- The map that rebuilds a column from its determinant. -/
def map? (s : Compression N) (determinant dependent : String) : Option (DependencyMap N) :=
  (s.maps.get? determinant).bind (·.get? dependent)

/-- The column is compressed through this determinant, by the map of the two columns. -/
structure Compresses (t : Table N) (f : Frame N) (maxUnique : Nat) (s : Compression N)
    (dependent determinant : Column N) : Prop where
  determinant_mem : determinant ∈ f
  dependent_mem : dependent ∈ f
  fit : determinant.isUnfit maxUnique = false
  rule : dependent.name ∈ t.dependentsOf determinant.name
  exists_map : ∃ map, s.map? determinant.name dependent.name = some map ∧
    DependencyMap.build t.name determinant dependent = .ok map

/-- Every compressed column has one determinant and one map. -/
structure Recorded (t : Table N) (f : Frame N) (maxUnique : Nat) (s : Compression N) : Prop where
  keys : (s.via.map Prod.fst).Nodup
  compresses : ∀ e ∈ s.via, ∃ dependent determinant, e = (dependent.name, determinant.name) ∧
    s.Compresses t f maxUnique dependent determinant
  mem_via : ∀ determinant dependent map, s.map? determinant dependent = some map →
    (dependent, determinant) ∈ s.via

/-- Moreover, all chains end. -/
structure Sound (t : Table N) (f : Frame N) (maxUnique : Nat) (s : Compression N) : Prop
    extends Recorded t f maxUnique s where
  anchored : ∀ c, ∃ n, Anchored s.via n c

theorem recorded_empty (t : Table N) (f : Frame N) (maxUnique : Nat) :
    Recorded t f maxUnique ⟨[], ∅⟩ where
  keys := List.nodup_nil
  compresses e he := absurd he List.not_mem_nil
  mem_via determinant dependent map h := by cases h

/-- The compression with one more column. -/
def extend (s : Compression N) (determinant dependent : String) (map : DependencyMap N) :
    Compression N :=
  ⟨s.via ++ [(dependent, determinant)],
    s.maps.insert determinant (((s.maps.get? determinant).getD ∅).insert dependent map)⟩

section

variable {t : Table N} {f : Frame N} {maxUnique : Nat} {s s' : Compression N}

omit [Scalar N] in
theorem map?_extend_self (s : Compression N) (determinant dependent : String) (map : DependencyMap N) :
    (s.extend determinant dependent map).map? determinant dependent = some map := by
  rw [map?, extend, SortedMap.get?_insert_self, Option.bind_some, SortedMap.get?_insert_self]

omit [Scalar N] in
theorem map?_extend_of_ne {determinant dependent d c : String} {map : DependencyMap N}
    (hne : d ≠ determinant ∨ c ≠ dependent) :
    (s.extend determinant dependent map).map? d c = s.map? d c := by
  unfold map? extend
  by_cases hd : d = determinant
  · rw [hd, SortedMap.get?_insert_self, Option.bind_some,
      SortedMap.get?_insert_of_ne (hne.resolve_left fun h => h hd)]
    cases s.maps.get? determinant with
    | none => rfl
    | some ms => rfl
  · rw [SortedMap.get?_insert_of_ne hd]

/-- The column can be compressed through the determinant, by the map. -/
structure Allows (t : Table N) (f : Frame N) (s : Compression N) (determinant column : Column N)
    (map : DependencyMap N) : Prop where
  found : f.column? column.name = some column
  unkept : t.noCompress.contains (t.unqualified column.name) = false
  free : s.via.lookup column.name = none
  clear : ancestry s.via determinant.name column.name = .clear
  built : DependencyMap.build t.name determinant column = .ok map

/-- A step leaves everything as it was or compresses one more column. -/
theorem step_eq_ok {determinant : Column N} {dependent : String}
    (h : step t f s (determinant, dependent) = .ok s') :
    s' = s ∨ ∃ column map, column.name = dependent ∧ s.Allows t f determinant column map ∧
      s' = s.extend determinant.name column.name map := by
  unfold Compression.step at h
  dsimp only at h
  split at h
  · cases h
    exact .inl rfl
  · rename_i hkept
    split at h
    · cases h
      exact .inl rfl
    · cases h
    · rename_i hwalk
      split at h
      · cases h
        exact .inl rfl
      · rename_i column hcolumn
        obtain ⟨map, hmap, h⟩ := bind_eq_ok.mp h
        cases pure_eq_ok.mp h
        have hname : column.name = dependent := by
          have hname := List.find?_some hcolumn
          exact beq_iff_eq.mp hname
        subst hname
        simp only [Bool.or_eq_true, not_or, Bool.not_eq_true, Option.isSome_eq_false_iff,
          Option.isNone_iff_eq_none] at hkept
        exact .inr ⟨column, map, rfl, ⟨hcolumn, hkept.1, hkept.2, hwalk, hmap⟩, rfl⟩

/-- A step fails because the walk up from the determinant is endless, or because the rows contradict the
rule. -/
theorem step_eq_error {rule : Column N × String} {e : PreparationError}
    (h : step t f s rule = .error e) :
    (s.via.lookup rule.2 = none ∧ ancestry s.via rule.1.name rule.2 = .endless ∧
        e = .endless t.name rule.2) ∨
      ∃ column, f.column? rule.2 = some column ∧
        DependencyMap.build t.name rule.1 column = .error e := by
  unfold Compression.step at h
  dsimp only at h
  split at h
  · cases h
  · rename_i hkept
    split at h
    · cases h
    · rename_i hwalk
      cases h
      simp only [Bool.or_eq_true, not_or, Bool.not_eq_true, Option.isSome_eq_false_iff,
        Option.isNone_iff_eq_none] at hkept
      exact .inl ⟨hkept.2, hwalk, rfl⟩
    · split at h
      · cases h
      · rename_i column hcolumn
        rcases bind_eq_error.mp h with hbuild | ⟨map, -, hpure⟩
        · exact .inr ⟨column, hcolumn, hbuild⟩
        · cases hpure

theorem Allows.mem {determinant column : Column N} {map : DependencyMap N}
    (h : s.Allows t f determinant column map) : column ∈ f :=
  List.mem_of_find?_eq_some h.found

theorem Recorded.extend (h : s.Recorded t f maxUnique) {determinant column : Column N}
    {map : DependencyMap N} (hf : determinant ∈ f) (hfit : determinant.isUnfit maxUnique = false)
    (hrule : column.name ∈ t.dependentsOf determinant.name)
    (hallows : s.Allows t f determinant column map) :
    (s.extend determinant.name column.name map).Recorded t f maxUnique := by
  have hnew : column.name ∉ s.via.map Prod.fst := lookup_eq_none.mp hallows.free
  have hnew' {d : String} : (column.name, d) ∉ s.via := fun hmem =>
    hnew (List.mem_map_of_mem (f := Prod.fst) hmem)
  refine ⟨?_, ?_, ?_⟩
  · rw [Compression.extend, List.map_append, List.map_singleton, List.nodup_append_comm]
    exact List.nodup_cons.mpr ⟨hnew, h.keys⟩
  · intro e he
    rcases List.mem_append.mp he with he | he
    · obtain ⟨c, d, rfl, hd, hc, hdfit, hdrule, m, hm, hbuild⟩ := h.compresses e he
      refine ⟨c, d, rfl, hd, hc, hdfit, hdrule, m, ?_, hbuild⟩
      rw [map?_extend_of_ne (.inr fun heq => hnew' (heq ▸ he))]
      exact hm
    · cases List.mem_singleton.mp he
      exact ⟨column, determinant, rfl, hf, hallows.mem, hfit, hrule, map, map?_extend_self _ _ _ _,
        hallows.built⟩
  · intro d c m hm
    by_cases heq : d ≠ determinant.name ∨ c ≠ column.name
    · rw [map?_extend_of_ne heq] at hm
      exact List.mem_append_left _ (h.mem_via d c m hm)
    · rw [not_or, not_not, not_not] at heq
      rw [heq.1, heq.2]
      exact List.mem_append_right _ List.mem_cons_self

theorem mem_rules {rule : Column N × String} (h : rule ∈ rules t f maxUnique) :
    rule.1 ∈ f ∧ rule.1.isUnfit maxUnique = false ∧ rule.2 ∈ t.dependentsOf rule.1.name := by
  obtain ⟨determinant, hmem, h⟩ := List.mem_flatMap.mp h
  split at h
  · cases h
  · rename_i hfit
    obtain ⟨dependent, hdependent, rfl⟩ := List.mem_map.mp h
    obtain ⟨c, -, hc⟩ := List.mem_filterMap.mp hmem
    exact ⟨List.mem_of_find?_eq_some hc, Bool.eq_false_iff.mpr hfit, hdependent⟩

theorem Recorded.step (h : s.Recorded t f maxUnique) {rule : Column N × String}
    (hrule : rule ∈ rules t f maxUnique) (hstep : step t f s rule = .ok s') :
    s'.Recorded t f maxUnique := by
  obtain ⟨hf, hfit, hdependent⟩ := mem_rules hrule
  obtain rfl | ⟨column, map, hname, hallows, rfl⟩ := step_eq_ok hstep
  · exact h
  · exact h.extend hf hfit (hname ▸ hdependent) hallows

theorem run_recorded (h : run t f maxUnique = .ok s) : s.Recorded t f maxUnique :=
  foldlM_induction h (recorded_empty t f maxUnique) fun _ hr _ _ hs hstep => hs.step hr hstep

/-- A step keeps all chains anchored if it compresses no column through itself. -/
theorem anchored_step {rule : Column N × String} (h : ∀ c, ∃ n, Anchored s.via n c)
    (hstep : step t f s rule = .ok s') (hself : ∀ c, (c, c) ∉ s'.via) :
    ∀ c, ∃ n, Anchored s'.via n c := by
  obtain rfl | ⟨column, map, -, hallows, rfl⟩ := step_eq_ok hstep
  · exact h
  · refine anchored_append h hallows.free (fun heq => hself column.name ?_) hallows.clear
    rw [← heq]
    exact List.mem_append_right _ List.mem_cons_self

omit [Scalar N] in
theorem via_subset_extend (s : Compression N) (determinant dependent : String) (map : DependencyMap N) :
    s.via ⊆ (s.extend determinant dependent map).via :=
  List.subset_append_left _ _

theorem via_subset_step {rule : Column N × String} (h : step t f s rule = .ok s') : s.via ⊆ s'.via := by
  obtain rfl | ⟨column, map, -, -, rfl⟩ := step_eq_ok h
  · exact List.Subset.refl _
  · exact via_subset_extend s _ _ map

/-- Only a column that is compressed through itself can make a chain endless. -/
theorem anchored_foldlM {rules : List (Column N × String)}
    (h : rules.foldlM (step t f) ⟨[], ∅⟩ = .ok s) (hself : ∀ c, (c, c) ∉ s.via) :
    ∀ c, ∃ n, Anchored s.via n c := by
  have hstart : (∀ c, (c, c) ∉ ([] : List (String × String))) →
      ∀ c, ∃ n, Anchored ([] : List (String × String)) n c := fun _ _ => ⟨0, .root rfl⟩
  refine foldlM_induction (P := fun s => (∀ c, (c, c) ∉ s.via) → ∀ c, ∃ n, Anchored s.via n c) h
    hstart (fun rule _ s s' hs hstep hself => ?_) hself
  exact anchored_step (hs fun c hc => hself c (via_subset_step hstep hc)) hstep hself

theorem run_sound (hrules : ∀ d ∈ t.dependencies, d.determinant ≠ d.dependent)
    (h : run t f maxUnique = .ok s) : s.Sound t f maxUnique := by
  have hrecorded := run_recorded h
  refine ⟨hrecorded, anchored_foldlM h fun c hc => ?_⟩
  obtain ⟨dependent, determinant, heq, hcompresses⟩ := hrecorded.compresses _ hc
  obtain ⟨d, hd, hdependent⟩ := List.mem_map.mp hcompresses.rule
  obtain ⟨hd, hdeterminant⟩ := List.mem_filter.mp hd
  injection heq with hfst hsnd
  refine hrules d hd ?_
  rw [beq_iff_eq.mp hdeterminant, hdependent, ← hfst, ← hsnd]

end

end Compression

theorem Preparation.recorded {g : Schema N} {source : RawSource N} {config : PreparationConfig N}
    {name : String} {p : PreparedTable N} (h : Preparation g source config name p) :
    h.compression.Recorded h.table h.whole config.maxUnique :=
  Compression.run_recorded h.compression_eq

/-- A column that no rule determines is not compressed. -/
theorem Preparation.not_mem_via {g : Schema N} {source : RawSource N} {config : PreparationConfig N}
    {name a : String} {p : PreparedTable N} (h : Preparation g source config name p)
    (hfree : ∀ d ∈ h.table.dependencies, d.dependent ≠ qualify h.table.name a) :
    qualify h.table.name a ∉ h.compression.via.map Prod.fst := by
  intro hmem
  obtain ⟨e, he, hname⟩ := List.mem_map.mp hmem
  obtain ⟨dependent, determinant, rfl, hcompresses⟩ := h.recorded.compresses e he
  obtain ⟨d, hd, hdependent⟩ := List.mem_map.mp hcompresses.rule
  exact hfree d (List.mem_filter.mp hd).1 (hdependent.trans hname)

end ApproxQuery

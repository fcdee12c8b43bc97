import ApproxQuery.Proofs.Prepare.Reconstruction
import ApproxQuery.Proofs.Prepare.Violations

/-!
# Ancestors of compressed columns

The ancestors of a column are its determinant, the determinant of that one, and so on. A column may
be compressed through itself when a rule says so; if none is, every walk along ancestors ends, no
column is its own ancestor, and the last ancestor is a column that stays, so that every compressed
column can be rebuilt.
-/

namespace ApproxQuery

namespace Compression

section

variable {via : List (String × String)}

/-- The column that is so many determinants up from a column. -/
def ancestor? (via : List (String × String)) : Nat → String → Option String
  | 0, column => some column
  | n + 1, column => (via.lookup column).bind (ancestor? via n)

/-- No column is its own ancestor. -/
def Acyclic (via : List (String × String)) : Prop :=
  ∀ c n, ancestor? via (n + 1) c ≠ some c

namespace Anchored

theorem exists_root {n : Nat} {c : String} (h : Anchored via n c) :
    ∃ r, ancestor? via n c = some r ∧ r ∉ via.map Prod.fst := by
  induction h with
  | @root c stored => exact ⟨c, rfl, lookup_eq_none.mp stored⟩
  | step via_eq rest ih =>
    obtain ⟨r, hr, hroot⟩ := ih
    exact ⟨r, by rw [ancestor?, via_eq, Option.bind_some, hr], hroot⟩

theorem of_ancestor? {n m : Nat} {c d : String} (hd : Anchored via m d)
    (h : ancestor? via n c = some d) : Anchored via (m + n) c := by
  induction n generalizing c with
  | zero =>
    cases h
    exact hd
  | succ n ih =>
    obtain ⟨e, he, hrest⟩ := Option.bind_eq_some_iff.mp h
    exact .step he (ih hrest)

theorem ancestor?_eq_none {n k : Nat} {c : String} (h : Anchored via n c) (hk : n < k) :
    ancestor? via k c = none := by
  induction h generalizing k with
  | root stored =>
    obtain ⟨k, rfl⟩ := Nat.exists_eq_succ_of_ne_zero (Nat.ne_zero_of_lt hk)
    rw [ancestor?, stored, Option.bind_none]
  | step via_eq rest ih =>
    obtain ⟨k, rfl⟩ := Nat.exists_eq_succ_of_ne_zero (Nat.ne_zero_of_lt hk)
    rw [ancestor?, via_eq, Option.bind_some]
    exact ih (by omega)

end Anchored

theorem acyclic_of_anchored (h : ∀ c, ∃ n, Anchored via n c) : Acyclic via := by
  intro c n hc
  obtain ⟨m, hm⟩ := h c
  have hsame := hm.unique (hm.of_ancestor? hc)
  omega

theorem exists_anchored_of_eq_none {n : Nat} {c : String} (h : ancestor? via n c = none) :
    ∃ m, Anchored via m c := by
  induction n generalizing c with
  | zero => cases h
  | succ n ih =>
    cases hd : via.lookup c with
    | none => exact ⟨0, .root hd⟩
    | some d =>
      rw [ancestor?, hd, Option.bind_some] at h
      obtain ⟨m, hm⟩ := ih h
      exact ⟨m + 1, .step hd hm⟩

theorem exists_mem_of_ancestor? {n : Nat} {c r : String} (h : ancestor? via (n + 1) c = some r) :
    ∃ x, (x, r) ∈ via := by
  induction n generalizing c with
  | zero =>
    obtain ⟨d, hd, hr⟩ := Option.bind_eq_some_iff.mp h
    cases hr
    exact ⟨c, mem_of_lookup hd⟩
  | succ n ih =>
    obtain ⟨d, -, hr⟩ := Option.bind_eq_some_iff.mp h
    exact ih hr

theorem walk_eq_endless {target c : String} {fuel : Nat} :
    walk via target fuel (some c) = .endless ↔
      ∀ k ≤ fuel, ∃ a, ancestor? via k c = some a ∧ (k < fuel → a ≠ target) := by
  induction fuel generalizing c with
  | zero =>
    refine iff_of_true rfl fun k hk => ⟨c, ?_, fun hlt => absurd hlt (Nat.not_lt_zero k)⟩
    rw [Nat.le_zero.mp hk, ancestor?]
  | succ fuel ih =>
    by_cases hc : c = target
    · refine iff_of_false (by simp [walk, hc]) fun hall => ?_
      obtain ⟨a, ha, hne⟩ := hall 0 (Nat.zero_le _)
      cases ha
      exact hne (Nat.succ_pos fuel) hc
    · have hwalk : walk via target (fuel + 1) (some c) = walk via target fuel (via.lookup c) := by
        simp [walk, hc]
      rw [hwalk]
      cases hd : via.lookup c with
      | none =>
        refine iff_of_false (by simp [walk]) fun hall => ?_
        obtain ⟨a, ha, -⟩ := hall 1 (Nat.succ_pos fuel)
        rw [ancestor?, hd] at ha
        cases ha
      | some d =>
        rw [ih]
        constructor
        · intro hall k hk
          cases k with
          | zero => exact ⟨c, rfl, fun _ => hc⟩
          | succ k =>
            obtain ⟨a, ha, hne⟩ := hall k (by omega)
            exact ⟨a, by rw [ancestor?, hd, Option.bind_some, ha], fun hlt => hne (by omega)⟩
        · intro hall k hk
          obtain ⟨a, ha, hne⟩ := hall (k + 1) (by omega)
          rw [ancestor?, hd, Option.bind_some] at ha
          exact ⟨a, ha, fun hlt => hne (by omega)⟩

/-- The walk up from a column with an anchored chain ends. -/
theorem Anchored.ancestry_ne_endless {n : Nat} {determinant dependent : String}
    (h : Anchored via n determinant) : ancestry via determinant dependent ≠ .endless := by
  intro hendless
  have hlen : n ≤ (via.map Prod.fst).length :=
    h.length_le fun c hc => List.mem_map_of_mem (f := Prod.fst) hc
  rw [List.length_map] at hlen
  unfold ancestry at hendless
  cases hd : via.lookup determinant with
  | none =>
    rw [hd] at hendless
    cases hv : via.length <;> simp [hv, walk] at hendless
  | some d =>
    rw [hd, walk_eq_endless] at hendless
    obtain ⟨a, ha, -⟩ := hendless via.length le_rfl
    have hnone : ancestor? via (via.length + 1) determinant = none := h.ancestor?_eq_none (by omega)
    rw [ancestor?, hd, Option.bind_some, ha] at hnone
    cases hnone

/-- The bound on the walk is large enough: it is reached only by a walk that would go on for ever. -/
theorem ancestry_eq_endless_iff {determinant dependent : String}
    (hfree : via.lookup dependent = none) : ancestry via determinant dependent = .endless ↔
      ∀ n, ∃ a, ancestor? via (n + 1) determinant = some a ∧ a ≠ dependent := by
  constructor
  · intro hendless n
    have hchain {m : Nat} (h : Anchored via m determinant) : False :=
      h.ancestry_ne_endless hendless
    cases ha : ancestor? via (n + 1) determinant with
    | none =>
      obtain ⟨m, hm⟩ := exists_anchored_of_eq_none ha
      exact (hchain hm).elim
    | some a =>
      refine ⟨a, rfl, ?_⟩
      rintro rfl
      exact hchain (Anchored.of_ancestor? (.root hfree) ha)
  · intro hall
    obtain ⟨a, ha, -⟩ := hall 0
    obtain ⟨d, hd, -⟩ := Option.bind_eq_some_iff.mp ha
    rw [ancestry, hd, walk_eq_endless]
    intro k _
    obtain ⟨a, ha, hne⟩ := hall k
    rw [ancestor?, hd, Option.bind_some] at ha
    exact ⟨a, ha, fun _ => hne⟩

end

variable {N : Type} [Scalar N] {t : Table N} {f : Frame N} {maxUnique : Nat} {s s' : Compression N}

/-- No column is its own ancestor, and the last ancestor of each compressed column stays. -/
structure Grounded (s : Compression N) (f : Frame N) : Prop where
  acyclic : Acyclic s.via
  ends : ∀ e ∈ s.via, ∃ n r, ancestor? s.via n e.1 = some r ∧ r ∉ s.via.map Prod.fst ∧
    ∃ c ∈ s.remaining f, c.name = r

theorem Recorded.grounded (h : s.Recorded t f maxUnique) (hanchored : ∀ c, ∃ n, Anchored s.via n c) :
    s.Grounded f := by
  refine ⟨acyclic_of_anchored hanchored, fun e he => ?_⟩
  obtain ⟨n, hn⟩ := hanchored e.1
  obtain ⟨r, hr, hroot⟩ := hn.exists_root
  refine ⟨n, r, hr, hroot, ?_⟩
  cases n with
  | zero =>
    cases hr
    exact absurd (List.mem_map_of_mem (f := Prod.fst) he) hroot
  | succ n =>
    obtain ⟨x, hx⟩ := exists_mem_of_ancestor? hr
    obtain ⟨c, d, heq, hcompresses⟩ := h.compresses _ hx
    injection heq with _ hd
    exact ⟨d, Frame.mem_erase_of_not_mem hcompresses.determinant_mem (hd ▸ hroot), hd.symm⟩

/-- At some point of the work a column is compressed through itself. -/
def ThroughItself (t : Table N) (f : Frame N) (maxUnique : Nat) : Prop :=
  ∃ before after s c, rules t f maxUnique = before ++ after ∧
    before.foldlM (step t f) ⟨[], ∅⟩ = .ok s ∧ (c, c) ∈ s.via

theorem via_subset_foldlM {rules : List (Column N × String)}
    (h : rules.foldlM (step t f) s = .ok s') : s.via ⊆ s'.via :=
  foldlM_induction (P := fun s' => s.via ⊆ s'.via) h (List.Subset.refl _)
    fun _ _ _ _ hsub hstep => List.Subset.trans hsub (via_subset_step hstep)

/-- A column that is compressed through itself stays so. -/
theorem ThroughItself.exists_mem (h : ThroughItself t f maxUnique) (hrun : run t f maxUnique = .ok s) :
    ∃ c, (c, c) ∈ s.via := by
  obtain ⟨before, after, s₁, c, hrules, hbefore, hc⟩ := h
  unfold run at hrun
  rw [hrules, List.foldlM_append, hbefore] at hrun
  exact ⟨c, via_subset_foldlM hrun hc⟩

theorem throughItself_of_run (hrun : run t f maxUnique = .ok s) {c : String} (hc : (c, c) ∈ s.via) :
    ThroughItself t f maxUnique :=
  ⟨rules t f maxUnique, [], s, c, (List.append_nil _).symm, hrun, hc⟩

/-- The work goes on for ever only after a column has been compressed through itself. -/
theorem throughItself_of_endless {table column : String}
    (h : run t f maxUnique = .error (.endless table column)) : ThroughItself t f maxUnique := by
  obtain ⟨before, rule, after, s, hrules, hbefore, hstep⟩ := foldlM_eq_error h
  refine ⟨before, rule :: after, s, ?_⟩
  by_contra hnone
  have hself (c : String) : (c, c) ∉ s.via := fun hc => hnone ⟨c, hrules, hbefore, hc⟩
  obtain ⟨n, hn⟩ := anchored_foldlM hbefore hself rule.1.name
  rcases step_eq_error hstep with ⟨-, hendless, -⟩ | ⟨column, -, hbuild⟩
  · exact hn.ancestry_ne_endless hendless
  · have hviolation := DependencyMap.isViolation_of_build hbuild
    cases hviolation

theorem anchored_of_run (hrun : run t f maxUnique = .ok s) (hself : ¬ ThroughItself t f maxUnique) :
    ∀ c, ∃ n, Anchored s.via n c :=
  anchored_foldlM hrun fun _ hc => hself (throughItself_of_run hrun hc)

/-- Only a rule from a column to itself compresses it through itself. -/
theorem ThroughItself.exists_rule (h : ThroughItself t f maxUnique) :
    ∃ d ∈ t.dependencies, d.determinant = d.dependent ∧ ∃ c ∈ f, c.name = d.determinant ∧
      c.isUnfit maxUnique = false ∧ t.noCompress.contains (t.unqualified c.name) = false := by
  obtain ⟨before, after, s, c, hrules, hbefore, hc⟩ := h
  have hfound : ∀ e ∈ s.via, ∃ rule ∈ before, e = (rule.2, rule.1.name) ∧
      t.noCompress.contains (t.unqualified rule.2) = false := by
    refine foldlM_induction (P := fun s => ∀ e ∈ s.via, ∃ rule ∈ before, e = (rule.2, rule.1.name) ∧
      t.noCompress.contains (t.unqualified rule.2) = false) hbefore nofun
      fun rule hrule s s' hs hstep e he => ?_
    obtain rfl | ⟨column, map, hname, hallows, rfl⟩ := step_eq_ok hstep
    · exact hs e he
    · rcases List.mem_append.mp he with he | he
      · exact hs e he
      · exact ⟨rule, hrule, hname ▸ List.mem_singleton.mp he, hname ▸ hallows.unkept⟩
  obtain ⟨rule, hrule, heq, hunkept⟩ := hfound _ hc
  injection heq with hdependent hdeterminant
  obtain ⟨hmem, hfit, hrule⟩ := mem_rules (hrules ▸ List.mem_append_left after hrule)
  obtain ⟨d, hd, hd2⟩ := List.mem_map.mp hrule
  obtain ⟨hd, hd1⟩ := List.mem_filter.mp hd
  have hd1 : d.determinant = rule.1.name := beq_iff_eq.mp hd1
  refine ⟨d, hd, ?_, rule.1, hmem, hd1.symm, hfit, ?_⟩
  · rw [hd1, hd2, ← hdeterminant, hdependent]
  · rwa [← hdeterminant, hdependent]

/-- A column that is compressed through itself is its own ancestor. -/
theorem Recorded.not_acyclic (h : s.Recorded t f maxUnique) {c : String} (hc : (c, c) ∈ s.via) :
    ¬ Acyclic s.via := by
  intro hacyclic
  refine hacyclic c 0 ?_
  cases hd : s.via.lookup c with
  | none => exact absurd (List.mem_map_of_mem (f := Prod.fst) hc) (lookup_eq_none.mp hd)
  | some d =>
    cases List.inj_on_of_nodup_map h.keys (mem_of_lookup hd) hc rfl
    rw [ancestor?, hd]
    rfl

end Compression

namespace Preparation

variable {N : Type} [Scalar N] {g : Schema N} {source : RawSource N} {config : PreparationConfig N}
  {name : String} {p : PreparedTable N} (h : Preparation g source config name p)

/-- A determinant is stored or compressed itself. -/
theorem mem_columns_or_mem_via {determinant dependent : String} {map : DependencyMap N}
    (hmap : h.compression.map? determinant dependent = some map) :
    determinant ∈ p.table.columns ∨ determinant ∈ h.compression.via.map Prod.fst := by
  obtain ⟨c, d, heq, hcompresses⟩ := h.recorded.compresses _ (h.recorded.mem_via _ _ _ hmap)
  injection heq with _ hd
  subst hd
  refine or_iff_not_imp_right.mpr fun hfree => ?_
  have hframe := List.mem_append_left (h.multipliers.map Multiplier.column)
    (Frame.mem_erase_of_not_mem hcompresses.determinant_mem hfree)
  exact h.mem_columns_iff.mpr ⟨d, hframe, hcompresses.fit, rfl⟩

variable [LawfulScalar N]

include h in
theorem exists_decodeColumn_of_place {column : String} {place : Nat}
    (hplace : p.table.columnIndex? column = some place) : ∃ vs, p.decodeColumn column = .ok vs := by
  obtain ⟨numbers, hnumbers⟩ := h.exists_column? hplace
  exact ⟨_, h.decodeColumn_eq hnumbers⟩

/-- A column is rebuilt as soon as the depth exceeds the length of the chain above it. -/
theorem exists_rebuild_of_anchored {n : Nat} {determinant dependent : String} {map : DependencyMap N}
    (hmap : h.compression.map? determinant dependent = some map)
    (hanchored : Compression.Anchored h.compression.via n determinant) :
    ∀ depth, n < depth → ∃ vs, p.rebuild depth dependent = .ok vs := by
  induction hanchored generalizing dependent map with
  | @root determinant stored =>
    intro depth hdepth
    obtain ⟨depth, rfl⟩ := Nat.exists_eq_succ_of_ne_zero (Nat.ne_zero_of_lt hdepth)
    have hmem := (h.mem_columns_or_mem_via hmap).resolve_right (Compression.lookup_eq_none.mp stored)
    obtain ⟨place, hplace⟩ : ∃ place, p.table.columnIndex? determinant = some place :=
      exists_findIdx?_of_mem hmem
    obtain ⟨vs, hvs⟩ := h.exists_decodeColumn_of_place hplace
    exact ⟨_, h.rebuild_succ hmap (by rw [hplace]; exact hvs)⟩
  | @step determinant next n via_eq rest ih =>
    intro depth hdepth
    obtain ⟨depth, rfl⟩ := Nat.exists_eq_succ_of_ne_zero (Nat.ne_zero_of_lt hdepth)
    cases hplace : p.table.columnIndex? determinant with
    | some place =>
      -- of two columns with the name of the determinant, one stays
      obtain ⟨vs, hvs⟩ := h.exists_decodeColumn_of_place hplace
      exact ⟨_, h.rebuild_succ hmap (by rw [hplace]; exact hvs)⟩
    | none =>
      obtain ⟨c, d, heq, hcompresses⟩ := h.recorded.compresses _ (Compression.mem_of_lookup via_eq)
      cases heq
      obtain ⟨above, habove, -⟩ := hcompresses.exists_map
      obtain ⟨vs, hvs⟩ := ih habove depth (by omega)
      exact ⟨_, h.rebuild_succ hmap (by rw [hplace]; exact hvs)⟩

theorem exists_reconstruct_of_anchored
    (hanchored : ∀ c, ∃ n, Compression.Anchored h.compression.via n c) {dependent : String}
    (hdependent : dependent ∈ p.metadata.dependents) : ∃ vs, p.reconstruct dependent = .ok vs := by
  obtain ⟨determinant, map, hmap⟩ := h.mem_dependents.mp hdependent
  obtain ⟨n, hn⟩ := hanchored determinant
  exact h.exists_rebuild_of_anchored hmap hn _ (h.lt_depth hn)

end Preparation

/-- The work ends and every compressed column has a last ancestor and can be rebuilt, unless a column
is compressed through itself and no violation is met afterwards. Only a rule from a column to itself
does that. -/
theorem Schema.compression_grounded_iff {g : Schema Float} {source : RawSource Float}
    {config : PreparationConfig Float} {name : String} {t : Table Float} {raw : RawTable Float}
    {f : Frame Float} (ht : g.table name = .ok t) (hraw : source name = .ok raw)
    (hf : Frame.ofRaw t raw = .ok f) :
    (((∀ table column, Compression.run t f config.maxUnique ≠ .error (.endless table column)) ∧
        (∀ s, Compression.run t f config.maxUnique = .ok s → s.Grounded f) ∧
        ∀ p, g.prepare source config name = .ok p → ∀ dependent ∈ p.metadata.dependents,
          ∃ vs, p.reconstruct dependent = .ok vs) ↔
      (Compression.ThroughItself t f config.maxUnique →
        ∃ e, Compression.run t f config.maxUnique = .error e ∧ e.isViolation = true)) ∧
    (Compression.ThroughItself t f config.maxUnique →
      ∃ d ∈ t.dependencies, d.determinant = d.dependent ∧ ∃ c ∈ f, c.name = d.determinant ∧
        c.isUnfit config.maxUnique = false ∧
        t.noCompress.contains (t.unqualified c.name) = false) := by
  have hnot (hfails : Compression.ThroughItself t f config.maxUnique →
      ∃ e, Compression.run t f config.maxUnique = .error e ∧ e.isViolation = true)
      {s : Compression Float} (hrun : Compression.run t f config.maxUnique = .ok s) :
      ¬ Compression.ThroughItself t f config.maxUnique := by
    intro hself
    obtain ⟨e, he, -⟩ := hfails hself
    cases hrun.symm.trans he
  refine ⟨⟨fun ⟨hends, hgrounded, _⟩ hself => ?_, fun hfails => ⟨fun table column hendless => ?_,
    fun s hrun => ?_, fun p hp => ?_⟩⟩, Compression.ThroughItself.exists_rule⟩
  · cases hrun : Compression.run t f config.maxUnique with
    | ok s =>
      obtain ⟨c, hc⟩ := hself.exists_mem hrun
      exact absurd (hgrounded s hrun).acyclic ((Compression.run_recorded hrun).not_acyclic hc)
    | error e =>
      refine ⟨e, rfl, ?_⟩
      obtain ⟨_, rule, _, s, -, -, hstep⟩ := foldlM_eq_error hrun
      rcases Compression.step_eq_error hstep with ⟨-, -, rfl⟩ | ⟨column, -, hbuild⟩
      · exact absurd hrun (hends _ _)
      · exact DependencyMap.isViolation_of_build hbuild
  · obtain ⟨e, he, hviolation⟩ := hfails (Compression.throughItself_of_endless hendless)
    cases hendless.symm.trans he
    cases hviolation
  · exact (Compression.run_recorded hrun).grounded (Compression.anchored_of_run hrun (hnot hfails hrun))
  · obtain ⟨prep⟩ := Schema.prepare_eq_ok hp
    cases Except.ok.inj (prep.known.symm.trans ht)
    cases Except.ok.inj (prep.source_eq.symm.trans hraw)
    cases Except.ok.inj (prep.whole_eq.symm.trans hf)
    have hrun := prep.compression_eq
    exact fun dependent =>
      prep.exists_reconstruct_of_anchored (Compression.anchored_of_run hrun (hnot hfails hrun))

namespace Places

theorem compression_grounded_cities :
    schema.table "place" = .ok table ∧ source "place" = .ok raw ∧
      ∃ f s p, Frame.ofRaw table raw = .ok f ∧ Compression.run table f config.maxUnique = .ok s ∧
        schema.prepare source config "place" = .ok p ∧ s.via ≠ [] ∧ s.Grounded f ∧
        ∀ dependent ∈ p.metadata.dependents, ∃ vs, p.reconstruct dependent = .ok vs := by
  obtain ⟨p, hp⟩ := exists_eq_ok (x := schema.prepare source config "place") (by decide +kernel)
  obtain ⟨f, hf⟩ := exists_eq_ok (x := Frame.ofRaw table raw) rfl
  have hfound : (Frame.ofRaw table raw).toOption.any fun f =>
      (Compression.run table f config.maxUnique).toOption.any fun s => !s.via.isEmpty := by
    decide +kernel
  rw [hf] at hfound
  simp only [Except.toOption, Option.any_some] at hfound
  obtain ⟨s, hs, hvia⟩ := (Option.any_eq_true _ _).mp hfound
  have hrun := mem_toOption.mp hs
  have ht : schema.table "place" = .ok table := rfl
  have hraw : source "place" = .ok raw := rfl
  have hself (h : Compression.ThroughItself table f config.maxUnique) : False := by
    obtain ⟨d, hd, hsame, -⟩ := (Schema.compression_grounded_iff ht hraw hf).2 h
    have hdifferent : ∀ d ∈ table.dependencies, d.determinant ≠ d.dependent := by decide +kernel
    exact hdifferent d hd hsame
  obtain ⟨-, hgrounded, hreconstruct⟩ :=
    (Schema.compression_grounded_iff ht hraw hf).1.mpr fun h => (hself h).elim
  exact ⟨ht, hraw, f, s, p, hf, hrun, hp, by simpa using hvia, hgrounded s hrun, hreconstruct p hp⟩

end Places

/-! A rule from a column to itself is accepted, and the column is lost. -/

namespace SelfRule

def table : Table Float :=
  { (Table.named "t").withDependency "x" "x" with attributes := ["id", "x", "y"] }

def schema : Schema Float := ⟨[table], []⟩

def raw : RawTable Float where
  columns := ["id", "x", "y"]
  rows := [[.int 1, .int 10, .int 5], [.int 2, .int 20, .int 6]]

def source : RawSource Float := .ofTables [("t", raw)]

def config : PreparationConfig Float := .standard

/-- There is a rule for another column after the one for the column itself. -/
def longer : Table Float := table.withDependency "x" "y"

theorem rebuild_endless :
    Schema.empty.addTable table = .ok schema ∧ source "t" = .ok raw ∧
      (∃ (f : Frame Float) (s : Compression Float) (p : PreparedTable Float),
        Frame.ofRaw table raw = .ok f ∧ Compression.run table f config.maxUnique = .ok s ∧
        Compression.ancestor? s.via 1 "t.x" = some "t.x" ∧
        schema.prepare source config "t" = .ok p ∧ "t.x" ∈ p.metadata.dependents ∧
        ∀ depth, p.rebuild depth "t.x" = .error (.endless "t" "t.x")) ∧
      (∃ g, Schema.empty.addTable longer = .ok g) ∧
      ∃ f, Frame.ofRaw longer raw = .ok f ∧
        Compression.run longer f config.maxUnique = .error (.endless "t" "t.y") := by
  have hadd : Schema.empty.addTable table = .ok schema := by decide +kernel
  obtain ⟨g, hg⟩ := exists_eq_ok (x := Schema.empty.addTable longer) (by decide +kernel)
  obtain ⟨p, hp⟩ := exists_eq_ok (x := schema.prepare source config "t") (by decide +kernel)
  obtain ⟨f, hf⟩ := exists_eq_ok (x := Frame.ofRaw table raw) rfl
  have hvia : (Frame.ofRaw table raw).toOption.any fun f =>
      (Compression.run table f config.maxUnique).toOption.any fun s =>
        Compression.ancestor? s.via 1 "t.x" == some "t.x" := by
    decide +kernel
  rw [hf] at hvia
  simp only [Except.toOption, Option.any_some] at hvia
  obtain ⟨s, hs, hself⟩ := (Option.any_eq_true _ _).mp hvia
  have hlost : (schema.prepare source config "t").toOption.any fun p =>
      p.metadata.dependents.contains "t.x" && p.table.columnIndex? "t.x" == none &&
        (p.metadata.determinant? "t.x").any (·.1 == "t.x") && p.table.name == "t" := by
    decide +kernel
  rw [hp] at hlost
  simp only [Except.toOption, Option.any_some, Bool.and_eq_true, beq_iff_eq] at hlost
  obtain ⟨⟨⟨hdependent, hplace⟩, hdeterminant⟩, hname⟩ := hlost
  have hendless (depth : Nat) : p.rebuild depth "t.x" = .error (.endless "t" "t.x") := by
    induction depth with
    | zero => rw [PreparedTable.rebuild, hname]
    | succ depth ih =>
      obtain ⟨⟨determinant, map⟩, hmap, heq⟩ := (Option.any_eq_true _ _).mp hdeterminant
      cases beq_iff_eq.mp heq
      simp only [PreparedTable.rebuild, hmap, hplace, ih]
      rfl
  exact ⟨hadd, rfl, ⟨f, s, p, hf, mem_toOption.mp hs, beq_iff_eq.mp hself, hp,
    List.contains_iff_mem.mp hdependent, hendless⟩, ⟨g, hg⟩, _, rfl, rfl⟩

end SelfRule

end ApproxQuery

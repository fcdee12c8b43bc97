import ApproxQuery.Prepare.Encoding
import ApproxQuery.Proofs.Number.Exact
import ApproxQuery.Proofs.Outcome

/-!
# The search for a null marker

A null marker is none of the numbers of its column. In exact arithmetic a positive step leads to one
after fewer doublings than there are different numbers, for the candidates rise and the numbers up to
the mean are never among them. Only a step of zero can be doubled for ever.
-/

namespace ApproxQuery

namespace Sentinel

section

variable {N : Type} [Scalar N] {table column : String} {present : List N} {hasNull : Bool}
  {mean step epsilon sentinel : N}

/-- A step away from the mean lies one of the numbers, so the step cannot be used. -/
def Blocked (present : List N) (mean step : N) : Prop :=
  (Scalar.isFinite (mean + step) && collides present (mean + step)) = true

/-- From a step on, the search ends with a null marker after so many doublings. Nothing limits the
doublings here, unlike those of `widen`. -/
inductive Search (present : List N) (mean : N) : N → Nat → N → Prop where
  | stop {step : N} (free : ¬ Blocked present mean step) : Search present mean step 0 (mean + step)
  | double {step sentinel : N} {n : Nat} (blocked : Blocked present mean step)
      (rest : Search present mean (step * 2) n sentinel) : Search present mean step (n + 1) sentinel

theorem search_zero : Search present mean step 0 sentinel ↔
    ¬ Blocked present mean step ∧ sentinel = mean + step := by
  constructor
  · rintro ⟨free⟩
    exact ⟨free, rfl⟩
  · rintro ⟨free, rfl⟩
    exact .stop free

theorem search_succ {n : Nat} : Search present mean step (n + 1) sentinel ↔
    Blocked present mean step ∧ Search present mean (step * 2) n sentinel := by
  constructor
  · rintro (_ | ⟨blocked, rest⟩)
    exact ⟨blocked, rest⟩
  · rintro ⟨blocked, rest⟩
    exact .double blocked rest

theorem Search.free {n : Nat} (h : Search present mean step n sentinel) :
    ¬ (Scalar.isFinite sentinel && collides present sentinel) = true := by
  induction h with
  | stop free => exact free
  | double _ _ ih => exact ih

/-- `widen` finds what the search ends with, if it ends before the tries are used up. -/
theorem widen_eq_some_iff {tries : Nat} : widen present mean tries step = some sentinel ↔
    ∃ n < tries, Search present mean step n sentinel := by
  induction tries generalizing step with
  | zero => simp [widen]
  | succ tries ih =>
    unfold widen
    dsimp only
    split
    · rename_i blocked
      rw [ih]
      constructor
      · rintro ⟨n, hn, h⟩
        exact ⟨n + 1, Nat.succ_lt_succ hn, .double blocked h⟩
      · rintro ⟨_, hn, free | ⟨_, rest⟩⟩
        · exact absurd blocked free
        · exact ⟨_, Nat.lt_of_succ_lt_succ hn, rest⟩
    · rename_i free
      constructor
      · rintro ⟨⟩
        exact ⟨0, Nat.succ_pos tries, .stop free⟩
      · rintro ⟨_, hn, _ | ⟨blocked, _⟩⟩
        · rfl
        · exact absurd blocked free

/-- The null marker that is tried first. -/
def first (present : List N) (epsilon : N) : N :=
  Scalar.mean present + firstStep epsilon (Scalar.mean present)

/-- The search in a column with these numbers ends with a null marker after so many doublings. -/
def FoundAfter (present : List N) (epsilon : N) (n : Nat) (sentinel : N) : Prop :=
  Search present (Scalar.mean present) (firstStep epsilon (Scalar.mean present)) n sentinel

/-- A chosen null marker is found by the search, and at once in a column that holds nulls. -/
theorem foundAfter_of_choose (h : choose table column present hasNull epsilon = .ok sentinel) :
    Scalar.isFinite (first present epsilon) = true ∧ Scalar.isFinite sentinel = true ∧
      ∃ n, (hasNull = true → n = 0) ∧ FoundAfter present epsilon n sentinel := by
  unfold choose at h
  dsimp only at h
  split at h
  · cases h
  · rename_i hfirst
    rw [Bool.not_eq_true', Bool.not_eq_false] at hfirst
    split at h
    · split at h
      · cases h
      · rename_i free
        cases h
        exact ⟨hfirst, hfirst, 0, fun _ => rfl,
          .stop fun blocked => free (Bool.and_eq_true_iff.mp blocked).2⟩
    · rename_i hnull
      split at h
      · cases h
      · rename_i hwiden
        obtain ⟨n, -, hfound⟩ := widen_eq_some_iff.mp hwiden
        split at h
        · rename_i hfinite
          cases h
          exact ⟨hfirst, hfinite, n, fun hnull' => absurd hnull' hnull, hfound⟩
        · cases h

theorem isFinite_of_choose (h : choose table column present hasNull epsilon = .ok sentinel) :
    Scalar.isFinite sentinel = true :=
  (foundAfter_of_choose h).2.1

theorem eq_false_of_choose (h : choose table column present hasNull epsilon = .ok sentinel) :
    ∀ x ∈ present, Scalar.eq x sentinel = false := by
  obtain ⟨-, hfinite, n, -, hfound⟩ := foundAfter_of_choose h
  intro x hx
  rw [← Bool.not_eq_true]
  intro heq
  have hcollides : collides present sentinel = true := List.any_eq_true.mpr ⟨x, hx, heq⟩
  exact Search.free hfound (by rw [hfinite, hcollides, Bool.true_and])

end

section

variable {table column : String} {present : List ℚ} {mean step epsilon sentinel : ℚ} {n : ℕ}

theorem collides_iff {x : ℚ} : collides present x = true ↔ x ∈ present := by
  simp [collides]

theorem blocked_iff : Blocked present mean step ↔ mean + step ∈ present := by
  rw [Blocked, Exact.isFinite_eq, Bool.true_and, collides_iff]

/-- The search ends with the first of `mean + step`, `mean + 2 * step`, `mean + 4 * step`, … that is
none of the numbers. -/
theorem search_iff : Search present mean step n sentinel ↔
    sentinel = mean + step * 2 ^ n ∧ sentinel ∉ present ∧
      ∀ k < n, mean + step * 2 ^ k ∈ present := by
  induction n generalizing step with
  | zero =>
    rw [search_zero, blocked_iff]
    constructor
    · rintro ⟨free, rfl⟩
      simpa using free
    · rintro ⟨rfl, free, -⟩
      simpa using free
  | succ n ih =>
    have hdouble (k : ℕ) : step * 2 * 2 ^ k = step * 2 ^ (k + 1) := by ring
    have hall : (∀ k < n + 1, mean + step * 2 ^ k ∈ present) ↔
        mean + step ∈ present ∧ ∀ k < n, mean + step * 2 ^ (k + 1) ∈ present := by
      rw [Nat.forall_lt_succ_left, pow_zero, mul_one]
    rw [search_succ, blocked_iff]
    refine (and_congr_right fun _ => ih).trans ?_
    simp only [hdouble, hall]
    tauto

/-- The different numbers from a place on. -/
def above (present : List ℚ) (x : ℚ) : Finset ℚ :=
  present.toFinset.filter (x ≤ ·)

theorem card_above_le (x : ℚ) : (above present x).card ≤ present.length :=
  (Finset.card_filter_le _ _).trans present.toFinset_card_le

theorem card_above_lt {x y : ℚ} (hmem : x ∈ present) (hlt : x < y) :
    (above present y).card < (above present x).card := by
  have hsubset : above present y ⊆ above present x :=
    Finset.monotone_filter_right _ fun z _ hz => hlt.le.trans hz
  refine Finset.card_lt_card ((Finset.ssubset_iff_of_subset hsubset).mpr ⟨x, ?_, fun h => ?_⟩)
  · exact Finset.mem_filter.mpr ⟨List.mem_toFinset.mpr hmem, le_rfl⟩
  · exact absurd (Finset.mem_filter.mp h).2 (not_le.mpr hlt)

/-- A step that is doubled leaves one of the numbers behind, and no number is left behind twice. -/
theorem card_above_double (hstep : 0 < step) (blocked : Blocked present mean step) :
    (above present (mean + step * 2)).card < (above present (mean + step)).card :=
  card_above_lt (blocked_iff.mp blocked) (by linarith)

/-- So the search ends, after no more doublings than there are different numbers from the first
candidate on. -/
theorem exists_search (present : List ℚ) (mean : ℚ) {step : ℚ} (hstep : 0 < step) :
    ∃ n ≤ (above present (mean + step)).card, ∃ sentinel, Search present mean step n sentinel := by
  by_cases blocked : Blocked present mean step
  · have hfewer := card_above_double hstep blocked
    obtain ⟨n, hn, sentinel, h⟩ := exists_search present mean (mul_pos hstep two_pos)
    exact ⟨n + 1, by omega, sentinel, .double blocked h⟩
  · exact ⟨0, Nat.zero_le _, _, .stop blocked⟩
termination_by (above present (mean + step)).card

/-- A search that has not ended after as many doublings as there are numbers never ends. -/
theorem exists_search_or_forall_not (present : List ℚ) (mean : ℚ) (hstep : 0 ≤ step) :
    (∃ n ≤ present.length, ∃ sentinel, Search present mean step n sentinel) ∨
      ∀ n sentinel, ¬ Search present mean step n sentinel := by
  rcases hstep.lt_or_eq with hpos | rfl
  · obtain ⟨n, hn, hsearch⟩ := exists_search present mean hpos
    exact .inl ⟨n, hn.trans (card_above_le _), hsearch⟩
  · by_cases blocked : Blocked present mean 0
    · right
      intro n sentinel h
      obtain ⟨rfl, hfree, -⟩ := search_iff.mp h
      rw [zero_mul] at hfree
      exact hfree (blocked_iff.mp blocked)
    · exact .inl ⟨0, Nat.zero_le _, _, .stop blocked⟩

theorem firstStep_eq : firstStep epsilon mean = max epsilon (|mean| / 2 ^ 50) := by
  have hscale : |mean| * Scalar.epsilon * Scalar.ofInt 4 = |mean| / 2 ^ 50 := by
    rw [Exact.epsilon_eq, Exact.ofInt_eq]
    push_cast
    ring
  rw [firstStep, Exact.max_eq, Exact.abs_eq]
  exact congrArg _ hscale

theorem firstStep_nonneg : 0 ≤ firstStep epsilon mean := by
  rw [firstStep_eq]
  exact le_max_of_le_right (by positivity)

theorem firstStep_pos_iff : 0 < firstStep epsilon mean ↔ 0 < epsilon ∨ mean ≠ 0 := by
  rw [firstStep_eq, lt_max_iff, div_pos_iff_of_pos_right (by positivity), abs_pos]

theorem firstStep_pos (hepsilon : 0 < epsilon) : 0 < firstStep epsilon mean :=
  firstStep_pos_iff.mpr (.inl hepsilon)

theorem choose_of_nulls : choose table column present true epsilon =
    if first present epsilon ∈ present then
      .error (.sentinelCollision table column (Scalar.text (first present epsilon)))
    else .ok (first present epsilon) := by
  simp only [choose, Exact.isFinite_eq, collides_iff]
  rfl

theorem choose_of_foundAfter (h : FoundAfter present epsilon n sentinel) (hn : n ≤ present.length) :
    choose table column present false epsilon = .ok sentinel := by
  have hwiden := widen_eq_some_iff.mpr ⟨n, Nat.lt_succ_of_le hn, h⟩
  simp [choose, hwiden]

/-- With a positive epsilon the only error is a collision in a column with nulls. -/
theorem choose_eq_error_iff {hasNull : Bool} {e : PreparationError} (hepsilon : 0 < epsilon) :
    choose table column present hasNull epsilon = .error e ↔
      hasNull = true ∧ first present epsilon ∈ present ∧
      e = .sentinelCollision table column (Scalar.text (first present epsilon)) := by
  cases hasNull with
  | false =>
    obtain ⟨n, hn, sentinel, h⟩ := exists_search present (Scalar.mean present) (firstStep_pos hepsilon)
    rw [choose_of_foundAfter h (hn.trans (card_above_le _))]
    simp
  | true =>
    rw [choose_of_nulls]
    split
    · rename_i hmem
      simp [hmem, eq_comm]
    · rename_i hfree
      simp [hfree]

/-- As many tries as there are numbers, and one more, give up on no search that ends. -/
theorem choose_eq_endless_iff :
    choose table column present false epsilon = .error (.endless table column) ↔
      ∀ n sentinel, ¬ FoundAfter present epsilon n sentinel := by
  constructor
  · intro hendless
    rcases exists_search_or_forall_not present _ firstStep_nonneg with ⟨n, hn, sentinel, h⟩ | hnone
    · rw [choose_of_foundAfter h hn] at hendless
      cases hendless
    · exact hnone
  · intro hnone
    have hwiden : widen present (Scalar.mean present) (present.length + 1)
        (firstStep epsilon (Scalar.mean present)) = none := by
      refine Option.eq_none_iff_forall_ne_some.mpr fun sentinel hsome => ?_
      obtain ⟨n, -, h⟩ := widen_eq_some_iff.mp hsome
      exact hnone n sentinel h
    simp [choose, hwiden]

/-- Without a positive epsilon the step may be zero, and then it is doubled for ever if the mean is one
of the numbers. -/
theorem forall_not_foundAfter_iff : (∀ n sentinel, ¬ FoundAfter present epsilon n sentinel) ↔
    epsilon ≤ 0 ∧ Scalar.mean present = 0 ∧ 0 ∈ present := by
  have hstep : firstStep epsilon (Scalar.mean present) = 0 ↔ epsilon ≤ 0 ∧ Scalar.mean present = 0 := by
    rw [firstStep_nonneg.ge_iff_eq'.symm, ← not_lt, firstStep_pos_iff, not_or, not_lt, not_ne_iff]
  rw [← and_assoc, ← hstep]
  constructor
  · intro hnone
    rcases firstStep_nonneg.lt_or_eq with hpos | hzero
    · obtain ⟨n, -, sentinel, h⟩ := exists_search present _ hpos
      exact absurd h (hnone n sentinel)
    · refine ⟨hzero.symm, by_contra fun hfree => hnone 0 _ (.stop ?_)⟩
      rwa [blocked_iff, ← hzero, (hstep.mp hzero.symm).2, add_zero]
  · rintro ⟨hzero, hmem⟩ n sentinel h
    obtain ⟨rfl, hfree, -⟩ := search_iff.mp h
    rw [hzero, (hstep.mp hzero).2, zero_mul, add_zero] at hfree
    exact hfree hmem

/-- One of the numbers is not above the mean, and none such is ever tried. -/
theorem card_above_first_lt (hne : present ≠ []) (hepsilon : 0 < epsilon) :
    (above present (first present epsilon)).card < present.toFinset.card := by
  obtain ⟨x, hx, hle⟩ := Exact.exists_le_mean hne
  have hlt : x < first present epsilon := hle.trans_lt (lt_add_of_pos_right _ (firstStep_pos hepsilon))
  refine Finset.card_lt_card (Finset.filter_ssubset.mpr ⟨x, List.mem_toFinset.mpr hx, ?_⟩)
  exact not_le.mpr hlt

/-- A column without nulls gets a free value above the mean, after fewer doublings of the step than it
has different numbers; a column with nulls gets the first candidate or none. -/
theorem choose_finds_free (table column : String) (hne : present ≠ []) (hepsilon : 0 < epsilon) :
    (∃ n sentinel, FoundAfter present epsilon n sentinel ∧ n < present.toFinset.card ∧
      Scalar.mean present < sentinel ∧ sentinel ∉ present ∧
      choose table column present false epsilon = .ok sentinel) ∧
    choose table column present true epsilon =
      if first present epsilon ∈ present then
        .error (.sentinelCollision table column (Scalar.text (first present epsilon)))
      else .ok (first present epsilon) := by
  refine ⟨?_, choose_of_nulls⟩
  have hstep : 0 < firstStep epsilon (Scalar.mean present) := firstStep_pos hepsilon
  obtain ⟨n, hn, sentinel, h⟩ := exists_search present (Scalar.mean present) hstep
  obtain ⟨heq, hfree, -⟩ := search_iff.mp h
  have hfew : n < present.toFinset.card := hn.trans_lt (card_above_first_lt hne hepsilon)
  have habove : Scalar.mean present < sentinel := by
    rw [heq]
    exact lt_add_of_pos_right _ (by positivity)
  exact ⟨n, sentinel, h, hfew, habove, hfree,
    choose_of_foundAfter h (hfew.le.trans present.toFinset_card_le)⟩

theorem choose_finds_free_four : ([1, 3] : List ℚ) ≠ [] ∧ (0 : ℚ) < 1 ∧
    (∃ (n : ℕ) (sentinel : ℚ), FoundAfter [1, 3] 1 n sentinel ∧ n < 2 ∧ 2 < sentinel ∧
      sentinel ∉ [1, 3] ∧ choose "t" "t.x" [1, 3] false 1 = .ok sentinel) ∧
    choose "t" "t.x" [1, 3] true (1 : ℚ) = .error (.sentinelCollision "t" "t.x" "3") := by
  have hne : ([1, 3] : List ℚ) ≠ [] := List.cons_ne_nil _ _
  have hepsilon : (0 : ℚ) < 1 := zero_lt_one
  have hmean : Scalar.mean ([1, 3] : List ℚ) = 2 := by norm_num [Exact.mean_eq]
  have hfirst : first [1, 3] (1 : ℚ) = 3 := by
    rw [first, hmean, firstStep_eq]
    norm_num
  obtain ⟨⟨n, sentinel, hfound, hfew, hlt, hfree, hchoose⟩, hnulls⟩ :=
    choose_finds_free "t" "t.x" hne hepsilon
  refine ⟨hne, hepsilon, ⟨n, sentinel, hfound, hfew, hmean ▸ hlt, hfree, hchoose⟩, ?_⟩
  rw [hnulls, hfirst, if_pos (by decide)]
  rfl

/-- No smaller bound on the doublings holds: they can be one fewer than there are different numbers. -/
theorem exists_foundAfter_card (n : ℕ) : ∃ (present : List ℚ) (sentinel : ℚ),
    present.toFinset.card = n + 1 ∧ FoundAfter present 1 n sentinel := by
  -- The numbers are the powers below `2 ^ n` and the one that makes the mean zero, so all candidates
  -- before `2 ^ n` are taken.
  have hsum : ((List.range n).map fun k => (2 : ℚ) ^ k).sum = 2 ^ n - 1 := by
    induction n with
    | zero => norm_num
    | succ n ih =>
      rw [List.range_succ, List.map_append, List.sum_append, ih, List.map_singleton,
        List.sum_singleton, pow_succ]
      ring
  have hmean : Scalar.mean ((1 - 2 ^ n) :: (List.range n).map fun k => (2 : ℚ) ^ k) = 0 := by
    rw [Exact.mean_eq, List.sum_cons, hsum, sub_add_sub_cancel, sub_self, zero_div]
  have hstep : firstStep 1 (0 : ℚ) = 1 := by simp [firstStep_eq]
  have hpower {i j : ℕ} (h : (2 : ℚ) ^ i = 2 ^ j) : i = j :=
    pow_right_injective₀ two_pos (by norm_num) h
  have hfirst (k : ℕ) : (2 : ℚ) ^ k ≠ 1 - 2 ^ n := by
    have hpos : (0 : ℚ) < 2 ^ k := by positivity
    have hone : (1 : ℚ) ≤ 2 ^ n := one_le_pow₀ one_le_two
    linarith
  refine ⟨(1 - 2 ^ n) :: (List.range n).map fun k => 2 ^ k, 2 ^ n, ?_, ?_⟩
  · rw [List.toFinset_card_of_nodup, List.length_cons, List.length_map, List.length_range]
    refine List.nodup_cons.mpr ⟨fun h => ?_, List.nodup_range.map fun i j => hpower⟩
    obtain ⟨k, -, hk⟩ := List.mem_map.mp h
    exact hfirst k hk
  · rw [FoundAfter, hmean, hstep, search_iff]
    refine ⟨by ring, fun h => ?_, fun k hk => ?_⟩
    · obtain ⟨k, hk, heq⟩ := List.mem_map.mp ((List.mem_cons.mp h).resolve_left (hfirst n))
      exact (List.mem_range.mp hk).ne (hpower heq)
    · exact List.mem_cons_of_mem _ (List.mem_map.mpr ⟨k, List.mem_range.mpr hk, by ring⟩)

end

end Sentinel

theorem EngineConfig.nullEpsilon_pos {settings : EngineConfig ℚ} (h : settings.validate = .ok ()) :
    0 < settings.preparation.nullEpsilon := by
  unfold validate at h
  dsimp only at h
  split at h
  · cases h
  · split at h
    · cases h
    · rename_i hepsilon
      exact not_le.mp (Exact.le_iff.not.mp hepsilon)

/-- With valid settings, an exact column is encoded unless it holds nulls and the candidate for their
marker. -/
theorem EncodedColumn.ofColumn_eq_error_iff {settings : EngineConfig ℚ} {table : String}
    {c : Column ℚ} {e : PreparationError} (hvalid : settings.validate = .ok ()) :
    ofColumn table settings.preparation c = .error e ↔
      c.isUnfit settings.preparation.maxUnique = false ∧ c.hasText = false ∧ c.hasNull = true ∧
      Sentinel.first (c.values.filterMap Value.toScalar?) settings.preparation.nullEpsilon ∈
        c.values.filterMap Value.toScalar? ∧
      e = .sentinelCollision table c.name (Scalar.text
        (Sentinel.first (c.values.filterMap Value.toScalar?) settings.preparation.nullEpsilon)) := by
  rw [← Sentinel.choose_eq_error_iff (EngineConfig.nullEpsilon_pos hvalid)]
  unfold ofColumn
  dsimp only
  cases c.isUnfit settings.preparation.maxUnique with
  | true => simp
  | false =>
    cases c.hasText with
    | true => simp
    | false =>
      have hfinite : (c.values.filterMap Value.toScalar?).any (!Scalar.isFinite ·) = false :=
        List.any_eq_false.mpr fun x _ => by simp
      simp only [hfinite, Bool.false_eq_true, if_false, true_and]
      rw [bind_eq_error]
      refine or_iff_left ?_
      rintro ⟨sentinel, -, hpure⟩
      cases hpure

end ApproxQuery

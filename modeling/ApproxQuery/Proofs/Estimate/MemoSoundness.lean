import ApproxQuery.Estimate.Ensemble
import ApproxQuery.Proofs.Number.Exact

/-!
# What the memo of an ensemble holds

An entry of the memo is sound for a list of models if one of them gave the noted value to the noted
term. A computation is transparent if its result is the same from every sound ledger, and it leaves
a sound one. Evaluations of formulas are transparent when models over the same tables are
interchangeable.
-/

namespace ApproxQuery

namespace TermMemo

variable {N : Type}

/-- The memo holds the value of the term. -/
def Holds (m : TermMemo N) (e : IndicatorTerm N × N) : Prop :=
  ∃ k es, m.buckets.get? k = some es ∧ e ∈ es

theorem holds_of_mem_bucket {m : TermMemo N} {t : IndicatorTerm N} {e : IndicatorTerm N × N}
    (h : e ∈ m.bucket t) : m.Holds e := by
  unfold bucket at h
  cases hb : m.buckets.get? (m.hash t) with
  | none => simp [hb] at h
  | some es => exact ⟨m.hash t, es, hb, by simpa [hb] using h⟩

theorem not_holds_empty (hash : IndicatorTerm N → UInt64) (e : IndicatorTerm N × N) :
    ¬ (empty hash).Holds e := by
  rintro ⟨k, es, hk, _⟩
  exact absurd hk (by simp [empty])

variable [Scalar N]

theorem eq_or_holds_of_insert {m : TermMemo N} {t : IndicatorTerm N} {v : N}
    {e : IndicatorTerm N × N} (h : (m.insert t v).Holds e) : e = (t, v) ∨ m.Holds e := by
  unfold insert at h
  dsimp only at h
  split at h
  · exact .inr h
  · obtain ⟨k, es, hk, he⟩ := h
    by_cases hkt : k = m.hash t
    · subst hkt
      rw [SortedMap.get?_insert_self] at hk
      cases hk
      rcases List.mem_append.mp he with he | he
      · exact .inr (holds_of_mem_bucket he)
      · exact .inl (List.mem_singleton.mp he)
    · rw [SortedMap.get?_insert_of_ne hkt] at hk
      exact .inr ⟨k, es, hk, he⟩

/-- A known value was noted for a matching term, or its reciprocal for an inverse one. -/
theorem find?_eq_some {m : TermMemo N} {t : IndicatorTerm N} {v : N} (h : m.find? t = some v) :
    (∃ s, m.Holds (s, v) ∧ s.same t false false = true) ∨
      ∃ s w, m.Holds (s, w) ∧ s.isInverse t = true ∧ Scalar.eq w 0 = false ∧ v = 1 / w := by
  unfold find? at h
  cases hk : m.known? t with
  | some w =>
    rw [hk, Option.some_or] at h
    cases h
    obtain ⟨e, he, rfl⟩ := Option.map_eq_some_iff.mp hk
    have hp := List.find?_some he
    exact .inl ⟨e.1, holds_of_mem_bucket (List.mem_of_find?_eq_some he), hp⟩
  | none =>
    rw [hk, Option.none_or] at h
    obtain ⟨e, he, rfl⟩ := Option.map_eq_some_iff.mp h
    have hp := List.find?_some he
    simp only [Bool.and_eq_true, Bool.not_eq_true'] at hp
    exact .inr ⟨e.1, e.2, holds_of_mem_bucket (List.mem_of_find?_eq_some he), hp.1, hp.2, rfl⟩

end TermMemo

/-- The term is one that is asked of the model. -/
def IndicatorTerm.IsFor (t : IndicatorTerm ℚ) (m : DensityModel ℚ) : Prop :=
  t.tables = m.tables ∧ t.floor = IndicatorTerm.floorFor m.fullJoinSize

namespace DensityModel

/-- Terms that match up to the reciprocal have one mean. -/
def Consistent (m : DensityModel ℚ) : Prop :=
  ∀ s t, s.same t true false = true → m.indicator s = m.indicator t

/-- What the first model makes of a term, the second makes of it as well if both are over the same
tables. -/
def Agrees (m n : DensityModel ℚ) : Prop :=
  m.tables = n.tables → ∀ (t : IndicatorTerm ℚ) (v : ℚ),
    m.finished { t with floor := IndicatorTerm.floorFor m.fullJoinSize } = .ok v →
      n.finished { t with floor := IndicatorTerm.floorFor n.fullJoinSize } = .ok v

theorem finished_eq_ok {m : DensityModel ℚ} {t : IndicatorTerm ℚ} {v : ℚ} :
    m.finished t = .ok v ↔ ∃ mean, m.indicator t = .ok mean ∧ t.finish mean = some v := by
  unfold finished
  cases hm : m.indicator t with
  | error reason => simp [Except.mapError, bind, Except.bind]
  | ok mean =>
    cases hf : t.finish mean with
    | none => simp [Except.mapError, bind, Except.bind, hf]
    | some w => simp [Except.mapError, bind, Except.bind, hf]

end DensityModel

theorem IndicatorTerm.floorFor_nonneg (x : ℚ) : 0 ≤ (IndicatorTerm.floorFor x : ℚ) := by
  unfold IndicatorTerm.floorFor
  split
  · rename_i h
    have hx : (0 : ℚ) < x := Exact.lt_iff.mp h
    exact (one_div_pos.mpr hx).le
  · exact le_rfl

theorem IndicatorTerm.finish_direct {t : IndicatorTerm ℚ} {mean v : ℚ} (h : t.inverse = false) :
    t.finish mean = some v ↔ v = max mean t.floor := by
  simp [finish, h, eq_comm]

theorem IndicatorTerm.finish_inverse {t : IndicatorTerm ℚ} {mean v : ℚ} (h : t.inverse = true) :
    t.finish mean = some v ↔ 0 < max mean t.floor ∧ v = 1 / max mean t.floor := by
  simp only [finish, h, Exact.max_eq, Bool.not_true, Bool.false_eq_true, if_false]
  split
  · rename_i hpos
    have hpos' : (0 : ℚ) < max mean t.floor := Exact.lt_iff.mp hpos
    constructor
    · intro hv
      exact ⟨hpos', (Option.some.inj hv).symm⟩
    · intro hv
      exact congrArg some hv.2.symm
  · rename_i hpos
    constructor
    · intro hv
      cases hv
    · intro hv
      exact absurd (Exact.lt_iff.mpr hv.1) hpos

namespace Ledger

/-- Every noted value is the value that one of the models gave to a term asked of it. -/
def Sound (ms : List (DensityModel ℚ)) (l : Ledger ℚ) : Prop :=
  ∀ e, l.memo.Holds e → ∃ m ∈ ms, e.1.IsFor m ∧ m.finished e.1 = .ok e.2

theorem sound_empty (ms : List (DensityModel ℚ)) (hash : IndicatorTerm ℚ → UInt64) :
    (Ledger.empty hash).Sound ms :=
  fun e he => absurd he (TermMemo.not_holds_empty hash e)

theorem Sound.mono {ms ns : List (DensityModel ℚ)} {l : Ledger ℚ} (h : l.Sound ms)
    (hsub : ∀ m ∈ ms, m ∈ ns) : l.Sound ns := by
  intro e he
  obtain ⟨m, hm, hfor, hval⟩ := h e he
  exact ⟨m, hsub m hm, hfor, hval⟩

end Ledger

namespace DensityModel

variable {m n : DensityModel ℚ} {s t : IndicatorTerm ℚ} {v : ℚ}

theorem Consistent.finished_eq_ok_of_same (hcons : m.Consistent) (hsame : s.same t true false = true)
    {f : ℚ} : m.finished { t with floor := f } = .ok v ↔
      ∃ mean, m.indicator s = .ok mean ∧ { t with floor := f }.finish mean = some v := by
  have hmean : m.indicator s = m.indicator { t with floor := f } := hcons _ _ hsame
  rw [finished_eq_ok, hmean]

theorem Agrees.finished_of_same (hagree : m.Agrees n) (hcons : m.Consistent) (hs : s.IsFor m)
    (ht : t.IsFor n) (hsame : s.same t false false = true) (hv : m.finished s = .ok v) :
    n.finished t = .ok v := by
  simp only [IndicatorTerm.same, Bool.false_or, Bool.and_eq_true, beq_iff_eq] at hsame
  obtain ⟨⟨⟨⟨hinv, hnum⟩, hden⟩, hcond⟩, htab⟩ := hsame
  have hmatch : s.same t true false = true := by
    simp [IndicatorTerm.same, hnum, hden, hcond, htab]
  obtain ⟨mean, hm, hf⟩ := finished_eq_ok.mp hv
  have hfin : m.finished { t with floor := s.floor } = .ok v := by
    refine (hcons.finished_eq_ok_of_same hmatch).mpr ⟨mean, hm, ?_⟩
    simpa [IndicatorTerm.finish, hinv] using hf
  rw [hs.2] at hfin
  have hn := hagree (hs.1.symm.trans (htab.trans ht.1)) t v hfin
  rwa [← ht.2] at hn

theorem Agrees.finished_of_isInverse (hagree : m.Agrees n) (hcons : m.Consistent) (hs : s.IsFor m)
    (ht : t.IsFor n) (hinv : s.isInverse t = true) (hv : m.finished s = .ok v) (hne : v ≠ 0) :
    n.finished t = .ok (1 / v) := by
  simp only [IndicatorTerm.isInverse, Bool.and_eq_true, bne_iff_ne, ne_eq] at hinv
  obtain ⟨hflag, hmatch⟩ := hinv
  have htab : s.tables = t.tables := by
    simp only [IndicatorTerm.same, Bool.and_eq_true, Bool.false_or, beq_iff_eq] at hmatch
    exact hmatch.2
  obtain ⟨mean, hm, hf⟩ := finished_eq_ok.mp hv
  have hfloor : (0 : ℚ) ≤ max mean s.floor := by
    rw [hs.2]
    exact le_max_of_le_right (IndicatorTerm.floorFor_nonneg m.fullJoinSize)
  have hfin : m.finished { t with floor := s.floor } = .ok (1 / v) := by
    refine (hcons.finished_eq_ok_of_same hmatch).mpr ⟨mean, hm, ?_⟩
    cases hsi : s.inverse with
    | false =>
      have hti : t.inverse = true := by
        cases ht : t.inverse
        · exact absurd (hsi.trans ht.symm) hflag
        · rfl
      have hval := (IndicatorTerm.finish_direct hsi).mp hf
      refine (IndicatorTerm.finish_inverse (t := { t with floor := s.floor }) hti).mpr
        ⟨?_, by rw [hval]⟩
      exact lt_of_le_of_ne hfloor fun h0 => hne (hval.trans h0.symm)
    | true =>
      have hti : t.inverse = false := by
        cases ht : t.inverse
        · rfl
        · exact absurd (hsi.trans ht.symm) hflag
      have hval := (IndicatorTerm.finish_inverse hsi).mp hf
      apply (IndicatorTerm.finish_direct (t := { t with floor := s.floor }) hti).mpr
      rw [hval.2, one_div_one_div]
  rw [hs.2] at hfin
  have hn := hagree (hs.1.symm.trans (htab.trans ht.1)) t (1 / v) hfin
  rwa [← ht.2] at hn

end DensityModel

/-- The models agree with each other, and each gives matching terms one mean. -/
structure Interchangeable (ms : List (DensityModel ℚ)) : Prop where
  consistent : ∀ m ∈ ms, m.Consistent
  agree : ∀ m ∈ ms, ∀ n ∈ ms, m.Agrees n

namespace Ledger

variable {ms : List (DensityModel ℚ)} {m : DensityModel ℚ} {l : Ledger ℚ} {t : IndicatorTerm ℚ}

/-- A sound memo answers a term with the value that the model gives it. -/
theorem Sound.find?_eq_some (h : l.Sound ms) (hms : Interchangeable ms) (hm : m ∈ ms)
    (ht : t.IsFor m) {v : ℚ} (hv : l.memo.find? t = some v) : m.finished t = .ok v := by
  rcases TermMemo.find?_eq_some hv with ⟨s, hs, hsame⟩ | ⟨s, w, hs, hinv, hne, rfl⟩
  · obtain ⟨n, hn, hfor, hval⟩ := h (s, v) hs
    exact (hms.agree n hn m hm).finished_of_same (hms.consistent n hn) hfor ht hsame hval
  · obtain ⟨n, hn, hfor, hval⟩ := h (s, w) hs
    have hw : w ≠ 0 := by
      rintro rfl
      exact absurd (Exact.eq_iff.mpr rfl) (Bool.eq_false_iff.mp hne)
    exact (hms.agree n hn m hm).finished_of_isInverse (hms.consistent n hn) hfor ht hinv hval hw

theorem Sound.getOrEvaluate (h : l.Sound ms) (hms : Interchangeable ms) (hm : m ∈ ms)
    (ht : t.IsFor m) : (l.memo.getOrEvaluate t m.finished).1 = m.finished t ∧
      ∀ calls, Sound ms ⟨(l.memo.getOrEvaluate t m.finished).2, calls⟩ := by
  unfold TermMemo.getOrEvaluate TermMemo.get
  cases hf : l.memo.find? t with
  | some v =>
    exact ⟨(h.find?_eq_some hms hm ht hf).symm, fun _ => h⟩
  | none =>
    cases hv : m.finished t with
    | error e => exact ⟨rfl, fun _ => h⟩
    | ok v =>
      refine ⟨rfl, fun _ e he => ?_⟩
      rcases TermMemo.eq_or_holds_of_insert he with rfl | he
      · exact ⟨m, hm, ht, hv⟩
      · exact h e he

end Ledger

end ApproxQuery

import ApproxQuery.Proofs.Estimate.Evaluation
import ApproxQuery.Proofs.Outcome

/-!
# Terms with known values

As long as the memo holds only terms of a list with their values, and the memo cannot confuse these
terms, every formula of them has one value, whatever has been asked before.
-/

namespace ApproxQuery

/-- The model finishes each listed term with its value, and the memo may take one term for another, or
for the reciprocal of another, only if their values fit. -/
structure Coherent (m : DensityModel ℚ) (es : List (IndicatorTerm ℚ × ℚ)) : Prop where
  finished : ∀ e ∈ es, m.finished e.1 = .ok e.2
  same : ∀ e ∈ es, ∀ f ∈ es, e.1.same f.1 false false = true → e.2 = f.2
  inverse : ∀ e ∈ es, ∀ f ∈ es, e.1.isInverse f.1 = true → 1 / e.2 = f.2

/-- Every entry of the memo is listed. -/
def Ledger.Within (es : List (IndicatorTerm ℚ × ℚ)) (l : Ledger ℚ) : Prop :=
  ∀ e, l.memo.Holds e → e ∈ es

/-- From every ledger whose entries are listed the computation gives the value, and leaves such a
ledger. -/
def Gives (es : List (IndicatorTerm ℚ × ℚ)) {α : Type} (x : Evaluation ℚ α) (a : α) : Prop :=
  ∀ l : Ledger ℚ, l.Within es → (x.run l).1 = .ok a ∧ (x.run l).2.Within es

variable {m : DensityModel ℚ} {es : List (IndicatorTerm ℚ × ℚ)}

theorem Ledger.within_empty (hash : IndicatorTerm ℚ → UInt64) : (Ledger.empty hash).Within es :=
  fun e he => absurd he (TermMemo.not_holds_empty hash e)

/-- The memo answers a listed term with its value. -/
theorem Ledger.Within.find?_eq_some {l : Ledger ℚ} (hl : l.Within es) (h : Coherent m es)
    {t : IndicatorTerm ℚ} {v w : ℚ} (ht : (t, v) ∈ es) (hw : l.memo.find? t = some w) : w = v := by
  rcases TermMemo.find?_eq_some hw with ⟨s, hs, hsame⟩ | ⟨s, x, hs, hinverse, -, rfl⟩
  · exact h.same _ (hl _ hs) _ ht hsame
  · exact h.inverse _ (hl _ hs) _ ht hinverse

namespace Gives

theorem pure {α : Type} (a : α) : Gives es (Pure.pure a : Evaluation ℚ α) a :=
  fun _ hl => ⟨rfl, hl⟩

theorem congr {α : Type} {x : Evaluation ℚ α} {a b : α} (h : Gives es x a) (hab : a = b) :
    Gives es x b :=
  hab ▸ h

theorem bind {α β : Type} {x : Evaluation ℚ α} {f : α → Evaluation ℚ β} {a : α} {b : β}
    (hx : Gives es x a) (hf : Gives es (f a) b) : Gives es (x >>= f) b := by
  intro l hl
  obtain ⟨hval, hwithin⟩ := hx l hl
  rw [Evaluation.run_bind]
  cases hrun : x.run l with
  | mk r k =>
    rw [hrun] at hval hwithin
    subst hval
    exact hf k hwithin

theorem lift {α β : Type} {r : Except EstimateError α} {f : α → Evaluation ℚ β} {a : α} {b : β}
    (hr : r = .ok a) (hf : Gives es (f a) b) : Gives es (liftM r >>= f) b := by
  subst hr
  exact hf

theorem indicator (h : Coherent m es) {t : IndicatorTerm ℚ} {v : ℚ} (ht : (t, v) ∈ es) :
    Gives es ((Factor.indicator t).evaluate m) v := by
  intro l hl
  change (l.factor m (.indicator t)).1 = .ok v ∧ (l.factor m (.indicator t)).2.Within es
  cases hf : l.memo.find? t with
  | some w =>
    have hsame : (l.factor m (.indicator t)).2.memo = { l.memo with hits := l.memo.hits + 1 } := by
      simp [Ledger.factor, TermMemo.getOrEvaluate, TermMemo.get, hf]
    refine ⟨?_, fun e he => hl e ?_⟩
    · rw [Ledger.factor_of_find?_eq_some hf, hl.find?_eq_some h ht hf]
    · rw [hsame] at he
      exact he
  | none =>
    have hv := h.finished _ ht
    refine ⟨(Ledger.factor_of_find?_eq_none hf).trans hv, fun e he => ?_⟩
    rw [Ledger.memo_factor_of_finished hf hv] at he
    rcases TermMemo.eq_or_holds_of_insert he with rfl | he
    · exact ht
    · exact hl e he

theorem expectation {t : ExpectationTerm ℚ} {v : ℚ} (h : m.expectation t = .ok v) :
    Gives es ((Factor.expectation t).evaluate m) v :=
  fun _ hl => ⟨mapError_eq_ok.mpr h, hl⟩

theorem probability {t : ProbabilityTerm ℚ} {v : ℚ} (h : m.probability t = .ok v) :
    Gives es ((Factor.probability t).evaluate m) v :=
  fun _ hl => ⟨mapError_eq_ok.mpr h, hl⟩

/-- A formula gives its scale times the values of its factors. -/
theorem formula {scale : ℚ} {factors : List (Factor ℚ)} {vs : List ℚ}
    (h : List.Forall₂ (fun f v => Gives es (f.evaluate m) v) factors vs) :
    Gives es ((⟨scale, factors⟩ : Formula ℚ).evaluate m) (scale * vs.prod) := by
  induction h generalizing scale with
  | nil =>
    rw [List.prod_nil, mul_one]
    exact pure scale
  | @cons f v factors vs hf _ ih =>
    have hstep : (⟨scale, f :: factors⟩ : Formula ℚ).evaluate m =
        (f.evaluate m >>= fun x => Pure.pure (scale * x)) >>= fun value =>
          (⟨value, factors⟩ : Formula ℚ).evaluate m := rfl
    rw [hstep, List.prod_cons, ← mul_assoc]
    exact Gives.bind (a := scale * v) (hf.bind (pure _)) ih

variable {e : Ensemble ℚ} {q : Query ℚ} {a : Aggregation} {f : Formula ℚ} {v : ℚ}

/-- A query with one aggregation is answered with the value of its formula. -/
theorem answer (hmodel : e.coveringModel q = .ok m) (hformula : q.aggregationFormula m a = .ok f)
    (h : Gives es (f.evaluate m) v) :
    Gives es (e.answer { q with aggregations := [(.aggregate, some a)] }) v := by
  have hparts : Query.aggregateFormulas { q with aggregations := [(.aggregate, some a)] } m =
      .ok [(1, f)] := by
    unfold Query.aggregateFormulas
    refine bind_eq_ok.mpr ⟨[(1, f)], ?_, rfl⟩
    exact bind_eq_ok.mpr ⟨f, hformula, rfl⟩
  have hone : 0 + 1 * v = v := by ring
  change Gives es (e.aggregate _) v
  refine lift hmodel (lift hparts ?_)
  rw [← hone]
  exact Gives.bind (h.bind (pure _)) (pure _)

/-- Queries that share a memo are each answered with their own value. -/
theorem answerAll {ι : Type} {query : ι → Query ℚ} {value : ι → ℚ}
    (h : ∀ i, Gives es (e.answer (query i)) (value i)) (is : List ι) :
    ∀ l : Ledger ℚ, l.Within es → (e.answerAll (is.map query) l).1 = is.map (.ok <| value ·) ∧
      (e.answerAll (is.map query) l).2.Within es := by
  induction is with
  | nil => exact fun _ hl => ⟨rfl, hl⟩
  | cons i is ih =>
    intro l hl
    obtain ⟨hval, hwithin⟩ := h i l hl
    obtain ⟨hvals, hwithin⟩ := ih _ hwithin
    rw [List.map_cons, Ensemble.answerAll_cons, hval, hvals]
    exact ⟨rfl, hwithin⟩

end Gives

end ApproxQuery

import ApproxQuery.Proofs.Estimate.MemoSoundness

/-!
# Evaluation of a query of cardinality

A query of cardinality whose formula is one indicator term asks its model once, unless the memo has
a value for the term.
-/

namespace ApproxQuery

theorem Evaluation.run_bind {α β : Type} (x : Evaluation ℚ α) (f : α → Evaluation ℚ β)
    (l : Ledger ℚ) : (x >>= f).run l =
      match x.run l with
      | (.ok a, l) => (f a).run l
      | (.error e, l) => (.error e, l) := by
  change (ExceptT.bindCont f (x l).1) (x l).2 = _
  change _ = match x l with
    | (.ok a, l) => (f a).run l
    | (.error e, l) => (.error e, l)
  rcases x l with ⟨_ | _, _⟩ <;> rfl

theorem TermMemo.find?_empty {hash : IndicatorTerm ℚ → UInt64} (t : IndicatorTerm ℚ) :
    (empty hash).find? t = none := by
  cases h : (empty hash).find? t with
  | none => rfl
  | some v =>
    rcases find?_eq_some h with ⟨s, hs, _⟩ | ⟨s, w, hs, _⟩
    · exact absurd hs (not_holds_empty hash _)
    · exact absurd hs (not_holds_empty hash _)

namespace Ledger

variable {hash : IndicatorTerm ℚ → UInt64} {m : DensityModel ℚ} {l : Ledger ℚ}
  {t : IndicatorTerm ℚ} {v : ℚ}

theorem factor_of_find?_eq_some (h : l.memo.find? t = some v) :
    (l.factor m (.indicator t)).1 = .ok v := by
  simp [factor, TermMemo.getOrEvaluate, TermMemo.get, h]

theorem factor_of_find?_eq_none (h : l.memo.find? t = none) :
    (l.factor m (.indicator t)).1 = m.finished t := by
  cases hv : m.finished t <;> simp [factor, TermMemo.getOrEvaluate, TermMemo.get, h, hv]

theorem memo_factor_of_finished (h : l.memo.find? t = none) (hv : m.finished t = .ok v) :
    (l.factor m (.indicator t)).2.memo = l.memo.insert t v := by
  simp [factor, TermMemo.getOrEvaluate, TermMemo.get, h, hv]

end Ledger

theorem Formula.run_evaluate_indicator (m : DensityModel ℚ) (scale : ℚ) (t : IndicatorTerm ℚ)
    (l : Ledger ℚ) : ((⟨scale, [.indicator t]⟩ : Formula ℚ).evaluate m).run l =
      ((l.factor m (.indicator t)).1.map (scale * ·), (l.factor m (.indicator t)).2) := by
  have hrun : (Factor.evaluate (.indicator t) m).run l = l.factor m (.indicator t) := rfl
  unfold evaluate
  rw [List.foldlM_cons, Evaluation.run_bind, Evaluation.run_bind, hrun]
  rcases l.factor m (.indicator t) with ⟨_ | v, k⟩ <;> rfl

theorem Ensemble.run_cardinality {e : Ensemble ℚ} {q : Query ℚ} {m : DensityModel ℚ} {f : Formula ℚ}
    (hm : e.coveringModel q = .ok m) (hf : q.cardinalityFormula m = .ok f) (l : Ledger ℚ) :
    (e.cardinality q).run l = (f.evaluate m).run l := by
  unfold cardinality
  rw [hm]
  change ((liftM (q.cardinalityFormula m) : Evaluation ℚ _) >>= fun f => f.evaluate m).run l = _
  rw [hf]
  rfl

theorem Ensemble.answerAll_cons (e : Ensemble ℚ) (q : Query ℚ) (qs : List (Query ℚ)) (l : Ledger ℚ) :
    e.answerAll (q :: qs) l =
      (((e.answer q).run l).1 :: (e.answerAll qs ((e.answer q).run l).2).1,
        (e.answerAll qs ((e.answer q).run l).2).2) := by
  unfold answerAll
  rw [List.mapM_cons]
  rfl

end ApproxQuery

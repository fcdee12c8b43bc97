import ApproxQuery.Proofs.Estimate.CompiledFactors
import ApproxQuery.Proofs.Estimate.Evaluation

/-!
# Sharing the memo between calls

A history is a list of calls to an ensemble. When the models are interchangeable, every call of a
history is answered as it would be by the same models with an empty memo. Models over the same
tables that disagree are confused: the second is answered with the value of the first.
-/

namespace ApproxQuery

/-- The result is the same from every sound ledger, and what is left is sound. -/
def Transparent (ms : List (DensityModel ℚ)) {α : Type} (x : Evaluation ℚ α) : Prop :=
  ∃ r, ∀ l : Ledger ℚ, l.Sound ms → (x.run l).1 = r ∧ (x.run l).2.Sound ms

namespace Transparent

variable {ms : List (DensityModel ℚ)} {α β : Type}

theorem pure (a : α) : Transparent ms (Pure.pure a : Evaluation ℚ α) :=
  ⟨.ok a, fun _ hl => ⟨rfl, hl⟩⟩

theorem bind {x : Evaluation ℚ α} {f : α → Evaluation ℚ β} (hx : Transparent ms x)
    (hf : ∀ a, Transparent ms (f a)) : Transparent ms (x >>= f) := by
  obtain ⟨r, hr⟩ := hx
  cases r with
  | error e =>
    refine ⟨.error e, fun l hl => ?_⟩
    obtain ⟨hval, hsound⟩ := hr l hl
    rw [Evaluation.run_bind]
    cases hx : x.run l with
    | mk a k =>
      rw [hx] at hval hsound
      subst hval
      exact ⟨rfl, hsound⟩
  | ok a =>
    obtain ⟨r', hr'⟩ := hf a
    refine ⟨r', fun l hl => ?_⟩
    obtain ⟨hval, hsound⟩ := hr l hl
    rw [Evaluation.run_bind]
    cases hx : x.run l with
    | mk b k =>
      rw [hx] at hval hsound
      subst hval
      exact hr' k hsound

theorem bindExcept {r : Except EstimateError α} {f : α → Evaluation ℚ β}
    (h : ∀ a, r = .ok a → Transparent ms (f a)) : Transparent ms (liftM r >>= f) := by
  cases r with
  | error e => exact ⟨.error e, fun _ hl => ⟨rfl, hl⟩⟩
  | ok a =>
    obtain ⟨r', hr'⟩ := h a rfl
    exact ⟨r', hr'⟩

theorem foldlM {f : β → α → Evaluation ℚ β} {as : List α} (h : ∀ b, ∀ a ∈ as, Transparent ms (f b a))
    (b : β) : Transparent ms (as.foldlM f b) := by
  induction as generalizing b with
  | nil => exact pure b
  | cons a as ih =>
    rw [List.foldlM_cons]
    refine bind (h b a List.mem_cons_self) fun c => ih ?_ c
    exact fun b a ha => h b a (List.mem_cons_of_mem _ ha)

theorem mapM {f : α → Evaluation ℚ β} {as : List α} (h : ∀ a ∈ as, Transparent ms (f a)) :
    Transparent ms (as.mapM f) := by
  induction as with
  | nil => exact pure []
  | cons a as ih =>
    rw [List.mapM_cons]
    refine bind (h a List.mem_cons_self) fun b => bind (ih ?_) fun bs => pure (b :: bs)
    exact fun a ha => h a (List.mem_cons_of_mem _ ha)

end Transparent

/-- Every indicator term of the formula is one that is asked of the model. -/
def Formula.IsFor (f : Formula ℚ) (m : DensityModel ℚ) : Prop :=
  ∀ t, .indicator t ∈ f.factors → t.IsFor m

section

variable {ms : List (DensityModel ℚ)} {m : DensityModel ℚ}

theorem Factor.transparent (hms : Interchangeable ms) (hm : m ∈ ms) {f : Factor ℚ}
    (hf : ∀ t, f = .indicator t → t.IsFor m) : Transparent ms (f.evaluate m) := by
  cases f with
  | indicator t =>
    refine ⟨m.finished t, fun l hl => ?_⟩
    obtain ⟨hval, hsound⟩ := hl.getOrEvaluate hms hm (hf t rfl)
    exact ⟨hval, hsound _⟩
  | expectation t => exact ⟨(m.expectation t).mapError .model, fun l hl => ⟨rfl, hl⟩⟩
  | probability t => exact ⟨(m.probability t).mapError .model, fun l hl => ⟨rfl, hl⟩⟩

theorem Formula.transparent (hms : Interchangeable ms) (hm : m ∈ ms) {f : Formula ℚ}
    (hf : f.IsFor m) : Transparent ms (f.evaluate m) := by
  refine Transparent.foldlM (fun value factor hfac => ?_) f.scale
  refine Transparent.bind ?_ fun _ => Transparent.pure _
  exact Factor.transparent hms hm fun t ht => hf t (ht ▸ hfac)

end

/-! The formulas of a query ask the model for its own terms. -/

namespace Query

variable {q : Query ℚ} {m : DensityModel ℚ}

theorem Asks.isFor {t : IndicatorTerm ℚ} (h : q.Asks m (.indicator t)) : t.IsFor m := by
  cases h with
  | indicator divided present => exact ⟨rfl, rfl⟩
  | inverted divided present => exact ⟨rfl, rfl⟩

theorem cardinalityFormula_isFor {f : Formula ℚ} (h : q.cardinalityFormula m = .ok f) :
    f.IsFor m := fun t ht => (asks_of_cardinalityFormula h (.indicator t) ht).isFor

theorem aggregateFormulas_isFor {parts : List (ℚ × Formula ℚ)}
    (h : q.aggregateFormulas m = .ok parts) : ∀ p ∈ parts, p.2.IsFor m := fun p hp t ht =>
  (asks_of_aggregateFormulas h p hp (.indicator t) ht).isFor

end Query

namespace Ensemble

section

variable {N : Type} {e : Ensemble N} {q : Query N} {m : DensityModel N}

theorem mem_of_smallest? {ms : List (DensityModel N)} (h : smallest? ms = some m) : m ∈ ms := by
  induction ms generalizing m with
  | nil => cases h
  | cons n ns ih =>
    unfold smallest? at h
    split at h
    · rename_i other hother
      split at h
      · cases h
        exact List.mem_cons_of_mem _ (ih hother)
      · cases h
        exact List.mem_cons_self
    · cases h
      exact List.mem_cons_self

theorem coveringModel_eq_ok (h : e.coveringModel q = .ok m) :
    smallest? (e.models.filter (·.covers q)) = some m := by
  unfold coveringModel at h
  split at h
  · rename_i n hn
    cases h
    exact hn
  · cases h

theorem mem_of_coveringModel (h : e.coveringModel q = .ok m) : m ∈ e.models :=
  List.mem_of_mem_filter (mem_of_smallest? (coveringModel_eq_ok h))

theorem covers_of_coveringModel (h : e.coveringModel q = .ok m) : m.covers q = true :=
  (List.mem_filter.mp (mem_of_smallest? (coveringModel_eq_ok h))).2

end

section

variable {e : Ensemble ℚ} (he : Interchangeable e.models)
include he

theorem cardinality_transparent (q : Query ℚ) : Transparent e.models (e.cardinality q) := by
  refine Transparent.bindExcept fun m hm => Transparent.bindExcept fun f hf => ?_
  exact Formula.transparent he (mem_of_coveringModel hm) (Query.cardinalityFormula_isFor hf)

theorem aggregate_transparent (q : Query ℚ) : Transparent e.models (e.aggregate q) := by
  refine Transparent.bindExcept fun m hm => Transparent.bindExcept fun parts hparts => ?_
  refine Transparent.foldlM (fun total p hp => ?_) _
  refine Transparent.bind ?_ fun _ => Transparent.pure _
  exact Formula.transparent he (mem_of_coveringModel hm)
    (Query.aggregateFormulas_isFor hparts p hp)

theorem answer_transparent (q : Query ℚ) : Transparent e.models (e.answer q) := by
  unfold answer
  split
  · exact cardinality_transparent he q
  · exact aggregate_transparent he q

theorem answerGrouped_transparent (q : Query ℚ) (groups : List (List (Value ℚ))) :
    Transparent e.models (e.answerGrouped q groups) := by
  apply Transparent.mapM
  intro group _
  apply Transparent.bindExcept
  intro grouped _
  exact Transparent.bind (answer_transparent he grouped) fun _ => Transparent.pure _

end

end Ensemble

/-- What an ensemble is called with. -/
inductive Call (N : Type) where
  | addModel (m : DensityModel N)
  | cardinality (q : Query N)
  | aggregate (q : Query N)
  | answer (q : Query N)
  | answerGrouped (q : Query N) (groups : List (List (Value N)))
  | answerAll (qs : List (Query N))

/-- What a call gives back. -/
inductive Reply (N : Type) where
  | done
  | value (r : Except EstimateError N)
  | groups (r : Except EstimateError (List (List (Value N) × N)))
  | values (rs : List (Except EstimateError N))

namespace Call

variable {N : Type} [Scalar N]

def reply (e : Ensemble N) (l : Ledger N) : Call N → Reply N × Ledger N
  | addModel _ => (.done, l)
  | cardinality q => ((e.cardinality q).run l).map .value id
  | aggregate q => ((e.aggregate q).run l).map .value id
  | answer q => ((e.answer q).run l).map .value id
  | answerGrouped q groups => ((e.answerGrouped q groups).run l).map .groups id
  | answerAll qs => (e.answerAll qs l).map .values id

/-- The ensemble after the call. -/
def extend (e : Ensemble N) : Call N → Ensemble N
  | addModel m => e.addModel m
  | _ => e

/-- The replies to the calls of a history, which share the ledger. -/
def replies (e : Ensemble N) (l : Ledger N) : List (Call N) → List (Reply N)
  | [] => []
  | c :: cs => (c.reply e l).1 :: replies (c.extend e) (c.reply e l).2 cs

/-- The replies to the same calls when each starts with an empty memo. -/
def freshReplies (hash : IndicatorTerm N → UInt64) (e : Ensemble N) : List (Call N) → List (Reply N)
  | [] => []
  | c :: cs => (c.reply e (.empty hash)).1 :: freshReplies hash (c.extend e) cs

/-- The models that a history adds. -/
def added (cs : List (Call N)) : List (DensityModel N) :=
  cs.filterMap fun
    | addModel m => some m
    | _ => none

end Call

theorem Interchangeable.mono {ms ns : List (DensityModel ℚ)} (h : Interchangeable ns)
    (hsub : ∀ m ∈ ms, m ∈ ns) : Interchangeable ms :=
  ⟨fun m hm => h.consistent m (hsub m hm), fun m hm n hn => h.agree m (hsub m hm) n (hsub n hn)⟩

theorem Ensemble.answerAll_transparent {e : Ensemble ℚ} (he : Interchangeable e.models)
    (qs : List (Query ℚ)) : ∃ rs, ∀ l : Ledger ℚ, l.Sound e.models →
      (e.answerAll qs l).1 = rs ∧ (e.answerAll qs l).2.Sound e.models := by
  induction qs with
  | nil => exact ⟨[], fun l hl => ⟨rfl, hl⟩⟩
  | cons q qs ih =>
    obtain ⟨r, hr⟩ := answer_transparent he q
    obtain ⟨rs, hrs⟩ := ih
    refine ⟨r :: rs, fun l hl => ?_⟩
    obtain ⟨hval, hsound⟩ := hr l hl
    obtain ⟨hvals, hsounds⟩ := hrs _ hsound
    rw [answerAll_cons, hval, hvals]
    exact ⟨rfl, hsounds⟩

namespace Call

variable {e : Ensemble ℚ}

/-- A call gives one reply from every sound ledger. -/
theorem reply_transparent (he : Interchangeable e.models) (c : Call ℚ) :
    ∃ r, ∀ l : Ledger ℚ, l.Sound e.models →
      (c.reply e l).1 = r ∧ (c.reply e l).2.Sound e.models := by
  have lift {α : Type} {x : Evaluation ℚ α} (wrap : Except EstimateError α → Reply ℚ)
      (hx : Transparent e.models x) : ∃ r, ∀ l : Ledger ℚ, l.Sound e.models →
        ((x.run l).map wrap id).1 = r ∧ ((x.run l).map wrap id).2.Sound e.models := by
    obtain ⟨r, hr⟩ := hx
    exact ⟨wrap r, fun l hl => ⟨congrArg wrap (hr l hl).1, (hr l hl).2⟩⟩
  cases c with
  | addModel m => exact ⟨.done, fun l hl => ⟨rfl, hl⟩⟩
  | cardinality q => exact lift .value (Ensemble.cardinality_transparent he q)
  | aggregate q => exact lift .value (Ensemble.aggregate_transparent he q)
  | answer q => exact lift .value (Ensemble.answer_transparent he q)
  | answerGrouped q groups => exact lift .groups (Ensemble.answerGrouped_transparent he q groups)
  | answerAll qs =>
    obtain ⟨rs, hrs⟩ := Ensemble.answerAll_transparent he qs
    exact ⟨.values rs, fun l hl => ⟨congrArg Reply.values (hrs l hl).1, (hrs l hl).2⟩⟩

theorem models_extend (c : Call ℚ) :
    (c.extend e).models = e.models ++ added [c] := by
  cases c <;> simp [extend, added, Ensemble.addModel]

theorem replies_eq_freshReplies (hash : IndicatorTerm ℚ → UInt64) {cs : List (Call ℚ)}
    {l : Ledger ℚ} (hl : l.Sound e.models) (hms : Interchangeable (e.models ++ added cs)) :
    replies e l cs = freshReplies hash e cs := by
  induction cs generalizing e l with
  | nil => rfl
  | cons c cs ih =>
    have he : Interchangeable e.models := hms.mono fun m hm => List.mem_append_left _ hm
    obtain ⟨r, hr⟩ := c.reply_transparent he
    have hmodels : (c.extend e).models ++ added cs = e.models ++ added (c :: cs) := by
      rw [models_extend, List.append_assoc]
      cases c <;> rfl
    have hnext : ((c.reply e l).2).Sound (c.extend e).models := by
      rw [models_extend]
      exact (hr l hl).2.mono fun m hm => List.mem_append_left _ hm
    unfold replies freshReplies
    rw [(hr l hl).1, (hr _ (Ledger.sound_empty e.models hash)).1, ih hnext (hmodels ▸ hms)]

end Call

end ApproxQuery

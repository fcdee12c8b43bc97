import ApproxQuery.Proofs.Estimate.SharedMemo

/-!
# When the shared memo changes an answer

Two queries clash if their models compute them from terms that match. The terms tell the tables of a
model but neither its relationships nor its floor, so the second query gets the value of the first
one. It keeps its answer exactly if its model gives the term that very value.
-/

namespace ApproxQuery

theorem TermMemo.find?_insert_empty {hash : IndicatorTerm ℚ → UInt64} {s t : IndicatorTerm ℚ}
    (hsame : s.same t false false = true) (hhash : hash s = hash t) (v : ℚ) :
    ((empty hash).insert s v).find? t = some v := by
  have hbucket : ((empty hash).insert s v).bucket t = [(s, v)] := by
    have hempty : (empty hash).bucket s = [] := rfl
    unfold insert
    rw [hempty, bucket]
    simp [empty, ← hhash]
  rw [find?, known?, hbucket]
  simp [hsame]

namespace Call

/-- Two queries whose numbers of rows two models compute from terms that match. -/
structure Clash (hash : IndicatorTerm ℚ → UInt64) (e : Ensemble ℚ) (q q' : Query ℚ)
    (m m' : DensityModel ℚ) (s t : IndicatorTerm ℚ) : Prop where
  covering : e.coveringModel q = .ok m
  covering' : e.coveringModel q' = .ok m'
  formula : q.cardinalityFormula m = .ok ⟨m.fullJoinSize, [.indicator s]⟩
  formula' : q'.cardinalityFormula m' = .ok ⟨m'.fullJoinSize, [.indicator t]⟩
  same : s.same t false false = true
  hash_eq : hash s = hash t

theorem reply_cardinality {e : Ensemble ℚ} {q : Query ℚ} {m : DensityModel ℚ}
    {t : IndicatorTerm ℚ} (hm : e.coveringModel q = .ok m)
    (hf : q.cardinalityFormula m = .ok ⟨m.fullJoinSize, [.indicator t]⟩) (l : Ledger ℚ) :
    (cardinality q).reply e l =
      (.value ((l.factor m (.indicator t)).1.map (m.fullJoinSize * ·)),
        (l.factor m (.indicator t)).2) := by
  change ((e.cardinality q).run l).map Reply.value id = _
  rw [Ensemble.run_cardinality hm hf, Formula.run_evaluate_indicator]
  rfl

namespace Clash

variable {hash : IndicatorTerm ℚ → UInt64} {e : Ensemble ℚ} {q q' : Query ℚ}
  {m m' : DensityModel ℚ} {s t : IndicatorTerm ℚ} {v : ℚ}

theorem freshReplies_eq (h : Clash hash e q q' m m' s t) :
    freshReplies hash e [.cardinality q, .cardinality q'] =
      [.value ((m.finished s).map (m.fullJoinSize * ·)),
        .value ((m'.finished t).map (m'.fullJoinSize * ·))] := by
  have hs := Ledger.factor_of_find?_eq_none (m := m) (l := .empty hash) (TermMemo.find?_empty s)
  have ht := Ledger.factor_of_find?_eq_none (m := m') (l := .empty hash) (TermMemo.find?_empty t)
  simp only [freshReplies, extend, reply_cardinality h.covering h.formula,
    reply_cardinality h.covering' h.formula', hs, ht]

theorem replies_eq (h : Clash hash e q q' m m' s t) (hv : m.finished s = .ok v) :
    replies e (.empty hash) [.cardinality q, .cardinality q'] =
      [.value (.ok (m.fullJoinSize * v)), .value (.ok (m'.fullJoinSize * v))] := by
  have hnone : (Ledger.empty hash).memo.find? s = none := TermMemo.find?_empty s
  have hs := Ledger.factor_of_find?_eq_none (m := m) hnone
  have hmemo := Ledger.memo_factor_of_finished hnone hv
  have ht := Ledger.factor_of_find?_eq_some (m := m')
    ((congrArg (TermMemo.find? · t) hmemo).trans (TermMemo.find?_insert_empty h.same h.hash_eq v))
  simp only [replies, extend, reply_cardinality h.covering h.formula,
    reply_cardinality h.covering' h.formula', hs, ht, hv]
  rfl

/-- The shared memo keeps both replies exactly if the second model gives its term the value of the
first. -/
theorem replies_eq_freshReplies_iff (h : Clash hash e q q' m m' s t) (hv : m.finished s = .ok v)
    (hsize : m'.fullJoinSize ≠ 0) :
    replies e (.empty hash) [.cardinality q, .cardinality q'] =
        freshReplies hash e [.cardinality q, .cardinality q'] ↔ m'.finished t = .ok v := by
  rw [h.replies_eq hv, h.freshReplies_eq, hv]
  cases hw : m'.finished t with
  | error reason => simp [Except.map]
  | ok w =>
    simp only [Except.map, List.cons.injEq, Reply.value.injEq, Except.ok.injEq, true_and, and_true]
    constructor
    · intro heq
      exact (mul_left_cancel₀ hsize heq).symm
    · rintro rfl
      rfl

end Clash

/-- Interchangeable models may share the memo. Two that clash may not, unless the second one gives
its term the value of the first. -/
theorem shared_memo_keeps_replies (hash : IndicatorTerm ℚ → UInt64) (e : Ensemble ℚ) :
    (∀ cs, Interchangeable (e.models ++ added cs) →
        replies e (.empty hash) cs = freshReplies hash e cs) ∧
      ∀ q q' m m' s t v, Clash hash e q q' m m' s t → m.finished s = .ok v →
        m'.fullJoinSize ≠ 0 →
        (replies e (.empty hash) [.cardinality q, .cardinality q'] =
          freshReplies hash e [.cardinality q, .cardinality q'] ↔ m'.finished t = .ok v) := by
  refine ⟨fun cs hms => ?_, fun q q' m m' s t v h hv hsize => ?_⟩
  · exact replies_eq_freshReplies hash (Ledger.sound_empty e.models hash) hms
  · exact h.replies_eq_freshReplies_iff hv hsize

end Call

/-! Two foreign keys lead from one table to another, and each has a model for the join along it. -/

namespace TwoKeys

def first : Relationship := .between "o" "c1" "c" "id" none

def second : Relationship := .between "o" "c2" "c" "id" none

def schema : Schema ℚ where
  tables := [
    { Table.named "o" with
      attributes := ["id", "c1", "c2"], outgoing := [first.identifier, second.identifier] },
    { Table.named "c" with
      attributes := ["id"], incoming := [first.identifier, second.identifier] }]
  relationships := [first, second]

/-- A model of the join along the relationship that gives every term one mean. -/
def model (r : Relationship) (mean : ℚ) : DensityModel ℚ where
  name := r.identifier
  fullJoinSize := 100
  tables := .ofList ["c", "o"]
  relationships := .ofList [r.identifier]
  indicator _ := .ok mean
  expectation _ := .ok 0
  probability _ := .ok 0

/-- The query for the number of rows of the join along the relationship. -/
def query (r : Relationship) : Query ℚ :=
  { Query.empty schema .cardinality with
    tables := .ofList ["c", "o"], relationships := .ofList [r.identifier] }

/-- What both queries ask for. -/
def term : IndicatorTerm ℚ where
  numerator := []
  denominator := []
  conditions := [.equals ⟨"c", "c_is_null"⟩ (.int 0), .equals ⟨"o", "o_is_null"⟩ (.int 0)]
  inverse := false
  tables := .ofList ["c", "o"]
  floor := IndicatorTerm.floorFor 100

theorem finished_term (r : Relationship) {mean : ℚ} (h : 1 / 100 ≤ mean) :
    (model r mean).finished term = .ok mean := by
  refine DensityModel.finished_eq_ok.mpr ⟨mean, rfl, ?_⟩
  rw [IndicatorTerm.finish_direct rfl]
  have hfloor : term.floor = 1 / 100 := by rfl
  rw [hfloor, max_eq_left h]

theorem clash (hash : IndicatorTerm ℚ → UInt64) (a b : ℚ) :
    Call.Clash hash ⟨[model first a, model second b]⟩ (query first) (query second)
      (model first a) (model second b) term term :=
  ⟨rfl, rfl, rfl, rfl, by decide +kernel, rfl⟩

theorem interchangeable (a : ℚ) : Interchangeable [model first a, model second a] := by
  have hmean {m : DensityModel ℚ} (hm : m ∈ [model first a, model second a]) :
      m.indicator = (fun _ => .ok a) ∧ m.fullJoinSize = 100 := by
    rcases List.mem_pair.mp hm with rfl | rfl
    · exact ⟨rfl, rfl⟩
    · exact ⟨rfl, rfl⟩
  refine ⟨fun m hm s t _ => ?_, fun m hm n hn _ t v hv => ?_⟩
  · rw [(hmean hm).1]
  · obtain ⟨mean, hval, hfin⟩ := DensityModel.finished_eq_ok.mp hv
    rw [(hmean hm).1] at hval
    rw [(hmean hm).2] at hfin
    refine DensityModel.finished_eq_ok.mpr ⟨mean, ?_, ?_⟩
    · rw [(hmean hn).1]
      exact hval
    · rw [(hmean hn).2]
      exact hfin

theorem shared_memo_keeps_equal_means :
    Call.replies ⟨[model first (1 / 2), model second (1 / 2)]⟩ .standard
        [.cardinality (query first), .cardinality (query second)] =
      Call.freshReplies (·.hash .standard) ⟨[model first (1 / 2), model second (1 / 2)]⟩
        [.cardinality (query first), .cardinality (query second)] ∧
    (model second (1 / 2)).finished term = .ok (1 / 2) := by
  have hkeeps := Call.shared_memo_keeps_replies (·.hash .standard)
    ⟨[model first (1 / 2), model second (1 / 2)]⟩
  have heq := hkeeps.1 [.cardinality (query first), .cardinality (query second)]
    (interchangeable (1 / 2))
  refine ⟨heq, ?_⟩
  exact (hkeeps.2 _ _ _ _ _ _ _ (clash _ _ _) (finished_term _ (by norm_num)) (by decide)).mp heq

/-- Models that give matching terms one mean each answer differently when they share a memo. -/
theorem shared_memo_changes_reply :
    (model first (1 / 2)).Consistent ∧ (model second (1 / 4)).Consistent ∧
      Call.replies ⟨[model first (1 / 2), model second (1 / 4)]⟩ .standard
          [.cardinality (query first), .cardinality (query second)] =
        [.value (.ok 50), .value (.ok 50)] ∧
      Call.freshReplies (·.hash .standard) ⟨[model first (1 / 2), model second (1 / 4)]⟩
          [.cardinality (query first), .cardinality (query second)] =
        [.value (.ok 50), .value (.ok 25)] := by
  have hfirst : (model first (1 / 2)).finished term = .ok (1 / 2) :=
    finished_term first (by norm_num)
  have hsecond : (model second (1 / 4)).finished term = .ok (1 / 4) :=
    finished_term second (by norm_num)
  refine ⟨fun _ _ _ => rfl, fun _ _ _ => rfl, ?_, ?_⟩
  · have hreplies := (clash (·.hash .standard) (1 / 2) (1 / 4)).replies_eq hfirst
    have hvalue : (100 : ℚ) * (1 / 2) = 50 := by norm_num
    exact hreplies.trans (congrArg (fun v => [Reply.value (.ok v), .value (.ok v)]) hvalue)
  · have hreplies := (clash (·.hash .standard) (1 / 2) (1 / 4)).freshReplies_eq
    rw [hfirst, hsecond] at hreplies
    have hvalue : (100 : ℚ) * (1 / 2) = 50 := by norm_num
    have hvalue' : (100 : ℚ) * (1 / 4) = 25 := by norm_num
    exact hreplies.trans (congrArg₂ (fun v w => [Reply.value (.ok v), .value (.ok w)]) hvalue hvalue')

end TwoKeys

end ApproxQuery

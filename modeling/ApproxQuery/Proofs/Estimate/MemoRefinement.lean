import ApproxQuery.Estimate.Memo
import ApproxQuery.Proofs.Estimate.TermMatching
import ApproxQuery.Proofs.Number.Machine

/-!
# The term memo as an association list

The reference is the plain list of all that was noted since the last clearing, searched from its
start, so that of several entries for matching terms the first one counts. If matching terms have one
hash, every sequence of calls gets the same replies from the memo as from the list, whichever other
terms share a bucket.
-/

namespace ApproxQuery

/-- A call of the memo; an evaluation can fail. -/
inductive MemoCall (N ε : Type) where
  | get (t : IndicatorTerm N)
  | insert (t : IndicatorTerm N) (v : N)
  | getOrEvaluate (t : IndicatorTerm N) (evaluate : IndicatorTerm N → Except ε N)
  | clear

inductive MemoReply (N ε : Type) where
  | found (v? : Option N)
  | evaluated (result : Except ε N)
  | done
deriving DecidableEq

/-- The replies to the calls, one after the other, and the last state. -/
def runCalls {σ ι ρ : Type} (perform : σ → ι → ρ × σ) : σ → List ι → List ρ × σ
  | s, [] => ([], s)
  | s, c :: cs =>
    let rest := runCalls perform (perform s c).2 cs
    ((perform s c).1 :: rest.1, rest.2)

/-- What was noted since the last clearing, in order, and the number of lookups that were answered. -/
structure TermLog (N : Type) where
  noted : List (IndicatorTerm N × N)
  answered : Nat

namespace TermLog

variable {N ε : Type} [Scalar N]

def empty : TermLog N := ⟨[], 0⟩

def addFirst (es : List (IndicatorTerm N × N)) (e : IndicatorTerm N × N) : List (IndicatorTerm N × N) :=
  if es.any fun f => f.1.same e.1 false false then es else es ++ [e]

/-- The entries whose term matches that of no earlier entry. -/
def firsts (es : List (IndicatorTerm N × N)) : List (IndicatorTerm N × N) :=
  es.foldl addFirst []

def stored (l : TermLog N) : List (IndicatorTerm N × N) :=
  firsts l.noted

/-- The value that was noted first for a matching term, or else the reciprocal of one, not zero, that
is stored for an inverse term. -/
def find? (l : TermLog N) (t : IndicatorTerm N) : Option N :=
  ((l.noted.find? fun e => e.1.same t false false).map (·.2)).or
    ((l.stored.find? fun e => e.1.isInverse t && !Scalar.eq e.2 0).map (1 / ·.2))

def note (l : TermLog N) (t : IndicatorTerm N) (v : N) : TermLog N :=
  { l with noted := l.noted ++ [(t, v)] }

/-- The reply of the list to a call. -/
def perform (l : TermLog N) : MemoCall N ε → MemoReply N ε × TermLog N
  | .get t => match l.find? t with
    | some v => (.found (some v), { l with answered := l.answered + 1 })
    | none => (.found none, l)
  | .insert t v => (.done, l.note t v)
  | .getOrEvaluate t evaluate => match l.find? t with
    | some v => (.evaluated (.ok v), { l with answered := l.answered + 1 })
    | none => match evaluate t with
      | .error e => (.evaluated (.error e), l)
      | .ok v => (.evaluated (.ok v), l.note t v)
  | .clear => (.done, { l with noted := [] })

variable {es : List (IndicatorTerm N × N)} {e : IndicatorTerm N × N}

theorem firsts_concat (es : List (IndicatorTerm N × N)) (e : IndicatorTerm N × N) :
    firsts (es ++ [e]) = addFirst (firsts es) e := by
  rw [firsts, List.foldl_append]
  rfl

theorem pairwise_firsts (es : List (IndicatorTerm N × N)) :
    (firsts es).Pairwise fun e f => e.1.same f.1 false false = false := by
  induction es using List.reverseRecOn with
  | nil => exact .nil
  | append_singleton es e ih =>
    rw [firsts_concat, addFirst]
    split
    · exact ih
    · rename_i hnew
      rw [Bool.not_eq_true, List.any_eq_false] at hnew
      refine List.pairwise_append.mpr ⟨ih, List.pairwise_singleton _ _, fun f hf g hg => ?_⟩
      rw [List.mem_singleton.mp hg]
      exact Bool.eq_false_iff.mpr (hnew f hf)

variable [LawfulScalar N]

theorem exists_mem_firsts (h : e ∈ es) : ∃ f ∈ firsts es, f.1.same e.1 false false = true := by
  induction es using List.reverseRecOn with
  | nil => cases h
  | append_singleton es e' ih =>
    rw [firsts_concat, addFirst]
    split
    · rename_i hknown
      rcases List.mem_append.mp h with h | h
      · exact ih h
      · rw [List.mem_singleton.mp h]
        exact List.any_eq_true.mp hknown
    · rcases List.mem_append.mp h with h | h
      · obtain ⟨f, hf, hsame⟩ := ih h
        exact ⟨f, List.mem_append_left _ hf, hsame⟩
      · exact ⟨e, List.mem_append_right _ h, IndicatorTerm.same_refl _ _ _⟩

/-- The first entry for a matching term is stored. -/
theorem find?_firsts (es : List (IndicatorTerm N × N)) (t : IndicatorTerm N) :
    (firsts es).find? (fun e => e.1.same t false false) =
      es.find? fun e => e.1.same t false false := by
  induction es using List.reverseRecOn with
  | nil => rfl
  | append_singleton es e ih =>
    rw [firsts_concat, addFirst, List.find?_append, ← ih]
    split
    · rename_i hknown
      obtain ⟨f, hf, hsame⟩ := List.any_eq_true.mp hknown
      cases hfind : (firsts es).find? fun e => e.1.same t false false with
      | some g => rfl
      | none =>
        have hother : e.1.same t false false = false := Bool.eq_false_iff.mpr fun hmatch =>
          List.find?_eq_none.mp hfind f hf (IndicatorTerm.same_trans hsame hmatch)
        simp [hother]
    · rw [List.find?_append]

end TermLog

namespace TermMemo

variable {N ε : Type}

/-- All that the memo holds, bucket by bucket. -/
def entries (m : TermMemo N) : List (IndicatorTerm N × N) :=
  m.buckets.toList.flatMap (·.2)

theorem size_eq_length (m : TermMemo N) : m.size = m.entries.length := by
  have hfold (bs : List (UInt64 × List (IndicatorTerm N × N))) (n : Nat) :
      bs.foldl (fun n b => n + b.2.length) n = n + (bs.flatMap (·.2)).length := by
    induction bs generalizing n with
    | nil => rfl
    | cons b bs ih =>
      rw [List.foldl_cons, ih, List.flatMap_cons, List.length_append, Nat.add_assoc]
  rw [size, hfold, Nat.zero_add, entries]

variable [Scalar N]

/-- The reply of the memo to a call. -/
def perform (m : TermMemo N) : MemoCall N ε → MemoReply N ε × TermMemo N
  | .get t => (.found (m.get t).1, (m.get t).2)
  | .insert t v => (.done, m.insert t v)
  | .getOrEvaluate t evaluate =>
    (.evaluated (m.getOrEvaluate t evaluate).1, (m.getOrEvaluate t evaluate).2)
  | .clear => (.done, m.clear)

theorem getOrEvaluate_error {m : TermMemo N} {t : IndicatorTerm N}
    {evaluate : IndicatorTerm N → Except ε N} {e : ε} (h : (m.getOrEvaluate t evaluate).1 = .error e) :
    (m.getOrEvaluate t evaluate).2 = m := by
  unfold getOrEvaluate get at h ⊢
  cases hfind : m.find? t with
  | some v => simp [hfind] at h
  | none => cases hvalue : evaluate t with
    | error reason => rfl
    | ok v => simp [hfind, hvalue] at h

/-- Terms that match have one hash. -/
def RespectsMatching (hash : IndicatorTerm N → UInt64) : Prop :=
  ∀ s t, s.same t false false = true → hash s = hash t

/-- Every bucket lists the stored entries of its hash, in the order in which they were noted. -/
structure Refines (m : TermMemo N) (l : TermLog N) : Prop where
  respects : RespectsMatching m.hash
  bucket : ∀ k, (m.buckets.get? k).getD [] = l.stored.filter fun e => m.hash e.1 == k
  hits : m.hits = l.answered

namespace Refines

variable {m : TermMemo N} {l : TermLog N} {t : IndicatorTerm N} {v : N}

theorem empty {hash : IndicatorTerm N → UInt64} (h : RespectsMatching hash) :
    Refines (.empty hash) .empty where
  respects := h
  bucket _ := rfl
  hits := rfl

/-- In the bucket of a term is found what is found in the list, if only matching entries are asked
for. -/
theorem find?_bucket (h : Refines m l) {p : IndicatorTerm N × N → Bool}
    (hp : ∀ e, p e = true → e.1.same t false false = true) :
    (m.bucket t).find? p = l.stored.find? p := by
  rw [TermMemo.bucket, h.bucket, List.find?_filter]
  congr 1
  funext e
  cases hpe : p e with
  | false => simp
  | true => simpa using h.respects _ _ (hp e hpe)

theorem any_bucket (h : Refines m l) (t : IndicatorTerm N) :
    (m.bucket t).any (fun e => e.1.same t false false) =
      l.stored.any fun e => e.1.same t false false := by
  rw [← List.isSome_find?, ← List.isSome_find?, h.find?_bucket fun _ he => he]

theorem eq_filter (h : Refines m l) {k : UInt64} {es : List (IndicatorTerm N × N)}
    (hes : (k, es) ∈ m.buckets.toList) : es = l.stored.filter fun e => m.hash e.1 == k := by
  rw [← h.bucket, SortedMap.get?_eq_some.mpr hes, Option.getD_some]

theorem mem_entries (h : Refines m l) {e : IndicatorTerm N × N} :
    e ∈ m.entries ↔ e ∈ l.stored := by
  rw [entries, List.mem_flatMap]
  constructor
  · rintro ⟨⟨k, es⟩, hes, he⟩
    rw [h.eq_filter hes] at he
    exact List.mem_of_mem_filter he
  · intro he
    have hbucket := h.bucket (m.hash e.1)
    have hmem : e ∈ l.stored.filter fun f => m.hash f.1 == m.hash e.1 :=
      List.mem_filter.mpr ⟨he, beq_self_eq_true _⟩
    cases hget : m.buckets.get? (m.hash e.1) with
    | none => simp [← hbucket, hget] at hmem
    | some es => exact ⟨_, SortedMap.get?_eq_some.mp hget, by simpa [← hbucket, hget] using hmem⟩

theorem insert (h : Refines m l) (t : IndicatorTerm N) (v : N) :
    Refines (m.insert t v) (l.note t v) := by
  have hstored : (l.note t v).stored = TermLog.addFirst l.stored (t, v) :=
    TermLog.firsts_concat l.noted (t, v)
  rw [TermLog.addFirst, ← h.any_bucket] at hstored
  rw [TermMemo.insert]
  split
  · rename_i hknown
    rw [if_pos hknown] at hstored
    exact ⟨h.respects, fun k => by rw [hstored, h.bucket], h.hits⟩
  · rename_i hnew
    rw [if_neg hnew] at hstored
    refine ⟨h.respects, fun k => ?_, h.hits⟩
    rw [hstored, List.filter_append, ← h.bucket]
    by_cases hk : k = m.hash t
    · rw [hk, SortedMap.get?_insert_self]
      simp [TermMemo.bucket]
    · rw [SortedMap.get?_insert_of_ne hk]
      simp [Ne.symm hk]

variable [LawfulScalar N]

theorem entries_perm (h : Refines m l) : m.entries.Perm l.stored := by
  have hstored : l.stored.Nodup := by
    refine (TermLog.pairwise_firsts l.noted).imp fun {e f} hother heq => ?_
    rw [heq, IndicatorTerm.same_refl] at hother
    cases hother
  refine (List.perm_ext_iff_of_nodup ?_ hstored).mpr fun e => h.mem_entries
  refine List.nodup_flatMap.mpr ⟨?_, ?_⟩
  · rintro ⟨k, es⟩ hes
    rw [h.eq_filter hes]
    exact hstored.filter _
  · refine m.buckets.sorted.imp_of_mem ?_
    rintro ⟨k, es⟩ ⟨k', es'⟩ hes hes' hlt e he he'
    rw [h.eq_filter hes, List.mem_filter, beq_iff_eq] at he
    rw [h.eq_filter hes', List.mem_filter, beq_iff_eq] at he'
    obtain rfl : k = k' := he.2.symm.trans he'.2
    simp at hlt

theorem find?_eq (h : Refines m l) (t : IndicatorTerm N) : m.find? t = l.find? t := by
  have hknown : m.known? t = (l.noted.find? fun e => e.1.same t false false).map (·.2) := by
    rw [known?, h.find?_bucket fun _ he => he, TermLog.stored, TermLog.find?_firsts]
  have hreciprocal : m.reciprocal? t =
      (l.stored.find? fun e => e.1.isInverse t && !Scalar.eq e.2 0).map (1 / ·.2) := by
    rw [reciprocal?, h.find?_bucket]
    intro e he
    rw [Bool.and_eq_true] at he
    rw [← IndicatorTerm.isInverse_eq]
    exact he.1
  rw [TermMemo.find?, TermLog.find?, hknown, hreciprocal]

theorem perform (h : Refines m l) (c : MemoCall N ε) :
    (m.perform c).1 = (l.perform c).1 ∧ Refines (m.perform c).2 (l.perform c).2 := by
  have hanswered : Refines { m with hits := m.hits + 1 } { l with answered := l.answered + 1 } :=
    ⟨h.respects, h.bucket, congrArg (· + 1) h.hits⟩
  cases c with
  | get t =>
    simp only [TermMemo.perform, TermLog.perform, TermMemo.get, h.find?_eq]
    cases l.find? t with
    | some v => exact ⟨rfl, hanswered⟩
    | none => exact ⟨rfl, h⟩
  | insert t v => exact ⟨rfl, h.insert t v⟩
  | getOrEvaluate t evaluate =>
    simp only [TermMemo.perform, TermLog.perform, TermMemo.getOrEvaluate, TermMemo.get, h.find?_eq]
    cases l.find? t with
    | some v => exact ⟨rfl, hanswered⟩
    | none =>
      cases evaluate t with
      | error e => exact ⟨rfl, h⟩
      | ok v => exact ⟨rfl, h.insert t v⟩
  | clear => exact ⟨rfl, h.respects, fun _ => rfl, h.hits⟩

theorem runCalls (h : Refines m l) (cs : List (MemoCall N ε)) :
    (runCalls TermMemo.perform m cs).1 = (runCalls TermLog.perform l cs).1 ∧
      Refines (runCalls TermMemo.perform m cs).2 (runCalls TermLog.perform l cs).2 := by
  induction cs generalizing m l with
  | nil => exact ⟨rfl, h⟩
  | cons c cs ih =>
    obtain ⟨hreply, hnext⟩ := h.perform c
    obtain ⟨hreplies, hlast⟩ := ih hnext
    exact ⟨congrArg₂ List.cons hreply hreplies, hlast⟩

end Refines

/-- The memo replies to any calls as the list does. It holds one entry, the first, for each class of
matching terms that was noted since the last clearing, counts the answered lookups, and stays as it
is when an evaluation fails. -/
theorem refines_association_list [LawfulScalar N] {hash : IndicatorTerm N → UInt64}
    (hrespects : RespectsMatching hash) (calls : List (MemoCall N ε)) :
    let memo := runCalls perform (TermMemo.empty hash) calls
    let log := runCalls TermLog.perform TermLog.empty calls
    memo.1 = log.1 ∧
    memo.2.entries.Pairwise (fun e f => e.1.same f.1 false false = false) ∧
    memo.2.entries.Perm log.2.stored ∧
    (∀ e ∈ log.2.noted, ∃ f ∈ memo.2.entries, f.1.same e.1 false false = true) ∧
    memo.2.size = log.2.stored.length ∧
    memo.2.hits = log.2.answered ∧
    ∀ t evaluate (e : ε), (memo.2.getOrEvaluate t evaluate).1 = .error e →
      (memo.2.getOrEvaluate t evaluate).2 = memo.2 := by
  intro memo log
  obtain ⟨hreplies, hrefines⟩ := (Refines.empty hrespects).runCalls calls
  have hperm := hrefines.entries_perm
  refine ⟨hreplies, ?_, hperm, fun e he => ?_, ?_, hrefines.hits, fun t evaluate e herror => ?_⟩
  · refine (hperm.pairwise_iff fun {e f} h => ?_).mpr (TermLog.pairwise_firsts _)
    exact Bool.eq_false_iff.mpr fun h' => Bool.eq_false_iff.mp h (IndicatorTerm.same_symm h')
  · obtain ⟨f, hf, hsame⟩ := TermLog.exists_mem_firsts he
    exact ⟨f, hrefines.mem_entries.mpr hf, hsame⟩
  · rw [size_eq_length, hperm.length_eq]
  · exact getOrEvaluate_error herror

namespace OneBucket

def repeats : IndicatorTerm Float :=
  ⟨[⟨"customers", "mul_orders"⟩], [], [.equals ⟨"orders", "customer"⟩ (.int 5)], false,
    .ofList ["customers", "orders"], 0⟩

/-- The same with the attribute listed twice and the literal written as a number. -/
def rewritten : IndicatorTerm Float :=
  { repeats with
    numerator := repeats.numerator ++ repeats.numerator
    conditions := [.equals ⟨"orders", "customer"⟩ (.num 5.0)] }

def unconditioned : IndicatorTerm Float :=
  { repeats with conditions := [] }

def calls : List (MemoCall Float String) :=
  [.getOrEvaluate repeats fun _ => .ok 0.25, .get repeats.inverted, .insert repeats 0.5,
    .get rewritten, .get unconditioned, .getOrEvaluate unconditioned fun _ => .error "diverged",
    .clear, .get rewritten]

/-- All terms share one hash, and each lookup is answered as if the terms were compared one by one. -/
theorem replies_of_one_bucket :
    RespectsMatching (fun _ : IndicatorTerm Float => 0) ∧
    (runCalls perform (TermMemo.empty fun _ => 0) calls).1 =
      [.evaluated (.ok 0.25), .found (some 4.0), .done, .found (some 0.25), .found none,
        .evaluated (.error "diverged"), .done, .found none] ∧
    (runCalls perform (TermMemo.empty fun _ => 0) calls).2.hits = 2 := by
  have hrespects : RespectsMatching (fun _ : IndicatorTerm Float => 0) := fun _ _ _ => rfl
  obtain ⟨hreplies, -, -, -, -, hhits, -⟩ := refines_association_list hrespects calls
  refine ⟨hrespects, hreplies.trans ?_, hhits.trans ?_⟩
  · decide +kernel
  · decide +kernel

end OneBucket

end TermMemo

end ApproxQuery

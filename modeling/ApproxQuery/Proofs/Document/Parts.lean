import ApproxQuery.Proofs.Document.RoundTrip
import ApproxQuery.Proofs.Outcome
import ApproxQuery.Proofs.Value.Equality

/-!
# Parts of documents

Integers, finite numbers, lists and fields are taken from a document as they were put into it. A
number that is not finite is written as null, and no document gives such a number.
-/

namespace ApproxQuery

theorem mapM_eq_some {α β : Type} {f : α → Option β} {as : List α} {bs : List β} :
    as.mapM f = some bs ↔ List.Forall₂ (fun a b => f a = some b) as bs := by
  induction as generalizing bs with
  | nil =>
    rw [List.mapM_nil, List.forall₂_nil_left_iff]
    exact Option.some_inj.trans eq_comm
  | cons a as ih =>
    rw [List.mapM_cons]
    simp only [Option.bind_eq_bind, Option.bind_eq_some_iff]
    constructor
    · rintro ⟨b, hb, cs, hcs, h⟩
      cases h
      exact .cons hb (ih.mp hcs)
    · intro h
      cases h with
      | @cons _ b _ cs hb hcs => exact ⟨b, hb, cs, ih.mpr hcs, rfl⟩

theorem mapM_map_eq_some {α β γ : Type} {f : β → Option γ} {g : α → β} {h : α → γ} {as : List α}
    (hf : ∀ a ∈ as, f (g a) = some (h a)) : (as.map g).mapM f = some (as.map h) := by
  rw [mapM_eq_some, List.forall₂_map_left_iff, List.forall₂_map_right_iff]
  exact List.forall₂_same.mpr hf

namespace Document

theorem written_ofNat (n : Nat) : Written (ofNat n) := by
  have htext : toString n = String.ofList (Layout.sign false ++ (Numeral.ofNat n).text) := by
    rw [Numeral.text_ofNat, Nat.toString_eq_ofList_toDigits]
    rfl
  rw [ofNat, htext]
  exact .number _ _

theorem toNat?_ofNat (n : Nat) : (ofNat n).toNat? = some n := by
  change Number.digits? (toString n).toList = some n
  rw [Nat.toString_eq_ofList_toDigits, String.toList_ofList, Numeral.digits?_toDigits]

theorem toWord?_ofNat {n : Nat} (hn : n < 2 ^ 64) :
    ∃ word, (ofNat n).toWord? = some word ∧ word.toNat = n := by
  refine ⟨n.toUInt64, ?_, ?_⟩
  · unfold toWord?
    rw [toNat?_ofNat, Option.bind_some]
    exact if_pos hn
  · rw [UInt64.toNat_ofNat', Nat.mod_eq_of_lt hn]

theorem toString_eq (i : Int) :
    toString i = String.ofList (Layout.sign (decide (i < 0)) ++ Nat.toDigits 10 i.natAbs) := by
  rw [Int.toString_eq_repr]
  cases i with
  | ofNat n =>
    have hneg : decide (Int.ofNat n < 0) = false := decide_eq_false (by simp)
    rw [hneg]
    exact Nat.repr_eq_ofList_toDigits
  | negSucc n =>
    have hneg : decide (Int.negSucc n < 0) = true := decide_eq_true (Int.negSucc_lt_zero n)
    rw [hneg, Layout.sign, if_pos rfl, String.ofList_append, Int.repr, Nat.repr_eq_ofList_toDigits]
    rfl

theorem written_ofInt (i : Int) : Written (ofInt i) := by
  rw [ofInt, toString_eq, ← Numeral.text_ofNat]
  exact .number _ _

theorem signedInt?_toString (i : Int) : Number.signedInt? (toString i).toList = some i := by
  rw [toString_eq, String.toList_ofList, ← Numeral.text_ofNat]
  unfold Number.signedInt?
  rw [Number.splitSign_numeral]
  dsimp only
  rw [Numeral.text_ofNat, Numeral.digits?_toDigits]
  change some (if decide (i < 0) = true then -(i.natAbs : Int) else i.natAbs) = some i
  by_cases hneg : i < 0
  · rw [decide_eq_true hneg, if_pos rfl, Int.ofNat_natAbs_of_nonpos hneg.le, neg_neg]
  · rw [decide_eq_false hneg, if_neg (by decide), Int.natAbs_of_nonneg (not_lt.mp hneg)]

theorem toInt64?_ofInt (i : Int64) : (ofInt i.toInt).toInt64? = some i := by
  have hzero : toString i.toInt ≠ "-0" := by
    intro heq
    have hread := signedInt?_toString i.toInt
    have hread' : Number.signedInt? (toString i.toInt).toList = some 0 := by
      rw [heq]
      decide +kernel
    rw [Option.some.inj (hread.symm.trans hread')] at heq
    revert heq
    decide
  rw [ofInt, toInt64?, if_neg hzero, Number.readInt64?, signedInt?_toString, Option.bind_some]
  exact Value.int64?_toInt i

theorem written_ofFloat (x : Float) : Written (ofFloat x) := by
  unfold ofFloat
  split
  · rename_i hx
    obtain ⟨negative, n, htext, -⟩ := Layout.exists_numeral_document hx
    rw [htext]
    exact .number _ _
  · exact .null

theorem toFloat?_ofFloat {x : Float} (hx : x.isFinite = true) : (ofFloat x).toFloat? = some x := by
  obtain ⟨negative, n, htext, hvalue⟩ := Layout.exists_numeral_document hx
  unfold ofFloat
  rw [if_pos hx, toFloat?, htext, String.toList_ofList, Number.readFloat?_numeral, hvalue,
    Option.bind_some, if_pos hx]

theorem toFields?_ofFields (fs : List (String × Document)) : (ofFields fs).toFields? = some fs := by
  have hfields : (fs.map fun f => (some f.1, f.2)).mapM (fun f => Option.map (·, f.2) f.1) =
      some (fs.map id) := mapM_map_eq_some fun f _ => rfl
  rwa [List.map_id] at hfields

theorem filter_name {fs : List (String × Document)} (hnodup : (fs.map Prod.fst).Nodup)
    {f : String × Document} (hf : f ∈ fs) : fs.filter (·.1 == f.1) = [f] := by
  induction fs with
  | nil => cases hf
  | cons e fs ih =>
    obtain ⟨hnot, hnodup⟩ := List.nodup_cons.mp hnodup
    rcases List.mem_cons.mp hf with rfl | hf
    · have hrest : fs.filter (·.1 == f.1) = [] := by
        refine List.filter_eq_nil_iff.mpr fun e he heq => hnot ?_
        exact beq_iff_eq.mp heq ▸ List.mem_map_of_mem he
      rw [List.filter_cons, if_pos (beq_self_eq_true _), hrest]
    · have hne : ¬ (e.1 == f.1) = true := fun heq =>
        hnot (beq_iff_eq.mp heq ▸ List.mem_map_of_mem hf)
      rw [List.filter_cons, if_neg hne, ih hnodup hf]

/-- The members of a record under all its names, which are different. -/
theorem members?_ofFields {names : List String} {fs : List (String × Document)}
    (hnames : fs.map Prod.fst = names) (hnodup : names.Nodup) :
    members? names (ofFields fs) = some (fs.map fun f => some f.2) := by
  subst hnames
  unfold members? ofFields
  dsimp only
  rw [← ofFields, toFields?_ofFields, Option.bind_eq_bind, Option.bind_some]
  refine mapM_map_eq_some fun f hf => ?_
  rw [filter_name hnodup hf]

end Document

end ApproxQuery

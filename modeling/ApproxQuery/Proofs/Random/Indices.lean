import ApproxQuery.Random.Draw
import Mathlib

/-!
# What is drawn from any generator

A draw always has a property if its result has it for every generator. Draws from a range lie in
the range, and a drawn set of indices has as many different members as are asked for.
-/

namespace ApproxQuery.Draw

variable {G α β : Type}

/-- The result has the property, whatever the generator hands out. -/
def Always (x : StateM G α) (P : α → Prop) : Prop :=
  ∀ g, P (x g).1

namespace Always

variable {x : StateM G α} {P Q : α → Prop}

theorem pure {a : α} (h : P a) : Always (Pure.pure a : StateM G α) P :=
  fun _ => h

theorem mono (h : Always x P) (himp : ∀ a, P a → Q a) : Always x Q :=
  fun g => himp _ (h g)

theorem bind {f : α → StateM G β} {R : β → Prop} (hx : Always x P) (hf : ∀ a, P a → Always (f a) R) :
    Always (x >>= f) R :=
  fun g => hf _ (hx g) _

theorem foldlM {f : β → α → StateM G β} {as : List α} {I : β → Prop} {b : β} (hb : I b)
    (hf : ∀ b a, a ∈ as → I b → Always (f b a) I) : Always (as.foldlM f b) I := by
  induction as generalizing b with
  | nil => exact pure hb
  | cons a as ih =>
    rw [List.foldlM_cons]
    refine bind (hf b a List.mem_cons_self hb) fun c hc => ih hc fun b a ha => ?_
    exact hf b a (List.mem_cons_of_mem _ ha)

end Always

variable [Generator G]

theorem scaled_lt {word : UInt32} {n : Nat} (hn : 0 < n) : word.toNat * n / UInt32.size < n := by
  rw [Nat.div_lt_iff_lt_mul (by decide), Nat.mul_comm n]
  exact Nat.mul_lt_mul_of_pos_right word.toNat_lt hn

theorem settle_lt {n : Nat} (hn : 0 < n) (zone : Nat) (refusals : Nat) :
    Always (settle n zone refusals : StateM G Nat) (· < n) := by
  induction refusals with
  | zero => exact .bind (P := fun _ => True) (fun _ => trivial) fun _ _ => .pure (scaled_lt hn)
  | succ refusals ih =>
    refine .bind (P := fun _ => True) (fun _ => trivial) fun word _ => ?_
    dsimp only
    split
    · exact .pure (scaled_lt hn)
    · exact ih

theorem below_mem {low high : Nat} (h : low ≤ high) :
    Always (below low high : StateM G Nat) fun i => low ≤ i ∧ i ≤ high := by
  refine .bind (settle_lt (Nat.succ_pos _) _ _) fun i hi => .pure ?_
  omega

theorem perm_swapIfInBounds (xs : Array α) (i j : Nat) : (xs.swapIfInBounds i j).Perm xs := by
  rw [Array.swapIfInBounds_def]
  split
  · split
    · exact Array.swap_perm _ _
    · exact .refl _
  · exact .refl _

theorem shuffle_perm (xs : Array α) :
    Always (shuffle xs : StateM G (Array α)) fun ys => ys.Perm xs := by
  refine .foldlM (.refl _) fun ys i _ hys => ?_
  refine .bind (P := fun _ => True) (fun _ => trivial) fun j _ => .pure ?_
  exact (perm_swapIfInBounds ys i j).trans hys

/-- So many different indices below the length. -/
structure IsChoice (length amount : Nat) (is : List Nat) : Prop where
  nodup : is.Nodup
  lt : ∀ i ∈ is, i < length
  size : is.length = amount

theorem IsChoice.perm {length amount : Nat} {is js : List Nat} (h : IsChoice length amount is)
    (hp : js.Perm is) : IsChoice length amount js :=
  ⟨hp.nodup_iff.mpr h.nodup, fun i hi => h.lt i (hp.mem_iff.mp hi), hp.length_eq.trans h.size⟩

theorem inPlace_isChoice {length amount : Nat} (h : amount ≤ length) :
    Always (inPlace length amount : StateM G (List Nat)) (IsChoice length amount) := by
  have hperm : Always ((List.range amount).foldlM (fun xs i => do
      return xs.swapIfInBounds i (← below i (length - 1))) (Array.range length) :
        StateM G (Array Nat)) fun xs => xs.Perm (Array.range length) := by
    refine .foldlM (.refl _) fun xs i _ hxs => ?_
    refine .bind (P := fun _ => True) (fun _ => trivial) fun j _ => .pure ?_
    exact (perm_swapIfInBounds xs i j).trans hxs
  refine .bind hperm fun xs hxs => .pure ?_
  have hlist : xs.toList.Perm (List.range length) := by simpa using hxs.toList
  have htake : (xs.take amount).toList = xs.toList.take amount := by simp
  rw [htake]
  refine ⟨?_, ?_, ?_⟩
  · exact (hlist.nodup_iff.mpr List.nodup_range).sublist (List.take_sublist _ _)
  · intro i hi
    exact List.mem_range.mp (hlist.mem_iff.mp (List.mem_of_mem_take hi))
  · have hlen := hlist.length_eq
    rw [List.length_range] at hlen
    rw [List.length_take]
    omega

theorem IsChoice.cons {length amount : Nat} {is : List Nat} (h : IsChoice length amount is) {i : Nat}
    (hi : i ∉ is) (hle : i ≤ length) : IsChoice (length + 1) (amount + 1) (i :: is) := by
  refine ⟨List.nodup_cons.mpr ⟨hi, h.nodup⟩, fun j hj => ?_, congrArg (· + 1) h.size⟩
  rcases List.mem_cons.mp hj with rfl | hj
  · exact Nat.lt_succ_of_le hle
  · exact Nat.lt_succ_of_lt (h.lt j hj)

/-- What one round of the method makes of the chosen indices. -/
def floydStep (total : Nat) (chosen : List Nat) (j : Nat) : StateM G (List Nat) := do
  let t ← below 0 j
  match chosen.findIdx? (· == t) with
  | none => return chosen ++ [t]
  | some place => return if total < 50 then chosen.insertIdx place j else chosen ++ [j]

theorem floydStep_isChoice {total : Nat} {chosen : List Nat} {j amount : Nat}
    (h : IsChoice j amount chosen) :
    Always (floydStep total chosen j : StateM G (List Nat)) (IsChoice (j + 1) (amount + 1)) := by
  refine .bind (below_mem (Nat.zero_le j)) fun t ht => ?_
  have hj : j ∉ chosen := fun hmem => Nat.lt_irrefl j (h.lt j hmem)
  cases hfind : chosen.findIdx? (· == t) with
  | none =>
    have hnot : t ∉ chosen := by
      intro hmem
      have := List.findIdx?_eq_none_iff.mp hfind t hmem
      simp at this
    exact .pure ((h.cons hnot ht.2).perm (List.perm_append_singleton t chosen))
  | some place =>
    have hlt : place < chosen.length := by
      obtain ⟨hlt, _⟩ := List.findIdx?_eq_some_iff_getElem.mp hfind
      exact hlt
    refine .pure ?_
    split
    · exact (h.cons hj le_rfl).perm (List.perm_insertIdx j chosen hlt.le)
    · exact (h.cons hj le_rfl).perm (List.perm_append_singleton j chosen)

theorem floyd_rounds_isChoice {total : Nat} {chosen : List Nat} {j amount : Nat} (rounds : Nat)
    (h : IsChoice j amount chosen) :
    Always ((List.range' j rounds).foldlM (floydStep total) chosen : StateM G (List Nat))
      (IsChoice (j + rounds) (amount + rounds)) := by
  induction rounds generalizing j amount chosen with
  | zero => exact .pure h
  | succ rounds ih =>
    rw [List.range'_succ, List.foldlM_cons]
    refine .bind (floydStep_isChoice h) fun next hnext => ?_
    have hrest := ih hnext
    rwa [Nat.add_right_comm, Nat.add_right_comm amount] at hrest

theorem floyd_isChoice {length amount : Nat} (h : amount ≤ length) :
    Always (floyd length amount : StateM G (List Nat)) (IsChoice length amount) := by
  have hempty : IsChoice (length - amount) 0 [] := ⟨List.nodup_nil, by simp, rfl⟩
  have hrounds : Always ((List.range' (length - amount) amount).foldlM (floydStep amount) [] :
      StateM G (List Nat)) (IsChoice (length - amount + amount) (0 + amount)) :=
    floyd_rounds_isChoice amount hempty
  rw [Nat.sub_add_cancel h, Nat.zero_add] at hrounds
  refine .bind (P := IsChoice length amount) hrounds fun chosen hchosen => ?_
  split
  · exact .pure hchosen
  · refine .bind (shuffle_perm chosen.toArray) fun ys hys => .pure ?_
    exact hchosen.perm (by simpa using hys.toList)

theorem fresh_not_mem {length : Nat} {chosen : List Nat} (hless : chosen.length < length)
    (repeats : Nat) :
    Always (fresh length chosen repeats : StateM G Nat) fun i => i ∉ chosen ∧ i < length := by
  induction repeats with
  | zero =>
    refine .pure ?_
    have hex : ∃ i ∈ List.range length, !chosen.contains i := by
      by_contra hall
      push Not at hall
      have hsub : List.range length ⊆ chosen := by
        intro i hi
        simpa using hall i hi
      have hle := (List.nodup_range.subperm hsub).length_le
      rw [List.length_range] at hle
      omega
    obtain ⟨i, hi⟩ := Option.isSome_iff_exists.mp (List.find?_isSome.mpr hex)
    rw [hi]
    have hfree := List.find?_some hi
    exact ⟨by simpa using hfree, List.mem_range.mp (List.mem_of_find?_eq_some hi)⟩
  | succ repeats ih =>
    refine .bind (settle_lt (Nat.zero_lt_of_lt hless) _ _) fun t ht => ?_
    split
    · exact ih
    · rename_i hfree
      exact .pure ⟨by simpa using hfree, ht⟩

theorem scattered_isChoice {length amount : Nat} (h : amount ≤ length) :
    Always (scattered length amount : StateM G (List Nat)) (IsChoice length amount) := by
  have hrounds (rounds : Nat) (hle : rounds ≤ length) :
      Always ((List.range rounds).foldlM (fun chosen _ => do
        return chosen ++ [← fresh length chosen patience]) [] : StateM G (List Nat))
        (IsChoice length rounds) := by
    induction rounds with
    | zero => exact .pure ⟨List.nodup_nil, by simp, rfl⟩
    | succ rounds ih =>
      rw [List.range_succ, List.foldlM_append]
      refine .bind (ih (by omega)) fun chosen hchosen => ?_
      have hless : chosen.length < length := by
        rw [hchosen.size]
        omega
      refine .bind (.bind (fresh_not_mem hless _)
        fun i hi => .pure (P := IsChoice length (rounds + 1)) ?_) fun _ hc => .pure hc
      refine ⟨?_, ?_, by simp [hchosen.size]⟩
      · exact List.nodup_append.mpr ⟨hchosen.nodup, List.nodup_singleton i, by
          rintro a ha b hb rfl
          exact hi.1 (List.mem_singleton.mp hb ▸ ha)⟩
      · intro j hj
        rcases List.mem_append.mp hj with hj | hj
        · exact hchosen.lt j hj
        · exact List.mem_singleton.mp hj ▸ hi.2
  exact hrounds amount h

theorem indices_isChoice {length amount : Nat} (h : amount ≤ length) :
    Always (indices length amount : StateM G (List Nat)) (IsChoice length amount) := by
  unfold indices
  split
  · exact inPlace_isChoice h
  · exact floyd_isChoice h
  · exact scattered_isChoice h

theorem sortedIndices_isChoice {length amount : Nat} (h : amount ≤ length) :
    Always (sortedIndices length amount : StateM G (List Nat)) fun is =>
      IsChoice length amount is ∧ is.Pairwise (· < ·) := by
  refine .bind (indices_isChoice h) fun is his => .pure ?_
  have hchoice := his.perm (List.mergeSort_perm is fun a b => decide (a ≤ b))
  refine ⟨hchoice, ?_⟩
  have hle : (is.mergeSort fun a b => decide (a ≤ b)).Pairwise (· ≤ ·) := by
    have hsorted := @List.pairwise_mergeSort Nat (fun a b => decide (a ≤ b))
      (by intro a b c; simp only [decide_eq_true_eq]; omega)
      (by intro a b; simp only [Bool.or_eq_true, decide_eq_true_eq]; omega) is
    simpa using hsorted
  exact hle.imp₂ (fun _ _ hab hne => lt_of_le_of_ne hab hne) hchoice.nodup

end ApproxQuery.Draw

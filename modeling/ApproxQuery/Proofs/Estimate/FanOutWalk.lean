import ApproxQuery.Estimate.QueryFormula
import ApproxQuery.Proofs.Schema.Tree

/-!
# The walk for the multipliers

On a tree the walk from a connected part that has the root reaches every table, and meets the
multiplier of each fan-out that leads out of the part, once.
-/

namespace ApproxQuery.FanOutWalk

open JoinPath

variable {N : Type} {g : Schema N} {es : List Edge} {start : String} {tables : SortedSet String}
  {w w' : FanOutWalk} {ids left : List String} {id : String}

/-- The fan-outs from the tables to other tables. -/
def outward (es : List Edge) (tables : SortedSet String) : List Edge :=
  es.filter fun e => e.fansOut && decide (e.child ∉ tables)

/-- What has been reached has the parents of its tables, and the multipliers met are those of the
fan-outs that lead outwards to what has been reached. -/
structure Sound (es : List Edge) (start : String) (tables : SortedSet String) (w : FanOutWalk) :
    Prop where
  root : start ∈ w.reached
  closed : ∀ e ∈ es, e.child ∈ w.reached → e.parent ∈ w.reached
  contains : ∀ t ∈ tables, t ∈ w.reached
  met : ∃ found : List Edge, w.multipliers = found.map (·.relationship.definedMultiplier) ∧
    found.Nodup ∧ ∀ e, e ∈ found ↔ e ∈ outward es tables ∧ e.child ∈ w.reached

theorem sound_start {w : FanOutWalk} (hw : w = ⟨tables, []⟩) (hroot : start ∈ tables)
    (hclosed : ∀ e ∈ es, e.child ∈ tables → e.parent ∈ tables) : Sound es start tables w := by
  subst hw
  refine ⟨hroot, hclosed, fun t ht => ht, [], rfl, List.nodup_nil, fun e => ?_⟩
  constructor
  · intro he
    cases he
  · rintro ⟨he, hreached⟩
    have hout := (List.mem_filter.mp he).2
    rw [Bool.and_eq_true, decide_eq_true_eq] at hout
    exact absurd hreached hout.2

namespace Sound

theorem closed_insert (h : Sound es start tables w) (htree : Tree [start] es) {e : Edge} (he : e ∈ es)
    (hparent : e.parent ∈ w.reached) :
    ∀ e' ∈ es, e'.child ∈ w.reached.insert e.child → e'.parent ∈ w.reached.insert e.child := by
  intro e' he' hreached
  rw [SortedSet.mem_insert] at hreached ⊢
  rcases hreached with heq | hreached
  · cases htree.child_inj he' he heq
    exact .inr hparent
  · exact .inr (h.closed e' he' hreached)

theorem fanOut (h : Sound es start tables w) (htree : Tree [start] es) {e : Edge} (he : e ∈ es)
    (hfans : e.fansOut = true) (hparent : e.parent ∈ w.reached) (hchild : e.child ∉ w.reached) :
    Sound es start tables
      ⟨w.reached.insert e.child, w.multipliers ++ [e.relationship.definedMultiplier]⟩ := by
  obtain ⟨found, hfound, hnodup, hmem⟩ := h.met
  refine ⟨SortedSet.mem_insert.mpr (.inr h.root), ?_, ?_, found ++ [e], by simp [hfound], ?_, ?_⟩
  · exact h.closed_insert htree he hparent
  · intro t ht
    exact SortedSet.mem_insert.mpr (.inr (h.contains t ht))
  · rw [List.nodup_append_comm]
    refine List.nodup_cons.mpr ⟨fun hmem' => hchild ?_, hnodup⟩
    exact ((hmem e).mp hmem').2
  · intro e'
    rw [List.mem_append, List.mem_singleton, hmem e', SortedSet.mem_insert]
    constructor
    · rintro (⟨hout, hreached⟩ | rfl)
      · exact ⟨hout, .inr hreached⟩
      · refine ⟨List.mem_filter.mpr ⟨he, ?_⟩, .inl rfl⟩
        rw [Bool.and_eq_true, decide_eq_true_eq]
        exact ⟨hfans, fun ht => hchild (h.contains _ ht)⟩
    · rintro ⟨hout, heq | hreached⟩
      · exact .inr (htree.child_inj (List.mem_of_mem_filter hout) he heq)
      · exact .inl ⟨hout, hreached⟩

theorem lookup (h : Sound es start tables w) (htree : Tree [start] es) {e : Edge} (he : e ∈ es)
    (hlooks : e.fansOut = false) (hparent : e.parent ∈ w.reached) :
    Sound es start tables { w with reached := w.reached.insert e.child } := by
  obtain ⟨found, hfound, hnodup, hmem⟩ := h.met
  refine ⟨SortedSet.mem_insert.mpr (.inr h.root), ?_, ?_, found, hfound, hnodup, ?_⟩
  · exact h.closed_insert htree he hparent
  · intro t ht
    exact SortedSet.mem_insert.mpr (.inr (h.contains t ht))
  · intro e'
    rw [hmem e', SortedSet.mem_insert]
    constructor
    · rintro ⟨hout, hreached⟩
      exact ⟨hout, .inr hreached⟩
    · rintro ⟨hout, heq | hreached⟩
      · cases htree.child_inj (List.mem_of_mem_filter hout) he heq
        have hfans := (List.mem_filter.mp hout).2
        rw [Bool.and_eq_true, hlooks] at hfans
        cases hfans.1
      · exact ⟨hout, hreached⟩

end Sound

/-- The listed relationships are those of edges of the tree. -/
def Pending (es : List Edge) (ids : List String) : Prop :=
  ∀ id ∈ ids, ∃ e ∈ es, e.relationship.identifier = id

/-- What a round makes of the walk and of the pending relationships. -/
structure RoundResult (es : List Edge) (start : String) (tables : SortedSet String)
    (w w' : FanOutWalk) (ids left : List String) : Prop where
  sound : Sound es start tables w'
  grows : ∀ t ∈ w.reached, t ∈ w'.reached
  sub : left ⊆ ids
  /-- Whatever is not reached stays pending. -/
  waits : ∀ e ∈ es, e.relationship.identifier ∈ ids → e.child ∉ w'.reached →
    e.relationship.identifier ∈ left
  length : left.length ≤ ids.length
  /-- A relationship that leads to a new table is followed, and is not pending any more. -/
  follows : ∀ e ∈ es, e.relationship.identifier ∈ ids → e.parent ∈ w.reached →
    e.child ∉ w.reached → w'.reached ≠ w.reached
  shrinks : w'.reached ≠ w.reached → left.length < ids.length

/-- The relationships of edges with the identifier have their ends among the tables. -/
def Ends (es : List Edge) (id : String) (reached : SortedSet String) : Prop :=
  ∀ e ∈ es, e.relationship.identifier = id → e.child ∈ reached ∧ e.parent ∈ reached

theorem ends_of_edge (hknown : ∀ e ∈ es, g.relationship e.relationship.identifier = .ok e.relationship)
    {e : Edge} (he : e ∈ es) {p : String → Prop} (hchild : p e.child) (hparent : p e.parent) :
    ∀ e' ∈ es, e'.relationship.identifier = e.relationship.identifier → p e'.child ∧ p e'.parent := by
  intro e' he' hid
  have hsame : e'.relationship = e.relationship := by
    have known := hknown e' he'
    rw [hid, hknown e he] at known
    exact (Except.ok.inj known).symm
  have hends : p e.relationship.source ∧ p e.relationship.target := by
    rcases e.child_eq_or with ⟨hc, hp⟩ | ⟨hc, hp⟩
    · exact ⟨hc ▸ hchild, hp ▸ hparent⟩
    · exact ⟨hp ▸ hparent, hc ▸ hchild⟩
  rw [← hsame] at hends
  rcases e'.child_eq_or with ⟨hc, hp⟩ | ⟨hc, hp⟩
  · rw [hc, hp]
    exact hends
  · rw [hc, hp]
    exact hends.symm

namespace RoundResult

variable {w₁ : FanOutWalk}

theorem cons (h : RoundResult es start tables w₁ w' ids left) (hsub : ∀ t ∈ w.reached, t ∈ w₁.reached)
    (hends : Ends es id w₁.reached) : RoundResult es start tables w w' (id :: ids) left := by
  refine ⟨h.sound, fun t ht => h.grows t (hsub t ht), ?_, ?_, ?_, ?_, ?_⟩
  · exact fun x hx => List.mem_cons_of_mem id (h.sub hx)
  · intro e he hid hchild
    rcases List.mem_cons.mp hid with hid | hid
    · exact absurd (h.grows _ (hends e he hid).1) hchild
    · exact h.waits e he hid hchild
  · have := h.length
    rw [List.length_cons]
    omega
  · intro e he hid hparent hchild heq
    by_cases hnew : e.child ∈ w₁.reached
    · exact hchild (heq ▸ h.grows _ hnew)
    · rcases List.mem_cons.mp hid with hid | hid
      · exact hnew (hends e he hid).1
      · refine h.follows e he hid (hsub _ hparent) hnew (SortedSet.ext_mem fun t => ?_)
        exact ⟨fun ht => hsub t (heq ▸ ht), h.grows t⟩
  · intro _
    have := h.length
    rw [List.length_cons]
    omega

theorem keep (h : RoundResult es start tables w w' ids left)
    (hends : ∀ e ∈ es, e.relationship.identifier = id → e.parent ∉ w.reached) :
    RoundResult es start tables w w' (id :: ids) (id :: left) := by
  refine ⟨h.sound, h.grows, ?_, ?_, ?_, ?_, ?_⟩
  · exact List.cons_subset_cons id h.sub
  · intro e he hid hchild
    rcases List.mem_cons.mp hid with hid | hid
    · exact List.mem_cons.mpr (.inl hid)
    · exact List.mem_cons_of_mem id (h.waits e he hid hchild)
  · simpa using h.length
  · intro e he hid hparent hchild
    rcases List.mem_cons.mp hid with hid | hid
    · exact absurd hparent (hends e he hid)
    · exact h.follows e he hid hparent hchild
  · intro hne
    simpa using h.shrinks hne

end RoundResult

section

variable {r : Relationship} (known : g.relationship id = .ok r)
include known

theorem round_of_reached (hs : r.source ∈ w.reached) (ht : r.target ∈ w.reached) :
    round g w (id :: ids) = round g w ids := by
  simp [round, known, hs, ht, bind, Except.bind]

theorem round_of_unreached (hs : r.source ∉ w.reached) (ht : r.target ∉ w.reached) :
    round g w (id :: ids) = (round g w ids).map fun (w', left) => (w', id :: left) := by
  simp only [round, known, hs, ht, bind, Except.bind]
  cases round g w ids <;> rfl

theorem round_of_fanOut (hs : r.source ∉ w.reached) (ht : r.target ∈ w.reached) :
    round g w (id :: ids) =
      round g ⟨w.reached.insert r.source, w.multipliers ++ [r.definedMultiplier]⟩ ids := by
  simp [round, known, hs, ht, bind, Except.bind]

theorem round_of_lookup (hs : r.source ∈ w.reached) (ht : r.target ∉ w.reached) :
    round g w (id :: ids) = round g { w with reached := w.reached.insert r.target } ids := by
  simp [round, known, hs, ht, bind, Except.bind]

end

/-- An edge that leads from a reached table to a new one is followed. -/
theorem exists_next (htree : Tree [start] es) (h : Sound es start tables w) {e : Edge} (he : e ∈ es)
    (known : g.relationship e.relationship.identifier = .ok e.relationship)
    (hparent : e.parent ∈ w.reached) (hchild : e.child ∉ w.reached) :
    ∃ next, Sound es start tables next ∧ next.reached = w.reached.insert e.child ∧
      ∀ ids, round g w (e.relationship.identifier :: ids) = round g next ids := by
  cases hfans : e.fansOut with
  | true =>
    have hc : e.child = e.relationship.source := by simp [Edge.child, hfans]
    have hp : e.parent = e.relationship.target := by simp [Edge.parent, hfans]
    refine ⟨_, h.fanOut htree he hfans hparent hchild, rfl, fun ids => ?_⟩
    rw [hc]
    exact round_of_fanOut known (hc ▸ hchild) (hp ▸ hparent)
  | false =>
    have hc : e.child = e.relationship.target := by simp [Edge.child, hfans]
    have hp : e.parent = e.relationship.source := by simp [Edge.parent, hfans]
    refine ⟨_, h.lookup htree he hfans hparent, rfl, fun ids => ?_⟩
    rw [hc]
    exact round_of_lookup known (hp ▸ hparent) (hc ▸ hchild)

theorem round_spec (htree : Tree [start] es)
    (hknown : ∀ e ∈ es, g.relationship e.relationship.identifier = .ok e.relationship)
    (h : Sound es start tables w) (hpending : Pending es ids) :
    ∃ w' left, round g w ids = .ok (w', left) ∧ RoundResult es start tables w w' ids left := by
  induction ids generalizing w with
  | nil =>
    refine ⟨w, [], rfl, h, fun _ ht => ht, fun _ hx => hx, ?_, le_rfl, ?_, ?_⟩
    · intro e _ hid
      cases hid
    · intro e _ hid
      cases hid
    · intro hne
      exact absurd rfl hne
  | cons id ids ih =>
    have hrest : Pending es ids := fun x hx => hpending x (List.mem_cons_of_mem id hx)
    obtain ⟨e, he, rfl⟩ := hpending id List.mem_cons_self
    have known := hknown e he
    by_cases hchild : e.child ∈ w.reached
    · have hparent := h.closed e he hchild
      have hround : round g w (e.relationship.identifier :: ids) = round g w ids := by
        rcases e.child_eq_or with ⟨hc, hp⟩ | ⟨hc, hp⟩
        · exact round_of_reached known (hc ▸ hchild) (hp ▸ hparent)
        · exact round_of_reached known (hp ▸ hparent) (hc ▸ hchild)
      obtain ⟨w', left, hok, hresult⟩ := ih h hrest
      refine ⟨w', left, hround.trans hok, hresult.cons (fun _ ht => ht) ?_⟩
      exact ends_of_edge hknown he hchild hparent
    · by_cases hparent : e.parent ∈ w.reached
      · obtain ⟨next, hsound, hreached, hround⟩ := exists_next htree h he known hparent hchild
        obtain ⟨w', left, hok, hresult⟩ := ih hsound hrest
        refine ⟨w', left, (hround ids).trans hok, hresult.cons (fun t ht => ?_) ?_⟩
        · rw [hreached]
          exact SortedSet.mem_insert.mpr (.inr ht)
        · rw [hreached]
          exact ends_of_edge hknown he (SortedSet.mem_insert.mpr (.inl rfl))
            (SortedSet.mem_insert.mpr (.inr hparent))
      · have hround : round g w (e.relationship.identifier :: ids) =
            (round g w ids).map fun (w', left) => (w', e.relationship.identifier :: left) := by
          rcases e.child_eq_or with ⟨hc, hp⟩ | ⟨hc, hp⟩
          · exact round_of_unreached known (hc ▸ hchild) (hp ▸ hparent)
          · exact round_of_unreached known (hp ▸ hparent) (hc ▸ hchild)
        obtain ⟨w', left, hok, hresult⟩ := ih h hrest
        rw [hok] at hround
        refine ⟨w', _, hround, hresult.keep fun e' he' hid => ?_⟩
        exact (ends_of_edge (p := (· ∉ w.reached)) hknown he hchild hparent e' he' hid).2

theorem run_succ {rounds : Nat} {next : FanOutWalk} (h : round g w ids = .ok (next, left)) :
    run g (rounds + 1) w ids =
      if next.reached = w.reached ∨ left = [] then .ok next else run g rounds next left := by
  rw [run, h]
  rfl

/-- The walk ends with every table reached. -/
theorem run_spec (htree : Tree [start] es)
    (hknown : ∀ e ∈ es, g.relationship e.relationship.identifier = .ok e.relationship)
    {rounds : Nat} (hrounds : ids.length ≤ rounds) (h : Sound es start tables w)
    (hpending : Pending es ids)
    (hwaits : ∀ e ∈ es, e.child ∉ w.reached → e.relationship.identifier ∈ ids) :
    ∃ w', run g rounds w ids = .ok w' ∧ Sound es start tables w' ∧
      ∀ e ∈ es, e.child ∈ w'.reached := by
  induction rounds generalizing w ids with
  | zero =>
    have hnil : ids = [] := List.length_eq_zero_iff.mp (Nat.le_zero.mp hrounds)
    subst hnil
    refine ⟨w, rfl, h, fun e he => ?_⟩
    by_contra hchild
    cases hwaits e he hchild
  | succ rounds ih =>
    obtain ⟨next, left, hround, hresult⟩ := round_spec htree hknown h hpending
    have hleft : ∀ e ∈ es, e.child ∉ next.reached → e.relationship.identifier ∈ left := by
      intro e he hchild
      refine hresult.waits e he (hwaits e he fun hreached => ?_) hchild
      exact hchild (hresult.grows _ hreached)
    rw [run_succ hround]
    split
    · rename_i hstop
      refine ⟨next, rfl, hresult.sound, fun e he => ?_⟩
      by_contra hchild
      rcases hstop with hsame | hnil
      · -- A round without a new table leaves none whose parent is reached.
        rw [hsame] at hchild
        have hroot : ∀ t ∈ [start], t ∈ w.reached := by
          intro t ht
          exact List.mem_singleton.mp ht ▸ h.root
        obtain ⟨e', he', hparent', hchild'⟩ := htree.exists_frontier hroot he hchild
        exact hresult.follows e' he' (hwaits e' he' hchild') hparent' hchild' hsame
      · have hmem := hleft e he hchild
        rw [hnil] at hmem
        cases hmem
    · rename_i hgo
      have hne : next.reached ≠ w.reached := fun heq => hgo (.inl heq)
      have hlength := hresult.shrinks hne
      exact ih (by omega) hresult.sound (fun x hx => hpending x (hresult.sub hx)) hleft

/-- The multipliers of the fan-outs that lead out of the tables of the query. -/
theorem multipliers_perm (htree : Tree [start] es)
    (hknown : ∀ e ∈ es, g.relationship e.relationship.identifier = .ok e.relationship)
    (hroot : start ∈ tables) (hclosed : ∀ e ∈ es, e.child ∈ tables → e.parent ∈ tables)
    (hids : ∀ id, id ∈ ids ↔ ∃ e ∈ es, e.relationship.identifier = id) :
    ∃ w', run g ids.length ⟨tables, []⟩ ids = .ok w' ∧
      w'.multipliers.Perm ((outward es tables).map (·.relationship.definedMultiplier)) := by
  obtain ⟨w', hrun, hsound, hall⟩ := run_spec htree hknown le_rfl
    (sound_start rfl hroot hclosed) (fun id hid => (hids id).mp hid)
    fun e he _ => (hids _).mpr ⟨e, he, rfl⟩
  obtain ⟨found, hfound, hnodup, hmem⟩ := hsound.met
  refine ⟨w', hrun, ?_⟩
  rw [hfound]
  refine List.Perm.map _ ((List.perm_ext_iff_of_nodup hnodup ?_).mpr fun e => ?_)
  · exact htree.nodup_edges.filter _
  · rw [hmem e]
    exact and_iff_left_of_imp fun he => hall e (List.mem_of_mem_filter he)

/-! With known relationships the walk ends, whether they are a tree or not. -/

/-- The multipliers met are those of listed relationships. -/
def Met (g : Schema N) (ids : List String) (w : FanOutWalk) : Prop :=
  ∀ a ∈ w.multipliers, ∃ id ∈ ids, ∃ r, g.relationship id = .ok r ∧ a = r.definedMultiplier

theorem Met.fanOut (h : Met g ids w) {r : Relationship} (hid : id ∈ ids)
    (known : g.relationship id = .ok r) :
    Met g ids ⟨w.reached.insert r.source, w.multipliers ++ [r.definedMultiplier]⟩ := by
  intro a ha
  rcases List.mem_append.mp ha with ha | ha
  · exact h a ha
  · exact ⟨id, hid, r, known, List.mem_singleton.mp ha⟩

theorem exists_round {all : List String} (known : ∀ id ∈ ids, ∃ r, g.relationship id = .ok r)
    (hsub : ids ⊆ all) (h : Met g all w) :
    ∃ w' left, round g w ids = .ok (w', left) ∧ left ⊆ ids ∧ Met g all w' := by
  induction ids generalizing w with
  | nil => exact ⟨w, [], rfl, fun _ hx => hx, h⟩
  | cons id ids ih =>
    obtain ⟨r, hr⟩ := known id List.mem_cons_self
    have hrest : ∀ id ∈ ids, ∃ r, g.relationship id = .ok r :=
      fun id hid => known id (List.mem_cons_of_mem _ hid)
    obtain ⟨hid, hsub⟩ := List.cons_subset.mp hsub
    by_cases hs : r.source ∈ w.reached
    · by_cases ht : r.target ∈ w.reached
      · obtain ⟨w', left, hok, hleft, hmet⟩ := ih hrest hsub h
        exact ⟨w', left, (round_of_reached hr hs ht).trans hok,
          List.subset_cons_of_subset id hleft, hmet⟩
      · obtain ⟨w', left, hok, hleft, hmet⟩ :=
          ih (w := { w with reached := w.reached.insert r.target }) hrest hsub h
        exact ⟨w', left, (round_of_lookup hr hs ht).trans hok,
          List.subset_cons_of_subset id hleft, hmet⟩
    · by_cases ht : r.target ∈ w.reached
      · obtain ⟨w', left, hok, hleft, hmet⟩ := ih hrest hsub (h.fanOut hid hr)
        exact ⟨w', left, (round_of_fanOut hr hs ht).trans hok,
          List.subset_cons_of_subset id hleft, hmet⟩
      · obtain ⟨w', left, hok, hleft, hmet⟩ := ih hrest hsub h
        refine ⟨w', id :: left, ?_, List.cons_subset_cons id hleft, hmet⟩
        rw [round_of_unreached hr hs ht, hok]
        rfl

theorem exists_run {all : List String} {rounds : Nat}
    (known : ∀ id ∈ ids, ∃ r, g.relationship id = .ok r) (hsub : ids ⊆ all) (h : Met g all w) :
    ∃ w', run g rounds w ids = .ok w' ∧ Met g all w' := by
  induction rounds generalizing w ids with
  | zero => exact ⟨w, rfl, h⟩
  | succ rounds ih =>
    obtain ⟨next, left, hround, hleft, hmet⟩ := exists_round known hsub h
    rw [run_succ hround]
    split
    · exact ⟨next, rfl, hmet⟩
    · exact ih (fun id hid => known id (hleft hid)) (fun id hid => hsub (hleft hid)) hmet

end ApproxQuery.FanOutWalk

namespace ApproxQuery.Query

variable {N : Type} {q : Query N} {m : DensityModel N}

/-- The normalizers of a query are multipliers of relationships of the model. -/
theorem exists_normalizers (known : ∀ id ∈ m.relationships, ∃ r, q.schema.relationship id = .ok r) :
    ∃ denominator, q.normalizers m = .ok denominator ∧ ∀ a ∈ denominator,
      ∃ id ∈ m.relationships, ∃ r, q.schema.relationship id = .ok r ∧ a = r.definedMultiplier := by
  have hstart : FanOutWalk.Met q.schema m.relationships.toList ⟨q.tables, []⟩ := by
    intro a ha
    cases ha
  obtain ⟨w, hw, hmet⟩ := FanOutWalk.exists_run known (fun _ hid => hid) hstart
  exact ⟨w.multipliers, bind_eq_ok.mpr ⟨w, hw, rfl⟩, hmet⟩

end ApproxQuery.Query

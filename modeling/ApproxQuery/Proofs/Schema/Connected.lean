import ApproxQuery.Proofs.Schema.Assembly
import ApproxQuery.Proofs.Schema.Built

/-!
# Connected relationships

Listed relationships can be followed both ways. So whether all of them can be joined depends on which
are listed, and neither on their order nor on the end that is joined first.
-/

namespace ApproxQuery.JoinPath

variable {N : Type} {g : Schema N} {ids ids' : List String} {a b table : String}

/-- The table is at an end of a listed relationship. -/
def IsEnd (g : Schema N) (ids : List String) (table : String) : Prop :=
  ∃ id ∈ ids, ∃ r, g.relationship id = .ok r ∧ (r.source = table ∨ r.target = table)

/-- Listed relationships lead from each end to every other. -/
def Connected (g : Schema N) (ids : List String) : Prop :=
  ∀ a b, IsEnd g ids a → IsEnd g ids b → Reachable g ids a b

theorem Adjacent.symm (h : Adjacent g ids a b) : Adjacent g ids b a := by
  obtain ⟨id, hid, r, known, hends⟩ := h
  exact ⟨id, hid, r, known, hends.symm⟩

theorem Adjacent.mono (h : Adjacent g ids a b) (hsub : ids ⊆ ids') : Adjacent g ids' a b := by
  obtain ⟨id, hid, hends⟩ := h
  exact ⟨id, hsub hid, hends⟩

theorem Adjacent.isEnd (h : Adjacent g ids a b) : IsEnd g ids b := by
  obtain ⟨id, hid, r, known, ⟨-, htarget⟩ | ⟨hsource, -⟩⟩ := h
  · exact ⟨id, hid, r, known, .inr htarget⟩
  · exact ⟨id, hid, r, known, .inl hsource⟩

theorem IsEnd.mono (h : IsEnd g ids table) (hsub : ids ⊆ ids') : IsEnd g ids' table := by
  obtain ⟨id, hid, hends⟩ := h
  exact ⟨id, hsub hid, hends⟩

theorem Reachable.symm (h : Reachable g ids a b) : Reachable g ids b a := by
  have hadjacent : Std.Symm (Adjacent g ids) := ⟨fun _ _ => Adjacent.symm⟩
  exact Relation.ReflTransGen.stdSymm.symm a b h

theorem Reachable.mono (h : Reachable g ids a b) (hsub : ids ⊆ ids') : Reachable g ids' a b := by
  induction h with
  | refl => exact .refl
  | tail _ hadjacent ih => exact ih.tail (hadjacent.mono hsub)

/-- From an end only ends are reached. -/
theorem Reachable.isEnd (h : Reachable g ids a b) (ha : IsEnd g ids a) : IsEnd g ids b := by
  induction h with
  | refl => exact ha
  | tail _ hadjacent _ => exact hadjacent.isEnd

theorem Connected.congr (hids : ∀ id, id ∈ ids ↔ id ∈ ids') (h : Connected g ids) :
    Connected g ids' := by
  have hsub : ids ⊆ ids' := fun id hid => (hids id).mp hid
  have hsub' : ids' ⊆ ids := fun id hid => (hids id).mpr hid
  exact fun a b ha hb => (h a b (ha.mono hsub') (hb.mono hsub')).mono hsub

/-- What is reached from one end is connected. -/
theorem reaches_iff_connected (known : ∀ id ∈ ids, ∃ r, g.relationship id = .ok r)
    (ha : IsEnd g ids a) : (∀ id ∈ ids, Reaches g ids a id) ↔ Connected g ids := by
  constructor
  · intro hall
    have hreach {b : String} (hb : IsEnd g ids b) : Reachable g ids a b := by
      obtain ⟨id, hid, r, hr, hend⟩ := hb
      obtain ⟨r', hr', hreach⟩ := hall id hid
      cases hr.symm.trans hr'
      have hacross : Adjacent g ids r.source r.target := ⟨id, hid, r, hr, .inl ⟨rfl, rfl⟩⟩
      have hboth : Reachable g ids a r.source ∧ Reachable g ids a r.target := by
        rcases hreach with hsource | htarget
        · exact ⟨hsource, hsource.tail hacross⟩
        · exact ⟨htarget.tail hacross.symm, htarget⟩
      rcases hend with rfl | rfl
      · exact hboth.1
      · exact hboth.2
    exact fun b c hb hc => (hreach hb).symm.trans (hreach hc)
  · intro h id hid
    obtain ⟨r, hr⟩ := known id hid
    exact ⟨r, hr, .inl (h a r.source ha ⟨id, hid, r, hr, .inl rfl⟩)⟩

theorem IsEnd.mem_names (h : IsEnd g ids table) (hg : g.Linked) : table ∈ g.tables.map Table.name := by
  obtain ⟨id, -, r, known, rfl | rfl⟩ := h
  · exact hg.source r (Schema.Linked.mem_of_relationship_eq_ok known)
  · exact hg.target r (Schema.Linked.mem_of_relationship_eq_ok known)

theorem containsTable_of_isEnd (hg : g.Linked) (h : IsEnd g ids table) :
    g.containsTable table = true := by
  obtain ⟨t, ht, hname⟩ := List.mem_map.mp (h.mem_names hg)
  exact List.find?_isSome.mpr ⟨t, ht, beq_iff_eq.mpr hname⟩

theorem exists_table_of_isEnd (hg : g.Linked) (h : IsEnd g ids table) :
    ∃ t, g.table table = .ok t := by
  obtain ⟨t, ht⟩ := Option.isSome_iff_exists.mp (containsTable_of_isEnd hg h)
  exact ⟨t, by simp [Schema.table, ht]⟩

/-- From any end there is a path if the relationships are connected, through just their ends; and
otherwise there is none. -/
theorem assemble_of_isEnd (hg : g.Linked) (known : ∀ id ∈ ids, ∃ r, g.relationship id = .ok r)
    (ha : IsEnd g ids a) :
    (Connected g ids ∧ ∃ p, assemble g a ids = .ok p ∧ ∀ t, t ∈ p.tables ↔ IsEnd g ids t) ∨
      (¬ Connected g ids ∧ ∃ joined left, assemble g a ids = .error (.noJoinPath joined left)) := by
  obtain ⟨steps, left, hex, hchain⟩ := exists_exhausted [a] known
  rw [assemble_eq (containsTable_of_isEnd hg ha), hchain]
  have hconnected := hex.left_eq_nil.trans (reaches_iff_connected known ha)
  by_cases hleft : left = []
  · rw [if_pos hleft]
    have h := hconnected.mp hleft
    refine .inl ⟨h, _, rfl, fun t => hex.mem_iff.trans ?_⟩
    exact ⟨fun hreach => hreach.isEnd ha, h a t ha⟩
  · rw [if_neg hleft]
    exact .inr ⟨fun h => hleft (hconnected.mpr h), _, _, rfl⟩

theorem exists_assemble_iff (hg : g.Linked) (known : ∀ id ∈ ids, ∃ r, g.relationship id = .ok r)
    (ha : IsEnd g ids a) : (∃ p, assemble g a ids = .ok p) ↔ Connected g ids := by
  rcases assemble_of_isEnd hg known ha with ⟨h, p, hp, -⟩ | ⟨h, joined, left, herror⟩
  · exact iff_of_true ⟨p, hp⟩ h
  · refine iff_of_false ?_ h
    rintro ⟨p, hp⟩
    cases hp.symm.trans herror

theorem mem_tables_of_assemble (hg : g.Linked)
    (known : ∀ id ∈ ids, ∃ r, g.relationship id = .ok r) (ha : IsEnd g ids a) {p : JoinPath}
    (hp : assemble g a ids = .ok p) (t : String) : t ∈ p.tables ↔ IsEnd g ids t := by
  rcases assemble_of_isEnd hg known ha with ⟨-, p', hp', hmem⟩ | ⟨-, joined, left, herror⟩
  · cases hp.symm.trans hp'
    exact hmem t
  · cases hp.symm.trans herror

end ApproxQuery.JoinPath

import ApproxQuery.Proofs.Estimate.CompiledColumns
import ApproxQuery.Proofs.Schema.Spanning

/-!
# The normalizers of a query

In the join of a tree of relationships the rows of a connected part are repeated by the relationships
that lead out of the part to a table that references what is nearer to it. The multipliers of just
these relationships, each once, are the normalizers of a query on the part.
-/

namespace ApproxQuery

open JoinPath FanOutWalk

variable {N : Type} {g : Schema N} {ids : List String} {tables part : SortedSet String}
  {start : String} {es : List Edge} {r : Relationship} {rs : List Relationship}

/-- The relationship leads out of the part and references what is nearer to it. -/
def JoinPath.FansOutOf (g : Schema N) (ids : List String) (part : SortedSet String)
    (r : Relationship) : Prop :=
  ¬ (r.source ∈ part ∧ r.target ∈ part) ∧ Nearer g ids part r.target r.source

/-- The edges that lead outwards from the part are those of the relationships that fan out of it. -/
theorem JoinPath.Subtree.mem_outward (hpart : Subtree g ids tables part)
    (hspan : SpanningTree g ids tables) (htree : Tree [start] es)
    (hknown : ∀ e ∈ es, g.relationship e.relationship.identifier = .ok e.relationship)
    (hids : ∀ id, id ∈ ids ↔ ∃ e ∈ es, e.relationship.identifier = id) (hstart : start ∈ part)
    (hrs : ids.mapM g.relationship = .ok rs) :
    r ∈ (outward es part).map (·.relationship) ↔ r ∈ rs ∧ FansOutOf g ids part r := by
  have hids' : ∀ id ∈ ids, ∃ e ∈ es, e.relationship.identifier = id := fun id => (hids id).mp
  have hclosed : ∀ e ∈ es, e.child ∈ part → e.parent ∈ part := fun e he =>
    hpart.parent_mem htree hknown hids' hstart he
  have hreach : ∀ e ∈ es, ∃ n, InSteps g ids part n e.child := by
    intro e he
    obtain ⟨r, hr, source, target⟩ := hspan.ends _ ((hids _).mpr ⟨e, he, rfl⟩)
    cases hr.symm.trans (hknown e he)
    refine exists_inSteps hstart (hspan.connected start (hpart.sub start hstart) _ ?_)
    rcases e.child_eq_or with ⟨hc, -⟩ | ⟨hc, -⟩
    · exact hc ▸ source
    · exact hc ▸ target
  constructor
  · intro hr
    obtain ⟨e, hout, rfl⟩ := List.mem_map.mp hr
    obtain ⟨he, hfans⟩ := List.mem_filter.mp hout
    rw [Bool.and_eq_true, decide_eq_true_eq] at hfans
    obtain ⟨r, hr, hr'⟩ := exists_result_of_mapM hrs ((hids _).mpr ⟨e, he, rfl⟩)
    cases hr'.symm.trans (hknown e he)
    have hnear := (nearer_parent htree hknown hids' hclosed he (hreach e he)).mpr hfans.2
    simp only [Edge.child, Edge.parent, hfans.1, if_true] at hfans hnear
    exact ⟨hr, fun hin => hfans.2 hin.1, hnear⟩
  · rintro ⟨hr, -, hnear⟩
    obtain ⟨id, hid, hr⟩ := exists_origin_of_mapM hrs hr
    obtain ⟨e, he, rfl⟩ := hids' id hid
    cases hr.symm.trans (hknown e he)
    refine List.mem_map.mpr ⟨e, List.mem_filter.mpr ⟨he, ?_⟩, rfl⟩
    cases hfans : e.fansOut with
    | true =>
      have hnear' : Nearer g ids part e.parent e.child := by
        simpa [Edge.child, Edge.parent, hfans] using hnear
      simpa using (nearer_parent htree hknown hids' hclosed he (hreach e he)).mp hnear'
    | false =>
      have hnear' : Nearer g ids part e.child e.parent := by
        simpa [Edge.child, Edge.parent, hfans] using hnear
      exact absurd hnear' (not_nearer_child htree hknown hids' hclosed he)

namespace Query

variable {q : Query N} {m : DensityModel N}

open Classical in
/-- The normalizers of a query on a connected part of a model's tree are the defined multipliers of
the relationships that fan out of the part. -/
theorem normalizers_perm_fanOuts
    (hspan : SpanningTree q.schema m.relationships.toList m.tables)
    (hpart : Subtree q.schema m.relationships.toList m.tables q.tables) :
    ∃ rs denominator, m.relationships.toList.mapM q.schema.relationship = .ok rs ∧
      q.normalizers m = .ok denominator ∧ denominator.Perm
        ((rs.filter fun r => FansOutOf q.schema m.relationships.toList q.tables r).map
          (·.definedMultiplier)) := by
  obtain ⟨start, hstart⟩ := hpart.nonempty
  have hnodup := m.relationships.nodup
  obtain ⟨es, htree, hknown, hperm⟩ := hspan.exists_edges hnodup (hpart.sub start hstart)
  have hids (id : String) : id ∈ m.relationships.toList ↔
      ∃ e ∈ es, e.relationship.identifier = id := by
    rw [← hperm.mem_iff, List.mem_map]
  obtain ⟨rs, hrs⟩ := exists_mapM_eq_ok hspan.known
  obtain ⟨w, hrun, hmultipliers⟩ := multipliers_perm htree hknown hstart
    (fun e he => hpart.parent_mem htree hknown (fun id => (hids id).mp) hstart he) hids
  refine ⟨rs, w.multipliers, hrs, bind_eq_ok.mpr ⟨w, hrun, rfl⟩, hmultipliers.trans ?_⟩
  have hedges : (es.map (·.relationship)).Nodup := by
    refine List.Nodup.of_map Relationship.identifier ?_
    rw [List.map_map]
    exact hperm.nodup_iff.mpr hnodup
  have houtward : ((outward es q.tables).map (·.relationship)).Nodup :=
    hedges.sublist (List.filter_sublist.map _)
  have hsame : ((outward es q.tables).map (·.relationship)).Perm
      (rs.filter fun r => FansOutOf q.schema m.relationships.toList q.tables r) := by
    refine (List.perm_ext_iff_of_nodup houtward
      ((Schema.nodup_of_mapM hrs hnodup).filter _)).mpr fun r => ?_
    rw [hpart.mem_outward hspan htree hknown hids hstart hrs, List.mem_filter, decide_eq_true_eq]
  have hmap := hsame.map (·.definedMultiplier)
  rwa [List.map_map] at hmap

end Query

/-! The items of an order fan out of it, and so do the visits of its customer; the relationship to the
customer references what is farther away. -/

namespace Shop

theorem spanningTree :
    SpanningTree schema joinModel.relationships.toList joinModel.tables where
  ends := by
    intro id hid
    have hid : id ∈ relationships := SortedSet.mem_ofList.mp hid
    fin_cases hid
    · exact ⟨orders, rfl, by decide, by decide⟩
    · exact ⟨items, rfl, by decide, by decide⟩
    · exact ⟨visits, rfl, by decide, by decide⟩
  connected := by
    have hcustomers : Reachable schema joinModel.relationships.toList "customers" "customers" :=
      .refl
    have horders := hcustomers.tail
      ⟨orders.identifier, by decide, orders, rfl, .inr ⟨rfl, rfl⟩⟩
    have hitems := horders.tail ⟨items.identifier, by decide, items, rfl, .inr ⟨rfl, rfl⟩⟩
    have hvisits := hcustomers.tail
      ⟨visits.identifier, by decide, visits, rfl, .inr ⟨rfl, rfl⟩⟩
    have hreach : ∀ t ∈ joinModel.tables,
        Reachable schema joinModel.relationships.toList "customers" t := by
      intro t ht
      have ht : t ∈ path.tables := SortedSet.mem_ofList.mp ht
      fin_cases ht
      · exact hcustomers
      · exact horders
      · exact hitems
      · exact hvisits
    exact fun a ha b hb => (hreach a ha).symm.trans (hreach b hb)
  needed := by
    intro id hid r hr
    have hid : id ∈ relationships := SortedSet.mem_ofList.mp hid
    fin_cases hid <;> cases hr
    · exact not_reachable_of_cut ["orders", "items"] (by decide) (by decide) (by decide)
    · exact not_reachable_of_cut ["items"] (by decide) (by decide) (by decide)
    · exact not_reachable_of_cut ["visits"] (by decide) (by decide) (by decide)

open Classical in
theorem normalizers_perm_fanOuts_orders : ∃ rs,
    joinModel.relationships.toList.mapM schema.relationship = .ok rs ∧
    averageOrder.normalizers joinModel = .ok [items.definedMultiplier, visits.definedMultiplier] ∧
    [items.definedMultiplier, visits.definedMultiplier].Perm
      ((rs.filter fun r =>
        FansOutOf schema joinModel.relationships.toList averageOrder.tables r).map
          (·.definedMultiplier)) := by
  have hpart : Subtree schema joinModel.relationships.toList joinModel.tables
      averageOrder.tables := by
    have honly : ∀ t ∈ averageOrder.tables, t = "orders" := fun t ht =>
      List.mem_singleton.mp (SortedSet.mem_ofList.mp ht)
    refine ⟨⟨"orders", by decide⟩, fun t ht => honly t ht ▸ by decide, fun a ha b hb => ?_⟩
    rw [honly a ha, honly b hb]
    exact .refl
  obtain ⟨rs, denominator, hrs, hnormalizers, hperm⟩ :=
    Query.normalizers_perm_fanOuts (q := averageOrder) (m := joinModel) spanningTree hpart
  have hcompiled : averageOrder.normalizers joinModel =
    .ok [items.definedMultiplier, visits.definedMultiplier] := rfl
  cases hnormalizers.symm.trans hcompiled
  exact ⟨rs, hrs, hcompiled, hperm⟩

end Shop

end ApproxQuery

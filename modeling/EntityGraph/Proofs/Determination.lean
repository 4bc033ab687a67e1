import EntityGraph.Proofs.Coherence
import EntityGraph.Proofs.Outline
import EntityGraph.Proofs.Rearrangement
import EntityGraph.Proofs.Ring

/-!
# What a view determines

Two schemas of equal views resolve a key alike, as far as destinations and the names of inverses go.
The inverse itself, of which a view tells the name only, is the same as well unless the relationship
lies on a ring.
-/

namespace EntityGraph

namespace Graph

/-- One side of every link leads to the owner of the other. -/
def IsDirected (g : Graph) : Prop :=
  ∀ r ∈ g.relationships, ∀ i ∈ g.relationships, r.inverse = some i.key →
    r.destination = i.entity ∨ i.destination = r.entity

/-- The relationship at a key leads to the entity of another key and has an inverse of its name. -/
def Points (g : Graph) (k i : Key) : Prop :=
  (k, i.entity, some i.name) ∈ g.relationships.map (·.outline)

/-- The keys whose relationships have different inverses in two graphs. -/
def differences (g h : Graph) : Set Key :=
  {k | ∃ r ∈ g.relationships, ∃ r' ∈ h.relationships,
    r.key = k ∧ r'.key = k ∧ r.inverse ≠ r'.inverse}

/-- The key that the relationship at a key is linked to; the key itself, if there is none. -/
def partner (g : Graph) (k : Key) : Key :=
  match g.relationshipAt k with
  | .ok (some r) => r.inverse.getD k
  | _ => k

/-- Two graphs differ at the same keys in either direction. -/
theorem differences_comm (g h : Graph) : differences g h = differences h g := by
  ext k
  constructor <;> rintro ⟨r, hr, r', hr', hk, hk', hne⟩ <;>
    exact ⟨r', hr', r, hr, hk', hk, hne.symm⟩

private theorem finite_differences (g h : Graph) : (differences g h).Finite := by
  apply (List.finite_toSet (g.relationships.map (·.key))).subset
  rintro k ⟨r, hr, -, -, rfl, -⟩
  exact List.mem_map_of_mem hr

section Linked

variable {g h : Graph} (hg : g.IsLinked)

include hg

/-- The partner of the key of a relationship is that of its inverse. -/
theorem partner_key {r : Relationship} (hr : r ∈ g.relationships) :
    g.partner r.key = r.inverse.getD r.key := by
  rw [partner, hg.relationshipAt_key hr]

/-- What a relationship points to is what its outline tells. -/
theorem points_key_iff {r : Relationship} (hr : r ∈ g.relationships) (i : Key) :
    g.Points r.key i ↔ r.destination = i.entity ∧ r.inverse.map (·.name) = some i.name := by
  rw [Points, List.mem_map]
  constructor
  · rintro ⟨r', hr', ho⟩
    obtain ⟨hk, hd, hi⟩ : r'.key = r.key ∧ r'.destination = i.entity ∧
        r'.inverse.map (·.name) = some i.name := by simpa [Relationship.outline] using ho
    rw [← hg.eq_of_key_eq hr' hr hk]
    exact ⟨hd, hi⟩
  · rintro ⟨hd, hi⟩
    exact ⟨r, hr, by rw [Relationship.outline, hd, hi]⟩

private theorem points_functional (k i j : Key) (hi : g.Points k i) (hj : g.Points k j) :
    i = j := by
  obtain ⟨r, hr, ho⟩ := List.mem_map.mp hi
  obtain rfl : r.key = k := congrArg Prod.fst ho
  obtain ⟨hd, hn⟩ := (points_key_iff hg hr i).mp hi
  obtain ⟨hd', hn'⟩ := (points_key_iff hg hr j).mp hj
  obtain ⟨entity, name⟩ := i
  obtain ⟨entity', name'⟩ := j
  obtain rfl : entity = entity' := hd.symm.trans hd'
  obtain rfl : name = name' := Option.some.inj (hn.symm.trans hn')
  rfl

section Outlined

variable (outlines : g.relationships.map (·.outline) = h.relationships.map (·.outline))

include outlines

omit hg in
/-- Every relationship has a counterpart of the same outline in a graph of the same outlines. -/
theorem exists_outline_eq {r : Relationship} (hr : r ∈ g.relationships) :
    ∃ r' ∈ h.relationships, r'.outline = r.outline := by
  apply List.mem_map.mp
  rw [← outlines]
  exact List.mem_map_of_mem hr

omit hg in
private theorem outline_eq (hh : h.IsLinked) {r r' : Relationship} (hr : r ∈ g.relationships)
    (hr' : r' ∈ h.relationships) (hk : r.key = r'.key) : r.outline = r'.outline := by
  obtain ⟨r'', hr'', ho⟩ := exists_outline_eq outlines hr
  have key : r''.key = r'.key := (congrArg Prod.fst ho).trans hk
  rw [← hh.eq_of_key_eq hr'' hr' key, ho]

private theorem exists_relationshipAt_eq (hh : h.IsLinked) {k : Key}
    (hk : k.entity.checkKey = .ok ()) {r : Relationship} (hr : g.relationshipAt k = .ok (some r)) :
    ∃ r', h.relationshipAt k = .ok (some r') ∧ r'.outline = r.outline := by
  obtain ⟨hr, hs⟩ := (hg.relationshipAt_eq_some hk).mp hr
  obtain ⟨r', hr', ho⟩ := exists_outline_eq outlines hr
  have key : r'.key = r.key := congrArg Prod.fst ho
  exact ⟨r', (hh.relationshipAt_eq_some hk).mpr ⟨hr', key ▸ hs⟩, ho⟩

/-- Where a graph of the same outlines differs, there is an inverse, and the graphs differ at the
inverse as well. -/
theorem exists_partner (hh : h.IsLinked) {k : Key} (hk : k ∈ differences g h) :
    ∃ r ∈ g.relationships, ∃ i ∈ g.relationships, r.key = k ∧ i.key = g.partner k ∧
      r.inverse = some i.key ∧ i.inverse = some r.key ∧ i.key ∈ differences g h := by
  obtain ⟨r, hr, r', hr', rfl, hkey, hne⟩ := hk
  have names : r.inverse.map (·.name) = r'.inverse.map (·.name) :=
    congrArg (·.2.2) (outline_eq outlines hh hr hr' hkey.symm)
  cases hi : r.inverse with
  | none =>
    rw [hi, Option.map_none, eq_comm, Option.map_eq_none_iff] at names
    exact absurd (hi.trans names.symm) hne
  | some l =>
    obtain ⟨i, hmem, rfl, hback⟩ := hg.inverse r hr l hi
    obtain ⟨i', hmem', ho⟩ := exists_outline_eq outlines hmem
    have key : i'.key = i.key := congrArg Prod.fst ho
    have partner : i.key = g.partner r.key := by
      rw [partner_key hg hr, hi, Option.getD_some]
    refine ⟨r, hr, i, hmem, rfl, partner, hi ▸ rfl, hback, i, hmem, i', hmem', rfl, key, ?_⟩
    intro h
    have forth : i'.inverse = some r'.key := by rw [← h, hback, hkey]
    exact hne (by rw [hi, hh.inverse_symm hmem' hr' forth, key])

/-- Where a graph of the same outlines differs, the inverse of a relationship is its partner. -/
theorem inverse_eq_partner (hh : h.IsLinked) {r : Relationship} (hr : r ∈ g.relationships)
    (hk : r.key ∈ differences g h) : r.inverse = some (g.partner r.key) := by
  obtain ⟨s, hs, i, -, hsr, hi, hinv, -⟩ := exists_partner hg outlines hh hk
  rw [← hg.eq_of_key_eq hs hr hsr, hinv, hi, hsr]

/-- The links of a graph pair the keys at which another one of the same outlines differs. -/
theorem isPairing_partner (hh : h.IsLinked) (directed : g.IsDirected) :
    IsPairing (differences g h) g.Points g.partner := by
  have pair := fun k ↦ exists_partner hg outlines hh (k := k)
  constructor
  · intro k hk
    obtain ⟨r, -, i, -, rfl, hi, -, -, hmem⟩ := pair k hk
    rwa [← hi]
  · intro k hk
    obtain ⟨r, -, i, hmem, rfl, hi, -, hback, -⟩ := pair k hk
    rw [← hi, partner_key hg hmem, hback, Option.getD_some]
  · intro k hk
    obtain ⟨r, hr, i, hi, rfl, hri, hrinv, hiinv, -⟩ := pair k hk
    rw [← hri, points_key_iff hg hr, points_key_iff hg hi, hrinv, hiinv]
    rcases directed r hr i hi hrinv with hd | hd
    · exact .inl ⟨hd, rfl⟩
    · exact .inr ⟨hd, rfl⟩

private theorem isPairing_partner_right (hh : h.IsLinked) (directed : h.IsDirected) :
    IsPairing (differences g h) g.Points h.partner := by
  have points : g.Points = h.Points := by
    ext k i
    rw [Points, Points, outlines]
  rw [differences_comm, points]
  exact isPairing_partner hh outlines.symm hg directed

private theorem partner_ne (hh : h.IsLinked) {k : Key} (hk : k ∈ differences g h) :
    g.partner k ≠ h.partner k := by
  intro heq
  obtain ⟨r, hr, r', hr', rfl, hkey, hne⟩ := id hk
  have hk' : r'.key ∈ differences h g := by rwa [hkey, differences_comm]
  apply hne
  rw [inverse_eq_partner hg outlines hh hr hk, heq, ← hkey,
    inverse_eq_partner hh outlines.symm hg hr' hk']

private theorem name_eq_of_points (hh : h.IsLinked) {k i : Key} (hk : k ∈ differences g h)
    (hi : g.Points k i) : (g.partner k).name = i.name ∧ (h.partner k).name = i.name := by
  have named : ∀ {g h : Graph} (_ : g.IsLinked) (_ : h.IsLinked),
      g.relationships.map (·.outline) = h.relationships.map (·.outline) →
      k ∈ differences g h → g.Points k i → (g.partner k).name = i.name := by
    intro g h hg hh outlines hk hi
    obtain ⟨r, hr, -, -, rfl, -⟩ := exists_partner hg outlines hh hk
    have name := ((points_key_iff hg hr i).mp hi).2
    rw [inverse_eq_partner hg outlines hh hr hk] at name
    exact Option.some.inj name
  refine ⟨named hg hh outlines hk hi, named hh hg outlines.symm ?_ ?_⟩
  · rwa [differences_comm]
  · rwa [Points, ← outlines]

/-- From a key at which graphs of the same outlines differ, and which its partner points to, the two
partners lead around a ring. -/
private theorem exists_isRing (hh : h.IsLinked) (directed : g.IsDirected) (directed' : h.IsDirected)
    {k : Key} (hk : k ∈ differences g h) (start : g.Points (g.partner k) k) :
    ∃ n x, g.IsRing n x ∧ (x 0).key = k ∧ (x 1).key = g.partner k := by
  have hM := isPairing_partner hg outlines hh directed
  have hN := isPairing_partner_right hg outlines hh directed'
  have apart := fun k (hk : k ∈ differences g h) ↦ partner_ne hg outlines hh hk
  have member := walk_mem hM hN hk
  have points := walk_points hM hN hk (points_functional hg) apart start
  obtain ⟨n, positive, closed⟩ := exists_walk_closed hM hN hk (finite_differences g h)
    (points_functional hg) apart start
  have relationship : ∀ i, ∃ r ∈ g.relationships, r.key = walk g.partner h.partner k i := by
    intro i
    obtain ⟨r, hr, -, -, hkey, -⟩ := member i
    exact ⟨r, hr, hkey⟩
  choose x hx hkey using relationship
  refine ⟨n, x, ⟨positive, hx, ?closed, ?onward, ?leads, ?named, ?linked⟩, hkey 0, hkey 1⟩
  case closed =>
    intro i
    exact hg.eq_of_key_eq (hx _) (hx _) (by rw [hkey, hkey, closed])
  case onward =>
    intro i h
    apply walk_add_two_ne hM hN hk apart i
    rw [← hkey, ← hkey, h]
  case leads =>
    intro i
    have step := points i
    rw [← hkey (i + 1), points_key_iff hg (hx _), ← hkey i] at step
    exact step.1
  case named =>
    -- The names of both partners of a key are that of what the key points to.
    intro i
    have names := name_eq_of_points hg outlines hh (member (i + 1)) (points i)
    have next : (walk g.partner h.partner k (i + 2)).name =
        (walk g.partner h.partner k i).name := by
      rw [walk_succ]
      split
      · exact names.1
      · exact names.2
    rwa [← hkey, ← hkey] at next
  case linked =>
    intro i
    have inverse := inverse_eq_partner hg outlines hh (hx (2 * i)) (hkey _ ▸ member _)
    rw [inverse, hkey, hkey, walk_odd]

end Outlined

/-- Where inverses differ between graphs of the same outlines, relationships lie on rings. -/
private theorem onRing_of_inverse_ne (hh : h.IsLinked) (directed : g.IsDirected)
    (directed' : h.IsDirected)
    (outlines : g.relationships.map (·.outline) = h.relationships.map (·.outline))
    {r r' : Relationship} (hr : r ∈ g.relationships) (hr' : r' ∈ h.relationships)
    (hk : r.key = r'.key) (hne : r.inverse ≠ r'.inverse) : g.OnRing r := by
  have hmem : r.key ∈ differences g h := ⟨r, hr, r', hr', rfl, hk.symm, hne⟩
  have pairing := isPairing_partner hg outlines hh directed
  rcases pairing.points _ hmem with hp | hp
  · -- The ring is entered at the partner, whose own partner is the relationship.
    have start : g.Points (g.partner (g.partner r.key)) (g.partner r.key) := by
      rwa [pairing.back _ hmem]
    obtain ⟨n, x, ring, -, hx⟩ := exists_isRing hg outlines hh directed directed'
      (pairing.mem _ hmem) start
    refine ⟨n, x, 1, ring, hg.eq_of_key_eq (ring.mem 1) hr ?_⟩
    rw [hx, pairing.back _ hmem]
  · obtain ⟨n, x, ring, hx, -⟩ := exists_isRing hg outlines hh directed directed' hmem hp
    exact ⟨n, x, 0, ring, hg.eq_of_key_eq (ring.mem 0) hr hx⟩

end Linked

end Graph

namespace Schema

variable {es fs : List EntityDecl} {host host' : Host} {config config' : CompilerConfig}
  {name name' version version' : Value} {s t : Schema}

/-- One side of every link of a schema leads to the owner of the other: the side that declares
it. -/
private theorem isDirected_of_compile (texts : ∀ e ∈ es, e.IsTextual)
    (hs : (compile host config es name version).result = .ok s) : s.graph.IsDirected := by
  obtain ⟨l, records, coherent, hgraph, -⟩ := exists_links_of_compile (EntityDecl.isNamed texts) hs
  have declared : ∀ {p q}, p ∈ Links.declared es →
      Links.Declares (Links.declared es) (Links.keyOf p) (Links.keyOf q) →
      p.2.destination = q.1.name := by
    rintro p q hp ⟨p', hp', hk, hw⟩
    obtain rfl := Links.eq_of_keyOf_eq (EntityDecl.isNamed texts) coherent.distinct hp' hp hk
    exact (congrArg Key.entity ((Links.wanted?_eq_some p' _).mp hw).2).symm
  intro r hr i hi hl
  rw [hgraph, mem_relationships_linkedGraph] at hr hi
  obtain ⟨p, hp, rfl⟩ := hr
  obtain ⟨q, hq, rfl⟩ := hi
  have key := (Links.isTextual_of_mem (EntityDecl.isNamed texts) hp).keyOf
  rcases (records.inverse _ (Links.keyOf q) key).mp hl with h | h
  · exact .inl (declared hp h)
  · exact .inr (declared hq h)

/-- Schemas of equal views resolve every key to the same destination and to inverses of the same
name. They resolve it to the same inverse, unless the relationship lies on a ring. -/
theorem resolutionAt_of_equal_views (texts : ∀ e ∈ es, e.IsTextual)
    (texts' : ∀ e ∈ fs, e.IsTextual) (hs : (compile host config es name version).result = .ok s)
    (ht : (compile host' config' fs name' version').result = .ok t) {v w : Value}
    (hv : s.graph.view = .ok v) (hw : t.graph.view = .ok w) (equal : v.equals w = true) (k : Key) :
    (s.graph.resolutionAt k).map (·.map fun x ↦ (x.1, x.2.map (·.name))) =
        (t.graph.resolutionAt k).map (·.map fun x ↦ (x.1, x.2.map (·.name))) ∧
      (s.graph.resolutionAt k = t.graph.resolutionAt k ∨
        ∃ r, s.graph.relationshipAt k = .ok (some r) ∧ s.graph.OnRing r) := by
  have linked := isLinked_of_compile (EntityDecl.isNamed texts) hs
  have linked' := isLinked_of_compile (EntityDecl.isNamed texts') ht
  have same : v.same w = true := (Bool.and_eq_true_iff.mp equal).2
  have outlines := linked.outlines_eq linked' hv hw same
  cases hk : k.entity.checkKey with
  | error f =>
    -- Neither schema looks the key up.
    have failed : ∀ g : Graph, g.resolutionAt k = .error f := by
      intro g
      simp only [Graph.resolutionAt, Graph.relationshipAt, Graph.entity?, hk]
      rfl
    rw [failed, failed]
    exact ⟨rfl, .inl rfl⟩
  | ok u =>
    have found := s.graph.relationshipAt_of_checkKey hk
    have found' := t.graph.relationshipAt_of_checkKey hk
    rw [Graph.resolutionAt, Graph.resolutionAt]
    cases hr : (s.graph.find? k.entity).bind (·.relationship? k.name) with
    | none =>
      cases hr' : (t.graph.find? k.entity).bind (·.relationship? k.name) with
      | none =>
        rw [found, found', hr, hr']
        exact ⟨rfl, .inl rfl⟩
      | some r' =>
        obtain ⟨r, hr'', -⟩ := Graph.exists_relationshipAt_eq linked' outlines.symm linked hk
          (hr' ▸ found')
        rw [found, hr] at hr''
        cases hr''
    | some r =>
      rw [hr] at found
      obtain ⟨r', found', ho⟩ := Graph.exists_relationshipAt_eq linked outlines linked' hk found
      have key : r'.key = r.key := congrArg Prod.fst ho
      have destination : r'.destination = r.destination := congrArg (·.2.1) ho
      have names : r'.inverse.map (·.name) = r.inverse.map (·.name) := congrArg (·.2.2) ho
      rw [found, found']
      constructor
      · simp [Except.map, destination, names]
      · by_cases hi : r.inverse = r'.inverse
        · exact .inl (by simp [Except.map, destination, hi])
        · have mem := ((linked.relationshipAt_eq_some hk).mp found).1
          have mem' := ((linked'.relationshipAt_eq_some hk).mp found').1
          exact .inr ⟨r, rfl, Graph.onRing_of_inverse_ne linked linked'
            (isDirected_of_compile texts hs) (isDirected_of_compile texts' ht) outlines mem mem'
            key.symm hi⟩

end Schema

/-! ### An example -/

namespace Compass

/-- What comes next has a name. -/
theorem truthy_next : (Value.text "next").truthy = true := by decide

/-- What comes next to an entity. It may declare that what comes next to its destination leads
back. -/
def next (destination : String) (directed : destination ≠ "") (declares : Bool) :
    RelationshipDecl :=
  { name := .text "next"
    destination := .text destination
    isToMany := false
    isOptional := true
    deleteRule := .nullify
    inverse := if declares then .text "next" else .null
    named := truthy_next
    directed := Value.truthy_of_ne directed }

/-- An entity and what comes next to it. -/
def entityOf (name destination : String) (named : name ≠ "") (directed : destination ≠ "")
    (declares : Bool) : EntityDecl :=
  Staff.entityOf name named (next destination directed declares) ⟨_, rfl⟩

/-- Four entities around which the next one leads. Every other of them declares an inverse: the
first and the third, or the second and the fourth. -/
def entities (first : Bool) : List EntityDecl :=
  [entityOf "North" "West" (by decide) (by decide) first,
    entityOf "East" "North" (by decide) (by decide) !first,
    entityOf "South" "East" (by decide) (by decide) first,
    entityOf "West" "South" (by decide) (by decide) !first]

/-- All names in the example are texts. -/
theorem isTextual (first : Bool) : ∀ e ∈ entities first, e.IsTextual := by
  have textual : ∀ name destination named directed declares,
      (entityOf name destination named directed declares).IsTextual := by
    intro name destination named directed declares
    refine ⟨⟨⟨_, rfl⟩, by simp [entityOf, Staff.entityOf], ?_,
      by simp [entityOf, Staff.entityOf]⟩, .inl rfl⟩
    have hnext : (next destination directed declares).IsTextual := by
      refine ⟨⟨_, rfl⟩, ⟨_, rfl⟩, ?_⟩
      cases declares
      · exact .inl rfl
      · exact .inr ⟨_, rfl⟩
    simpa [entityOf, Staff.entityOf] using hnext
  simp [entities, textual]

/-- What comes next to an entity, as a key. -/
def key (entity : String) : Key := ⟨.text entity, .text "next"⟩

/-- The pairs of entities of which the first declares an inverse on the second. -/
def links (first : Bool) : List (String × String) :=
  if first then [("North", "West"), ("South", "East")] else [("East", "North"), ("West", "South")]

private theorem declares_iff (first : Bool) (k i : Key) :
    Links.Declares (Links.declared (entities first)) k i ↔
      ∃ p ∈ links first, k = key p.1 ∧ i = key p.2 := by
  simp only [Links.Declares, Links.declared, Links.wanted?_eq_some]
  cases first <;> simp [entities, entityOf, Staff.entityOf, next, links, key, Links.keyOf,
    eq_comm (b := k)]

/-- The links of an entity of the example. -/
theorem joined_iff (first : Bool) (k i : Key) :
    Links.Joined (Links.declared (entities first)) k i ↔
      ∃ p ∈ links first, k = key p.1 ∧ i = key p.2 ∨ k = key p.2 ∧ i = key p.1 := by
  simp only [Links.Joined, declares_iff]
  grind

private theorem coherent (first : Bool) : Coherent (entities first) := by
  refine ⟨?_, ?_, ?_, ?_, ?_⟩
  · simp [entities, entityOf, Staff.entityOf, Value.text]
  · simp [entities, entityOf, Staff.entityOf, EntityDecl.NamesUnique]
  · simp [entities, entityOf, Staff.entityOf, next, Value.text]
  · cases first <;> simp [entities, entityOf, Staff.entityOf, next, Value.text]
  · intro k i j
    simp only [joined_iff]
    cases first <;> simp [links, key, Value.text] <;> grind

/-- The view of an entity whose next one leads to a destination and has an inverse. -/
def entityView (name destination : String) : Value :=
  .record
    [("name", .text name), ("is_abstract", .bool false),
      ("bound_type_name", .text (default : CompilerConfig).defaultBoundType),
      ("properties", .list [.record
        [("kind", .text "relationship"), ("name", .text "next"),
          ("destination_entity", .text destination), ("max_count", .int 1), ("min_count", .int 0),
          ("delete_rule", .text "nullify"), ("inverse_relationship", .text "next")]])]

/-- The view of the example, in which nothing is told of who declares an inverse. -/
def view : Value :=
  .record [("name", .text "Compass"), ("version", .int 1), ("entities", .list
    [entityView "North" "West", entityView "East" "North", entityView "South" "East",
      entityView "West" "South"])]

private theorem view_linked (name destination : String) (named : name ≠ "")
    (directed : destination ≠ "")
    (declares : Bool) {l : Links} {i : Key} (hl : l.inverse? (key name) = some i)
    (hi : i.name = .text "next") :
    ((entityOf name destination named directed declares).linked default default l).view =
      .ok (entityView name destination) := by
  obtain ⟨entity, n⟩ := i
  obtain rfl : n = .text "next" := hi
  rw [key] at hl
  simp only [Entity.view, EntityDecl.linked, entityOf, Staff.entityOf, next, List.map_cons,
    List.map_nil, Links.relationship, RelationshipDecl.linked, Links.keyOf, hl, Relationship.view]
  rfl

/-- The inverses that the links of the example give. -/
theorem inverse?_eq_some {first : Bool} {l : Links}
    (records : Links.Records (Links.declared (entities first)) l) (name destination : String)
    (h : (name, destination) ∈ links first ∨ (destination, name) ∈ links first) :
    l.inverse? (key name) = some (key destination) := by
  rw [records.inverse _ _ ⟨⟨_, rfl⟩, _, rfl⟩, joined_iff]
  rcases h with h | h
  · exact ⟨_, h, .inl ⟨rfl, rfl⟩⟩
  · exact ⟨_, h, .inr ⟨rfl, rfl⟩⟩

/-- A schema of the example has the view of the example. -/
theorem view_of_compile {first : Bool} {s : Schema}
    (hs : (Schema.compile default default (entities first) (.text "Compass") (.int 1)).result =
      .ok s) :
    s.graph.view = .ok view := by
  obtain ⟨l, records, -, hgraph, -⟩ := Schema.exists_links_of_compile
    (EntityDecl.isNamed (isTextual first)) hs
  have linked := inverse?_eq_some records
  rw [hgraph, Graph.view, Schema.linkedGraph, entities]
  cases first
  · simp only [List.map_cons, List.map_nil, List.mapM_cons, List.mapM_nil,
      view_linked _ _ _ _ _ (linked "North" "East" (by decide)) rfl,
      view_linked _ _ _ _ _ (linked "East" "North" (by decide)) rfl,
      view_linked _ _ _ _ _ (linked "South" "West" (by decide)) rfl,
      view_linked _ _ _ _ _ (linked "West" "South" (by decide)) rfl]
    rfl
  · simp only [List.map_cons, List.map_nil, List.mapM_cons, List.mapM_nil,
      view_linked _ _ _ _ _ (linked "North" "West" (by decide)) rfl,
      view_linked _ _ _ _ _ (linked "East" "South" (by decide)) rfl,
      view_linked _ _ _ _ _ (linked "South" "East" (by decide)) rfl,
      view_linked _ _ _ _ _ (linked "West" "North" (by decide)) rfl]
    rfl

/-- Both examples have a schema, and the schemas have the same view. -/
theorem exists_compile_eq_ok (first : Bool) : ∃ s,
    (Schema.compile default default (entities first) (.text "Compass")
      (.int 1)).result = .ok s := by
  refine (Schema.exists_compile_eq_ok (isTextual first) rfl).mpr ⟨coherent first, ?_, ?_, ?_⟩
  · simp [entities, entityOf, Staff.entityOf]
  · exact Value.isShowable_text "Compass"
  · exact (Value.isShowable_int_iff 1).mpr (Number.Integer.isTooLong_of_le_one le_rfl)

/-- The view of the example equals itself. -/
theorem view_equals : view.equals view = true := by
  have known : view.IsKnown := by simp [view, entityView]
  rw [Value.equals, Value.same_self known]
  rfl

/-- What the northern key resolves to in a schema of the example. -/
theorem resolutionAt_north {first : Bool} {s : Schema}
    (hs : (Schema.compile default default (entities first) (.text "Compass") (.int 1)).result =
      .ok s) :
    s.graph.resolutionAt (key "North") =
      .ok (some (.text "West", some (key (if first then "West" else "East")))) := by
  obtain ⟨l, records, -, hgraph, linked⟩ :=
    Schema.exists_links_of_compile (EntityDecl.isNamed (isTextual first)) hs
  have text : (key "North").IsText := ⟨⟨_, rfl⟩, _, rfl⟩
  have inverse : l.inverse? (key "North") = some (key (if first then "West" else "East")) :=
    inverse?_eq_some records _ _ (by cases first <;> decide)
  let p : EntityDecl × RelationshipDecl := (entityOf "North" "West" (by decide) (by decide) first,
    next "West" (by decide) first)
  have declared : p ∈ Links.declared (entities first) :=
    (Links.mem_declared _ _).mpr ⟨List.mem_cons_self, List.mem_cons_self⟩
  rw [linked.resolutionAt_eq_some text.entity.checkKey]
  refine ⟨l.relationship p, ?_, ?_, ?_⟩
  · rw [hgraph, Schema.mem_relationships_linkedGraph]
    exact ⟨p, declared, rfl⟩
  · exact (text.same_iff text).mpr rfl
  · exact congrArg (Value.text "West", ·) inverse

end Compass

namespace Schema

/-- The two examples resolve the northern key alike, but for the inverse, since the key lies on a
ring. -/
theorem resolutionAt_of_equal_views_compass : ∃ s t,
    (compile default default (Compass.entities true) (.text "Compass") (.int 1)).result = .ok s ∧
      (compile default default (Compass.entities false) (.text "Compass") (.int 1)).result = .ok t ∧
      s.graph.view = .ok Compass.view ∧ t.graph.view = .ok Compass.view ∧
      ∃ r, s.graph.relationshipAt (Compass.key "North") = .ok (some r) ∧ s.graph.OnRing r := by
  obtain ⟨s, hs⟩ := Compass.exists_compile_eq_ok true
  obtain ⟨t, ht⟩ := Compass.exists_compile_eq_ok false
  have hv := Compass.view_of_compile hs
  have hw := Compass.view_of_compile ht
  refine ⟨s, t, hs, ht, hv, hw, ?_⟩
  have alike := resolutionAt_of_equal_views (Compass.isTextual true) (Compass.isTextual false) hs ht
    hv hw Compass.view_equals (Compass.key "North")
  apply alike.2.resolve_left
  rw [Compass.resolutionAt_north hs, Compass.resolutionAt_north ht]
  simp [Compass.key, Value.text]

/-- Schemas of equal views and of the same fingerprint resolve a key to different inverses. -/
theorem exists_equal_views_resolutionAt_ne : ∃ s t v w,
    (∀ e ∈ Compass.entities true, e.IsTextual) ∧ (∀ e ∈ Compass.entities false, e.IsTextual) ∧
      (compile default default (Compass.entities true) (.text "Compass") (.int 1)).result = .ok s ∧
      (compile default default (Compass.entities false) (.text "Compass") (.int 1)).result = .ok t ∧
      s.graph.view = .ok v ∧ t.graph.view = .ok w ∧ v.equals w = true ∧
      s.fingerprint = t.fingerprint ∧
      s.graph.resolutionAt (Compass.key "North") =
        .ok (some (.text "West", some (Compass.key "West"))) ∧
      t.graph.resolutionAt (Compass.key "North") =
        .ok (some (.text "West", some (Compass.key "East"))) ∧
      Compass.key "West" ≠ Compass.key "East" := by
  obtain ⟨s, hs⟩ := Compass.exists_compile_eq_ok true
  obtain ⟨t, ht⟩ := Compass.exists_compile_eq_ok false
  have hv := Compass.view_of_compile hs
  have hw := Compass.view_of_compile ht
  refine ⟨s, t, _, _, Compass.isTextual true, Compass.isTextual false, hs, ht, hv, hw,
    Compass.view_equals, fingerprint_eq_of_view_eq (hv.trans hw.symm),
    Compass.resolutionAt_north hs, Compass.resolutionAt_north ht, ?_⟩
  simp [Compass.key, Value.text]

end Schema

end EntityGraph

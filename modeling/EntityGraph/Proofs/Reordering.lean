import Mathlib.Data.List.Perm.Basic
import EntityGraph.Proofs.Canonical
import EntityGraph.Proofs.Sameness

/-!
# The order of entries

A mapping keeps its entries in the order in which they were added. The canonical forms of values
that differ in such orders alone, at any depth, are equal and have one text, as long as no two keys
of a mapping that is reordered become one text.
-/

namespace EntityGraph

open Json

namespace Value

/-! ### Reordered values -/

mutual

/-- A value is another one with the entries of mappings in other orders. Only mappings no two of
whose keys become one text are reordered. Sets and keys hold no mappings. -/
def IsReordered : Value → Value → Prop
  | .atom id a, w => w = .atom id a
  | .seq id kind vs, w =>
    match kind with
    | .list | .tuple => ∃ j ws, w = .seq j kind ws ∧ AreReordered vs ws
    | .set | .frozenset => w = .seq id kind vs
  | .dict _ es, w =>
    ∃ j fs gs, w = .dict j gs ∧ HaveReordered es fs ∧ (gs = fs ∨ KeysApart es ∧ gs.Perm fs)
  | .loop id kind, w => w = .loop id kind

/-- Each of some values is reordered. -/
def AreReordered : List Value → List Value → Prop
  | [], ws => ws = []
  | v :: vs, ws => ∃ w rest, ws = w :: rest ∧ v.IsReordered w ∧ AreReordered vs rest

/-- The values of some entries are reordered under their keys. -/
def HaveReordered : List (Value × Value) → List (Value × Value) → Prop
  | [], fs => fs = []
  | (k, v) :: es, fs => ∃ w rest, fs = (k, w) :: rest ∧ v.IsReordered w ∧ HaveReordered es rest

end

/-- Entries have reordered values one by one. -/
theorem haveReordered_iff (es fs : List (Value × Value)) :
    HaveReordered es fs ↔ List.Forall₂ (fun e f ↦ f.1 = e.1 ∧ e.2.IsReordered f.2) es fs := by
  induction es generalizing fs with
  | nil => simp [HaveReordered]
  | cons e es ih =>
    obtain ⟨k, v⟩ := e
    rw [HaveReordered, List.forall₂_cons_left_iff]
    simp only [ih]
    constructor
    · rintro ⟨w, rest, rfl, hw, hrest⟩
      exact ⟨(k, w), rest, ⟨rfl, hw⟩, hrest, rfl⟩
    · rintro ⟨⟨_, w⟩, rest, ⟨rfl, hw⟩, hrest, rfl⟩
      exact ⟨w, rest, rfl, hw, hrest⟩

mutual

/-- A value is reordered to itself. -/
theorem IsReordered.refl (v : Value) : v.IsReordered v := by
  cases v with
  | atom id a => rw [IsReordered]
  | seq id kind vs =>
    have members := AreReordered.refl vs
    cases kind with
    | list | tuple => exact ⟨id, vs, rfl, members⟩
    | set | frozenset => rfl
  | dict id es => exact ⟨id, es, es, rfl, HaveReordered.refl es, .inl rfl⟩
  | loop id kind => rw [IsReordered]

/-- Values are reordered to themselves. -/
theorem AreReordered.refl (vs : List Value) : AreReordered vs vs := by
  cases vs with
  | nil => rfl
  | cons v vs => exact ⟨v, vs, rfl, .refl v, .refl vs⟩

/-- Entries have values that are reordered to themselves. -/
theorem HaveReordered.refl (es : List (Value × Value)) : HaveReordered es es := by
  cases es with
  | nil => rfl
  | cons e es => exact ⟨e.2, es, rfl, .refl e.2, .refl es⟩

end

/-- A mapping of keys that are apart is reordered by any order of its entries. -/
theorem isReordered_of_perm {id j : Identity} {es fs : List (Value × Value)} (apart : KeysApart es)
    (perm : fs.Perm es) : (Value.dict id es).IsReordered (.dict j fs) :=
  ⟨j, es, fs, rfl, .refl es, .inr ⟨apart, perm⟩⟩

mutual

/-- Being reordered has no direction. -/
theorem IsReordered.symm {v w : Value} (h : v.IsReordered w) : w.IsReordered v := by
  cases v with
  | atom id a =>
    rw [IsReordered] at h
    exact h ▸ .refl _
  | seq id kind vs =>
    cases kind with
    | list | tuple =>
      obtain ⟨j, ws, rfl, members⟩ := h
      exact ⟨id, vs, rfl, members.symm⟩
    | set | frozenset =>
      obtain rfl := h
      exact .refl _
  | dict id es =>
    obtain ⟨j, fs, gs, rfl, values, order⟩ := h
    have back := values.symm
    rcases order with rfl | ⟨apart, perm⟩
    · exact ⟨id, es, es, rfl, back, .inl rfl⟩
    · obtain ⟨hs, hgs, perm'⟩ := List.perm_comp_forall₂ perm ((haveReordered_iff _ _).mp back)
      have keys : fs.map (·.1.canonicalKey) = es.map (·.1.canonicalKey) :=
        Success.map_eq_of_forall₂ ((haveReordered_iff _ _).mp values) fun _ _ hef ↦ by rw [hef.1]
      have apart' : KeysApart gs := by
        rw [KeysApart, (perm.map _).nodup_iff, keys]
        exact apart
      exact ⟨id, hs, es, rfl, (haveReordered_iff _ _).mpr hgs, .inr ⟨apart', perm'.symm⟩⟩
  | loop id kind =>
    rw [IsReordered] at h
    exact h ▸ .refl _
termination_by structural v

/-- Values that are reordered one by one are so in return. -/
theorem AreReordered.symm {vs ws : List Value} (h : AreReordered vs ws) : AreReordered ws vs := by
  cases vs with
  | nil =>
    obtain rfl := h
    exact .refl []
  | cons v vs =>
    obtain ⟨w, rest, rfl, hw, hrest⟩ := h
    exact ⟨v, vs, rfl, hw.symm, hrest.symm⟩
termination_by structural vs

/-- Entries with reordered values have them in return. -/
theorem HaveReordered.symm {es fs : List (Value × Value)} (h : HaveReordered es fs) :
    HaveReordered fs es := by
  cases es with
  | nil =>
    obtain rfl := h
    exact .refl []
  | cons e es =>
    obtain ⟨k, v⟩ := e
    obtain ⟨w, rest, rfl, hw, hrest⟩ := h
    exact ⟨v, es, rfl, hw.symm, hrest.symm⟩
termination_by structural es

end

/-! ### Forms of reordered values -/

private theorem keysApart_of_texts {es : List (Value × Value)} (texts : ∀ e ∈ es, e.1.IsText) :
    KeysApart es ↔ (es.map (·.1)).Nodup := by
  rw [KeysApart, List.Nodup, List.Nodup, List.pairwise_map, List.pairwise_map]
  apply List.Pairwise.iff_of_mem
  intro e f he hf
  obtain ⟨s, hs⟩ := texts e he
  obtain ⟨t, ht⟩ := texts f hf
  rw [hs, ht]
  simp [canonicalKey, text, text?]

mutual

/-- The form of a value is reordered as the value is. -/
theorem IsReordered.exists_canonical {v w : Value} (h : v.IsReordered w) {f : Value}
    (hf : v.canonical = .ok f) : ∃ g, w.canonical = .ok g ∧ f.IsReordered g := by
  cases v with
  | atom id a =>
    rw [IsReordered] at h
    exact ⟨f, h ▸ hf, .refl f⟩
  | seq id kind vs =>
    cases kind with
    | list | tuple =>
      obtain ⟨j, ws, rfl, members⟩ := h
      obtain ⟨fs, hfs, hf⟩ := (Success.bind_eq_ok _ _ _).mp hf
      obtain rfl := Except.ok.inj hf
      obtain ⟨gs, hgs, hfgs⟩ := members.exists_canonicalItems hfs
      exact ⟨list gs, by rw [canonical, hgs]; rfl, .fresh, gs, rfl, hfgs⟩
    | set | frozenset =>
      obtain rfl := h
      exact ⟨f, hf, .refl f⟩
  | dict id es =>
    obtain ⟨j, fs, gs, rfl, values, order⟩ := h
    obtain ⟨hs, hhs, hf⟩ := (Success.bind_eq_ok _ _ _).mp hf
    obtain rfl := Except.ok.inj hf
    have becomes := (canonicalEntries_eq_ok es hs).mp hhs
    obtain ⟨ks, hks, hhks⟩ := values.exists_canonicalEntries becomes
    rcases order with rfl | ⟨apart, perm⟩
    · have values := (haveReordered_iff _ _).mpr
        (forall₂_foldl_insert ((haveReordered_iff _ _).mp hhks) .nil)
      refine ⟨ofEntries .fresh ks, ?_, .fresh, _, _, rfl, values, .inl rfl⟩
      rw [canonical, (canonicalEntries_eq_ok gs ks).mpr hks]
      rfl
    · obtain ⟨ls, hls, perm⟩ := List.perm_comp_forall₂ perm hks
      have distinct := (keysApart_iff becomes).mp apart
      have same : ks.map (·.1) = hs.map (·.1) :=
        Success.map_eq_of_forall₂ ((haveReordered_iff _ _).mp hhks) fun _ _ hef ↦ hef.1
      have distinct' : (ls.map (·.1)).Nodup := (perm.map _).nodup_iff.mpr (same ▸ distinct)
      have texts := isText_of_entryBecomes becomes
      refine ⟨ofEntries .fresh ls, ?_, ?_⟩
      · rw [canonical, (canonicalEntries_eq_ok gs ls).mpr hls]
        rfl
      · rw [ofEntries, ofEntries, foldl_insert_eq hs texts distinct,
          foldl_insert_eq ls (isText_of_entryBecomes hls) distinct']
        exact ⟨.fresh, ks, ls, rfl, hhks, .inr ⟨(keysApart_of_texts texts).mpr distinct, perm⟩⟩
  | loop id kind => cases hf
termination_by structural v

/-- The forms of values are reordered as the values are. -/
theorem AreReordered.exists_canonicalItems {vs ws : List Value} (h : AreReordered vs ws)
    {fs : List Value} (hfs : canonicalItems vs = .ok fs) :
    ∃ gs, canonicalItems ws = .ok gs ∧ AreReordered fs gs := by
  cases vs with
  | nil =>
    obtain rfl := h
    obtain rfl := Except.ok.inj hfs
    exact ⟨[], rfl, rfl⟩
  | cons v vs =>
    obtain ⟨w, rest, rfl, hw, hrest⟩ := h
    obtain ⟨f, hf, hfs⟩ := (Success.bind_eq_ok _ _ _).mp hfs
    obtain ⟨fs, hfs', hfs⟩ := (Success.bind_eq_ok _ _ _).mp hfs
    obtain rfl := Except.ok.inj hfs
    obtain ⟨g, hg, hfg⟩ := hw.exists_canonical hf
    obtain ⟨gs, hgs, hfgs⟩ := hrest.exists_canonicalItems hfs'
    exact ⟨g :: gs, by rw [canonicalItems, hg, hgs]; rfl, g, gs, rfl, hfg, hfgs⟩
termination_by structural vs

/-- Entries with reordered values become entries with reordered forms. -/
theorem HaveReordered.exists_canonicalEntries {es fs : List (Value × Value)}
    (h : HaveReordered es fs) {hs : List (Value × Value)} (hhs : List.Forall₂ EntryBecomes es hs) :
    ∃ ks, List.Forall₂ EntryBecomes fs ks ∧ HaveReordered hs ks := by
  cases es with
  | nil =>
    obtain rfl := h
    obtain rfl := List.forall₂_nil_left_iff.mp hhs
    exact ⟨[], .nil, rfl⟩
  | cons e es =>
    obtain ⟨k, v⟩ := e
    obtain ⟨w, rest, rfl, hw, hrest⟩ := h
    obtain ⟨⟨_, f⟩, hs, ⟨s, hkey, rfl, hf⟩, becomes, rfl⟩ := List.forall₂_cons_left_iff.mp hhs
    obtain ⟨g, hg, hfg⟩ := hw.exists_canonical hf
    obtain ⟨ks, hks, hhks⟩ := hrest.exists_canonicalEntries becomes
    exact ⟨(text s, g) :: ks, .cons ⟨s, hkey, rfl, hg⟩ hks, g, ks, rfl, hfg, hhks⟩
termination_by structural es

end

/-! ### Texts of reordered forms -/

private theorem pairwise_mergeSort {α : Type} (key : α → String) (l : List α) :
    (l.mergeSort fun p q ↦ !(key q < key p)).Pairwise fun p q ↦ key p ≤ key q := by
  let le (p q : α) : Bool := !(key q < key p)
  have le_iff (p q : α) : le p q = true ↔ key p ≤ key q := by
    rw [Bool.not_eq_true', decide_eq_false_iff_not]
    exact String.not_lt
  have trans (p q r : α) (hpq : le p q = true) (hqr : le q r = true) : le p r = true :=
    (le_iff p r).mpr (String.le_trans ((le_iff p q).mp hpq) ((le_iff q r).mp hqr))
  have total (p q : α) : (le p q || le q p) = true := by
    rw [Bool.or_eq_true, le_iff, le_iff]
    exact String.le_total (key p) (key q)
  exact (List.pairwise_mergeSort trans total l).imp fun h ↦ (le_iff _ _).mp h

/-- What is told apart by a text is put into one order by it, whatever order it is in. -/
theorem mergeSort_eq_of_perm {α : Type} {f : α → String} {ps qs : List α} (perm : ps.Perm qs)
    (apart : ∀ p ∈ ps, ∀ q ∈ ps, f p = f q → p = q) :
    ps.mergeSort (fun p q ↦ !(f q < f p)) = qs.mergeSort fun p q ↦ !(f q < f p) := by
  refine List.Perm.eq_of_pairwise (fun p q hp hq hpq hqp ↦ ?_) (pairwise_mergeSort f ps)
    (pairwise_mergeSort f qs)
    (((List.mergeSort_perm ps _).trans perm).trans (List.mergeSort_perm qs _).symm)
  exact apart p (List.mem_mergeSort.mp hp) q (perm.mem_iff.mpr (List.mem_mergeSort.mp hq))
    (String.le_antisymm hpq hqp)

/-- Entries under texts are pairs of a text and something. -/
theorem exists_pairs {α : Type} {es : List (Value × α)} (texts : ∀ e ∈ es, e.1.IsText) :
    ∃ ps : List (String × α), es = ps.map fun p ↦ (text p.1, p.2) := by
  induction es with
  | nil => exact ⟨[], rfl⟩
  | cons e es ih =>
    obtain ⟨⟨s, hs⟩, hes⟩ := List.forall_mem_cons.mp texts
    obtain ⟨ps, rfl⟩ := ih hes
    exact ⟨(s, e.2) :: ps, by rw [List.map_cons, ← hs]⟩

/-- Written entries under distinct texts are put into one order, whatever order they are in. -/
private theorem orderEntries_eq_of_perm {style : Style} (sorted : style.sorted = true)
    {es fs : List (Value × Except Fault String)} (perm : fs.Perm es)
    (texts : ∀ e ∈ es, e.1.IsText) (distinct : (es.map (·.1)).Nodup) :
    orderEntries style fs = orderEntries style es := by
  have texts' : ∀ f ∈ fs, f.1.IsText := fun f hf ↦ texts f (perm.mem_iff.mp hf)
  rw [orderEntries, orderEntries, sorted, checkOrders_of_isText _ (List.forall_mem_map.mpr texts),
    checkOrders_of_isText _ (List.forall_mem_map.mpr texts')]
  have embedded : Function.Injective fun p : String × Except Fault String ↦ (text p.1, p.2) := by
    rintro ⟨s, x⟩ ⟨t, y⟩ h
    simpa [text] using h
  obtain ⟨ps, rfl⟩ := exists_pairs texts
  obtain ⟨qs, rfl⟩ := exists_pairs texts'
  have sort (l : List (String × Except Fault String)) :
      (l.map fun p ↦ (text p.1, p.2)).mergeSort (fun e f ↦ !keyLess f.1 e.1) =
        (l.mergeSort fun p q ↦ !(q.1 < p.1)).map fun p ↦ (text p.1, p.2) :=
    (List.map_mergeSort (f := fun p : String × Except Fault String ↦ (text p.1, p.2))
      fun _ _ _ _ ↦ rfl).symm
  rw [List.map_map] at distinct
  have names : (ps.map (·.1)).Nodup := by
    refine List.Nodup.of_map text ?_
    rwa [List.map_map]
  have apart : ∀ p ∈ ps, ∀ q ∈ ps, p.1 = q.1 → p = q := fun p hp q hq ↦
    List.inj_on_of_nodup_map names hp hq
  rw [sort, sort, mergeSort_eq_of_perm ((List.map_perm_map_iff embedded).mp perm).symm apart]
  rfl

/-- A part of a value is like those of canonical forms, however long its numbers are: a sequence is
a new list, and the keys of a mapping are distinct texts. -/
def IsShaped : Value → Prop
  | .seq id kind _ => id = .fresh ∧ kind = .list
  | .dict id es => id = .fresh ∧ (∀ e ∈ es, e.1.IsText) ∧ (es.map (·.1)).Nodup
  | _ => True

/-- Canonical forms are shaped like canonical forms. -/
theorem every_isShaped_of_canonical {v f : Value} (hf : v.canonical = .ok f) : f.Every IsShaped :=
  every_form_of_canonical ⟨fun _ _ _ _ ↦ trivial, fun _ ↦ trivial, fun _ ↦ ⟨rfl, rfl⟩,
    fun _ texts distinct ↦ ⟨rfl, texts, distinct⟩⟩ (every_of_forall (fun _ ↦ trivial) v) hf

mutual

/-- What a canonical form is reordered to has the same text, with sorted keys. -/
theorem IsReordered.write_eq {f g : Value} (h : f.IsReordered g) (form : f.Every IsShaped)
    {style : Style} (sorted : style.sorted = true) (level : Nat) :
    write style level g = write style level f := by
  cases f with
  | atom id a =>
    rw [IsReordered] at h
    rw [h]
  | seq id kind fs =>
    obtain ⟨⟨rfl, rfl⟩, forms⟩ := form
    obtain ⟨j, gs, rfl, members⟩ := h
    simp only [write, AreReordered.write_eq members forms sorted]
  | dict id es =>
    obtain ⟨⟨rfl, texts, distinct⟩, forms⟩ := form
    obtain ⟨j, fs, gs, rfl, values, order⟩ := h
    have written := HaveReordered.write_eq values forms sorted (level + 1)
    have ordered : orderEntries style (writeEntries style (level + 1) gs) =
        orderEntries style (writeEntries style (level + 1) es) := by
      rcases order with rfl | ⟨-, perm⟩
      · rw [written]
      · have keys : (writeEntries style (level + 1) es).map (·.1) = es.map (·.1) := by
          rw [writeEntries_eq_map, List.map_map]
          rfl
        refine orderEntries_eq_of_perm sorted ?_ ?_ (keys ▸ distinct)
        · rw [← written, writeEntries_eq_map, writeEntries_eq_map]
          exact perm.map _
        · rw [writeEntries_eq_map, List.forall_mem_map]
          exact texts
    simp only [write, ordered]
  | loop id kind =>
    rw [IsReordered] at h
    rw [h]
termination_by structural f

/-- What members of canonical forms are reordered to has the same texts. -/
theorem AreReordered.write_eq {fs gs : List Value} (h : AreReordered fs gs)
    (forms : EveryMember IsShaped fs) {style : Style} (sorted : style.sorted = true)
    (level : Nat) : writeItems style level gs = writeItems style level fs := by
  cases fs with
  | nil =>
    obtain rfl := h
    rfl
  | cons f fs =>
    obtain ⟨g, rest, rfl, hg, hrest⟩ := h
    rw [writeItems, writeItems, hg.write_eq forms.1 sorted, hrest.write_eq forms.2 sorted]
termination_by structural fs

/-- What entries of canonical forms are reordered to has the same texts under the same keys. -/
theorem HaveReordered.write_eq {es fs : List (Value × Value)} (h : HaveReordered es fs)
    (forms : EveryEntry IsShaped es) {style : Style} (sorted : style.sorted = true)
    (level : Nat) : writeEntries style level fs = writeEntries style level es := by
  cases es with
  | nil =>
    obtain rfl := h
    rfl
  | cons e es =>
    obtain ⟨k, v⟩ := e
    obtain ⟨w, rest, rfl, hw, hrest⟩ := h
    rw [writeEntries, writeEntries, hw.write_eq forms.1.2 sorted, hrest.write_eq forms.2 sorted]
termination_by structural es

end

/-! ### Equality of reordered forms -/

/-- A number that is none, and so equals nothing by its content, is known to be one object. -/
def IsTraceable : Value → Prop
  | .atom id (.float .nan) => id ≠ .fresh
  | _ => True

private theorem same_atom_of_isTraceable {id : Identity} {a : Atom} (form : IsFormPart (.atom id a))
    (known : IsTraceable (.atom id a)) : (Value.atom id a).same (.atom id a) = true := by
  refine same_self fun elusive ↦ ?_
  cases a with
  | null | bool | int | text => cases elusive
  | float x =>
    cases x with
    | nan => exact known
    | _ => cases elusive
  | _ => cases form

mutual

/-- What a value is reordered to is the same as the value, if it is made of traceable parts. -/
theorem IsReordered.same {v w : Value} (h : v.IsReordered w) (form : v.IsForm)
    (known : v.Every IsTraceable) : v.same w = true := by
  cases v with
  | atom id a =>
    rw [IsReordered] at h
    subst h
    exact same_atom_of_isTraceable form known
  | seq id kind vs =>
    obtain ⟨⟨rfl, rfl⟩, forms⟩ := form
    obtain ⟨j, ws, rfl, members⟩ := h
    have agree := (sameItems_iff _ _).mpr (members.same forms known.2)
    simp [Value.same, SeqKind.comparison?, agree]
  | dict id es =>
    obtain ⟨⟨rfl, texts, -⟩, forms⟩ := form
    obtain ⟨j, fs, gs, rfl, values, order⟩ := h
    have perm : gs.Perm fs := by
      rcases order with rfl | ⟨-, perm⟩
      · exact .refl _
      · exact perm
    have pairs := values.same forms known.2
    have found : entriesAmong es gs = true := by
      rw [entriesAmong_iff]
      intro e he
      obtain ⟨f, hf, hkey, hvalue⟩ := Success.exists_of_forall₂ pairs he
      refine ⟨f, perm.mem_iff.mpr hf, ?_, hvalue⟩
      rw [hkey]
      exact ((texts e he).same_iff (texts e he)).mpr rfl
    have size : es.length = gs.length := pairs.length_eq.trans perm.length_eq.symm
    simp [Value.same, size, found]
  | loop id kind => cases form
termination_by structural v

/-- What values are reordered to are the same as the values, place by place. -/
theorem AreReordered.same {vs ws : List Value} (h : AreReordered vs ws)
    (forms : EveryMember IsFormPart vs) (known : EveryMember IsTraceable vs) :
    List.Forall₂ (fun v w ↦ v.same w = true) vs ws := by
  cases vs with
  | nil =>
    obtain rfl := h
    exact .nil
  | cons v vs =>
    obtain ⟨w, rest, rfl, hw, hrest⟩ := h
    exact .cons (hw.same forms.1 known.1) (hrest.same forms.2 known.2)
termination_by structural vs

/-- What entries are reordered to have the same keys and the same values, place by place. -/
theorem HaveReordered.same {es fs : List (Value × Value)} (h : HaveReordered es fs)
    (forms : EveryEntry IsFormPart es) (known : EveryEntry IsTraceable es) :
    List.Forall₂ (fun e f ↦ f.1 = e.1 ∧ e.2.same f.2 = true) es fs := by
  cases es with
  | nil =>
    obtain rfl := h
    exact .nil
  | cons e es =>
    obtain ⟨k, v⟩ := e
    obtain ⟨w, rest, rfl, hw, hrest⟩ := h
    exact .cons ⟨rfl, hw.same forms.1.2 known.1.2⟩ (hrest.same forms.2 known.2)
termination_by structural es

end

mutual

/-- Comparing a form with anything ends. -/
theorem IsForm.endless_eq_false {f : Value} (form : f.IsForm) (v : Value) :
    f.endless v = false := by
  cases f with
  | atom id a => simp only [endless]
  | seq id kind fs =>
    cases v with
    | seq j l vs => simp [endless, IsForm.endlessItems_eq_false form.2 vs]
    | _ => simp only [endless]
  | dict id es =>
    cases v with
    | dict j fs => simp [endless, IsForm.endlessEntries_eq_false form.2 fs]
    | _ => simp only [endless]
  | loop id kind => cases form
termination_by structural f

/-- Comparing members that are forms with anything ends. -/
theorem IsForm.endlessItems_eq_false {fs : List Value} (forms : EveryMember IsFormPart fs)
    (vs : List Value) : endlessItems fs vs = false := by
  cases fs with
  | nil => simp only [endlessItems]
  | cons f fs =>
    cases vs with
    | nil => simp only [endlessItems]
    | cons v vs =>
      rw [endlessItems, IsForm.endless_eq_false forms.1, IsForm.endlessItems_eq_false forms.2,
        Bool.and_false]
      rfl
termination_by structural fs

/-- Looking for entries of forms among any entries ends. -/
theorem IsForm.endlessEntries_eq_false {es : List (Value × Value)}
    (forms : EveryEntry IsFormPart es) (fs : List (Value × Value)) :
    endlessEntries es fs = false := by
  cases es with
  | nil => rw [endlessEntries]
  | cons e es =>
    obtain ⟨k, v⟩ := e
    rw [endlessEntries]
    cases fs.find? fun f ↦ k.same f.1 with
    | none => rfl
    | some f =>
      simp [IsForm.endless_eq_false forms.1.2, IsForm.endlessEntries_eq_false forms.2]
termination_by structural es

end

end Value

end EntityGraph

import Mathlib.Data.List.Forall2
import EntityGraph.Log.Record

/-!
# Success

When computations that may fail succeed: one after the other, over the members of a list, and with
a log. Everything later that takes a successful run apart goes through these equivalences.
-/

namespace EntityGraph.Success

variable {ε ε' α β : Type}

/-- Two computations in a row succeed exactly if the second succeeds on the value of the first. -/
theorem bind_eq_ok (x : Except ε α) (f : α → Except ε β) (b : β) :
    x >>= f = .ok b ↔ ∃ a, x = .ok a ∧ f a = .ok b := by
  cases x <;> simp [bind, Except.bind]

/-- Two computations in a row fail with the error of the first, or of the second on the value of the
first. -/
theorem bind_eq_error (x : Except ε α) (f : α → Except ε β) (e : ε) :
    x >>= f = .error e ↔ x = .error e ∨ ∃ a, x = .ok a ∧ f a = .error e := by
  cases x <;> simp [bind, Except.bind]

/-- A mapped computation succeeds exactly if the computation does. -/
theorem map_eq_ok (f : α → β) (x : Except ε α) (b : β) :
    x.map f = .ok b ↔ ∃ a, x = .ok a ∧ f a = b := by
  cases x <;> simp [Except.map]

/-- Another kind of error changes no success. -/
theorem mapError_eq_ok (f : ε → ε') (x : Except ε α) (a : α) :
    x.mapError f = .ok a ↔ x = .ok a := by
  cases x <;> simp [Except.mapError]

/-- A lifted computation succeeds exactly if the computation does. -/
theorem liftM_eq_ok (x : Except Fault α) (a : α) :
    (liftM x : Except Failure α) = .ok a ↔ x = .ok a := by
  cases x <;> simp

/-- A list of computations succeeds with the values of its members. -/
theorem mapM_eq_ok (f : α → Except ε β) (as : List α) (bs : List β) :
    as.mapM f = .ok bs ↔ List.Forall₂ (fun a b ↦ f a = .ok b) as bs := by
  induction as generalizing bs with
  | nil => simp [pure, Except.pure, eq_comm]
  | cons a as ih =>
    rw [List.mapM_cons, bind_eq_ok, List.forall₂_cons_left_iff]
    constructor
    · rintro ⟨b, hb, h⟩
      obtain ⟨rest, hrest, he⟩ := (bind_eq_ok _ _ _).mp h
      exact ⟨b, rest, hb, (ih rest).mp hrest, (Except.ok.inj he).symm⟩
    · rintro ⟨b, rest, hb, hrest, rfl⟩
      exact ⟨b, hb, (bind_eq_ok _ _ _).mpr ⟨rest, (ih rest).mpr hrest, rfl⟩⟩

/-- Every member of a list has a related member in a related list. -/
theorem exists_of_forall₂ {R : α → β → Prop} {as : List α} {bs : List β}
    (h : List.Forall₂ R as bs) {a : α} (ha : a ∈ as) : ∃ b ∈ bs, R a b := by
  induction h with
  | nil => cases ha
  | @cons c b as bs hcb _ ih =>
    rcases List.mem_cons.mp ha with rfl | ha
    · exact ⟨b, List.mem_cons_self, hcb⟩
    · obtain ⟨b', hb', h⟩ := ih ha
      exact ⟨b', List.mem_cons_of_mem _ hb', h⟩

/-- What is related to one list behind another is one list behind another. -/
theorem exists_append_of_forall₂ {R : α → β → Prop} {as as' : List α} {bs : List β}
    (h : List.Forall₂ R (as ++ as') bs) :
    ∃ cs cs', bs = cs ++ cs' ∧ List.Forall₂ R as cs ∧ List.Forall₂ R as' cs' :=
  ⟨bs.take as.length, bs.drop as.length, (List.take_append_drop _ _).symm,
    (List.forall₂_take_append _ _ _ h.flip).flip, (List.forall₂_drop_append _ _ _ h.flip).flip⟩

/-- Related lists are alike in what all their members have. -/
theorem forall_mem_iff {R : α → β → Prop} {P : α → Prop} {Q : β → Prop} {as : List α} {bs : List β}
    (h : List.Forall₂ R as bs) (step : ∀ a b, R a b → (Q b ↔ P a)) :
    (∀ b ∈ bs, Q b) ↔ ∀ a ∈ as, P a := by
  induction h with
  | nil => simp
  | cons hab _ ih => rw [List.forall_mem_cons, List.forall_mem_cons, step _ _ hab, ih]

/-- Every value of a list of computations is that of a member. -/
theorem exists_of_mem_mapM {f : α → Except ε β} {as : List α} {bs : List β}
    (h : as.mapM f = .ok bs) {b : β} (hb : b ∈ bs) : ∃ a ∈ as, f a = .ok b :=
  exists_of_forall₂ ((mapM_eq_ok f as bs).mp h).flip hb

/-- A list of computations succeeds with values that all have a property exactly if every member
succeeds with such a value. -/
theorem exists_mapM_and (f : α → Except ε β) (P : β → Prop) (as : List α) :
    (∃ bs, as.mapM f = .ok bs ∧ ∀ b ∈ bs, P b) ↔ ∀ a ∈ as, ∃ b, f a = .ok b ∧ P b := by
  induction as with
  | nil => simp [pure, Except.pure]
  | cons a as ih =>
    rw [List.forall_mem_cons, ← ih]
    constructor
    · rintro ⟨bs, h, hp⟩
      rw [mapM_eq_ok, List.forall₂_cons_left_iff] at h
      obtain ⟨b, rest, hb, hrest, rfl⟩ := h
      obtain ⟨hpb, hp⟩ := List.forall_mem_cons.mp hp
      exact ⟨⟨b, hb, hpb⟩, rest, (mapM_eq_ok _ _ _).mpr hrest, hp⟩
    · rintro ⟨⟨b, hb, hpb⟩, rest, hrest, hp⟩
      refine ⟨b :: rest, ?_, List.forall_mem_cons.mpr ⟨hpb, hp⟩⟩
      rw [List.mapM_cons, hb, hrest]
      rfl

/-- A list of computations succeeds exactly if every member does. -/
theorem exists_mapM_eq_ok (f : α → Except ε β) (as : List α) :
    (∃ bs, as.mapM f = .ok bs) ↔ ∀ a ∈ as, ∃ b, f a = .ok b := by
  simpa using exists_mapM_and f (fun _ ↦ True) as

/-- A list of computations whose values are known succeeds with these values exactly if every member
may succeed. -/
theorem mapM_eq_ok_map (f : α → Except ε β) (P : α → Prop) (g : α → β) (as : List α)
    (h : ∀ a ∈ as, ∀ b, f a = .ok b ↔ P a ∧ g a = b) (bs : List β) :
    as.mapM f = .ok bs ↔ (∀ a ∈ as, P a) ∧ as.map g = bs := by
  induction as generalizing bs with
  | nil => simp [pure, Except.pure]
  | cons a as ih =>
    obtain ⟨ha, has⟩ := List.forall_mem_cons.mp h
    rw [mapM_eq_ok, List.forall₂_cons_left_iff, List.forall_mem_cons, List.map_cons]
    constructor
    · rintro ⟨b, rest, hb, hrest, rfl⟩
      obtain ⟨hp, rfl⟩ := (ha b).mp hb
      obtain ⟨hps, rfl⟩ := (ih has rest).mp ((mapM_eq_ok _ _ _).mpr hrest)
      exact ⟨⟨hp, hps⟩, rfl⟩
    · rintro ⟨⟨hp, hps⟩, rfl⟩
      exact ⟨g a, as.map g, (ha _).mpr ⟨hp, rfl⟩,
        (mapM_eq_ok _ _ _).mp ((ih has _).mpr ⟨hps, rfl⟩), rfl⟩

/-- Steps that succeed where an invariant holds and keep it succeed one after the other, and the
invariant holds at their end. -/
theorem foldlM_of_invariant (f : β → α → Except ε β) (Inv : β → Prop) (as : List α) (b : β)
    (step : ∀ a ∈ as, ∀ b, Inv b → ∃ b', f b a = .ok b' ∧ Inv b') (hb : Inv b) :
    ∃ b', as.foldlM f b = .ok b' ∧ Inv b' := by
  induction as generalizing b with
  | nil => exact ⟨b, rfl, hb⟩
  | cons a as ih =>
    obtain ⟨step, rest⟩ := List.forall_mem_cons.mp step
    obtain ⟨b₁, h₁, hb₁⟩ := step b hb
    obtain ⟨b', h', hb'⟩ := ih b₁ rest hb₁
    exact ⟨b', by rw [List.foldlM_cons, h₁]; exact h', hb'⟩

/-! ### Failure -/

/-- A computation fails with no errors but those of a kind. -/
def FailsOnly (P : ε → Prop) (x : Except ε α) : Prop := ∀ e, x = .error e → P e

namespace FailsOnly

variable {P : ε → Prop} {x : Except ε α}

/-- A value is no failure. -/
theorem ok (a : α) : FailsOnly P (.ok a : Except ε α) := nofun

/-- An error of the kind. -/
theorem error {e : ε} (h : P e) : FailsOnly P (.error e : Except ε α) := by
  intro e' he
  obtain rfl := Except.error.inj he
  exact h

/-- Two computations in a row fail as either does. -/
theorem bind {f : α → Except ε β} (hx : FailsOnly P x)
    (hf : ∀ a, x = .ok a → FailsOnly P (f a)) : FailsOnly P (x >>= f) := by
  cases x with
  | error e => exact error (hx e rfl)
  | ok a => exact hf a rfl

/-- A mapped computation fails as the computation does. -/
theorem map (f : α → β) (hx : FailsOnly P x) : FailsOnly P (x.map f) := by
  cases x with
  | error e => exact error (hx e rfl)
  | ok a => exact ok (f a)

/-- Computations for the members of a list fail as those for single members do. -/
theorem mapM {f : α → Except ε β} {as : List α} (h : ∀ a ∈ as, FailsOnly P (f a)) :
    FailsOnly P (as.mapM f) := by
  induction as with
  | nil => exact ok []
  | cons a as ih =>
    obtain ⟨ha, has⟩ := List.forall_mem_cons.mp h
    rw [List.mapM_cons]
    exact ha.bind fun b _ ↦ (ih has).bind fun bs _ ↦ ok (b :: bs)

/-- Steps that fail in a way where an invariant holds, and keep it, do so one after the other. -/
theorem foldlM {f : β → α → Except ε β} (Inv : β → Prop) {as : List α} {b : β}
    (step : ∀ a ∈ as, ∀ b, Inv b → FailsOnly P (f b a) ∧ ∀ b', f b a = .ok b' → Inv b')
    (hb : Inv b) :
    FailsOnly P (as.foldlM f b) ∧ ∀ b', as.foldlM f b = .ok b' → Inv b' := by
  induction as generalizing b with
  | nil =>
    refine ⟨ok b, fun b' h ↦ ?_⟩
    obtain rfl := Except.ok.inj h
    exact hb
  | cons a as ih =>
    obtain ⟨ha, has⟩ := List.forall_mem_cons.mp step
    obtain ⟨hfails, hinv⟩ := ha b hb
    rw [List.foldlM_cons]
    refine ⟨hfails.bind fun b₁ h₁ ↦ (ih has (hinv b₁ h₁)).1, fun b' h ↦ ?_⟩
    obtain ⟨b₁, h₁, h⟩ := (bind_eq_ok _ _ _).mp h
    exact (ih has (hinv b₁ h₁)).2 b' h

end FailsOnly

/-- Some member is bad, and those before it are good. -/
def First (good bad : α → Prop) (as : List α) : Prop :=
  ∃ before a after, as = before ++ a :: after ∧ (∀ b ∈ before, good b) ∧ bad a

/-- No member of the empty list is bad. -/
@[simp] theorem first_nil (good bad : α → Prop) : ¬ First good bad [] := by
  rintro ⟨before, a, after, h, -⟩
  cases before <;> cases h

/-- The first bad member is the head, or comes after it if the head is good. -/
theorem first_cons_iff (good bad : α → Prop) (a : α) (as : List α) :
    First good bad (a :: as) ↔ bad a ∨ good a ∧ First good bad as := by
  constructor
  · rintro ⟨before, b, after, h, hgood, hbad⟩
    cases before with
    | nil =>
      obtain ⟨rfl, -⟩ := List.cons.inj h
      exact .inl hbad
    | cons c before =>
      obtain ⟨rfl, rfl⟩ := List.cons.inj h
      obtain ⟨hc, hbefore⟩ := List.forall_mem_cons.mp hgood
      exact .inr ⟨hc, before, b, after, rfl, hbefore, hbad⟩
  · rintro (hbad | ⟨ha, before, b, after, rfl, hbefore, hbad⟩)
    · exact ⟨[], a, as, rfl, by simp, hbad⟩
    · exact ⟨a :: before, b, after, rfl, List.forall_mem_cons.mpr ⟨ha, hbefore⟩, hbad⟩

/-- Errors are of two kinds. A computation fails with an error of the second kind exactly under a
condition; otherwise it succeeds, or fails with an error of the first kind. -/
inductive Fails (P Q : ε → Prop) (E : Prop) : Except ε α → Prop
  | ok (a : α) (h : ¬ E) : Fails P Q E (.ok a)
  | first {e : ε} (he : P e) (h : ¬ E) : Fails P Q E (.error e)
  | second {e : ε} (he : Q e) (h : E) : Fails P Q E (.error e)

namespace Fails

variable {P Q : ε → Prop} {E F : Prop} {x : Except ε α}

/-- The condition may be put in other words. -/
theorem congr (h : Fails P Q E x) (hEF : E ↔ F) : Fails P Q F x :=
  propext hEF ▸ h

/-- Any computation fails with an error of the kind that a test tells exactly if it does. -/
theorem test (answered : ε → Bool) (x : Except ε α) :
    Fails (answered · = true) (answered · = false) (∃ e, x = .error e ∧ answered e = false) x := by
  cases x with
  | ok a => exact .ok a (by simp)
  | error e =>
    cases h : answered e with
    | true => exact .first h (by simp [h])
    | false => exact .second h ⟨e, rfl, h⟩

/-- Two computations in a row fail as the first does, or as the second on the value of the first. -/
theorem bind {f : α → Except ε β} {G : α → Prop} (h : Fails P Q E x)
    (step : ∀ a, x = .ok a → Fails P Q (G a) (f a)) :
    Fails P Q (E ∨ ∃ a, x = .ok a ∧ G a) (x >>= f) := by
  cases h with
  | ok a h => exact (step a rfl).congr (by simp [h])
  | first he h => exact .first he (by simp [h])
  | second he h => exact .second he (.inl h)

/-- A mapped computation fails as the computation does. -/
theorem map (f : α → β) (h : Fails P Q E x) : Fails P Q E (x.map f) := by
  cases h with
  | ok a h => exact .ok (f a) h
  | first he h => exact .first he h
  | second he h => exact .second he h

/-- Computations for the members of a list fail as the first one does that does not succeed. -/
theorem mapM {f : α → Except ε β} {good bad : α → Prop} {as : List α}
    (h : ∀ a ∈ as, Fails P Q (bad a) (f a)) (ok : ∀ a ∈ as, (∃ b, f a = .ok b) ↔ good a) :
    Fails P Q (First good bad as) (as.mapM f) := by
  induction as with
  | nil => exact .ok [] (first_nil good bad)
  | cons a as ih =>
    obtain ⟨ha, has⟩ := List.forall_mem_cons.mp h
    obtain ⟨hok, hoks⟩ := List.forall_mem_cons.mp ok
    have last : ∀ bs : List β, Fails P Q False (.ok bs) := fun bs ↦ .ok bs not_false
    rw [List.mapM_cons]
    refine (ha.bind fun b _ ↦ (ih has hoks).bind fun bs _ ↦ last (b :: bs)).congr ?_
    simp only [and_false, exists_false, or_false, exists_and_right, hok, first_cons_iff]

/-- An error fails alike in the place of any value. -/
theorem cast {e : ε} (h : Fails P Q E (.error e : Except ε α)) :
    Fails P Q E (.error e : Except ε β) := by
  cases h with
  | first he h => exact .first he h
  | second he h => exact .second he h

/-- What a computation fails with is of the first kind, or of the second. -/
theorem of_error {e : ε} (h : Fails P Q E (.error e : Except ε α)) : P e ∨ Q e := by
  cases h with
  | first he h => exact .inl he
  | second he h => exact .inr he

/-- A computation fails with an error of the second kind exactly under the condition, where no error
is of both kinds. -/
theorem iff (h : Fails P Q E x) (apart : ∀ e, P e → ¬ Q e) : (∃ e, x = .error e ∧ Q e) ↔ E := by
  cases h with
  | ok a h => simpa using h
  | first he h => simpa [h] using apart _ he
  | second he h => simpa [h] using he

end Fails

/-! ### Two runs -/

/-- What related members have in common is the same in order. -/
theorem map_eq_of_forall₂ {γ : Type} {R : α → β → Prop} {f : α → γ} {g : β → γ} {as : List α}
    {bs : List β} (h : List.Forall₂ R as bs) (step : ∀ a b, R a b → g b = f a) :
    bs.map g = as.map f := by
  induction h with
  | nil => rfl
  | cons hab _ ih => rw [List.map_cons, List.map_cons, step _ _ hab, ih]

/-- What is computed alike from related members is computed alike from all of them. -/
theorem mapM_eq_of_forall₂ {γ : Type} {R : α → β → Prop} {f : α → Except ε γ}
    {g : β → Except ε γ} {as : List α} {bs : List β} (h : List.Forall₂ R as bs)
    (step : ∀ a b, R a b → g b = f a) : bs.mapM g = as.mapM f := by
  have same := congrArg (List.mapM id) (map_eq_of_forall₂ h step)
  rwa [List.mapM_map, List.mapM_map] at same

/-- What is computed alike from every member is computed alike from all of them. -/
theorem mapM_congr {f g : α → Except ε β} {as : List α} (h : ∀ a ∈ as, f a = g a) :
    as.mapM f = as.mapM g := by
  have same : List.Forall₂ (fun a b ↦ a ∈ as ∧ a = b) as as :=
    (List.forall₂_and_left _ _).mpr ⟨fun _ ha ↦ ha, List.forall₂_same.mpr fun _ _ ↦ rfl⟩
  refine (mapM_eq_of_forall₂ same ?_).symm
  rintro a _ ⟨ha, rfl⟩
  exact (h a ha).symm

/-- What stands pairwise between members stands pairwise between those that they are related to, if
it is so for each two of them. -/
theorem pairwise_of_forall₂ {α β : Type} {R : α → β → Prop} {P : β → β → Prop} {Q : α → α → Prop}
    {as : List α} {bs : List β} (h : List.Forall₂ R as bs) (apart : bs.Pairwise P)
    (step : ∀ a a' b b', R a b → R a' b' → P b b' → Q a a') : as.Pairwise Q := by
  induction h with
  | nil => exact .nil
  | cons hab rest ih =>
    rw [List.pairwise_cons] at apart ⊢
    refine ⟨fun a' ha' ↦ ?_, ih apart.2⟩
    obtain ⟨b', hb', hab'⟩ := exists_of_forall₂ rest ha'
    exact step _ _ _ _ hab hab' (apart.1 b' hb')

/-- What is found in related lists under one condition is related. -/
theorem rel_find? {α β : Type} {R : α → β → Prop} {p : α → Bool} {q : β → Bool} {as : List α}
    {bs : List β} (h : List.Forall₂ R as bs) (step : ∀ a b, R a b → q b = p a) :
    Option.Rel R (as.find? p) (bs.find? q) := by
  induction h with
  | nil => exact .none
  | cons hab _ ih =>
    rw [List.find?_cons, List.find?_cons, step _ _ hab]
    split
    · exact .some hab
    · exact ih

/-- Nothing is related to nothing but itself. -/
theorem eq_none_of_rel {α β : Type} {R : α → β → Prop} {o : Option β} (h : Option.Rel R none o) :
    o = none := by
  cases h
  rfl

/-- Two computations go alike: both succeed with related values or both fail with one error, unless
the first fails with an error of a kind. -/
inductive Alike (P : ε → Prop) (R : α → β → Prop) : Except ε α → Except ε β → Prop
  | ok {a : α} {b : β} (h : R a b) : Alike P R (.ok a) (.ok b)
  | error (e : ε) : Alike P R (.error e) (.error e)
  | apart {e : ε} (h : P e) (y : Except ε β) : Alike P R (.error e) y

namespace Alike

variable {P : ε → Prop} {γ δ : Type} {R : α → β → Prop} {S : γ → δ → Prop}

/-- A computation goes like itself. -/
theorem of_eq {x y : Except ε α} (h : y = x) : Alike P (fun a b ↦ b = a) x y := by
  subst h
  cases y with
  | ok a => exact .ok rfl
  | error e => exact .error e

/-- Computations that go alike on related values go alike after computations that go alike. -/
theorem bind {x : Except ε α} {y : Except ε β} {f : α → Except ε γ} {g : β → Except ε δ}
    (h : Alike P R x y) (step : ∀ a b, R a b → Alike P S (f a) (g b)) :
    Alike P S (x.bind f) (y.bind g) := by
  cases h with
  | ok h => exact step _ _ h
  | error e => exact .error e
  | apart h y => exact .apart h _

/-- Computations that go alike on every value go alike after one computation. -/
theorem bind_same (x : Except ε α) {f : α → Except ε γ} {g : α → Except ε δ}
    (step : ∀ a, Alike P S (f a) (g a)) : Alike P S (x.bind f) (x.bind g) := by
  cases x with
  | ok a => exact step a
  | error e => exact .error e

/-- Computations go alike over the members of related lists. -/
theorem mapM {Q : α → β → Prop} {f : α → Except ε γ} {g : β → Except ε δ} {as : List α}
    {bs : List β} (h : List.Forall₂ Q as bs) (step : ∀ a b, Q a b → Alike P S (f a) (g b)) :
    Alike P (List.Forall₂ S) (as.mapM f) (bs.mapM g) := by
  induction h with
  | nil => exact .ok .nil
  | cons hab _ ih =>
    rw [List.mapM_cons, List.mapM_cons]
    exact (step _ _ hab).bind fun _ _ hc ↦ ih.bind fun _ _ hcs ↦ .ok (.cons hc hcs)

/-- What becomes of related values is the same, unless the first computation fails with an error of
the kind. -/
theorem map_eq {x : Except ε α} {y : Except ε β} {f : α → γ} {g : β → γ}
    (h : Alike P (fun a b ↦ g b = f a) x y) :
    y.map g = x.map f ∨ ∃ e, P e ∧ x = .error e := by
  cases h with
  | ok h => exact .inl (congrArg Except.ok h)
  | error e => exact .inl rfl
  | apart h y => exact .inr ⟨_, h, rfl⟩

end Alike

end EntityGraph.Success

namespace EntityGraph.Traced

variable {α β : Type}

/-- Two traced computations in a row succeed exactly if the second succeeds on the value of the
first. -/
theorem result_bind_eq_ok (t : Traced α) (f : α → Traced β) (b : β) :
    (t >>= f).result = .ok b ↔ ∃ a, t.result = .ok a ∧ (f a).result = .ok b := by
  rw [result_bind]
  exact Success.bind_eq_ok _ _ _

/-- A note succeeds exactly if its message can be shown. -/
theorem result_note_eq_ok (level : LogLevel) (logger : String) (message : Except Fault String) :
    (note level logger message).result = .ok () ↔ ∃ text, message = .ok text := by
  cases message <;> simp [note]

/-- Traced computations for all members of a list succeed exactly if each of them does. -/
theorem result_forM_eq_ok (f : α → Traced Unit) (as : List α) :
    (as.forM f).result = .ok () ↔ ∀ a ∈ as, (f a).result = .ok () := by
  induction as with
  | nil => simp
  | cons a as ih =>
    rw [List.forall_mem_cons, ← ih, List.forM, result_bind_eq_ok]
    constructor
    · rintro ⟨u, hu, h⟩
      exact ⟨hu, h⟩
    · rintro ⟨ha, h⟩
      exact ⟨(), ha, h⟩

/-- Steps leave results as those of the steps alone. -/
theorem result_foldlM (f : β → α → Traced β) (as : List α) (b : β) :
    (as.foldlM f b).result = as.foldlM (fun b a ↦ (f b a).result) b := by
  induction as generalizing b with
  | nil => rfl
  | cons a as ih =>
    rw [List.foldlM_cons, List.foldlM_cons, result_bind]
    exact congrArg _ (funext ih)

/-- Steps that go alike on related members go alike over related lists. -/
theorem alike_foldlM {γ : Type} {P : Failure → Prop} {Q : α → β → Prop} {f : γ → α → Traced γ}
    {g : γ → β → Traced γ} {as : List α} {bs : List β} (h : List.Forall₂ Q as bs)
    (step : ∀ c a b, Q a b → Success.Alike P (fun c d ↦ d = c) (f c a).result (g c b).result)
    (c : γ) :
    Success.Alike P (fun c d ↦ d = c) (as.foldlM f c).result (bs.foldlM g c).result := by
  induction h generalizing c with
  | nil => exact .ok rfl
  | cons hab _ ih =>
    rw [List.foldlM_cons, List.foldlM_cons, result_bind, result_bind]
    refine (step c _ _ hab).bind fun d d' hd ↦ ?_
    obtain rfl := hd
    exact ih d'

end EntityGraph.Traced

namespace EntityGraph.Success.FailsOnly

variable {α β : Type} {P : Failure → Prop}

/-- A lifted computation fails with its faults. -/
theorem mapError {x : Except Fault α} (h : FailsOnly (fun f ↦ P (.fault f)) x) :
    FailsOnly P (x.mapError .fault) := by
  cases x with
  | error f => exact error (h f rfl)
  | ok a => exact ok a

/-- Two traced computations in a row fail as either does. -/
theorem result_bind {t : Traced α} {f : α → Traced β} (ht : FailsOnly P t.result)
    (hf : ∀ a, t.result = .ok a → FailsOnly P (f a).result) : FailsOnly P (t >>= f).result := by
  rw [Traced.result_bind]
  exact ht.bind hf

/-- A note fails with the faults of its message. -/
theorem note (level : LogLevel) (logger : String) {message : Except Fault String}
    (h : FailsOnly (fun f ↦ P (.fault f)) message) :
    FailsOnly P (Traced.note level logger message).result := by
  cases message with
  | error f => exact error (h f rfl)
  | ok t => exact ok ()

/-- Traced computations for the members of a list fail as those for single members do. -/
theorem forM {f : α → Traced Unit} {as : List α} (h : ∀ a ∈ as, FailsOnly P (f a).result) :
    FailsOnly P (as.forM f).result := by
  induction as with
  | nil => exact ok ()
  | cons a as ih =>
    obtain ⟨ha, has⟩ := List.forall_mem_cons.mp h
    exact ha.result_bind fun _ _ ↦ ih has

end EntityGraph.Success.FailsOnly

namespace EntityGraph.Success.Fails

variable {α β : Type} {P Q : Failure → Prop} {E : Prop}

/-- Two traced computations in a row fail as the first does, or as the second on the value of the
first. -/
theorem result_bind {t : Traced α} {f : α → Traced β} {G : α → Prop} (h : Fails P Q E t.result)
    (step : ∀ a, t.result = .ok a → Fails P Q (G a) (f a).result) :
    Fails P Q (E ∨ ∃ a, t.result = .ok a ∧ G a) (t >>= f).result := by
  rw [Traced.result_bind]
  exact h.bind step

end EntityGraph.Success.Fails

import Mathlib.Data.List.Forall2

/-!
# Results that may be failures

Of a computation that may fail it is asked when it succeeds, when it fails, and what its failure
is. For a computation on every item of a list, the first item on which it fails decides.
-/

namespace Provision

/-! ### Lists item by item -/

section

variable {α β : Type} {R : α → β → Prop} {as : List α} {bs : List β}

/-- An item of the first list is related to one of the second. -/
theorem exists_of_forall₂_left (h : List.Forall₂ R as bs) {a : α} (ha : a ∈ as) : ∃ b, R a b := by
  have hall : List.Forall₂ (fun a b => (∃ b, R a b) ∧ R a b) as bs :=
    h.imp fun _ b hab => ⟨⟨b, hab⟩, hab⟩
  exact ((List.forall₂_and_left _ _).mp hall).1 a ha

/-- An item of the second list is related to one of the first. -/
theorem exists_of_forall₂_right (h : List.Forall₂ R as bs) {b : β} (hb : b ∈ bs) :
    ∃ a ∈ as, R a b := by
  have hmem : List.Forall₂ (fun a b => a ∈ as ∧ R a b) as bs :=
    (List.forall₂_and_left _ _).mpr ⟨fun _ ha => ha, h⟩
  exact exists_of_forall₂_left hmem.flip hb

/-- The items at one place are related. -/
theorem exists_getElem?_of_forall₂ (h : List.Forall₂ R as bs) {i : Nat} {a : α}
    (ha : as[i]? = some a) : ∃ b, bs[i]? = some b ∧ R a b := by
  obtain ⟨hi, rfl⟩ := List.getElem?_eq_some_iff.mp ha
  have hi' : i < bs.length := h.length_eq ▸ hi
  exact ⟨bs[i], List.getElem?_eq_getElem hi', h.get hi hi'⟩

/-- Two lists that are related to one list, item by item, are related through its items. -/
theorem forall₂_of_common {γ : Type} {S : β → γ → Prop} {cs : List γ} (h : List.Forall₂ R as bs)
    (h' : List.Forall₂ S bs cs) : List.Forall₂ (fun a c => ∃ b, R a b ∧ S b c) as cs := by
  induction h generalizing cs with
  | nil =>
    cases h'
    exact .nil
  | cons hab _ ih =>
    cases h' with
    | cons hbc hrest => exact .cons ⟨_, hab, hbc⟩ (ih hrest)

end

namespace Except

variable {ε ε' α β : Type}

/-! ### Success -/

/-- A computation succeeds if its first part does, and what follows on it. -/
theorem bind_eq_ok_iff {x : Except ε α} {k : α → Except ε β} {b : β} :
    x >>= k = .ok b ↔ ∃ a, x = .ok a ∧ k a = .ok b := by
  cases x with
  | error e => exact ⟨nofun, fun ⟨_, h, _⟩ => nomatch h⟩
  | ok a => exact ⟨fun h => ⟨a, rfl, h⟩, fun ⟨_, rfl, h⟩ => h⟩

/-- The results of a success are mapped. -/
theorem map_eq_ok_iff {x : Except ε α} {f : α → β} {b : β} :
    x.map f = .ok b ↔ ∃ a, x = .ok a ∧ f a = b := by
  cases x with
  | error e => exact ⟨nofun, fun ⟨_, h, _⟩ => nomatch h⟩
  | ok a => exact ⟨fun h => ⟨a, rfl, Except.ok.inj h⟩, fun ⟨_, rfl, h⟩ => congrArg _ h⟩

/-- Another failure makes no success. -/
theorem mapError_eq_ok_iff {x : Except ε α} {f : ε → ε'} {a : α} :
    x.mapError f = .ok a ↔ x = .ok a := by
  cases x with
  | error e => exact ⟨nofun, nofun⟩
  | ok b => exact ⟨fun h => congrArg _ (Except.ok.inj h), fun h => congrArg _ (Except.ok.inj h)⟩

/-- The results are those of the items. -/
theorem mapM_eq_ok_iff {f : α → Except ε β} {as : List α} {bs : List β} :
    as.mapM f = .ok bs ↔ List.Forall₂ (fun a b => f a = .ok b) as bs := by
  induction as generalizing bs with
  | nil =>
    rw [List.mapM_nil, List.forall₂_nil_left_iff]
    exact ⟨fun h => (Except.ok.inj h).symm, fun h => congrArg _ h.symm⟩
  | cons a as ih =>
    rw [List.mapM_cons, bind_eq_ok_iff, List.forall₂_cons_left_iff]
    constructor
    · rintro ⟨b, hb, h⟩
      obtain ⟨bs', hbs', h⟩ := bind_eq_ok_iff.mp h
      exact ⟨b, bs', hb, ih.mp hbs', (Except.ok.inj h).symm⟩
    · rintro ⟨b, bs', hb, hbs', rfl⟩
      exact ⟨b, hb, bind_eq_ok_iff.mpr ⟨bs', ih.mpr hbs', rfl⟩⟩

/-! ### Failure -/

/-- The failure of a result, if it is one. -/
def failure? : Except ε α → Option ε
  | .ok _ => none
  | .error e => some e

/-- What has no failure is a success. -/
theorem failure?_eq_none_iff {x : Except ε α} : failure? x = none ↔ ∃ a, x = .ok a := by
  cases x <;> simp [failure?]

/-- What has a failure has failed with it. -/
theorem failure?_eq_some_iff {x : Except ε α} {e : ε} : failure? x = some e ↔ x = .error e := by
  cases x <;> simp [failure?]

/-- Mapping results leaves failures as they are. -/
theorem failure?_map (x : Except ε α) (f : α → β) : failure? (x.map f) = failure? x := by
  cases x <;> rfl

/-- The failure of several results is the first that there is. -/
theorem failure?_mapM_cons (f : α → Except ε β) (a : α) (as : List α) :
    failure? ((a :: as).mapM f) = (failure? (f a)).or (failure? (as.mapM f)) := by
  rw [List.mapM_cons]
  cases f a with
  | error e => rfl
  | ok b => cases as.mapM f <;> rfl

/-- Several results fail as the first one that does. -/
theorem failure?_mapM (f : α → Except ε β) (as : List α) :
    failure? (as.mapM f) = as.findSome? fun a => failure? (f a) := by
  induction as with
  | nil => rfl
  | cons a as ih =>
    rw [failure?_mapM_cons, ih, List.findSome?_cons]
    cases failure? (f a) <;> rfl

/-- A computation fails in its first part or in what follows on it. -/
theorem bind_eq_error_iff {x : Except ε α} {k : α → Except ε β} {e : ε} :
    x >>= k = .error e ↔ x = .error e ∨ ∃ a, x = .ok a ∧ k a = .error e := by
  cases x with
  | error f =>
    change Except.error f = Except.error e ↔ _
    simp
  | ok a =>
    change k a = Except.error e ↔ _
    simp

/-- Mapping results leaves failures as they are. -/
theorem map_eq_error_iff {x : Except ε α} {f : α → β} {e : ε} :
    x.map f = .error e ↔ x = .error e := by
  rw [← failure?_eq_some_iff, failure?_map, failure?_eq_some_iff]

/-- The failure is the one that was mapped. -/
theorem mapError_eq_error_iff {x : Except ε α} {f : ε → ε'} {e' : ε'} :
    x.mapError f = .error e' ↔ ∃ e, x = .error e ∧ f e = e' := by
  cases x with
  | error e => simp [Except.mapError]
  | ok a => simp [Except.mapError]

/-- The items before the first failure succeed. -/
theorem mapM_eq_error_iff {f : α → Except ε β} {as : List α} {e : ε} :
    as.mapM f = .error e ↔ ∃ before a after,
      as = before ++ a :: after ∧ (∀ other ∈ before, ∃ b, f other = .ok b) ∧ f a = .error e := by
  rw [← failure?_eq_some_iff, failure?_mapM, List.findSome?_eq_some_iff]
  simp only [failure?_eq_none_iff, failure?_eq_some_iff, and_comm]

/-! ### Success or failure -/

/-- Mapping results makes no difference to success. -/
theorem isOk_map_iff {x : Except ε α} {f : α → β} :
    (∃ b, x.map f = .ok b) ↔ ∃ a, x = .ok a := by
  rw [← failure?_eq_none_iff, failure?_map, failure?_eq_none_iff]

/-- Both parts of a computation have to succeed. -/
theorem isOk_bind_iff {x : Except ε α} {k : α → Except ε β} :
    (∃ b, x >>= k = .ok b) ↔ ∃ a, x = .ok a ∧ ∃ b, k a = .ok b := by
  simp only [bind_eq_ok_iff]
  exact ⟨fun ⟨b, a, ha, hb⟩ => ⟨a, ha, b, hb⟩, fun ⟨a, ha, b, hb⟩ => ⟨b, a, ha, hb⟩⟩

/-- All of them succeed if each does. -/
theorem isOk_mapM_iff {f : α → Except ε β} {as : List α} :
    (∃ bs, as.mapM f = .ok bs) ↔ ∀ a ∈ as, ∃ b, f a = .ok b := by
  rw [← failure?_eq_none_iff, failure?_mapM, List.findSome?_eq_none_iff]
  simp only [failure?_eq_none_iff]

/-- Something that may fail is done to every item, or the first failure is the result. -/
theorem mapM_cases (f : α → Except ε β) (list : List α) :
    (∃ bs, list.mapM f = .ok bs ∧ List.Forall₂ (fun a b => f a = .ok b) list bs) ∨
      ∃ before a after e, list = before ++ a :: after ∧ (∀ b ∈ before, ∃ c, f b = .ok c) ∧
        f a = .error e ∧ list.mapM f = .error e := by
  cases h : list.mapM f with
  | ok bs => exact .inl ⟨bs, rfl, mapM_eq_ok_iff.mp h⟩
  | error e =>
    obtain ⟨before, a, after, hlist, hbefore, ha⟩ := mapM_eq_error_iff.mp h
    exact .inr ⟨before, a, after, e, hlist, hbefore, ha, rfl⟩

end Except

end Provision

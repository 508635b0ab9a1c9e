import Provision.Proofs.Json.Unambiguous
import Provision.Proofs.Result
import Provision.Value.Text

/-!
# Values as documents

The numbers of a value have the texts of numbers, so that its document is told from its text. A
value has a document exactly if every mapping in it has keys that can be written: strings, truth
values, integers and finite doubles.
-/

namespace Provision

/-! ### Numbers -/

namespace Json

open Provision.Text

/-- Digits are characters of numbers. -/
theorem mem_numeralChars_of_isDigit {c : Char} (h : c.isDigit = true) : c ∈ numeralChars := by
  have hlt : c.toNat < 58 := by
    simp only [Char.isDigit, Bool.and_eq_true, decide_eq_true_eq] at h
    exact Nat.lt_succ_of_le h.2
  exact forall_lt_of_ofNat (P := fun c => c.isDigit = true → c ∈ numeralChars) (by decide) hlt h

/-- A natural number is written in digits. -/
theorem forall_natDigits (n : Nat) : ∀ c ∈ natDigits n, c ∈ numeralChars := fun _ hc =>
  mem_numeralChars_of_isDigit (Nat.isDigit_of_mem_toDigits (by decide) (by decide) hc)

/-- A natural number is written as a number. -/
theorem isNumeral_natDigits (n : Nat) : IsNumeral (natDigits n) :=
  ⟨Nat.toDigits_ne_nil, forall_natDigits n⟩

/-- So is an integer. -/
theorem isNumeral_intDigits (n : Int) : IsNumeral (intDigits n) := by
  unfold intDigits
  split
  · exact ⟨List.cons_ne_nil _ _, List.forall_mem_cons.2 ⟨by decide, forall_natDigits _⟩⟩
  · exact isNumeral_natDigits _

/-- So are digits with a point among or beside them. -/
theorem isNumeral_positional {ds : List Char} (hds : ∀ c ∈ ds, c ∈ numeralChars) (exponent : Int) :
    IsNumeral (Decimal.positional ds exponent) := by
  have hzeros (n : Nat) : ∀ c ∈ List.replicate n '0', c ∈ numeralChars := fun c hc =>
    List.eq_of_mem_replicate hc ▸ by decide
  unfold Decimal.positional
  dsimp only
  split
  · exact ⟨by simp, List.forall_mem_append.2
      ⟨List.forall_mem_append.2 ⟨hds, hzeros _⟩, by simp [numeralChars]⟩⟩
  split
  · exact ⟨by simp, List.forall_mem_append.2 ⟨fun c hc => hds c (List.mem_of_mem_take hc),
      List.forall_mem_cons.2 ⟨by decide, fun c hc => hds c (List.mem_of_mem_drop hc)⟩⟩⟩
  · exact ⟨by simp, List.forall_mem_append.2 ⟨List.forall_mem_cons.2 ⟨by decide,
      List.forall_mem_cons.2 ⟨by decide, hzeros _⟩⟩, hds⟩⟩

/-- So are digits with an exponent. -/
theorem isNumeral_scientific {ds : List Char} (hds : ∀ c ∈ ds, c ∈ numeralChars) (plusSign : Bool)
    (exponent : Int) : IsNumeral (Decimal.scientific plusSign ds exponent) := by
  unfold Decimal.scientific
  refine ⟨by simp, List.forall_mem_append.2 ⟨List.forall_mem_append.2
    ⟨?_, List.forall_mem_cons.2 ⟨by decide, ?_⟩⟩, (isNumeral_intDigits _).2⟩⟩
  · split
    · obtain ⟨hd, hrest⟩ := List.forall_mem_cons.1 hds
      exact List.forall_mem_cons.2 ⟨hd, List.forall_mem_cons.2 ⟨by decide, hrest⟩⟩
    · exact hds
  · split <;> simp [numeralChars]

/-- A finite double is written like a number. -/
theorem isNumeral_doubles {x : Binary64} (h : x.isFinite = true) :
    IsNumeral (doubles.chars x) := by
  cases x with
  | finite negative m e =>
    have hmagnitude : IsNumeral (doubles.magnitude (Decimal.shortest m e)) := by
      unfold Decimal.Layout.magnitude
      dsimp only
      split
      · exact isNumeral_positional (forall_natDigits _) _
      · exact isNumeral_scientific (forall_natDigits _) _ _
    cases negative with
    | false => exact hmagnitude
    | true => exact ⟨List.cons_ne_nil _ _, List.forall_mem_cons.2 ⟨by decide, hmagnitude.2⟩⟩
  | nan | infinite => cases h

end Json

namespace Value

/-! ### The texts of numbers -/

mutual

/-- The numbers in the document of a value have the texts of numbers. -/
theorem proper_json {v : Value} {j : Json} (h : v.json = .ok j) : j.Proper := by
  cases v with
  | null => cases h; exact .null
  | bool => cases h; exact .bool
  | string => cases h; exact .string
  | int n =>
    cases h
    exact .number (by simpa using Json.isNumeral_intDigits n)
  | float x =>
    simp only [json, Except.ok.injEq] at h
    subst h
    split
    · exact .number (by simpa using Json.isNumeral_doubles ‹_›)
    · exact .null
  | sequence items =>
    obtain ⟨js, hjs, rfl⟩ := Except.map_eq_ok_iff.mp h
    exact .array (proper_jsonItems hjs)
  | mapping entries =>
    obtain ⟨fs, hfs, rfl⟩ := Except.map_eq_ok_iff.mp h
    exact .object (proper_jsonFields hfs)
  | tagged tag v =>
    obtain ⟨j, hj, rfl⟩ := Except.map_eq_ok_iff.mp h
    exact .object (by simpa using proper_json hj)

/-- So have those in the documents of items. -/
theorem proper_jsonItems {items : List Value} {js : List Json}
    (h : jsonItems items = .ok js) : ∀ j ∈ js, j.Proper := by
  cases items with
  | nil => cases h; nofun
  | cons v rest =>
    obtain ⟨j, hj, h⟩ := Except.bind_eq_ok_iff.mp h
    obtain ⟨js, hjs, rfl⟩ := Except.map_eq_ok_iff.mp h
    exact List.forall_mem_cons.2 ⟨proper_json hj, proper_jsonItems hjs⟩

/-- So have those in the fields of entries. -/
theorem proper_jsonFields {entries : List (Value × Value)} {fs : List (String × Json)}
    (h : jsonFields entries = .ok fs) : ∀ e ∈ fs, e.2.Proper := by
  cases entries with
  | nil => cases h; nofun
  | cons e rest =>
    obtain ⟨name, -, h⟩ := Except.bind_eq_ok_iff.mp h
    obtain ⟨j, hj, h⟩ := Except.bind_eq_ok_iff.mp h
    obtain ⟨fs, hfs, rfl⟩ := Except.map_eq_ok_iff.mp h
    exact List.forall_mem_cons.2 ⟨proper_json hj, proper_jsonFields hfs⟩

end

/-! ### What can be written -/

/-- A key that a JSON object can have. -/
inductive IsKey : Value → Prop
  | string (s : String) : IsKey (.string s)
  | bool (b : Bool) : IsKey (.bool b)
  | int (n : Int) : IsKey (.int n)
  | float {x : Binary64} (h : x.isFinite = true) : IsKey (.float x)

/-- Of a key that JSON cannot have, the text says what it is: a double that is not finite, or
something that is never a key. -/
theorem jsonKey_eq_error_iff {k : Value} {obstacle : Json.Obstacle} :
    k.jsonKey = .error obstacle ↔
      ¬k.IsKey ∧ ((∃ x, k = .float x ∧ obstacle = .double) ∨
        (∀ x, k ≠ .float x) ∧ obstacle = .key) := by
  cases k with
  | string s => exact iff_of_false nofun fun h => h.1 (.string s)
  | bool b => exact iff_of_false nofun fun h => h.1 (.bool b)
  | int n => exact iff_of_false nofun fun h => h.1 (.int n)
  | float x =>
    cases hx : x.isFinite with
    | true =>
      refine iff_of_false (fun h => ?_) fun h => h.1 (.float hx)
      rw [jsonKey, if_pos hx] at h
      cases h
    | false =>
      have hkey : ¬(Value.float x).IsKey := by
        rintro (_ | _ | _ | hfinite)
        exact absurd (hx.symm.trans hfinite) Bool.false_ne_true
      rw [jsonKey, if_neg (Bool.not_eq_true _ ▸ hx)]
      simp [hkey, eq_comm]
  | null | sequence | mapping | tagged =>
    refine ⟨fun h => ?_, ?_⟩
    · cases h
      exact ⟨nofun, .inr ⟨nofun, rfl⟩⟩
    · rintro ⟨-, ⟨_, h, -⟩ | ⟨-, rfl⟩⟩
      · cases h
      · rfl

/-- A key has a text exactly if JSON can have it. -/
theorem jsonKey_isOk_iff (k : Value) : (∃ name, k.jsonKey = .ok name) ↔ k.IsKey := by
  cases h : k.jsonKey with
  | ok name =>
    refine iff_of_true ⟨name, rfl⟩ (Classical.byContradiction fun hkey => ?_)
    by_cases hx : ∃ x, k = .float x
    · obtain ⟨x, rfl⟩ := hx
      cases h.symm.trans (jsonKey_eq_error_iff.mpr ⟨hkey, .inl ⟨x, rfl, rfl⟩⟩)
    · cases h.symm.trans (jsonKey_eq_error_iff.mpr ⟨hkey, .inr ⟨not_exists.mp hx, rfl⟩⟩)
  | error obstacle => exact iff_of_false nofun (jsonKey_eq_error_iff.mp h).1

/-- The first value stands in the second, at any depth, but not within a key. -/
inductive Within (w : Value) : Value → Prop
  | self : Within w w
  | item {items : List Value} {v : Value} (hv : v ∈ items) (h : Within w v) :
      Within w (.sequence items)
  | entry {entries : List (Value × Value)} {e : Value × Value} (he : e ∈ entries)
      (h : Within w e.2) : Within w (.mapping entries)
  | content {tag : String} {v : Value} (h : Within w v) : Within w (.tagged tag v)

/-- A value whose mappings have keys that can be written. -/
def Writable (v : Value) : Prop :=
  ∀ entries, Within (.mapping entries) v → ∀ e ∈ entries, e.1.IsKey

/-- A sequence can be written exactly if its items can. -/
theorem writable_sequence_iff {items : List Value} :
    (Value.sequence items).Writable ↔ ∀ v ∈ items, v.Writable := by
  constructor
  · exact fun h v hv entries hin => h entries (.item hv hin)
  · rintro h entries (_ | ⟨hv, hin⟩)
    exact h _ hv entries hin

/-- A mapping can be written exactly if its keys are keys of JSON, and its values can. -/
theorem writable_mapping_iff {entries : List (Value × Value)} :
    (Value.mapping entries).Writable ↔ ∀ e ∈ entries, e.1.IsKey ∧ e.2.Writable := by
  constructor
  · exact fun h e he => ⟨h entries .self e he, fun inner hin => h inner (.entry he hin)⟩
  · rintro h inner (_ | _ | ⟨he, hin⟩)
    · exact fun e he => (h e he).1
    · exact (h _ he).2 inner hin

/-- A tag does not matter to whether a value can be written. -/
theorem writable_tagged_iff {tag : String} {v : Value} :
    (Value.tagged tag v).Writable ↔ v.Writable := by
  constructor
  · exact fun h entries hin => h entries (.content hin)
  · rintro h entries (_ | _ | _ | hin)
    exact h entries hin

mutual

/-- There is a document of a value exactly if its mappings have keys that can be written. -/
theorem json_isOk_iff (v : Value) : (∃ j, v.json = .ok j) ↔ v.Writable := by
  cases v with
  | null | bool | int | float | string =>
    exact iff_of_true ⟨_, rfl⟩ nofun
  | sequence items =>
    rw [json, Except.isOk_map_iff, jsonItems_isOk_iff, writable_sequence_iff]
  | mapping entries =>
    rw [json, Except.isOk_map_iff, jsonFields_isOk_iff, writable_mapping_iff]
  | tagged tag v => rw [json, Except.isOk_map_iff, json_isOk_iff, writable_tagged_iff]

/-- There are documents of items exactly if each can be written. -/
theorem jsonItems_isOk_iff (items : List Value) :
    (∃ js, jsonItems items = .ok js) ↔ ∀ v ∈ items, v.Writable := by
  cases items with
  | nil => exact iff_of_true ⟨[], rfl⟩ (by simp)
  | cons v rest =>
    rw [List.forall_mem_cons, ← json_isOk_iff, ← jsonItems_isOk_iff, jsonItems]
    simp only [Except.isOk_bind_iff, Except.isOk_map_iff, exists_and_right]

/-- There are fields of entries exactly if each has a key and a value that can be written. -/
theorem jsonFields_isOk_iff (entries : List (Value × Value)) :
    (∃ fs, jsonFields entries = .ok fs) ↔ ∀ e ∈ entries, e.1.IsKey ∧ e.2.Writable := by
  cases entries with
  | nil => exact iff_of_true ⟨[], rfl⟩ (by simp)
  | cons e rest =>
    rw [List.forall_mem_cons, ← json_isOk_iff, ← jsonKey_isOk_iff, ← jsonFields_isOk_iff,
      jsonFields]
    simp only [Except.isOk_bind_iff, Except.isOk_map_iff, exists_and_right, and_assoc]

end

end Value

end Provision

import Provision.Json.Basic
import Provision.Json.Escape

/-!
# Strings between quotes

What is written between quotes reads back as the string it stands for, and the quote at its end
is found there. So a quoted string is never the beginning of another one.
-/

namespace Provision.Json

/-! ### One character -/

/-- A character that stands for itself between quotes. -/
def IsPlain (c : Char) : Prop := c ≠ '"' ∧ c ≠ '\\' ∧ 0x20 ≤ c.toNat

instance (c : Char) : Decidable (IsPlain c) := inferInstanceAs (Decidable (_ ∧ _ ∧ _))

/-- What holds of the first characters by their numbers holds of them. -/
theorem forall_lt_of_ofNat {b : Nat} {P : Char → Prop} (h : ∀ n < b, P (Char.ofNat n)) {c : Char}
    (hc : c.toNat < b) : P c := by
  have hn := h c.toNat hc
  rwa [Char.ofNat_toNat] at hn

/-- The number of a control character is written in four digits that are plain characters. -/
theorem hexDigits_control {c : Char} (h : c.toNat < 0x20) :
    ∃ x y, Text.hexDigits 4 c = ['0', '0', x, y] ∧
      Text.readNat? 16 ['0', '0', x, y] = some c.toNat ∧ IsPlain x ∧ IsPlain y := by
  refine ⟨Nat.digitChar (c.toNat / 16), Nat.digitChar (c.toNat % 16), ?_⟩
  exact forall_lt_of_ofNat (P := fun c =>
    Text.hexDigits 4 c = ['0', '0', Nat.digitChar (c.toNat / 16), Nat.digitChar (c.toNat % 16)] ∧
      Text.readNat? 16 ['0', '0', Nat.digitChar (c.toNat / 16), Nat.digitChar (c.toNat % 16)] =
        some c.toNat ∧
      IsPlain (Nat.digitChar (c.toNat / 16)) ∧ IsPlain (Nat.digitChar (c.toNat % 16)))
    (by decide) h

/-- The ways in which a character is written. -/
inductive Spelt (c : Char) : List Char → Prop
  | letter {x : Char} (hread : escaped? x = some c) (hx : x ≠ 'u') : Spelt c ['\\', x]
  | number {x y : Char} (hread : Text.readNat? 16 ['0', '0', x, y] = some c.toNat)
      (hcontrol : c.toNat < 0x20) (hx : IsPlain x) (hy : IsPlain y) :
      Spelt c ['\\', 'u', '0', '0', x, y]
  | itself (hplain : IsPlain c) : Spelt c [c]

/-- Every character is escaped in one of the ways that are read back. -/
theorem spelt_escape (c : Char) : Spelt c (escape c) := by
  unfold escape
  split
  case h_8 hquote hbackslash _ _ _ _ _ =>
    split
    · rename_i hcontrol
      obtain ⟨x, y, hdigits, hread, hx, hy⟩ := hexDigits_control hcontrol
      rw [hdigits]
      exact .number hread hcontrol hx hy
    · exact .itself ⟨hquote, hbackslash, by omega⟩
  all_goals exact .letter rfl (by decide)

section

variable {c : Char} {cs : List Char}

/-- A plain character does not close a quote. -/
theorem splitQuote_plain (h : IsPlain c) (rest : List Char) :
    splitQuote (c :: rest) = (splitQuote rest).map fun p => (c :: p.1, p.2) := by
  rw [splitQuote, if_neg (by have := h.2.2; omega)]
  · exact h.1
  · exact fun _ _ hc _ => h.2.1 hc

/-- The quote at the end of a string is not within a character of it. -/
theorem splitQuote_spelt (h : Spelt c cs) (rest : List Char) :
    splitQuote (cs ++ rest) = (splitQuote rest).map fun p => (cs ++ p.1, p.2) := by
  cases h with
  | letter => rfl
  | itself hplain => exact splitQuote_plain hplain rest
  | @number x y _ _ hx hy =>
    have hzero : IsPlain '0' := by decide
    change (splitQuote ('0' :: '0' :: x :: y :: rest)).map _ = _
    rw [splitQuote_plain hzero, splitQuote_plain hzero, splitQuote_plain hx, splitQuote_plain hy]
    simp only [Option.map_map]
    rfl

/-- A plain character stands for itself. -/
theorem pieces_itself (h : IsPlain c) (rest : List Char) :
    pieces (c :: rest) = (pieces rest).map (.char c :: ·) := by
  rw [pieces]
  · exact fun _ _ _ _ _ hc _ => h.2.1 hc
  · exact fun _ _ hc _ => h.2.1 hc
  · exact fun hc _ => h.2.1 hc

/-- A character is read back as one part. -/
theorem pieces_spelt (h : Spelt c cs) :
    ∃ p, (∀ rest, pieces (cs ++ rest) = (pieces rest).map (p :: ·)) ∧
      ∀ ps, assemble (p :: ps) = (assemble ps).map (c :: ·) := by
  cases h with
  | letter hread hx =>
    refine ⟨.char c, fun rest => ?_, fun ps => rfl⟩
    change pieces ('\\' :: _ :: rest) = _
    rw [pieces, hread, Option.bind_some]
    exact fun _ _ _ _ _ hu _ => hx hu
  | itself hplain => exact ⟨.char c, pieces_itself hplain, fun ps => rfl⟩
  | number hread hcontrol =>
    refine ⟨.unit c.toNat, fun rest => ?_, fun ps => ?_⟩
    · change (Text.readNat? 16 _).bind _ = _
      rw [hread]
      rfl
    · have hhigh : isHigh c.toNat = false := by simp only [isHigh]; grind
      have hlow : isLow c.toNat = false := by simp only [isLow]; grind
      rw [assemble.eq_def]
      simp only [hhigh, hlow, Bool.false_eq_true, if_false, Char.ofNat_toNat]

end

/-! ### A whole string -/

/-- A quote ends where it is closed, and not before. -/
theorem splitQuote_escaped (cs rest : List Char) :
    splitQuote (cs.flatMap escape ++ '"' :: rest) = some (cs.flatMap escape, rest) := by
  induction cs with
  | nil => rfl
  | cons c cs ih =>
    rw [List.flatMap_cons, List.append_assoc, splitQuote_spelt (spelt_escape c), ih]
    rfl

/-- What is written between quotes reads back. -/
theorem unescape_escaped (s : String) : unescape (s.toList.flatMap escape) = some s := by
  have hparts (cs : List Char) :
      ∃ ps, pieces (cs.flatMap escape) = some ps ∧ assemble ps = some cs := by
    induction cs with
    | nil => exact ⟨[], rfl, rfl⟩
    | cons c cs ih =>
      obtain ⟨ps, hpieces, hassemble⟩ := ih
      obtain ⟨p, hp, hc⟩ := pieces_spelt (spelt_escape c)
      exact ⟨p :: ps, by rw [List.flatMap_cons, hp, hpieces]; rfl, by rw [hc, hassemble]; rfl⟩
  obtain ⟨ps, hpieces, hassemble⟩ := hparts s.toList
  rw [unescape, hpieces, Option.bind_some, hassemble, Option.map_some, String.ofList_toList]

/-- A quoted string is never the beginning of another one. -/
theorem quoted_append_inj {s t : String} {rest rest' : List Char}
    (h : quoted s ++ rest = quoted t ++ rest') : s = t ∧ rest = rest' := by
  simp only [quoted, List.cons_append, List.append_assoc, List.nil_append, List.cons.injEq,
    true_and] at h
  have hsplit := splitQuote_escaped s.toList rest
  rw [h, splitQuote_escaped, Option.some.injEq, Prod.mk.injEq] at hsplit
  have hread := unescape_escaped s
  rw [← hsplit.1, unescape_escaped, Option.some.injEq] at hread
  exact ⟨hread.symm, hsplit.2.symm⟩

end Provision.Json

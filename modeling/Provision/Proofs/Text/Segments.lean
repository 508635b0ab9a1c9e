import Mathlib.Data.List.TakeWhile
import Provision.Proofs.Resolution
import Provision.Scope.Basic

/-!
# Segments of a text

A text is cut into segments at a separator, and each segment is trimmed of the blanks around it.
Both can be undone: segments that are joined are found again, and so is a segment with blanks
around it. A segment may be a numeral, with zeros and a plus sign in front.
-/

namespace Provision.Text

/-! ### Trimming -/

/-- A text without the blanks around it. -/
def trimmed (s : String) : String := String.ofList (trim s.toList)

/-- All characters are blank. -/
def Blank (cs : List Char) : Prop := ∀ c ∈ cs, isBlank c = true

instance (cs : List Char) : Decidable (Blank cs) :=
  decidable_of_iff (cs.all isBlank = true) List.all_eq_true

section

variable {before after : List Char}

/-- A character that is not blank is not among blanks. -/
theorem Blank.not_mem {cs : List Char} (h : Blank cs) {c : Char} (hc : isBlank c = false) :
    c ∉ cs := fun hmem => Bool.false_ne_true (hc.symm.trans (h c hmem))

/-- Blanks in front of a text do not matter when its start is trimmed. -/
theorem trimStart_append (h : Blank before) (cs : List Char) :
    trimStart (before ++ cs) = trimStart cs := List.dropWhile_append_of_pos h

/-- Blanks behind a text do not matter when its end is trimmed. -/
theorem trimEnd_append (cs : List Char) (h : Blank after) : trimEnd (cs ++ after) = trimEnd cs := by
  have hreverse : Blank after.reverse := fun c hc => h c (List.mem_reverse.mp hc)
  rw [trimEnd, List.reverse_append, List.dropWhile_append_of_pos hreverse]
  rfl

/-- Blanks around a text do not matter when it is trimmed. -/
theorem trim_padded (hbefore : Blank before) (cs : List Char) (hafter : Blank after) :
    trim (before ++ cs ++ after) = trim cs := by
  rw [List.append_assoc, trim, trimStart_append hbefore]
  -- If the text is blank itself, trimming its start takes off the blanks behind it as well.
  by_cases h : trimStart cs = []
  · have hcs : Blank cs := List.dropWhile_eq_nil_iff.mp h
    have hrest : trimStart after = [] := List.dropWhile_eq_nil_iff.mpr hafter
    rw [trimStart_append hcs, hrest, trim, h]
  · have hstart : trimStart (cs ++ after) = trimStart cs ++ after := by
      rw [trimStart] at h
      rw [trimStart, List.dropWhile_append, if_neg (by simpa using h)]
      rfl
    rw [hstart, trimEnd_append _ hafter, trim]

/-- A text is what is left of it when it is trimmed, with blanks around. -/
theorem exists_padding (cs : List Char) :
    ∃ before after, Blank before ∧ Blank after ∧ cs = before ++ trim cs ++ after := by
  have hblank (ds : List Char) : Blank (ds.takeWhile isBlank) := fun c hc =>
    List.mem_takeWhile_imp hc
  refine ⟨cs.takeWhile isBlank, ((trimStart cs).reverse.takeWhile isBlank).reverse, hblank cs,
    fun c hc => hblank _ c (List.mem_reverse.mp hc), ?_⟩
  rw [List.append_assoc, trim, trimEnd, ← List.reverse_append, List.takeWhile_append_dropWhile,
    List.reverse_reverse, trimStart, List.takeWhile_append_dropWhile]

/-- A text without any blanks is trimmed to itself. -/
theorem trim_of_not_blank {cs : List Char} (h : ∀ c ∈ cs, isBlank c = false) : trim cs = cs := by
  obtain ⟨before, after, hbefore, hafter, hcs⟩ := exists_padding cs
  have hnone {ds : List Char} (hds : Blank ds) (hsub : ds ⊆ cs) : ds = [] :=
    List.eq_nil_iff_forall_not_mem.mpr fun c hc => hds.not_mem (h c (hsub hc)) hc
  have hsub : before ⊆ cs ∧ after ⊆ cs := by
    rw [hcs]
    simp
  rw [hnone hbefore hsub.1, hnone hafter hsub.2, List.nil_append, List.append_nil] at hcs
  exact hcs.symm

/-- Trimming at the end leaves the beginning. -/
theorem trimEnd_isPrefix (cs : List Char) : trimEnd cs <+: cs := by
  rw [trimEnd, ← List.reverse_suffix, List.reverse_reverse]
  exact List.dropWhile_suffix _

/-- What is left of a trimmed text is a part of it. -/
theorem trim_infix (cs : List Char) : trim cs <:+: cs := by
  have hstart : trimStart cs <:+ cs := List.dropWhile_suffix _
  exact (trimEnd_isPrefix (trimStart cs)).isInfix.trans hstart.isInfix

/-- Nothing is trimmed off a last character that is not blank. -/
theorem trim_concat {c : Char} (h : isBlank c = false) (cs : List Char) :
    trim (cs ++ [c]) = trimStart cs ++ [c] := by
  have hstart : trimStart (cs ++ [c]) = trimStart cs ++ [c] := by
    have hc : [c].dropWhile isBlank = [c] := List.dropWhile_cons_of_neg (by simp [h])
    rw [trimStart, List.dropWhile_append, hc]
    split
    · rename_i hempty
      rw [trimStart, List.isEmpty_iff.mp hempty, List.nil_append]
    · rfl
  rw [trim, hstart, trimEnd, List.reverse_concat, List.dropWhile_cons_of_neg (by simp [h]),
    List.reverse_cons, List.reverse_reverse]

/-- A text is trimmed already if it neither begins nor ends with a blank. -/
theorem trim_eq_self_iff {cs : List Char} :
    trim cs = cs ↔ (∀ c ∈ cs.head?, isBlank c = false) ∧ ∀ c ∈ cs.getLast?, isBlank c = false := by
  constructor
  · intro h
    constructor
    · intro c hc
      obtain ⟨rest, rfl⟩ := List.head?_eq_some_iff.mp hc
      by_contra hblank
      have hrest : trim ([c] ++ rest ++ []) = trim rest :=
        trim_padded (by simpa [Blank] using hblank) rest (by simp [Blank])
      have hpart := trim_infix rest
      have hle := hpart.length_le
      rw [← hrest, List.append_nil, List.singleton_append, h, List.length_cons] at hle
      omega
    · intro c hc
      obtain ⟨front, rfl⟩ := List.getLast?_eq_some_iff.mp hc
      by_contra hblank
      have hfront : trim ([] ++ front ++ [c]) = trim front :=
        trim_padded (by simp [Blank]) front (by simpa [Blank] using hblank)
      have hpart := trim_infix front
      have hle := hpart.length_le
      rw [← hfront, List.nil_append, h, List.length_append, List.length_singleton] at hle
      omega
  · rintro ⟨hhead, hlast⟩
    obtain rfl | ⟨front, c, rfl⟩ := List.eq_nil_or_concat cs
    · rfl
    · rw [List.concat_eq_append] at hhead hlast ⊢
      rw [trim_concat (hlast c (by simp))]
      cases front with
      | nil => rfl
      | cons b front =>
        have hb := hhead b rfl
        rw [trimStart, List.dropWhile_cons_of_neg (by simp [hb])]

/-- A text of trimmed parts is trimmed. -/
theorem trim_append {before cs : List Char} (hbefore : trim before = before) (hcs : trim cs = cs) :
    trim (before ++ cs) = before ++ cs := by
  rw [trim_eq_self_iff] at *
  constructor
  · intro c hc
    rw [List.head?_append, Option.mem_def, Option.or_eq_some_iff] at hc
    exact hc.elim (hbefore.1 c) fun h => hcs.1 c h.2
  · intro c hc
    rw [List.getLast?_append, Option.mem_def, Option.or_eq_some_iff] at hc
    exact hc.elim (hcs.2 c) fun h => hbefore.2 c h.2

end

/-! ### Splitting -/

section

variable {sep : Char}

/-- A separator ends a piece, whatever stands in front of it and behind it. -/
theorem split_append (front behind : List Char) :
    split sep (front ++ sep :: behind) = split sep front ++ split sep behind := by
  induction front with
  | nil => simp [split]
  | cons c front ih =>
    by_cases h : c = sep
    · rw [List.cons_append, split, if_pos h, ih, split, if_pos h, List.cons_append]
    · rw [List.cons_append, split, if_neg h, ih, split, if_neg h]
      cases hs : split sep front with
      | nil => exact absurd hs (split_ne_nil sep front)
      | cons piece rest => rfl

/-- Pieces that are joined are found again where the text is split. -/
theorem split_join {pieces : List (List Char)} (hne : pieces ≠ [])
    (hsep : ∀ piece ∈ pieces, sep ∉ piece) : split sep (join sep pieces) = pieces := by
  induction pieces with
  | nil => exact absurd rfl hne
  | cons piece rest ih =>
    obtain ⟨hpiece, hrest⟩ := List.forall_mem_cons.mp hsep
    cases rest with
    | nil => exact split_of_not_mem hpiece
    | cons next rest =>
      rw [join, split_append, split_of_not_mem hpiece, ih (List.cons_ne_nil _ _) hrest]
      · rfl
      · exact List.cons_ne_nil _ _

/-- There is one piece more than there are separators. -/
theorem length_split (sep : Char) (cs : List Char) : (split sep cs).length = cs.count sep + 1 := by
  induction cs with
  | nil => rfl
  | cons c cs ih =>
    rw [split]
    split
    · rename_i h
      rw [List.length_cons, ih, h, List.count_cons_self]
    · rename_i h
      cases hs : split sep cs with
      | nil => exact absurd hs (split_ne_nil sep cs)
      | cons first rest =>
        rw [hs] at ih
        rw [List.count_cons_of_ne h]
        exact ih

/-- Lines that are each ended by a separator are found again. -/
theorem split_lines {sep : Char} {lines : List (List Char)} (h : ∀ line ∈ lines, sep ∉ line) :
    split sep (lines.flatMap (· ++ [sep])) = lines ++ [[]] := by
  induction lines with
  | nil => rfl
  | cons line rest ih =>
    obtain ⟨hline, hrest⟩ := List.forall_mem_cons.mp h
    rw [List.flatMap_cons, List.append_assoc, List.singleton_append, split_append,
      split_of_not_mem hline, ih hrest]
    rfl

end

/-! ### Numerals -/

/-- A text is a decimal numeral of a number. It may have zeros and one plus sign in front. -/
def Numeral (cs : List Char) (n : Nat) : Prop :=
  ∃ ds, (cs = ds ∨ cs = '+' :: ds) ∧ ds ≠ [] ∧ (∀ c ∈ ds, c.isDigit = true) ∧
    Nat.ofDigitChars 10 ds 0 = n

/-- A natural number is written in digits only. -/
theorem isDigit_of_mem_natDigits {n : Nat} {c : Char} (h : c ∈ natDigits n) : c.isDigit = true :=
  Nat.isDigit_of_mem_toDigits (by decide) (by decide) h

/-- The digits of a number are a numeral of it. -/
theorem numeral_natDigits (n : Nat) : Numeral (natDigits n) n :=
  ⟨natDigits n, .inl rfl, Nat.toDigits_ne_nil, fun _ => isDigit_of_mem_natDigits,
    Nat.ofDigitChars_ten_toDigits⟩

/-- The digits are ten characters in a row. -/
theorem isDigit_iff {c : Char} : c.isDigit = true ↔ 48 ≤ c.toNat ∧ c.toNat ≤ 57 := by
  rw [Char.isDigit, Bool.and_eq_true, decide_eq_true_iff, decide_eq_true_iff]
  rfl

/-- No digit is a blank. -/
theorem isBlank_of_isDigit {c : Char} (h : c.isDigit = true) : isBlank c = false := by
  rw [isDigit_iff] at h
  simp only [isBlank, Bool.or_eq_false_iff, Bool.and_eq_false_iff, decide_eq_false_iff_not,
    beq_eq_false_iff_ne]
  omega

/-- In base ten, the characters with a value are the decimal digits. -/
theorem digitValue?_eq_some_iff {c : Char} {d : Nat} :
    digitValue? 10 c = some d ↔ c.isDigit = true ∧ c.toNat - '0'.toNat = d := by
  have hle (a b : Char) : a ≤ b ↔ a.toNat ≤ b.toNat := Iff.rfl
  simp only [digitValue?, isDigit_iff, hle, Char.reduceToNat, Option.filter_eq_some_iff,
    decide_eq_true_iff]
  -- Letters stand for ten and more, which are no digits in this base.
  split_ifs with hd
  · rw [Option.some.injEq]
    omega
  · rw [Option.some.injEq]
    omega
  · rw [Option.some.injEq]
    omega
  · exact iff_of_false (fun h => h.1) fun h => hd h.1

/-- Digits are read to the number that they stand for, behind those that were read before. -/
theorem readDigits_eq_some_iff {ds : List Char} {m n : Nat} :
    readDigits 10 m ds = some n ↔
      (∀ c ∈ ds, c.isDigit = true) ∧ Nat.ofDigitChars 10 ds m = n := by
  induction ds generalizing m with
  | nil => simp [readDigits]
  | cons c ds ih =>
    rw [readDigits, Option.bind_eq_some_iff, List.forall_mem_cons, Nat.ofDigitChars_cons]
    simp only [digitValue?_eq_some_iff, ih, Nat.mul_comm 10 m]
    constructor
    · rintro ⟨_, ⟨hc, rfl⟩, hds, hn⟩
      exact ⟨⟨hc, hds⟩, hn⟩
    · rintro ⟨⟨hc, hds⟩, hn⟩
      exact ⟨_, ⟨hc, rfl⟩, hds, hn⟩

/-- A natural number is read from one digit or more, and from nothing else. -/
theorem readNat?_eq_some_iff {ds : List Char} {n : Nat} :
    readNat? 10 ds = some n ↔
      ds ≠ [] ∧ (∀ c ∈ ds, c.isDigit = true) ∧ Nat.ofDigitChars 10 ds 0 = n := by
  rw [readNat?, ← readDigits_eq_some_iff]
  cases ds <;> simp

end Provision.Text

namespace Provision.Value

open Provision.Text

/-- What is read as an index is a numeral of it. -/
theorem readIndex?_eq_some_iff {cs : List Char} {n : Nat} :
    readIndex? cs = some n ↔ Numeral cs n := by
  unfold readIndex?
  split
  · rename_i ds
    rw [readNat?_eq_some_iff]
    constructor
    · exact fun h => ⟨ds, .inr rfl, h⟩
    · rintro ⟨ds', rfl | hds, hne, hdigits, hn⟩
      · exact absurd (hdigits '+' List.mem_cons_self) (by decide)
      · cases hds
        exact ⟨hne, hdigits, hn⟩
  · rename_i hsign
    rw [readNat?_eq_some_iff]
    constructor
    · exact fun h => ⟨cs, .inl rfl, h⟩
    · rintro ⟨ds, rfl | rfl, h⟩
      · exact h
      · exact (hsign ds rfl).elim

end Provision.Value

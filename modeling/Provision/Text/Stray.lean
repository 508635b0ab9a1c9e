/-!
# Bytes that belong to no character

The name of a file is a string of bytes, and as a rule these are the UTF-8 form of a text. Where
they are not, each byte that belongs to no character is spelt as the character zero, which no name
of a file has, and one of the last characters there are, which stand for nothing of their own.
-/

namespace Provision.Text

/-- The byte that two characters spell, if they spell one. -/
def strayByte? (mark c : Char) : Option Nat :=
  if mark = '\x00' ∧ 0x10FF80 ≤ c.toNat then some (c.toNat - 0x10FF00) else none

/-- The characters of a text, and between them the bytes that are spelt in it. -/
def units : List Char → List (Char ⊕ Nat)
  | mark :: c :: rest =>
    match strayByte? mark c with
    | some byte => .inr byte :: units rest
    | none => .inl mark :: units (c :: rest)
  | [c] => [.inl c]
  | [] => []

/-- The ranges of the bytes that may follow a first byte, up to the one before the last that its
character would have. -/
def continuations (byte : Nat) : List (Nat × Nat) :=
  if byte = 0xE0 then [(0xA0, 0xBF)]
  else if byte = 0xED then [(0x80, 0x9F)]
  else if 0xE1 ≤ byte ∧ byte ≤ 0xEF then [(0x80, 0xBF)]
  else if byte = 0xF0 then [(0x90, 0xBF), (0x80, 0xBF)]
  else if byte = 0xF4 then [(0x80, 0x8F), (0x80, 0xBF)]
  else if 0xF1 ≤ byte ∧ byte ≤ 0xF3 then [(0x80, 0xBF), (0x80, 0xBF)]
  else []

/-- The characters with one replacement character for the beginning of each character that is not
complete, and for every other byte. Some ranges of bytes may still belong to the beginning of one
that has been replaced. -/
def replaced : List (Nat × Nat) → List (Char ⊕ Nat) → List Char
  | _, [] => []
  | _, .inl c :: rest => c :: replaced [] rest
  | (low, high) :: ranges, .inr byte :: rest =>
    if low ≤ byte ∧ byte ≤ high then replaced ranges rest
    else '\uFFFD' :: replaced (continuations byte) rest
  | [], .inr byte :: rest => '\uFFFD' :: replaced (continuations byte) rest

/-- Where no byte is spelt, the characters stay as they are. -/
theorem replaced_units {cs : List Char} (h : (units cs).all (·.isLeft))
    (ranges : List (Nat × Nat)) : replaced ranges (units cs) = cs := by
  induction cs generalizing ranges with
  | nil => rfl
  | cons mark rest ih =>
    cases rest with
    | nil => rfl
    | cons c rest =>
      rw [units] at h ⊢
      cases hbyte : strayByte? mark c with
      | some byte => simp [hbyte] at h
      | none =>
        rw [hbyte] at h
        dsimp only
        rw [replaced, ih (by simpa using h)]

end Provision.Text

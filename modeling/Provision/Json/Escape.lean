import Provision.Text.Numeral

/-!
# Escapes in JSON strings

Between its quotes a string is a sequence of characters and escapes. A character beyond
the basic plane is escaped as a pair of surrogates.
-/

namespace Provision.Json

/-- Splits a text at the quote that closes a string. Control characters do not stand in a
string. -/
def splitQuote : List Char → Option (List Char × List Char)
  | [] => none
  | '"' :: rest => some ([], rest)
  | '\\' :: c :: rest => (splitQuote rest).map fun p => ('\\' :: c :: p.1, p.2)
  | c :: rest =>
    if c.toNat < 0x20 then none else (splitQuote rest).map fun p => (c :: p.1, p.2)

/-- What follows a closing quote is shorter than the text that it was found in. -/
theorem length_of_splitQuote {cs : List Char} {p : List Char × List Char}
    (h : splitQuote cs = some p) : p.2.length < cs.length := by
  fun_induction splitQuote cs generalizing p with
  | case1 => simp at h
  | case2 rest =>
    simp only [Option.some.injEq] at h
    simp [← h]
  | case3 c rest ih =>
    obtain ⟨q, hq, rfl⟩ := Option.map_eq_some_iff.1 h
    have := ih hq
    simp only [List.length_cons]
    omega
  | case4 => simp at h
  | case5 c rest _ _ _ ih =>
    obtain ⟨q, hq, rfl⟩ := Option.map_eq_some_iff.1 h
    have := ih hq
    simp only [List.length_cons]
    omega

/-- A part of a string: a character, or a unit of sixteen bits given by its number. -/
inductive Piece where
  | char (c : Char)
  | unit (n : Nat)
  deriving DecidableEq, Inhabited

/-- The character of an escape of one letter. -/
def escaped? : Char → Option Char
  | '"' => some '"'
  | '\\' => some '\\'
  | '/' => some '/'
  | 'b' => some '\x08'
  | 'f' => some '\x0c'
  | 'n' => some '\n'
  | 'r' => some '\r'
  | 't' => some '\t'
  | _ => none

/-- The parts of a string. -/
def pieces : List Char → Option (List Piece)
  | [] => some []
  | '\\' :: 'u' :: a :: b :: c :: d :: rest =>
    (Text.readNat? 16 [a, b, c, d]).bind fun n => (pieces rest).map (.unit n :: ·)
  | '\\' :: c :: rest => (escaped? c).bind fun x => (pieces rest).map (.char x :: ·)
  | ['\\'] => none
  | c :: rest => (pieces rest).map (.char c :: ·)

/-- Whether a unit is the first half of a pair. -/
def isHigh (n : Nat) : Bool := 0xd800 ≤ n && n < 0xdc00

/-- Whether a unit is the second half of a pair. -/
def isLow (n : Nat) : Bool := 0xdc00 ≤ n && n < 0xe000

/-- The characters of parts. Half a pair is no character. -/
def assemble : List Piece → Option (List Char)
  | [] => some []
  | .char c :: rest => (assemble rest).map (c :: ·)
  | .unit n :: rest =>
    if isHigh n then
      match rest with
      | .unit m :: rest =>
        if isLow m then
          (assemble rest).map (Char.ofNat (0x10000 + (n - 0xd800) * 0x400 + (m - 0xdc00)) :: ·)
        else none
      | _ => none
    else if isLow n then none
    else (assemble rest).map (Char.ofNat n :: ·)

/-- The string that is written between quotes. -/
def unescape (cs : List Char) : Option String :=
  ((pieces cs).bind assemble).map String.ofList

end Provision.Json

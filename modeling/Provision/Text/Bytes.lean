/-!
# Places counted in bytes

A place in a text is the number of bytes in front of it when the text is encoded in UTF-8.
-/

namespace Provision.Text

/-- The number of bytes that characters take up. -/
def byteLength : List Char → Nat
  | [] => 0
  | c :: cs => c.utf8Size + byteLength cs

/-- The length in bytes adds up. -/
@[simp]
theorem byteLength_append (cs ds : List Char) :
    byteLength (cs ++ ds) = byteLength cs + byteLength ds := by
  induction cs with
  | nil => simp [byteLength]
  | cons c cs ih => simp [byteLength, ih, Nat.add_assoc]

/-- The characters before a place and those behind it. There is no place within a character,
and none behind the end of the text. -/
def splitAtPlace? : Nat → List Char → Option (List Char × List Char)
  | 0, cs => some ([], cs)
  | _ + 1, [] => none
  | n + 1, c :: cs =>
    if c.utf8Size ≤ n + 1 then
      (splitAtPlace? (n + 1 - c.utf8Size) cs).map fun (before, behind) => (c :: before, behind)
    else none

/-- The characters between two places, of which the first does not come after the second. -/
def between? (first last : Nat) (cs : List Char) : Option (List Char) :=
  if first ≤ last then do
    let (_, behind) ← splitAtPlace? first cs
    let (before, _) ← splitAtPlace? (last - first) behind
    return before
  else none

/-- The text with what stands between two places replaced. -/
def replaceBetween? (first last : Nat) (new cs : List Char) : Option (List Char) := do
  let (before, _) ← splitAtPlace? first cs
  let (_, behind) ← splitAtPlace? last cs
  return before ++ new ++ behind

/-- A text can be split at the place where one part of it ends. -/
theorem splitAtPlace?_byteLength (cs ds : List Char) :
    splitAtPlace? (byteLength cs) (cs ++ ds) = some (cs, ds) := by
  induction cs with
  | nil => simp [byteLength, splitAtPlace?]
  | cons c cs ih =>
    obtain ⟨n, hn⟩ : ∃ n, byteLength (c :: cs) = n + 1 :=
      ⟨c.utf8Size - 1 + byteLength cs, by have := c.utf8Size_pos; simp only [byteLength]; omega⟩
    have hlen : c.utf8Size + byteLength cs = n + 1 := by simpa [byteLength] using hn
    have hrest : n + 1 - c.utf8Size = byteLength cs := by omega
    rw [hn, List.cons_append, splitAtPlace?, if_pos (by omega), hrest, ih]
    rfl

/-- A text is cut at a place into what takes up the bytes in front of it and the rest. -/
theorem of_splitAtPlace? {n : Nat} {cs before behind : List Char}
    (h : splitAtPlace? n cs = some (before, behind)) :
    cs = before ++ behind ∧ byteLength before = n := by
  fun_induction splitAtPlace? n cs generalizing before with
  | case1 cs =>
    cases h
    exact ⟨rfl, rfl⟩
  | case2 => cases h
  | case3 n c cs hsize ih =>
    obtain ⟨⟨first, second⟩, hrest, hp⟩ := Option.map_eq_some_iff.1 h
    cases hp
    obtain ⟨rfl, hlength⟩ := ih hrest
    exact ⟨rfl, by simp only [byteLength]; omega⟩
  | case4 => cases h

/-- The text between the end of one part and the end of the next is the second part. -/
theorem between?_byteLength (cs ds es : List Char) :
    between? (byteLength cs) (byteLength (cs ++ ds)) (cs ++ (ds ++ es)) = some ds := by
  have hsize : byteLength (cs ++ ds) - byteLength cs = byteLength ds := by simp
  have hle : byteLength cs ≤ byteLength (cs ++ ds) := by simp
  simp only [between?, hle, if_true, splitAtPlace?_byteLength, hsize, Option.bind_eq_bind,
    Option.bind_some, Option.pure_def]

/-- What is replaced is the part between the two places. -/
theorem replaceBetween?_byteLength (cs ds es new : List Char) :
    replaceBetween? (byteLength cs) (byteLength (cs ++ ds)) new (cs ++ (ds ++ es)) =
      some (cs ++ new ++ es) := by
  have hfirst := splitAtPlace?_byteLength cs (ds ++ es)
  have hlast := splitAtPlace?_byteLength (cs ++ ds) es
  rw [List.append_assoc] at hlast
  simp only [replaceBetween?, hfirst, hlast, Option.bind_eq_bind, Option.bind_some,
    Option.pure_def]

/-- What stands behind the replaced part is as long as before. -/
theorem length_of_replaceBetween? {first last : Nat} {new cs cs' : List Char}
    (h : replaceBetween? first last new cs = some cs') :
    last ≤ byteLength cs ∧
      byteLength cs' = first + byteLength new + (byteLength cs - last) := by
  simp only [replaceBetween?, Option.bind_eq_bind, Option.bind_eq_some_iff, Option.pure_def,
    Option.some.injEq, Prod.exists] at h
  obtain ⟨before, _, hfirst, front, behind, hlast, rfl⟩ := h
  obtain ⟨-, hbefore⟩ := of_splitAtPlace? hfirst
  obtain ⟨rfl, hfront⟩ := of_splitAtPlace? hlast
  simp only [byteLength_append]
  omega

end Provision.Text

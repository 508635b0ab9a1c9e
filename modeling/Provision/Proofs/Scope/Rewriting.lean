import Provision.Proofs.Scope.Mention

/-!
# Rewriting a template in place

A template is rewritten from left to right: a placeholder is replaced in the text it stands in,
and the search goes on behind what was put in. Seen from the place that has been reached, this
puts values in for the placeholders of the rest of the text in one pass. Every place at which
the text is cut lies between two characters.
-/

namespace Provision

/-! ### One placeholder -/

/-- Another character in front does not matter to where a text is broken. -/
theorem breakAtDouble_cons_of_ne {c a : Char} (h : a ≠ c) (cs : List Char) :
    breakAtDouble c (a :: cs) = (breakAtDouble c cs).map fun p => (a :: p.1, p.2) := by
  cases cs with
  | nil => rfl
  | cons b cs => rw [breakAtDouble, if_neg fun hc => h hc.1]

/-- Closing braces are not found within opening ones. -/
theorem breakAtDouble_opened (inside : List Char) :
    breakAtDouble '\x7d' ('\x7b' :: '\x7b' :: inside) =
      (breakAtDouble '\x7d' inside).map fun p => ('\x7b' :: '\x7b' :: p.1, p.2) := by
  rw [breakAtDouble_cons_of_ne (by decide), breakAtDouble_cons_of_ne (by decide),
    Option.map_map]
  rfl

section

variable {done behind before inside key after : List Char}

/-- With nothing opened, there is no placeholder. -/
theorem placeholderFrom?_of_none (done : List Char) (ho : breakAtDouble '\x7b' behind = none) :
    placeholderFrom? (Text.byteLength done) (done ++ behind) = some none := by
  simp only [placeholderFrom?, Text.splitAtPlace?_byteLength, ho, Option.bind_eq_bind,
    Option.bind_some, Option.pure_def]

variable (done) (ho : breakAtDouble '\x7b' behind = some (before, inside))

include ho

/-- The text can be cut where the opening braces are. -/
theorem splitAtPlace?_of_opened :
    Text.splitAtPlace? (Text.byteLength done + Text.byteLength before) (done ++ behind) =
      some (done ++ before, '\x7b' :: '\x7b' :: inside) := by
  rw [breakAtDouble_eq_some ho, ← List.append_assoc, ← Text.byteLength_append,
    Text.splitAtPlace?_byteLength]

/-- With nothing closed after what is opened, there is none either. -/
theorem placeholderFrom?_of_unclosed (hc : breakAtDouble '\x7d' inside = none) :
    placeholderFrom? (Text.byteLength done) (done ++ behind) = some none := by
  simp only [placeholderFrom?, Text.splitAtPlace?_byteLength, ho, splitAtPlace?_of_opened done ho,
    breakAtDouble_opened, hc, Option.map_none, Option.bind_eq_bind, Option.bind_some,
    Option.pure_def]

/-- The places of a placeholder are those of its braces in the whole text. -/
theorem placeholderFrom?_of_closed (hc : breakAtDouble '\x7d' inside = some (key, after)) :
    placeholderFrom? (Text.byteLength done) (done ++ behind) =
      some (some ⟨Text.byteLength (done ++ before),
        Text.byteLength (done ++ before ++ ('\x7b' :: '\x7b' :: key ++ ['\x7d', '\x7d'])),
        Text.trim key⟩) := by
  have hopen : Text.byteLength ['\x7b', '\x7b'] = 2 := by decide
  have hclose : Text.byteLength ['\x7d', '\x7d'] = 2 := by decide
  have hwhole : done ++ behind =
      done ++ before ++ ['\x7b', '\x7b'] ++ (key ++ '\x7d' :: '\x7d' :: after) := by
    rw [breakAtDouble_eq_some ho, breakAtDouble_eq_some hc]
    simp only [List.append_assoc, List.cons_append, List.nil_append]
  have hopened : Text.byteLength ('\x7b' :: '\x7b' :: key) = 2 + Text.byteLength key := by
    rw [← hopen, ← Text.byteLength_append]
    rfl
  have hstart : Text.byteLength done + Text.byteLength before + 2 =
      Text.byteLength (done ++ before ++ ['\x7b', '\x7b']) := by
    simp only [Text.byteLength_append, hopen]
  have hend : Text.byteLength done + Text.byteLength before + (2 + Text.byteLength key) + 2 - 2 =
      Text.byteLength (done ++ before ++ ['\x7b', '\x7b'] ++ key) := by
    simp only [Text.byteLength_append, hopen]
    omega
  have hkey : Text.between? (Text.byteLength done + Text.byteLength before + 2)
      (Text.byteLength done + Text.byteLength before + (2 + Text.byteLength key) + 2 - 2)
      (done ++ behind) = some key := by
    rw [hstart, hend, hwhole, Text.between?_byteLength]
  have hlast : Text.byteLength
      (done ++ before ++ ('\x7b' :: '\x7b' :: key ++ ['\x7d', '\x7d'])) =
      Text.byteLength done + Text.byteLength before + (2 + Text.byteLength key) + 2 := by
    simp only [Text.byteLength_append, hopened, hclose]
    omega
  rw [hlast, Text.byteLength_append]
  simp only [placeholderFrom?, Text.splitAtPlace?_byteLength, ho, splitAtPlace?_of_opened done ho,
    breakAtDouble_opened, hc, Option.map_some, hopened, hkey, Option.bind_eq_bind,
    Option.bind_some, Option.pure_def]

end

/-! ### All of them -/

namespace Scope

/-- Puts values in for the placeholders of a text in one pass. -/
def interpolate (s : Scope) (template : String) (cs : List Char) : Resolving (List Char) :=
  match ho : breakAtDouble '\x7b' cs with
  | none => return cs
  | some (before, inside) =>
    match hc : breakAtDouble '\x7d' inside with
    | none => return cs
    | some (key, after) => do
      let v ← s.placeholder template (String.ofList (Text.trim key))
      let rest ← s.interpolate template after
      return before ++ v.chars ++ rest
termination_by cs.length
decreasing_by
  have := length_of_breakAtDouble ho
  have := length_of_breakAtDouble hc
  omega

variable (s : Scope) (template : String)

/-- A text in which nothing is opened stays as it is. -/
theorem interpolate_of_none {cs : List Char} (h : breakAtDouble '\x7b' cs = none) :
    s.interpolate template cs = pure cs := by
  rw [interpolate]
  split
  · rfl
  · rename_i hsome
    rw [h] at hsome
    cases hsome

/-- Where something is opened, the text up to its end is replaced, or nothing is if it has no end.
-/
theorem interpolate_of_some {cs before inside : List Char}
    (h : breakAtDouble '\x7b' cs = some (before, inside)) :
    s.interpolate template cs =
      match breakAtDouble '\x7d' inside with
      | none => pure cs
      | some (key, after) => do
        let v ← s.placeholder template (String.ofList (Text.trim key))
        let rest ← s.interpolate template after
        return before ++ v.chars ++ rest := by
  rw [interpolate]
  split
  · rename_i hnone
    rw [h] at hnone
    cases hnone
  · rename_i hsome
    rw [h] at hsome
    cases hsome
    split <;> rename_i hclosed <;> rw [hclosed]

/-- Rewriting is done when no placeholder is left. -/
theorem rewrite_of_nothing {start : Nat} {cs : List Char}
    (h : placeholderFrom? start cs = some none) :
    s.rewrite template start cs = pure (some cs) := by
  rw [rewrite]
  split
  · rename_i hnone
    cases h.symm.trans hnone
  · rfl
  · rename_i hsome
    cases h.symm.trans hsome

/-- Rewriting goes on behind the value that has taken the place of a placeholder. -/
theorem rewrite_of_placeholder {start : Nat} {cs : List Char} {p : Placeholder}
    (h : placeholderFrom? start cs = some (some p)) :
    s.rewrite template start cs =
      (s.placeholder template (String.ofList p.key) >>= fun v =>
        match Text.replaceBetween? p.first p.last v.chars cs with
        | none => pure none
        | some replaced =>
          s.rewrite template (p.first + Text.byteLength v.chars) replaced) := by
  rw [rewrite]
  split
  · rename_i hnone
    cases h.symm.trans hnone
  · rename_i hsome
    cases h.symm.trans hsome
  · rename_i hsome
    cases h.symm.trans hsome
    refine congrArg _ (funext fun v => ?_)
    split <;> rename_i hreplaced <;> rw [hreplaced]

/-- What has been done stays as it is, and the rest is done in one pass. The text is only cut
between two characters. -/
theorem rewrite_eq_interpolate (done behind : List Char) :
    s.rewrite template (Text.byteLength done) (done ++ behind) =
      (fun rest => some (done ++ rest)) <$> s.interpolate template behind := by
  induction hn : behind.length using Nat.strongRecOn generalizing done behind with
  | _ n ih =>
    cases ho : breakAtDouble '\x7b' behind with
    | none =>
      rw [s.rewrite_of_nothing template (placeholderFrom?_of_none done ho),
        s.interpolate_of_none template ho, map_pure]
    | some opened =>
      obtain ⟨before, inside⟩ := opened
      rw [s.interpolate_of_some template ho]
      cases hc : breakAtDouble '\x7d' inside with
      | none =>
        rw [s.rewrite_of_nothing template (placeholderFrom?_of_unclosed done ho hc), map_pure]
      | some closed =>
        obtain ⟨key, after⟩ := closed
        have hinside := length_of_breakAtDouble ho
        have hafter := length_of_breakAtDouble hc
        rw [s.rewrite_of_placeholder template (placeholderFrom?_of_closed done ho hc)]
        simp only [map_bind]
        refine congrArg _ (funext fun v => ?_)
        have hwhole : done ++ behind =
            done ++ before ++ (('\x7b' :: '\x7b' :: key ++ ['\x7d', '\x7d']) ++ after) := by
          rw [breakAtDouble_eq_some ho, breakAtDouble_eq_some hc]
          simp only [List.append_assoc, List.cons_append, List.nil_append]
        rw [hwhole, Text.replaceBetween?_byteLength]
        dsimp only
        rw [← Text.byteLength_append, ih _ (by omega) (done ++ before ++ v.chars) after rfl,
          map_eq_pure_bind]
        simp only [List.append_assoc, map_pure]

/-- Rewriting a template in place puts values in for its placeholders in one pass. -/
theorem resolveText_eq_interpolate :
    s.resolveText template = String.ofList <$> s.interpolate template template.toList := by
  have h : s.rewrite template 0 template.toList = _ :=
    s.rewrite_eq_interpolate template [] template.toList
  rw [resolveText, h, bind_map_left, map_eq_pure_bind]
  rfl

end Scope

end Provision

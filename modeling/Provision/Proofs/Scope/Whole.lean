import Provision.Proofs.Scope.Paths

/-!
# Strings that are one placeholder

A string that is one placeholder, but for blanks around it, keeps the type of the value put in.
Where such a placeholder ends is decided in another way than in a text: its closing braces are the
last ones of the string, not the first. The two agree, and so does the text of the value with the
text that the string resolves to without the blanks, unless the string ends in three closing
braces.
-/

namespace Provision

/-! ### Blanks around a template -/

section

variable {c : Char} {before after cs : List Char}

/-- No pair of a character reaches into a text without it. -/
theorem pair_infix_append (h : c ∉ after) : [c, c] <:+: cs ++ after ↔ [c, c] <:+: cs := by
  refine ⟨fun hpair => ?_, fun hpair => hpair.trans (List.prefix_append cs after).isInfix⟩
  rcases List.infix_append_iff.mp hpair with hcs | hafter | ⟨front, behind, hsplit, hcs, hafter⟩
  · exact hcs
  · exact absurd (hafter.subset List.mem_cons_self) h
  · cases behind with
    | nil =>
      rw [List.append_nil] at hsplit
      exact hsplit ▸ hcs.isInfix
    | cons a behind =>
      have ha : a ∈ [c, c] := hsplit ▸ List.mem_append_right front List.mem_cons_self
      obtain rfl : a = c := by simpa using ha
      exact absurd (hafter.subset List.mem_cons_self) h

/-- Where a text breaks does not change behind characters that are not of the pair. -/
theorem breakAtDouble_prepend (h : c ∉ before) (cs : List Char) :
    breakAtDouble c (before ++ cs) =
      (breakAtDouble c cs).map fun p => (before ++ p.1, p.2) := by
  induction before with
  | nil => simp
  | cons a before ih =>
    obtain ⟨ha, hbefore⟩ : c ≠ a ∧ c ∉ before := by simpa using h
    rw [List.cons_append, breakAtDouble_cons_of_ne (Ne.symm ha), ih hbefore, Option.map_map]
    rfl

/-- Characters that are not of the pair belong to what is behind the break. -/
theorem breakAtDouble_concat (cs : List Char) (h : c ∉ after) :
    breakAtDouble c (cs ++ after) =
      (breakAtDouble c cs).map fun p => (p.1, p.2 ++ after) := by
  cases hcs : breakAtDouble c cs with
  | some p =>
    obtain ⟨front, behind⟩ := p
    obtain ⟨rfl, hfirst⟩ := breakAtDouble_eq_some_iff.mp hcs
    rw [List.append_assoc, List.cons_append, List.cons_append, breakAtDouble_append hfirst]
    rfl
  | none =>
    rw [breakAtDouble_eq_none_iff] at hcs
    exact breakAtDouble_eq_none_iff.mpr fun hpair => hcs ((pair_infix_append h).mp hpair)

end

namespace Scope

section

variable (s : Scope) (template : String) {before after : List Char}

/-- A text without braces in front of another is kept as it is. -/
theorem interpolate_prepend (h : '\x7b' ∉ before) (cs : List Char) :
    s.interpolate template (before ++ cs) = (before ++ ·) <$> s.interpolate template cs := by
  have hbreak := breakAtDouble_prepend h cs
  cases ho : breakAtDouble '\x7b' cs with
  | none =>
    rw [ho] at hbreak
    rw [s.interpolate_of_none template hbreak, s.interpolate_of_none template ho, map_pure]
  | some opened =>
    obtain ⟨front, inside⟩ := opened
    rw [ho] at hbreak
    rw [s.interpolate_of_some template hbreak, s.interpolate_of_some template ho]
    cases breakAtDouble '\x7d' inside with
    | none => exact (map_pure _ _).symm
    | some closed => simp only [map_bind, map_pure, List.append_assoc]

/-- A text without braces behind another is kept as it is. -/
theorem interpolate_concat (cs : List Char) (hopen : '\x7b' ∉ after) (hclose : '\x7d' ∉ after) :
    s.interpolate template (cs ++ after) = (· ++ after) <$> s.interpolate template cs := by
  -- A placeholder leaves a shorter text behind it, in front of the same end.
  induction hn : cs.length using Nat.strongRecOn generalizing cs with
  | _ n ih =>
    have hbreak := breakAtDouble_concat cs hopen
    cases ho : breakAtDouble '\x7b' cs with
    | none =>
      rw [ho] at hbreak
      rw [s.interpolate_of_none template hbreak, s.interpolate_of_none template ho, map_pure]
    | some opened =>
      obtain ⟨front, inside⟩ := opened
      rw [ho] at hbreak
      rw [s.interpolate_of_some template hbreak, s.interpolate_of_some template ho,
        breakAtDouble_concat inside hclose]
      cases hc : breakAtDouble '\x7d' inside with
      | none => exact (map_pure _ _).symm
      | some closed =>
        obtain ⟨key, behind⟩ := closed
        have hinside := length_of_breakAtDouble ho
        have hbehind := length_of_breakAtDouble hc
        simp only [Option.map_some, map_bind, map_pure, ih _ (by omega) behind rfl,
          bind_map_left, List.append_assoc]

end

/-- Without the blanks around it, a template resolves to the same but for these blanks. -/
theorem Constant.resolveText_padded {s : Scope} (hs : s.Constant) {template : String}
    {before after core : List Char} {pieces : List Template.Piece} (hbefore : Text.Blank before)
    (hafter : Text.Blank after) (htemplate : template.toList = before ++ core ++ after)
    (hpieces : Template.Splits core pieces) :
    Reads.Gives (s.resolveText template) ((Template.written s template pieces).map fun text =>
      String.ofList (before ++ text ++ after)) := by
  have hopen : Text.isBlank '\x7b' = false := by decide
  have hclose : Text.isBlank '\x7d' = false := by decide
  have hpass := (((hs.interpolate template hpieces).map (before ++ ·)).map (· ++ after)).map
    String.ofList
  rw [← s.interpolate_prepend template (hbefore.not_mem hopen),
    ← s.interpolate_concat template _ (hafter.not_mem hopen) (hafter.not_mem hclose),
    ← htemplate, ← s.resolveText_eq_interpolate] at hpass
  cases hwritten : Template.written s template pieces with
  | error e =>
    rw [hwritten] at hpass
    exact hpass
  | ok text =>
    rw [hwritten] at hpass
    exact hpass

end Scope

namespace Template

/-- The same pieces leave the same text in every template, and fail for the same path. -/
theorem written_template (s : Scope) (template other : String) (pieces : List Piece) :
    written s other pieces =
      (written s template pieces).mapError fun u => { u with template := other } := by
  induction pieces with
  | nil => rfl
  | cons p pieces ih =>
    rw [written_cons, written_cons, ih]
    cases p with
    | literal text => cases written s template pieces <;> rfl
    | placeholder key =>
      simp only [Piece.written]
      cases s.find? key with
      | none => rfl
      | some v => cases written s template pieces <;> rfl

end Template

/-! ### Where a single placeholder ends -/

/-- A string is one placeholder if nothing but a path without pairs of braces stands between its
first two and its last two braces. -/
theorem wholePlaceholder?_eq_some_iff {template key : String} :
    wholePlaceholder? template = some key ↔ ∃ inside,
      Text.trim template.toList = '\x7b' :: '\x7b' :: (inside ++ ['\x7d', '\x7d']) ∧
      ¬['\x7b', '\x7b'] <:+: inside ∧ ¬['\x7d', '\x7d'] <:+: inside ∧
      key = String.ofList (Text.trim inside) := by
  rw [wholePlaceholder?]
  constructor
  · intro h
    split at h
    · rename_i cs htrim
      split at h
      · rename_i rest hreverse
        dsimp only at h
        split at h
        · rename_i hnone
          rw [Bool.and_eq_true, Option.isNone_iff_eq_none, Option.isNone_iff_eq_none,
            breakAtDouble_eq_none_iff, breakAtDouble_eq_none_iff] at hnone
          have hcs : cs = rest.reverse ++ ['\x7d', '\x7d'] := by
            rw [← List.reverse_inj, hreverse]
            simp
          exact ⟨rest.reverse, hcs ▸ htrim, hnone.1, hnone.2, (Option.some.inj h).symm⟩
        · cases h
      · cases h
    · cases h
  · rintro ⟨inside, htrim, hopen, hclose, rfl⟩
    rw [htrim]
    have hreverse : (inside ++ ['\x7d', '\x7d']).reverse =
        '\x7d' :: '\x7d' :: inside.reverse := by simp
    simp only [hreverse, List.reverse_reverse, breakAtDouble_eq_none_iff.mpr hopen,
      breakAtDouble_eq_none_iff.mpr hclose, Option.isNone_none, Bool.and_self, if_true]

/-- A string is two opening braces, a path and three closing braces, but for blanks around it, and
the path has no pair of braces and no closing brace at its end. If the last two of the three close
the placeholder, the first belongs to the path. If the first two do, the last stands behind it. -/
def Overclosed (template : String) (path : List Char) : Prop :=
  Text.trim template.toList =
      '\x7b' :: '\x7b' :: (path ++ ['\x7d', '\x7d', '\x7d']) ∧
    ¬['\x7b', '\x7b'] <:+: path ++ ['\x7d'] ∧ ¬['\x7d', '\x7d'] <:+: path ++ ['\x7d']

/-- An overclosed string counts as one placeholder, with the first closing brace in its path. -/
theorem Overclosed.whole {template : String} {path : List Char} (h : Overclosed template path) :
    wholePlaceholder? template = some (String.ofList (Text.trim (path ++ ['\x7d']))) := by
  refine wholePlaceholder?_eq_some_iff.mpr ⟨path ++ ['\x7d'], ?_, h.2.1, h.2.2, rfl⟩
  rw [h.1, List.append_assoc]
  rfl

namespace Template

/-- A text with no opening brace is one literal. -/
theorem splits_of_not_mem {cs : List Char} (h : '\x7b' ∉ cs) : Splits cs [.literal cs] :=
  .rest fun before inside hcs => absurd (hcs ▸ by simp) h

/-- Two opening braces, a path and two closing braces are one placeholder, if these are the first
closing braces that there are. -/
theorem splits_enclosed {path after : List Char} (hclose : ¬['\x7d', '\x7d'] <:+: path ++ ['\x7d'])
    (hafter : '\x7b' ∉ after) :
    Splits ('\x7b' :: '\x7b' :: (path ++ '\x7d' :: '\x7d' :: after))
      [.literal [], .placeholder (String.ofList (Text.trim path)), .literal after] :=
  @Splits.placeholder [] path after _ (by decide) hclose (splits_of_not_mem hafter)

end Template

open Provision.Template

/-- As a text, an overclosed string has a placeholder that its first two closing braces close. -/
theorem Overclosed.splits {template : String} {path : List Char} (h : Overclosed template path) :
    Splits (Text.trim template.toList)
      [.literal [], .placeholder (String.ofList (Text.trim path)), .literal ['\x7d']] :=
  h.1 ▸ splits_enclosed h.2.2 (by decide)

/-- Any other string that is one placeholder is the same placeholder as a text. -/
theorem splits_of_wholePlaceholder {template key : String}
    (hkey : wholePlaceholder? template = some key) (h : ¬∃ path, Overclosed template path) :
    Splits (Text.trim template.toList) [.literal [], .placeholder key, .literal []] := by
  obtain ⟨inside, htrim, hopen, hclose, rfl⟩ := wholePlaceholder?_eq_some_iff.mp hkey
  have hfirst : ¬['\x7d', '\x7d'] <:+: inside ++ ['\x7d'] := by
    intro hpair
    -- A pair that reaches into the closing braces needs a third one in front of them.
    rcases List.infix_concat_iff.mp hpair with hend | hinside
    · obtain hnil | ⟨last, hlast, path, rfl⟩ := List.suffix_concat_iff.mp hend
      · cases hnil
      · obtain rfl : last = ['\x7d'] := (List.append_left_inj ['\x7d']).mp hlast.symm
        rw [List.append_assoc] at htrim
        exact h ⟨path, htrim, hopen, hclose⟩
    · exact hclose hinside
  rw [htrim]
  exact splits_enclosed hfirst (by decide)

/-- The path of an overclosed string that is read as one placeholder is longer than the path that
is read in the text. -/
theorem trim_concat_ne (path : List Char) : Text.trim (path ++ ['\x7d']) ≠ Text.trim path := by
  intro h
  rw [Text.trim_concat (by decide), Text.trim] at h
  have hlength := congrArg List.length h
  have hle := (Text.trimEnd_isPrefix (Text.trimStart path)).length_le
  rw [List.length_append, List.length_singleton] at hlength
  omega

/-! ### Values and texts -/

namespace Scope

/-- What a path leads to, or the failure that names it and the template it stands in. -/
def found (s : Scope) (template key : String) : Except Undefined Value :=
  match s.find? key with
  | some v => .ok v
  | none => .error { name := key, template }

/-- A placeholder has the value that its path leads to. -/
theorem Constant.placeholder_found {s : Scope} (hs : s.Constant) (template key : String) :
    Reads.Gives (s.placeholder template key) (s.found template key) := by
  unfold found
  cases hv : s.find? key with
  | none => exact hs.placeholder_none template hv
  | some v => exact hs.placeholder_some template hv

end Scope

/-- A value that a string resolves to accords with the text that it resolves to without the blanks
around it: that is the text of the value, or it is but for these blanks. Failures accord if they
are those of one path. -/
inductive Accords (template : String) : Except Undefined Value → Except Undefined String → Prop
  | value (v : Value) : Accords template (.ok v) (.ok v.text)
  | padded {v : Value} {text : String} {before after : List Char} (hbefore : Text.Blank before)
      (hafter : Text.Blank after)
      (htemplate : template.toList = before ++ Text.trim template.toList ++ after)
      (hv : v.text.toList = before ++ text.toList ++ after) : Accords template (.ok v) (.ok text)
  | undefined (key : String) :
      Accords template (.error ⟨key, template⟩) (.error ⟨key, Text.trimmed template⟩)

/-- Failures that accord name the same path. -/
theorem Accords.name_eq {template : String} {u u' : Undefined}
    (h : Accords template (.error u) (.error u')) : u.name = u'.name := by
  cases h
  rfl

namespace Scope

section

variable {s : Scope} (hs : s.Constant) {template : String}

include hs

/-- A string that is one placeholder resolves to the value of its path. -/
theorem Constant.resolve_whole {key : String} (hkey : wholePlaceholder? template = some key) :
    Reads.Gives (s.resolve (.string template)) (s.found template key) := by
  have hresolve : s.resolve (.string template) = s.placeholder template key := by
    rw [resolve, resolveString, hkey]
  rw [hresolve]
  exact hs.placeholder_found template key

/-- A string without the blanks around it resolves to what its pieces leave. -/
theorem Constant.resolveText_trimmed {pieces : List Piece}
    (h : Splits (Text.trim template.toList) pieces) :
    Reads.Gives (s.resolveText (Text.trimmed template))
      ((written s (Text.trimmed template) pieces).map String.ofList) := by
  rw [s.resolveText_eq_interpolate, Text.trimmed, String.toList_ofList]
  exact (hs.interpolate _ h).map _

/-- The text of a placeholder that stands in front of a literal. -/
theorem Constant.resolveText_enclosed {key : String} {after : List Char}
    (h : Splits (Text.trim template.toList) [.literal [], .placeholder key, .literal after]) :
    Reads.Gives (s.resolveText (Text.trimmed template))
      ((s.found (Text.trimmed template) key).map fun v => v.text ++ String.ofList after) := by
  have htext := hs.resolveText_trimmed h
  rw [written_cons, written_cons, written_literal] at htext
  simp only [Piece.written, found] at htext ⊢
  cases hv : s.find? key with
  | none =>
    rw [hv] at htext
    exact htext
  | some v =>
    rw [hv] at htext
    have hchars : v.text ++ String.ofList after = String.ofList ([] ++ (v.chars ++ after)) := by
      rw [List.nil_append, String.ofList_append, Value.text]
    rw [Except.map, hchars]
    exact htext

/-- An overclosed string is looked up with a brace that is left in the text. -/
theorem Constant.resolve_overclosed {path : List Char} (h : Overclosed template path) :
    Reads.Gives (s.resolve (.string template))
        (s.found template (String.ofList (Text.trim (path ++ ['\x7d'])))) ∧
      Reads.Gives (s.resolveText (Text.trimmed template))
        ((s.found (Text.trimmed template) (String.ofList (Text.trim path))).map
          fun v => v.text ++ "\x7d") :=
  ⟨hs.resolve_whole h.whole, hs.resolveText_enclosed h.splits⟩

/-- Any other string resolves to a value that accords with its text. -/
theorem Constant.resolve_accords (h : ¬∃ path, Overclosed template path) :
    ∃ value text, Reads.Gives (s.resolve (.string template)) value ∧
      Reads.Gives (s.resolveText (Text.trimmed template)) text ∧
      Accords template value text := by
  cases hkey : wholePlaceholder? template with
  | some key =>
    have htext := hs.resolveText_enclosed (splits_of_wholePlaceholder hkey h)
    refine ⟨_, _, hs.resolve_whole hkey, htext, ?_⟩
    unfold found
    cases s.find? key with
    | none => exact .undefined key
    | some v =>
      have hv : Accords template (.ok v) (.ok v.text) := .value v
      rwa [← String.append_empty (s := v.text)] at hv
  | none =>
    obtain ⟨before, after, hbefore, hafter, htemplate⟩ := Text.exists_padding template.toList
    obtain ⟨pieces, hpieces⟩ := exists_splits (Text.trim template.toList)
    have hresolve : s.resolve (.string template) = Value.string <$> s.resolveText template := by
      rw [resolve, resolveString, hkey]
    have hvalue := (hs.resolveText_padded hbefore hafter htemplate hpieces).map Value.string
    rw [← hresolve] at hvalue
    refine ⟨_, _, hvalue, hs.resolveText_trimmed hpieces, ?_⟩
    have hown := written_template s template template pieces
    rw [written_template s template (Text.trimmed template)]
    cases hwritten : written s template pieces with
    | error u =>
      rw [hwritten] at hown
      rw [Except.error.inj hown]
      exact .undefined u.name
    | ok text =>
      refine .padded hbefore hafter htemplate ?_
      simp [Value.text, Value.chars, Value.scalarChars]

end

/-! ### A placeholder as a template -/

section

/-- A text with one character at its end, and nowhere else, has no pair of it. -/
theorem not_pair_infix_concat {c : Char} {cs : List Char} (h : c ∉ cs) :
    ¬[c, c] <:+: cs ++ [c] := by
  intro hpair
  have hcount := hpair.sublist.count_le c
  rw [List.count_append, List.count_eq_zero_of_not_mem h] at hcount
  simp at hcount

/-- The placeholder of a path, as a template of its own. -/
def mention (path : String) : String := "\x7b\x7b " ++ path ++ " \x7d\x7d"

/-- A mention is a path with a blank and a pair of braces on each side. -/
theorem toList_mention (path : String) :
    (mention path).toList = '\x7b' :: '\x7b' ::
      (([' '] ++ path.toList ++ [' ']) ++ '\x7d' :: '\x7d' :: []) := by
  simp [mention]

/-- A mention has no blanks around it. -/
theorem trim_mention (path : String) :
    Text.trim (mention path).toList = (mention path).toList := by
  have hconcat : (mention path).toList =
      ('\x7b' :: '\x7b' :: ' ' :: path.toList ++ [' ', '\x7d']) ++ ['\x7d'] := by
    simp [mention]
  rw [hconcat, Text.trim_concat (by decide), Text.trimStart, List.cons_append,
    List.dropWhile_cons_of_neg (by decide)]

variable {s : Scope} {path : String} {v : Value}

/-- The placeholder of a path has the value of the path, and as a text the text of this value. -/
theorem Constant.resolve_mention (hs : s.Constant) (hopen : '\x7b' ∉ path.toList)
    (hclose : '\x7d' ∉ path.toList) (htrim : Text.trim path.toList = path.toList)
    (hv : s.find? path = some v) :
    Reads.Gives (s.resolve (.string (mention path))) (.ok v) ∧
      Reads.Gives (s.resolveText (mention path)) (.ok v.text) := by
  have hfound (template : String) : s.found template path = .ok v := by rw [found, hv]
  have hinside : Text.trim ([' '] ++ path.toList ++ [' ']) = path.toList := by
    rw [Text.trim_padded (by decide) _ (by decide), htrim]
  have hkey : String.ofList (Text.trim ([' '] ++ path.toList ++ [' '])) = path := by
    rw [hinside, String.ofList_toList]
  have hclosed : '\x7d' ∉ [' '] ++ path.toList ++ [' '] := by simpa using hclose
  constructor
  · have hwhole : wholePlaceholder? (mention path) = some path := by
      refine wholePlaceholder?_eq_some_iff.mpr
        ⟨[' '] ++ path.toList ++ [' '], ?_, fun hpair => ?_, fun hpair => ?_, hkey.symm⟩
      · rw [trim_mention, toList_mention]
      · exact absurd (hpair.subset List.mem_cons_self) (by simpa using hopen)
      · exact absurd (hpair.subset List.mem_cons_self) hclosed
    exact hfound _ ▸ hs.resolve_whole hwhole
  · have hsplits := @Template.splits_enclosed _ [] (not_pair_infix_concat hclosed)
      List.not_mem_nil
    rw [hkey, ← toList_mention, ← trim_mention] at hsplits
    have htext := hs.resolveText_enclosed hsplits
    rw [Text.trimmed, trim_mention, String.ofList_toList, hfound] at htext
    rwa [Except.map, String.ofList_nil, String.append_empty] at htext

end

/-! ### Strings whose value and text accord -/

/-- The empty scope is one of constants. -/
theorem constant_empty : Scope.Constant {} := nofun

/-- Without variables there is nothing to find. -/
theorem find?_empty (path : String) : Scope.find? {} path = none := by
  obtain ⟨name, keys, hpath⟩ := exists_segments path
  rw [find?_of_segments hpath]
  rfl

/-- In every scope of constants, what a string resolves to as a value accords with its text, unless
the string is overclosed. An overclosed string is looked up with one brace too many, which the text
puts behind the value of the path without it. So the two never fail for the same path, and where
the one fails the other need not. -/
theorem accords_iff_not_overclosed (template : String) :
    ((∀ s : Scope, s.Constant → ∃ value text, Reads.Gives (s.resolve (.string template)) value ∧
        Reads.Gives (s.resolveText (Text.trimmed template)) text ∧
        Accords template value text) ↔ ¬∃ path, Overclosed template path) ∧
      ∀ path, Overclosed template path → ∀ s : Scope, s.Constant →
        Reads.Gives (s.resolve (.string template))
            (s.found template (String.ofList (Text.trim (path ++ ['\x7d'])))) ∧
          Reads.Gives (s.resolveText (Text.trimmed template))
            ((s.found (Text.trimmed template) (String.ofList (Text.trim path))).map
              fun v => v.text ++ "\x7d") := by
  refine ⟨⟨?_, fun h s hs => hs.resolve_accords h⟩, fun path h s hs => hs.resolve_overclosed h⟩
  rintro hall ⟨path, h⟩
  -- Without any variables both fail, and name the path as they read it.
  obtain ⟨value, text, hvalue, htext, haccords⟩ := hall {} constant_empty
  obtain ⟨hwhole, henclosed⟩ := constant_empty.resolve_overclosed h
  rw [found, find?_empty] at hwhole henclosed
  obtain rfl := hwhole.unique hvalue
  obtain rfl := henclosed.unique htext
  exact trim_concat_ne path (String.ofList_injective haccords.name_eq)

/-- The template `{{a}}}`. -/
def overclosing : String := "\x7b\x7ba\x7d\x7d\x7d"

/-- A scope in which `a` is one. -/
def single : Scope := OrderedMap.ofList [("a", .constant (.int 1))]

/-- That scope is one of constants. -/
theorem constant_single : single.Constant := OrderedMap.forall_insert nofun ⟨_, rfl⟩

/-- A value need not be found where the text is resolved. -/
theorem overclosing_discords :
    single.Constant ∧
      Reads.Gives (single.resolve (.string overclosing)) (.error ⟨"a\x7d", overclosing⟩) ∧
      Reads.Gives (single.resolveText (Text.trimmed overclosing)) (.ok "1\x7d") := by
  have h : Overclosed overclosing ['a'] := ⟨by decide, by decide, by decide⟩
  obtain ⟨hvalue, htext⟩ := constant_single.resolve_overclosed h
  exact ⟨constant_single, hvalue, htext⟩

end Scope

end Provision

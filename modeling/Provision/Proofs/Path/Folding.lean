import Provision.Proofs.Text.Segments

/-!
# Paths in normal form

Folding goes through the components of a path with a stack of names. What is left is a list of
names below the root or below no place in particular, and the path that is written from it has
exactly these components. So a path that was folded is folded to itself, and a name that is put
behind it is one more name of the list.
-/

namespace Provision

namespace Text

variable {sep : Char} {pieces : List (List Char)}

/-- No piece of a text has the separator in it. -/
theorem not_mem_of_mem_split {cs piece : List Char} (h : piece ∈ split sep cs) : sep ∉ piece := by
  induction cs generalizing piece with
  | nil =>
    obtain rfl := List.mem_singleton.mp h
    exact List.not_mem_nil
  | cons c cs ih =>
    rw [split] at h
    by_cases hc : c = sep
    · rw [if_pos hc] at h
      rcases List.mem_cons.mp h with rfl | hmem
      · exact List.not_mem_nil
      · exact ih hmem
    · rw [if_neg hc] at h
      cases hs : split sep cs with
      | nil => exact absurd hs (split_ne_nil sep cs)
      | cons first rest =>
        rw [hs] at h ih
        rcases List.mem_cons.mp h with rfl | hmem
        · have hfirst : sep ∉ first := ih List.mem_cons_self
          simp [Ne.symm hc, hfirst]
        · exact ih (List.mem_cons_of_mem first hmem)

/-- A piece that is put behind others is joined to them by a separator. -/
theorem join_concat (hne : pieces ≠ []) (last : List Char) :
    join sep (pieces ++ [last]) = join sep pieces ++ sep :: last := by
  induction pieces with
  | nil => exact absurd rfl hne
  | cons piece rest ih =>
    cases rest with
    | nil => rfl
    | cons next rest =>
      have hrest := ih (List.cons_ne_nil next rest)
      simp only [List.cons_append, join] at hrest ⊢
      rw [hrest, List.append_assoc, List.cons_append]

/-- What is put behind joined pieces is put behind the last of them. -/
theorem join_concat_append (last cs : List Char) :
    join sep (pieces ++ [last]) ++ cs = join sep (pieces ++ [last ++ cs]) := by
  by_cases hne : pieces = []
  · rw [hne]
    rfl
  · rw [join_concat hne, join_concat hne, List.append_assoc, List.cons_append]

end Text

namespace Path

/-- A segment is a name, and not a sign for where the path is or where it came from. -/
structure IsName (s : List Char) : Prop where
  ne_nil : s ≠ []
  ne_dot : s ≠ ['.']
  ne_dots : s ≠ ['.', '.']
  not_mem : '/' ∉ s

/-- The segments of a normal form are names. -/
def Folded.Normal (f : Folded) : Prop := ∀ s ∈ f.names, IsName s

/-- The path that is written from a normal form. -/
def Folded.path (f : Folded) : Path := ⟨String.ofList f.chars⟩

/-! ### Folding -/

/-- A segment that is named by a component is a name. -/
theorem isName_of_mem_components {p : Path} {s : List Char} (h : .name s ∈ p.components) :
    IsName s := by
  -- In front of the segments there is no name.
  have hfront : .name s ∉ p.front := by
    rw [front]
    split
    · simp
    · split <;> simp
  obtain ⟨t, ht, hcomponent⟩ : ∃ t ∈ p.segments.filter (! isSilent ·),
      Component.ofSegment t = .name s :=
    List.mem_map.mp ((List.mem_append.mp h).resolve_left hfront)
  obtain ⟨hsegment, hloud⟩ := List.mem_filter.mp ht
  have hdots : t ≠ ['.', '.'] ∧ t = s := by
    rw [Component.ofSegment] at hcomponent
    split at hcomponent
    · cases hcomponent
    · cases hcomponent
      exact ⟨‹_›, rfl⟩
  obtain ⟨hne, rfl⟩ := hdots
  have hsilent : t ≠ [] ∧ t ≠ ['.'] := by simpa [isSilent] using hloud
  exact ⟨hsilent.1, hsilent.2, hne, Text.not_mem_of_mem_split hsegment⟩

namespace Folded

variable {f : Folded}

/-- A name may be put behind the names of a normal form. -/
theorem Normal.concat (hf : f.Normal) {s : List Char} (hs : IsName s) :
    Normal { f with names := f.names ++ [s] } :=
  List.forall_mem_append.mpr ⟨hf, List.forall_mem_singleton.mpr hs⟩

/-- Every component leaves a list of names. -/
theorem Normal.step (hf : f.Normal) {c : Component} (hc : ∀ s, c = .name s → IsName s) :
    (f.step c).Normal := by
  cases c with
  | root => exact nofun
  | current => exact hf
  | parent => exact fun s hs => hf s (List.dropLast_subset f.names hs)
  | name s => exact hf.concat (hc s rfl)

/-- Folding more components leads to a normal form again. -/
theorem Normal.foldl (hf : f.Normal) {cs : List Component} (hcs : ∀ s, .name s ∈ cs → IsName s) :
    (cs.foldl Folded.step f).Normal := by
  induction cs generalizing f with
  | nil => exact hf
  | cons c cs ih =>
    refine ih (hf.step fun s hs => hcs s (hs ▸ List.mem_cons_self)) fun s hs => ?_
    exact hcs s (List.mem_cons_of_mem c hs)

/-- Below the start, no component makes a path start elsewhere. -/
theorem absolute_foldl {cs : List Component} (h : .root ∉ cs) :
    (cs.foldl Folded.step f).absolute = f.absolute := by
  induction cs generalizing f with
  | nil => rfl
  | cons c cs ih =>
    obtain ⟨hc, hcs⟩ : .root ≠ c ∧ .root ∉ cs := by simpa using h
    have hstep : (f.step c).absolute = f.absolute := by
      cases c with
      | root => exact absurd rfl hc
      | current | parent | name => rfl
    rw [List.foldl_cons, ih hcs, hstep]

/-- Names are added to those that there are. -/
theorem foldl_names (names : List (List Char)) :
    (names.map Component.name).foldl Folded.step f = { f with names := f.names ++ names } := by
  induction names generalizing f with
  | nil => simp
  | cons s names ih => simp [ih, Folded.step]

end Folded

/-- What is left of a path is a list of names. -/
theorem fold_normal (p : Path) : p.fold.Normal :=
  Folded.Normal.foldl (f := ⟨false, []⟩) nofun fun _ => isName_of_mem_components

/-- What is left of a path starts where the path does. -/
theorem fold_absolute (p : Path) : p.fold.absolute = p.isAbsolute := by
  have hroot : .root ∉ componentsOf p.segments := by
    intro h
    obtain ⟨s, -, hs⟩ := List.mem_map.mp h
    rw [Component.ofSegment] at hs
    split at hs <;> cases hs
  rw [fold, components, List.foldl_append, Folded.absolute_foldl hroot, front]
  split
  · rename_i habsolute
    exact habsolute.symm
  · rename_i hrelative
    rw [Bool.eq_false_iff.mpr hrelative]
    split <;> rfl

/-! ### Writing -/

variable {f : Folded} {s : List Char}

/-- Names are components just as they are. -/
theorem componentsOf_names {names : List (List Char)} (h : ∀ s ∈ names, IsName s) :
    componentsOf names = names.map .name := by
  have hloud : names.filter (! isSilent ·) = names := by
    refine List.filter_eq_self.mpr fun s hs => ?_
    simp [isSilent, (h s hs).ne_nil, (h s hs).ne_dot]
  rw [componentsOf, hloud]
  exact List.map_congr_left fun s hs => if_neg (h s hs).ne_dots

/-- Names that are joined are the components again. -/
theorem componentsOf_split_join {names : List (List Char)} (h : ∀ s ∈ names, IsName s) :
    componentsOf (Text.split '/' (Text.join '/' names)) = names.map .name := by
  by_cases hne : names = []
  · rw [hne]
    rfl
  · rw [Text.split_join hne fun s hs => (h s hs).not_mem, componentsOf_names h]

namespace Folded

/-- Names that are joined do not begin with a slash. -/
theorem head?_join_ne {names : List (List Char)} (h : ∀ s ∈ names, IsName s) :
    (Text.join '/' names).head? ≠ some '/' := by
  cases names with
  | nil => simp [Text.join]
  | cons s rest =>
    have hs := h s List.mem_cons_self
    obtain ⟨c, cs, rfl⟩ := List.exists_cons_of_ne_nil hs.ne_nil
    have hhead : (Text.join '/' ((c :: cs) :: rest)).head? = (c :: cs).head? := by
      cases rest <;> rfl
    rw [hhead]
    exact fun hslash => hs.not_mem (List.mem_of_head? hslash)

/-- A path that was folded is written in the characters of what is left. -/
theorem text_path (f : Folded) : f.path.text.toList = f.chars := String.toList_ofList

/-- It is absolute if what was folded is. -/
theorem Normal.isAbsolute_path (hf : f.Normal) : f.path.isAbsolute = f.absolute := by
  rw [isAbsolute, text_path, chars]
  cases f.absolute with
  | true => rfl
  | false => simpa using head?_join_ne hf

/-- The path that is written has the names for its components. -/
theorem Normal.components_path (hf : f.Normal) :
    f.path.components = (if f.absolute then [.root] else []) ++ f.names.map .name := by
  rw [components, front, hf.isAbsolute_path, segments, text_path, chars]
  cases f.absolute with
  | true =>
    -- The root makes one more segment in front, which is passed over.
    have hsplit : Text.split '/' ('/' :: Text.join '/' f.names) =
        [] :: Text.split '/' (Text.join '/' f.names) := rfl
    have hsilent (segs : List (List Char)) : componentsOf ([] :: segs) = componentsOf segs := rfl
    rw [if_pos rfl, if_pos rfl, if_pos rfl, hsplit, hsilent, componentsOf_split_join hf]
  | false =>
    -- A dot in front would count, but there is a name if there is anything.
    have hhead : (Text.split '/' (Text.join '/' f.names)).head? ≠ some ['.'] := by
      cases hnames : f.names with
      | nil => decide
      | cons s rest =>
        have hall : ∀ t ∈ s :: rest, IsName t := hnames ▸ hf
        rw [Text.split_join (List.cons_ne_nil s rest) fun t ht => (hall t ht).not_mem]
        intro hs
        exact (hall s List.mem_cons_self).ne_dot (Option.some.inj hs)
    simp only [Bool.false_eq_true, if_false, beq_iff_eq, hhead, componentsOf_split_join hf]

/-- The path that is written is folded to what it is written from. -/
theorem Normal.fold_path (hf : f.Normal) : f.path.fold = f := by
  rw [fold, hf.components_path, List.foldl_append, foldl_names]
  obtain ⟨absolute, names⟩ := f
  cases absolute <;> rfl

/-- Folding a path in normal form changes nothing. -/
theorem Normal.normalize_path (hf : f.Normal) : f.path.normalize = f.path :=
  congrArg path hf.fold_path

/-- There is no separator at the end, unless the path is the root. -/
theorem Normal.getLast?_chars (hf : f.Normal) (hne : f.names ≠ []) :
    ∃ c, f.chars.getLast? = some c ∧ c ≠ '/' := by
  have hnames := List.dropLast_concat_getLast hne
  have hlast : IsName (f.names.getLast hne) := hf _ (List.getLast_mem hne)
  have hsuffix : f.names.getLast hne <:+ f.chars := by
    have hjoin : f.names.getLast hne <:+ Text.join '/' f.names := by
      have hconcat := Text.suffix_join '/' f.names.dropLast (f.names.getLast hne)
      rwa [hnames] at hconcat
    rw [chars]
    split
    · exact hjoin.trans (List.suffix_cons '/' _)
    · exact hjoin
  obtain ⟨before, hbefore⟩ := hsuffix
  have hend : f.chars.getLast? = some ((f.names.getLast hne).getLast hlast.ne_nil) := by
    rw [← hbefore, List.getLast?_append, List.getLast?_eq_some_getLast hlast.ne_nil,
      Option.some_or]
  exact ⟨_, hend, fun hslash => hlast.not_mem (hslash ▸ List.getLast_mem hlast.ne_nil)⟩

/-- A name that is put behind a path is one more name of the list. -/
theorem Normal.join_path (hf : f.Normal) (hs : IsName s) :
    f.path.join ⟨String.ofList s⟩ = path { f with names := f.names ++ [s] } := by
  have hrelative : (⟨String.ofList s⟩ : Path).isAbsolute = false := by
    rw [isAbsolute, String.toList_ofList, beq_eq_false_iff_ne]
    exact fun h => hs.not_mem (List.mem_of_head? h)
  -- A separator is put between the two, but not behind the root and not behind nothing.
  by_cases hne : f.names = []
  · obtain ⟨absolute, names⟩ := f
    obtain rfl : names = [] := hne
    cases absolute with
    | false =>
      rw [join, if_pos (.inr rfl)]
      rfl
    | true =>
      rw [join, hrelative, if_neg (by decide), if_pos (by decide)]
      refine congrArg Path.mk (String.toList_inj.mp ?_)
      rw [String.toList_append, String.toList_ofList, text_path, String.toList_ofList]
      rfl
  · obtain ⟨c, hlast, hc⟩ := hf.getLast?_chars hne
    have hempty : f.path.text ≠ "" := by
      intro h
      rw [← text_path, h] at hlast
      cases hlast
    rw [join, hrelative, if_neg (by simp [hempty]), text_path, hlast,
      if_neg (fun h => hc (Option.some.inj h))]
    refine congrArg Path.mk (String.toList_inj.mp ?_)
    rw [String.toList_append, String.toList_append, String.toList_ofList, text_path,
      String.toList_ofList, chars, chars, Text.join_concat hne]
    cases f.absolute <;> simp

/-- A name that is joined to a normal path is one more component. -/
theorem Normal.components_join (hf : f.Normal) (hs : IsName s) :
    (f.path.join ⟨String.ofList s⟩).components = f.path.components ++ [.name s] := by
  rw [hf.join_path hs, (hf.concat hs).components_path, hf.components_path, List.map_append,
    List.append_assoc]
  rfl

end Folded

end Path

end Provision

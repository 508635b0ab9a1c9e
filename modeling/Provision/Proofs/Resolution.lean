import Provision.Host

/-!
# Resolution of targets

A target that is an absolute path is resolved in the same way from every directory. If it
ends in the extension of recipe files, then so does its normal form, and nothing is appended.
-/

namespace Provision

namespace Text

variable {sep : Char}

/-- A text without the separator is one piece. -/
theorem split_of_not_mem {cs : List Char} (h : sep ∉ cs) : split sep cs = [cs] := by
  induction cs with
  | nil => rfl
  | cons c cs ih =>
    obtain ⟨hc, hcs⟩ : sep ≠ c ∧ sep ∉ cs := by simpa using h
    rw [split, if_neg (Ne.symm hc), ih hcs]

/-- A text without a separator stays whole at the end of the last piece. -/
theorem split_append_of_not_mem (front : List Char) {cs : List Char} (h : sep ∉ cs) :
    ∃ before piece, split sep (front ++ cs) = before ++ [piece ++ cs] := by
  induction front with
  | nil => exact ⟨[], [], split_of_not_mem h⟩
  | cons c front ih =>
    obtain ⟨before, piece, hsplit⟩ := ih
    rw [List.cons_append, split, hsplit]
    by_cases hc : c = sep
    · exact ⟨[] :: before, piece, if_pos hc⟩
    · rw [if_neg hc]
      cases before with
      | nil => exact ⟨[], c :: piece, rfl⟩
      | cons first before => exact ⟨(c :: first) :: before, piece, rfl⟩

/-- What is joined ends with the last of the pieces. -/
theorem suffix_join (sep : Char) (pieces : List (List Char)) (last : List Char) :
    last <:+ join sep (pieces ++ [last]) := by
  induction pieces with
  | nil => exact List.suffix_refl last
  | cons piece rest ih =>
    obtain ⟨next, later, hrest⟩ : ∃ next later, rest ++ [last] = next :: later := by
      cases rest with
      | nil => exact ⟨last, [], rfl⟩
      | cons next later => exact ⟨next, later ++ [last], rfl⟩
    rw [hrest] at ih
    rw [List.cons_append, hrest, join]
    · exact ih.trans ((List.suffix_cons sep _).trans (List.suffix_append piece _))
    · exact List.cons_ne_nil next later

end Text

namespace Path

variable {p : Path}

/-- An absolute path takes the place of what it is joined to. -/
theorem join_of_isAbsolute (base : Path) (h : p.isAbsolute = true) : base.join p = p := by
  rw [join, if_pos (.inl h)]

/-- The normal form ends in whatever the path ends in, unless a dot may be the whole of its
last segment. -/
theorem suffix_normalize {name : List Char} (hsep : '/' ∉ name) (hlong : 2 < name.length)
    (h : name <:+ p.text.toList) : name <:+ p.normalize.text.toList := by
  obtain ⟨front, hfront⟩ := h
  obtain ⟨before, piece, hsplit⟩ := Text.split_append_of_not_mem front hsep
  have hlength : 2 < (piece ++ name).length := by
    rw [List.length_append]
    omega
  have hnamed : componentsOf [piece ++ name] = [.name (piece ++ name)] := by
    have hsilent : isSilent (piece ++ name) = false := by
      rw [isSilent, Bool.or_eq_false_iff, beq_eq_false_iff_ne, beq_eq_false_iff_ne]
      constructor <;> exact fun h => by simp [h] at hlength
    have hparent : piece ++ name ≠ ['.', '.'] := fun h => by simp [h] at hlength
    simp [componentsOf, hsilent, Component.ofSegment, hparent]
  have hcomponents : p.components =
      (p.front ++ componentsOf before) ++ [.name (piece ++ name)] := by
    rw [components, segments, ← hfront, hsplit, List.append_assoc, ← hnamed]
    simp [componentsOf]
  have hfold : ∃ f : Folded, p.fold = { f with names := f.names ++ [piece ++ name] } := by
    rw [fold, hcomponents, List.foldl_append]
    exact ⟨_, rfl⟩
  obtain ⟨f, hf⟩ := hfold
  have hjoin : name <:+ Text.join '/' (f.names ++ [piece ++ name]) :=
    (List.suffix_append piece name).trans (Text.suffix_join '/' f.names (piece ++ name))
  rw [normalize, hf, Folded.chars, String.toList_ofList]
  split
  · exact hjoin.trans (List.suffix_cons '/' _)
  · exact hjoin

/-- An absolute path is only normalized. -/
theorem expand_of_isAbsolute (home : Option Path) (base : Path) (h : p.isAbsolute = true) :
    expand home base p.text = p.normalize := by
  have hjoin : base.join ⟨p.text⟩ = p := join_of_isAbsolute base h
  -- The text does not begin with a tilde.
  obtain ⟨rest, htext⟩ : ∃ rest, p.text.toList = '/' :: rest := by
    rw [isAbsolute, beq_iff_eq] at h
    exact List.head?_eq_some_iff.mp h
  unfold expand
  rw [htext, hjoin]
  rfl

end Path

/-- A path that ends in the extension is resolved to its normal form, from everywhere. -/
theorem Host.resolve_of_isAbsolute (host : Host) (base : Path) {p : Path}
    (habsolute : p.isAbsolute = true) (hextension : extension <:+ p.text.toList)
    (hfile : host.isDirectory p.normalize = false) :
    host.resolve base p.text = p.normalize := by
  have hends : extension <:+ p.normalize.text.toList :=
    Path.suffix_normalize (by decide) (by decide) hextension
  rw [resolve, Path.expand_of_isAbsolute _ _ habsolute, hfile, if_neg Bool.false_ne_true,
    withExtension]
  exact if_pos (List.isSuffixOf_iff_suffix.mpr hends)

end Provision

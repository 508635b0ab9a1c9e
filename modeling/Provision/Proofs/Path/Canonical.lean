import Provision.Proofs.Path.Folding

/-!
# Canonical paths of recipes

A target is resolved to a path that is written in one way only: it starts at the root, has no
dots to follow, and no separator more than it needs. Whatever is put behind the expanded target
keeps it that way. So the path of a recipe file, taken as a target itself, is resolved to itself
from every directory, and recipes are the same file if their paths are the same text.
-/

namespace Provision

/-- An empty piece behind a separator is a piece of the whole text that is not the first. -/
theorem Text.nil_mem_of_split {sep : Char} {front behind first : List Char}
    {pieces : List (List Char)} (h : split sep (front ++ sep :: behind) = first :: pieces)
    (hbehind : [] ∈ split sep behind) : [] ∈ pieces := by
  rw [split_append] at h
  cases hfront : split sep front with
  | nil => exact absurd hfront (split_ne_nil sep front)
  | cons piece rest =>
    rw [hfront, List.cons_append] at h
    rw [← (List.cons_eq_cons.mp h).2]
    exact List.mem_append_right rest hbehind

namespace Path

/-- A path is absolute, no segment of it is a dot or two dots, and there are no separators side by
side or at the end. -/
structure Canonical (p : Path) : Prop where
  absolute : p.isAbsolute = true
  current : ['.'] ∉ p.segments
  parent : ['.', '.'] ∉ p.segments
  single : ¬['/', '/'] <:+: p.text.toList
  trailing : ¬['/'] <:+ p.text.toList

namespace Folded

variable {f : Folded}

/-- The segments of an absolute path are nothing, in front of the root, and the names. -/
theorem Normal.segments_path (hf : f.Normal) (habsolute : f.absolute = true) (hne : f.names ≠ []) :
    f.path.segments = [] :: f.names := by
  have hsplit : Text.split '/' ('/' :: Text.join '/' f.names) =
      [] :: Text.split '/' (Text.join '/' f.names) := rfl
  rw [segments, text_path, chars, if_pos habsolute, hsplit,
    Text.split_join hne fun s hs => (hf s hs).not_mem]

/-- What is written from names below the root is canonical. -/
theorem Normal.canonical_path (hf : f.Normal) (habsolute : f.absolute = true)
    (hne : f.names ≠ []) : f.path.Canonical := by
  have hsegments := hf.segments_path habsolute hne
  have hnil : [] ∉ f.names := fun h => (hf [] h).ne_nil rfl
  have hsplit : Text.split '/' f.path.text.toList = [] :: f.names := hsegments
  -- A separator too many would leave an empty segment among the names.
  refine ⟨hf.isAbsolute_path.trans habsolute, ?_, ?_, ?_, ?_⟩
  · rw [hsegments]
    intro h
    rcases List.mem_cons.mp h with h | h
    · cases h
    · exact (hf _ h).ne_dot rfl
  · rw [hsegments]
    intro h
    rcases List.mem_cons.mp h with h | h
    · cases h
    · exact (hf _ h).ne_dots rfl
  · rintro ⟨before, after, htext⟩
    rw [← htext, List.append_assoc] at hsplit
    exact hnil (Text.nil_mem_of_split hsplit List.mem_cons_self)
  · rintro ⟨before, htext⟩
    rw [← htext] at hsplit
    exact hnil (Text.nil_mem_of_split hsplit List.mem_cons_self)

end Folded

/-! ### Expanded targets -/

/-- An absolute path begins with a slash. -/
theorem isAbsolute_iff {p : Path} : p.isAbsolute = true ↔ ∃ rest, p.text.toList = '/' :: rest := by
  rw [isAbsolute, beq_iff_eq, List.head?_eq_some_iff]

/-- Relative to an absolute path, every path is absolute. -/
theorem isAbsolute_join {base : Path} (h : base.isAbsolute = true) (p : Path) :
    (base.join p).isAbsolute = true := by
  obtain ⟨rest, hrest⟩ := isAbsolute_iff.mp h
  by_cases hp : p.isAbsolute = true
  · rwa [join_of_isAbsolute base hp]
  · have hne : base.text ≠ "" := by
      intro hempty
      rw [hempty] at hrest
      cases hrest
    rw [join, if_neg (by simp [hp, hne]), isAbsolute_iff]
    split
    · exact ⟨rest ++ p.text.toList, by simp [hrest]⟩
    · exact ⟨rest ++ '/' :: p.text.toList, by simp [hrest]⟩

/-- From an absolute directory, a target is expanded to the normal form of an absolute path. -/
theorem exists_expand {home : Option Path} {base : Path} (hbase : base.isAbsolute = true)
    (hhome : ∀ p, home = some p → p.isAbsolute = true) (target : String) :
    ∃ f : Folded, f.Normal ∧ f.absolute = true ∧ expand home base target = f.path := by
  obtain ⟨p, hp, hexpand⟩ : ∃ p : Path, p.isAbsolute = true ∧
      expand home base target = p.normalize := by
    refine ⟨_, ?_, rfl⟩
    split
    · split
      · exact isAbsolute_join (hhome _ rfl) _
      · exact isAbsolute_join hbase _
    · exact isAbsolute_join hbase _
  exact ⟨p.fold, p.fold_normal, p.fold_absolute.trans hp, hexpand⟩

end Path

/-! ### Recipe files -/

namespace Host

open Provision.Path

/-- The file name of a default recipe is a name. -/
theorem isName_defaultRecipe : IsName "default.yml".toList := by
  constructor <;> decide

/-- A text without slashes becomes a name with the extension. -/
theorem isName_append_extension {s : List Char} (h : '/' ∉ s) : IsName (s ++ extension) := by
  have hlength : 4 ≤ (s ++ extension).length := by simp [extension]
  refine ⟨?_, ?_, ?_, ?_⟩
  · intro heq
    simp [heq] at hlength
  · intro heq
    simp [heq] at hlength
  · intro heq
    simp [heq] at hlength
  · rw [List.mem_append]
    exact fun hmem => hmem.elim h (by decide)

/-- The extension is put behind a path that does not have it. -/
theorem withExtension_eq (p : Path) :
    withExtension p = if extension <:+ p.text.toList then p else ⟨p.text ++ ".yml"⟩ := by
  have htext : String.ofList (p.text.toList ++ extension) = p.text ++ ".yml" := by
    rw [← String.toList_inj]
    simp [extension]
  simp only [withExtension, List.isSuffixOf_iff_suffix, htext]

/-- The default recipe of a directory ends in the extension. -/
theorem suffix_join_defaultRecipe {f : Folded} (hf : f.Normal) (habsolute : f.absolute = true) :
    extension <:+ (f.path.join defaultRecipe).text.toList := by
  have hjoin : f.path.join defaultRecipe = _ := hf.join_path isName_defaultRecipe
  have hname : extension <:+ "default.yml".toList := by decide
  rw [hjoin, Folded.text_path, Folded.chars, if_pos habsolute]
  exact (hname.trans (Text.suffix_join '/' _ _)).trans (List.suffix_cons '/' _)

/-- What is put behind an absolute path is put behind its last name, if it has one. -/
theorem exists_append_extension {f : Folded} (hf : f.Normal) (habsolute : f.absolute = true) :
    ∃ g : Folded, g.Normal ∧ g.absolute = true ∧ g.names ≠ [] ∧
      g.path = ⟨f.path.text ++ ".yml"⟩ := by
  obtain ⟨absolute, names⟩ := f
  obtain rfl : absolute = true := habsolute
  -- Behind the root, the extension is a name of its own.
  rcases List.eq_nil_or_concat names with rfl | ⟨front, last, rfl⟩
  · refine ⟨⟨true, [extension]⟩, ?_, rfl, List.cons_ne_nil _ _, by decide⟩
    intro s hs
    obtain rfl := List.mem_singleton.mp hs
    exact isName_append_extension (s := []) List.not_mem_nil
  · rw [List.concat_eq_append] at hf ⊢
    obtain ⟨hfront, hlast⟩ := List.forall_mem_append.mp hf
    have hnew : IsName (last ++ extension) :=
      isName_append_extension (hlast last List.mem_cons_self).not_mem
    have hnormal : Folded.Normal ⟨true, front ++ [last ++ extension]⟩ :=
      List.forall_mem_append.mpr ⟨hfront, List.forall_mem_singleton.mpr hnew⟩
    refine ⟨⟨true, front ++ [last ++ extension]⟩, hnormal, rfl, by simp, ?_⟩
    refine congrArg Path.mk (String.toList_inj.mp ?_)
    rw [String.toList_append, Folded.text_path, String.toList_ofList, Folded.chars, Folded.chars,
      if_pos rfl, if_pos rfl, List.cons_append, ← Text.join_concat_append]
    rfl

/-- With the extension, an absolute path is one with a name. -/
theorem exists_withExtension {f : Folded} (hf : f.Normal) (habsolute : f.absolute = true) :
    ∃ g : Folded, g.Normal ∧ g.absolute = true ∧ g.names ≠ [] ∧ withExtension f.path = g.path := by
  rw [withExtension_eq]
  split
  · rename_i hends
    refine ⟨f, hf, habsolute, fun hne => ?_, rfl⟩
    rw [Folded.text_path, Folded.chars, if_pos habsolute, hne] at hends
    exact absurd hends (by decide)
  · obtain ⟨g, hg, hgabsolute, hgne, hpath⟩ := exists_append_extension hf habsolute
    exact ⟨g, hg, hgabsolute, hgne, hpath.symm⟩

/-- Every path has the extension then. -/
theorem suffix_withExtension (p : Path) : extension <:+ (withExtension p).text.toList := by
  rw [withExtension_eq]
  split
  · assumption
  · rw [String.toList_append]
    exact List.suffix_append _ _

/-- From an absolute directory, with an absolute home directory or none, a target is resolved to
a canonical path that ends in the extension. It is the default recipe of the expanded target if
that is a directory, and otherwise the expanded target, with the extension behind it if it has
none. If the path is no directory itself, it is resolved to itself from everywhere. -/
theorem resolve_canonical (host : Host) {base : Path} (hbase : base.isAbsolute = true)
    (hhome : ∀ p, host.home = some p → p.isAbsolute = true) (target : String) :
    (host.resolve base target).Canonical ∧
      extension <:+ (host.resolve base target).text.toList ∧
      (∃ e, Path.expand host.home base target = e ∧
        (host.isDirectory e = true → host.resolve base target = e.join ⟨"default.yml"⟩ ∧
          (host.resolve base target).components = e.components ++ [.name "default.yml".toList]) ∧
        (host.isDirectory e = false → extension <:+ e.text.toList →
          host.resolve base target = e) ∧
        (host.isDirectory e = false → ¬extension <:+ e.text.toList →
          host.resolve base target = ⟨e.text ++ ".yml"⟩)) ∧
      (host.isDirectory (host.resolve base target) = false → ∀ other,
        host.resolve other (host.resolve base target).text = host.resolve base target) := by
  obtain ⟨f, hf, habsolute, he⟩ := Path.exists_expand hbase hhome target
  have hresolve : host.resolve base target =
      withExtension (if host.isDirectory f.path then f.path.join defaultRecipe else f.path) := by
    rw [resolve, he]
  have hdefault : f.path.join defaultRecipe = _ := hf.join_path isName_defaultRecipe
  -- Either way it is a normal form that ends in a name.
  obtain ⟨g, hg, hgabsolute, hgne, hpath⟩ : ∃ g : Folded, g.Normal ∧ g.absolute = true ∧
      g.names ≠ [] ∧ host.resolve base target = g.path := by
    rw [hresolve]
    split
    · rw [hdefault]
      exact exists_withExtension (hf.concat isName_defaultRecipe) habsolute
    · exact exists_withExtension hf habsolute
  have hends : extension <:+ (host.resolve base target).text.toList :=
    hresolve ▸ suffix_withExtension _
  refine ⟨hpath ▸ hg.canonical_path hgabsolute hgne, hends, ⟨_, he, ?_, ?_, ?_⟩, ?_⟩
  · intro hdirectory
    have hfile : host.resolve base target = f.path.join defaultRecipe := by
      rw [hresolve, if_pos hdirectory, withExtension_eq,
        if_pos (suffix_join_defaultRecipe hf habsolute)]
    exact ⟨hfile, hfile ▸ hf.components_join isName_defaultRecipe⟩
  · intro hdirectory hextension
    rw [hresolve, hdirectory, if_neg Bool.false_ne_true, withExtension_eq, if_pos hextension]
  · intro hdirectory hextension
    rw [hresolve, hdirectory, if_neg Bool.false_ne_true, withExtension_eq, if_neg hextension]
  · intro hfile other
    rw [hpath] at hends hfile ⊢
    have hsame := host.resolve_of_isAbsolute other (hg.isAbsolute_path.trans hgabsolute) hends
      (by rwa [hg.normalize_path])
    rwa [hg.normalize_path] at hsame

/-- A machine with one directory besides the home directory. -/
def serving : Host := ofFacts [(⟨"/srv/app"⟩, some .directory)] (some ⟨"/home/user"⟩) ⟨"/"⟩

/-- From the home directory, dots lead to a directory, whose default recipe is the same from
everywhere. The root that is no directory has the extension for its name. -/
theorem resolve_canonical_serving :
    (⟨"/etc"⟩ : Path).isAbsolute = true ∧ (∀ p, serving.home = some p → p.isAbsolute = true) ∧
      (serving.resolve ⟨"/etc"⟩ "~/../../srv/./app//").Canonical ∧
      serving.resolve ⟨"/etc"⟩ "~/../../srv/./app//" = ⟨"/srv/app/default.yml"⟩ ∧
      (∀ other, serving.resolve other "/srv/app/default.yml" = ⟨"/srv/app/default.yml"⟩) ∧
      serving.resolve ⟨"/etc"⟩ ".." = ⟨"/.yml"⟩ := by
  have hbase : (⟨"/etc"⟩ : Path).isAbsolute = true := by decide
  have hhome : ∀ p, serving.home = some p → p.isAbsolute = true := by
    rintro p ⟨⟩
    decide
  obtain ⟨hcanonical, -, ⟨e, he, hdirectory, -⟩, hagain⟩ :=
    serving.resolve_canonical hbase hhome "~/../../srv/./app//"
  obtain rfl : ⟨"/srv/app"⟩ = e := he ▸ (by decide)
  have hfile : serving.resolve ⟨"/etc"⟩ "~/../../srv/./app//" = ⟨"/srv/app/default.yml"⟩ :=
    (hdirectory (by decide)).1
  obtain ⟨-, -, ⟨e, he, -, -, hroot⟩, -⟩ := serving.resolve_canonical hbase hhome ".."
  obtain rfl : ⟨"/"⟩ = e := he ▸ (by decide)
  rw [hfile] at hagain
  exact ⟨hbase, hhome, hcanonical, hfile, hagain (by decide), hroot (by decide) (by decide)⟩

end Host

end Provision

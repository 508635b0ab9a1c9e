import Provision.Proofs.Path.Canonical

/-!
# Folding joined paths

A path that is joined to another goes on from where that one leads: its components are folded on
top of what is left of the first path. So it makes no difference whether the first path was
folded before. From an absolute path, no number of parents leads above the root.
-/

namespace Provision.Path

namespace Folded

/-- The normal form of a path that is taken relative to one with a normal form. -/
def follow (f : Folded) (p : Path) : Folded := p.components.foldl Folded.step f

variable {f : Folded}

/-- Each parent takes back the last of the names that are left. -/
theorem foldl_parents (n : Nat) (f : Folded) :
    (List.replicate n .parent).foldl Folded.step f =
      { f with names := f.names.take (f.names.length - n) } := by
  induction n generalizing f with
  | zero => simp
  | succ n ih =>
    rw [List.replicate_succ, List.foldl_cons, ih, Folded.step, List.length_dropLast,
      List.dropLast_eq_take, List.take_take]
    congr 2
    omega

/-- Nothing but names and the start is written from a normal form. -/
theorem Normal.not_mem_components (hf : f.Normal) :
    .current ∉ f.path.components ∧ .parent ∉ f.path.components := by
  rw [hf.components_path]
  constructor <;> split <;> simp

end Folded

/-! ### Components of joined paths -/

variable {a b : Path}

/-- Empty segments are passed over. -/
theorem componentsOf_append_empty (segs : List (List Char)) {extra : List (List Char)}
    (h : ∀ s ∈ extra, s = []) : componentsOf (segs ++ extra) = componentsOf segs := by
  have hsilent : extra.filter (! isSilent ·) = [] := by
    refine List.filter_eq_nil_iff.mpr fun s hs => ?_
    simp [h s hs, isSilent]
  rw [componentsOf, componentsOf, List.filter_append, hsilent, List.append_nil]

/-- The segments of a relative path come behind those of the path that it is joined to, but for
an empty one at the end. -/
theorem segments_join (ha : a.text ≠ "") (hb : b.isAbsolute = false) :
    ∃ segs extra, segs ≠ [] ∧ (∀ s ∈ extra, s = []) ∧ a.segments = segs ++ extra ∧
      (a.join b).segments = segs ++ b.segments := by
  have hrelative : ¬(b.isAbsolute = true ∨ a.text = "") := by simp [hb, ha]
  by_cases hslash : a.text.toList.getLast? = some '/'
  · obtain ⟨front, hfront⟩ := List.getLast?_eq_some_iff.mp hslash
    refine ⟨Text.split '/' front, [[]], Text.split_ne_nil _ _, by simp, ?_, ?_⟩
    · rw [segments, hfront, Text.split_append]
      rfl
    · rw [join, if_neg hrelative, if_pos hslash, segments, String.toList_append, hfront,
        List.append_assoc, List.singleton_append, Text.split_append]
      rfl
  · refine ⟨a.segments, [], Text.split_ne_nil _ _, by simp, (List.append_nil _).symm, ?_⟩
    have htext : (a.text ++ "/" ++ b.text).toList = a.text.toList ++ '/' :: b.text.toList := by
      simp
    rw [join, if_neg hrelative, if_neg hslash, segments, htext, Text.split_append]
    rfl

/-- A relative path that is joined to another does not change where that one starts. -/
theorem front_join (ha : a.text ≠ "") (hb : b.isAbsolute = false) :
    (a.join b).front = a.front := by
  have habsolute : (a.join b).isAbsolute = a.isAbsolute := by
    obtain ⟨c, rest, hchars⟩ : ∃ c rest, a.text.toList = c :: rest := by
      refine List.exists_cons_of_ne_nil fun h => ha ?_
      exact String.toList_inj.mp h
    rw [join, if_neg (by simp [hb, ha])]
    split <;> simp [isAbsolute, hchars]
  obtain ⟨segs, extra, hne, -, hasegments, hsegments⟩ := segments_join ha hb
  obtain ⟨first, rest, rfl⟩ := List.exists_cons_of_ne_nil hne
  rw [front, front, habsolute, hasegments, hsegments]
  rfl

/-- To fold joined paths is to fold the first one and to follow the second one from there. -/
theorem fold_join (a b : Path) : (a.join b).fold = a.fold.follow b := by
  by_cases hb : b.isAbsolute = true
  · -- An absolute path starts over.
    have hcomponents : b.components = .root :: componentsOf b.segments := by
      rw [components, front, if_pos hb]
      rfl
    rw [join_of_isAbsolute a hb, fold, Folded.follow, hcomponents]
    rfl
  · rw [Bool.not_eq_true] at hb
    by_cases ha : a.text = ""
    · obtain rfl : a = ⟨""⟩ := congrArg Path.mk ha
      rw [join, if_pos (.inr rfl)]
      rfl
    · obtain ⟨segs, extra, -, hextra, hasegments, hsegments⟩ := segments_join ha hb
      have hcomponents : (a.join b).components = a.components ++ componentsOf b.segments := by
        have happend : componentsOf (segs ++ b.segments) =
            componentsOf segs ++ componentsOf b.segments := by
          simp [componentsOf]
        rw [components, components, front_join ha hb, hsegments, hasegments, happend,
          componentsOf_append_empty segs hextra, List.append_assoc]
      -- A dot in front of the second path counts as a component of its own, and is without effect.
      have hfollow : a.fold.follow b = (componentsOf b.segments).foldl Folded.step a.fold := by
        rw [Folded.follow, components, front, hb]
        simp only [Bool.false_eq_true, if_false]
        split <;> rfl
      rw [fold, hcomponents, List.foldl_append, hfollow]
      rfl

/-! ### Folding twice -/

/-- What is left of a path is left of its normal form. -/
theorem fold_normalize (p : Path) : p.normalize.fold = p.fold := p.fold_normal.fold_path

/-- Paths that fold to the same have the same normal form. -/
theorem normalize_eq_of_fold (h : a.fold = b.fold) : a.normalize = b.normalize :=
  congrArg Folded.path h

/-- Only an absolute path has an absolute normal form. -/
theorem isAbsolute_normalize (p : Path) : p.normalize.isAbsolute = p.isAbsolute :=
  p.fold_normal.isAbsolute_path.trans p.fold_absolute

/-- It does not matter whether the first of two paths is in normal form before they are joined. -/
theorem normalize_join (a b : Path) : (a.join b).normalize = (a.normalize.join b).normalize := by
  refine normalize_eq_of_fold ?_
  rw [fold_join, fold_join, fold_normalize]

/-- Paths may be normalized between joining them, or once in the end. -/
theorem foldl_join_normalize (a : Path) (ts : List Path) :
    ts.foldl (fun p t => (p.join t).normalize) a.normalize = (ts.foldl join a).normalize := by
  induction ts generalizing a with
  | nil => rfl
  | cons t ts ih => rw [List.foldl_cons, List.foldl_cons, ← normalize_join, ih]

/-- Parents of an absolute path that are too many lead to the root. -/
theorem normalize_join_parents (ha : a.isAbsolute = true) {rest : Path} {n : Nat}
    (hb : b.components = List.replicate n .parent ++ rest.components)
    (hn : a.fold.names.length ≤ n) :
    (a.join b).normalize = ((⟨"/"⟩ : Path).join rest).normalize := by
  have hroot : (List.replicate n .parent).foldl Folded.step a.fold = ⟨true, []⟩ := by
    rw [Folded.foldl_parents, fold_absolute, ha, Nat.sub_eq_zero_of_le hn, List.take_zero]
  refine normalize_eq_of_fold ?_
  rw [fold_join, fold_join, Folded.follow, hb, List.foldl_append, hroot]
  rfl

/-- A target may be expanded from the normal form of a directory. -/
theorem expand_normalize (home : Option Path) (base : Path) (target : String) :
    expand home base target = expand home base.normalize target := by
  unfold expand
  split
  · split
    · rfl
    · exact normalize_join base _
  · exact normalize_join base _

/-- A normal form has no dots to follow, starts where the path does, and is its own normal form.
It stands for the path in front of whatever is joined to it, for one path as for many. Parents
that lead above the root of an absolute path lead to the root. So a target that is expanded from
an absolute directory, with an absolute home directory or none, is absolute and in normal form,
and it does not matter whether the directory is. -/
theorem normalize_compatible :
    (∀ a : Path, .current ∉ a.normalize.components ∧ .parent ∉ a.normalize.components ∧
      a.normalize.isAbsolute = a.isAbsolute ∧ a.normalize.normalize = a.normalize) ∧
    (∀ a b : Path, (a.join b).normalize = (a.normalize.join b).normalize ∧
      (b.isAbsolute = true → a.join b = b)) ∧
    (∀ a b rest : Path, ∀ n, a.isAbsolute = true →
      b.components = List.replicate n .parent ++ rest.components → a.fold.names.length ≤ n →
        (a.join b).normalize = ((⟨"/"⟩ : Path).join rest).normalize) ∧
    (∀ (a : Path) (ts : List Path),
      ts.foldl (fun p t => (p.join t).normalize) a.normalize = (ts.foldl join a).normalize ∧
      (ts ≠ [] → ts.foldl (fun p t => (p.join t).normalize) a = (ts.foldl join a).normalize)) ∧
    (∀ (home : Option Path) (base : Path) (target : String), base.isAbsolute = true →
      (∀ p, home = some p → p.isAbsolute = true) →
        (expand home base target).isAbsolute = true ∧
        .current ∉ (expand home base target).components ∧
        .parent ∉ (expand home base target).components ∧
        (expand home base target).normalize = expand home base target ∧
        expand home base target = expand home base.normalize target) := by
  refine ⟨fun a => ?_, fun a b => ?_, fun a b rest n => ?_, fun a ts => ?_, ?_⟩
  · obtain ⟨hcurrent, hparent⟩ := a.fold_normal.not_mem_components
    exact ⟨hcurrent, hparent, isAbsolute_normalize a, a.fold_normal.normalize_path⟩
  · exact ⟨normalize_join a b, join_of_isAbsolute a⟩
  · exact fun ha hb hn => normalize_join_parents ha hb hn
  · refine ⟨foldl_join_normalize a ts, fun hne => ?_⟩
    obtain ⟨t, ts, rfl⟩ := List.exists_cons_of_ne_nil hne
    rw [List.foldl_cons, foldl_join_normalize, List.foldl_cons]
  · intro home base target hbase hhome
    obtain ⟨f, hf, habsolute, hexpand⟩ := exists_expand hbase hhome target
    obtain ⟨hcurrent, hparent⟩ := hf.not_mem_components
    have hbaseForm := expand_normalize home base target
    rw [hexpand] at hbaseForm ⊢
    exact ⟨hf.isAbsolute_path.trans habsolute, hcurrent, hparent, hf.normalize_path, hbaseForm⟩

/-- From `/srv`, four parents lead to the root, and a target that climbs out of the home directory
is the same from `/srv/./web/..`. Two targets in turn lead where they lead together. -/
theorem normalize_compatible_climbing :
    (⟨"/srv"⟩ : Path).isAbsolute = true ∧
      ((⟨"/srv"⟩ : Path).join ⟨"../../../../x"⟩).normalize = ⟨"/x"⟩ ∧
      (⟨"/opt"⟩ : Path).isAbsolute = true ∧ (⟨"srv"⟩ : Path).join ⟨"/opt"⟩ = ⟨"/opt"⟩ ∧
      [⟨"../a//"⟩, ⟨"./b/../../c"⟩].foldl (fun p t => (p.join t).normalize) (⟨"/srv"⟩ : Path) =
        ⟨"/c"⟩ ∧
      (∀ p, some (⟨"/home/user"⟩ : Path) = some p → p.isAbsolute = true) ∧
      expand (some ⟨"/home/user"⟩) ⟨"/srv/./web/.."⟩ "~/../../../etc" = ⟨"/etc"⟩ ∧
      expand (some ⟨"/home/user"⟩) ⟨"/srv/./web/.."⟩ "~user/." = ⟨"/srv/~user"⟩ := by
  obtain ⟨-, hjoin, hparents, hjoins, hexpand⟩ := normalize_compatible
  have hhome : ∀ p, some (⟨"/home/user"⟩ : Path) = some p → p.isAbsolute = true := by
    rintro p ⟨⟩
    decide
  refine ⟨by decide, ?_, by decide, (hjoin ⟨"srv"⟩ ⟨"/opt"⟩).2 (by decide), ?_, hhome, ?_, ?_⟩
  · rw [hparents ⟨"/srv"⟩ _ ⟨"x"⟩ 4 (by decide) (by decide) (by decide)]
    decide
  · rw [(hjoins ⟨"/srv"⟩ _).2 (List.cons_ne_nil _ _)]
    decide
  · obtain ⟨-, -, -, -, hnormal⟩ :=
      hexpand (some ⟨"/home/user"⟩) ⟨"/srv/./web/.."⟩ "~/../../../etc" (by decide) hhome
    rw [hnormal]
    decide
  · obtain ⟨-, -, -, -, hnormal⟩ :=
      hexpand (some ⟨"/home/user"⟩) ⟨"/srv/./web/.."⟩ "~user/." (by decide) hhome
    rw [hnormal]
    decide

end Provision.Path

import Mathlib.Data.List.Infix
import Provision.Proofs.Text.Segments
import Provision.Scope.Template

/-!
# Names that a template mentions

The name of a placeholder is written in the template, somewhere after a pair of opening
braces. A text in which a name is nowhere to be found after such a pair can therefore not
ask for it, whatever is put in for the placeholders that it does have.
-/

namespace Provision

/-- A name is written in a text, anywhere after a pair of opening braces. -/
def Mentions (cs : List Char) (name : String) : Prop :=
  ∃ inside, '\x7b' :: '\x7b' :: inside <:+ cs ∧ name.toList <:+: inside

/-- A mention begins at the first character, or later. -/
theorem mentions_cons {c : Char} {cs : List Char} {name : String} :
    Mentions (c :: cs) name ↔
      (c = '\x7b' ∧ cs.head? = some '\x7b' ∧ name.toList <:+: cs.tail) ∨ Mentions cs name := by
  constructor
  · rintro ⟨inside, hsuffix, hname⟩
    rcases List.suffix_cons_iff.mp hsuffix with hhere | hlater
    · cases hhere
      exact .inl ⟨rfl, rfl, hname⟩
    · exact .inr ⟨inside, hlater, hname⟩
  · rintro (⟨rfl, hhead, hname⟩ | ⟨inside, hsuffix, hname⟩)
    · refine ⟨cs.tail, ?_, hname⟩
      rw [List.cons_head?_tail hhead]
    · exact ⟨inside, hsuffix.trans (List.suffix_cons c cs), hname⟩

instance decidableMentions (name : String) : (cs : List Char) → Decidable (Mentions cs name)
  | [] => isFalse fun ⟨_, hsuffix, _⟩ => by cases List.suffix_nil.mp hsuffix
  | _ :: cs =>
    have : Decidable (Mentions cs name) := decidableMentions name cs
    decidable_of_iff _ mentions_cons.symm

/-- What follows in a text mentions no more names than all of it. -/
theorem Mentions.of_suffix {cs cs' : List Char} {name : String} (h : Mentions cs name)
    (hs : cs <:+ cs') : Mentions cs' name := by
  obtain ⟨inside, hsuffix, hname⟩ := h
  exact ⟨inside, hsuffix.trans hs, hname⟩

/-! ### Where a path is written -/

/-- The pieces of a text are parts of it. -/
theorem Text.infix_of_mem_split {sep : Char} {cs piece : List Char} (h : piece ∈ split sep cs) :
    piece <:+: cs := by
  suffices hall : (∀ first rest, split sep cs = first :: rest → first <+: cs) ∧
      ∀ piece ∈ split sep cs, piece <:+: cs from hall.2 piece h
  clear h piece
  induction cs with
  | nil => simp [split]
  | cons c cs ih =>
    obtain ⟨hfirst, hall⟩ := ih
    rw [split]
    split
    · refine ⟨fun first rest hsplit => ?_, fun piece hpiece => ?_⟩
      · cases hsplit
        exact List.nil_prefix
      · rcases List.mem_cons.mp hpiece with rfl | hpiece
        · exact List.nil_infix
        · exact (hall piece hpiece).trans (List.suffix_cons c cs).isInfix
    · cases hs : split sep cs with
      | nil => exact absurd hs (split_ne_nil sep cs)
      | cons first rest =>
        have hprefix : c :: first <+: c :: cs :=
          (List.prefix_cons_inj c).mpr (hfirst first rest hs)
        refine ⟨fun first' rest' hsplit => ?_, fun piece hpiece => ?_⟩
        · cases hsplit
          exact hprefix
        · rcases List.mem_cons.mp hpiece with rfl | hpiece
          · exact hprefix.isInfix
          · exact (hall piece (hs ▸ List.mem_cons_of_mem _ hpiece)).trans
              (List.suffix_cons c cs).isInfix

/-- Every segment of a path is written in it. -/
theorem Scope.infix_of_mem_segments {path segment : String} (h : segment ∈ segments path) :
    segment.toList <:+: path.toList := by
  obtain ⟨piece, hpiece, rfl⟩ := List.mem_map.mp h
  rw [String.toList_ofList]
  exact (Text.trim_infix piece).trans (Text.infix_of_mem_split hpiece)

/-! ### Where a placeholder is written -/

/-- A text that is broken at a doubled character is put together again from both sides. -/
theorem breakAtDouble_eq_some {c : Char} {cs before after : List Char}
    (h : breakAtDouble c cs = some (before, after)) : cs = before ++ c :: c :: after := by
  induction cs generalizing before with
  | nil => cases h
  | cons a cs ih =>
    cases cs with
    | nil => cases h
    | cons b cs =>
      rw [breakAtDouble] at h
      split at h
      · rename_i hdouble
        obtain ⟨rfl, rfl⟩ := hdouble
        cases h
        rfl
      · obtain ⟨⟨before', after'⟩, hbreak, hpair⟩ := Option.map_eq_some_iff.mp h
        cases hpair
        rw [ih hbreak]
        rfl

/-- A name in the path of a placeholder is mentioned by the text. -/
theorem mentions_of_breakAtDouble {cs before inside key after : List Char} {name : String}
    (ho : breakAtDouble '\x7b' cs = some (before, inside))
    (hc : breakAtDouble '\x7d' inside = some (key, after))
    (hname : name.toList <:+: Text.trim key) : Mentions cs name := by
  refine ⟨inside, ⟨before, (breakAtDouble_eq_some ho).symm⟩, ?_⟩
  have hkey : key <+: inside := ⟨_, (breakAtDouble_eq_some hc).symm⟩
  exact hname.trans ((Text.trim_infix key).trans hkey.isInfix)

/-- What follows a placeholder mentions no more names than the whole text. -/
theorem suffix_of_breakAtDouble {cs before inside key after : List Char}
    (ho : breakAtDouble '\x7b' cs = some (before, inside))
    (hc : breakAtDouble '\x7d' inside = some (key, after)) : after <:+ cs := by
  refine ⟨before ++ '\x7b' :: '\x7b' :: key ++ ['\x7d', '\x7d'], ?_⟩
  rw [breakAtDouble_eq_some ho, breakAtDouble_eq_some hc]
  simp

/-- A name in the path of a text that is one placeholder is mentioned by the text. -/
theorem mentions_of_wholePlaceholder {template key name : String}
    (h : wholePlaceholder? template = some key) (hname : name.toList <:+: key.toList) :
    Mentions template.toList name := by
  rw [wholePlaceholder?] at h
  split at h
  · rename_i cs htrim
    split at h
    · rename_i rest hreverse
      dsimp only at h
      split at h
      · cases h
        rw [String.toList_ofList] at hname
        obtain ⟨before, after, hcs⟩ := Text.trim_infix template.toList
        refine ⟨cs ++ after, ⟨before, ?_⟩, ?_⟩
        · rw [← hcs, htrim]
          simp
        · have hinside : rest.reverse <+: cs := by
            refine ⟨['\x7d', '\x7d'], ?_⟩
            rw [← List.reverse_inj, hreverse]
            simp
          exact hname.trans ((Text.trim_infix _).trans
            (hinside.trans (List.prefix_append cs after)).isInfix)
      · cases h
    · cases h
  · cases h

end Provision

import Provision.Proofs.Evaluation.Operations
import Provision.Proofs.Evaluation.Course
import Provision.Proofs.Statement.Keys

/-!
# The words of recipes

A definition can be registered under a word exactly if recipes can use the word for it. The
words that are refused are those that mean something already, the kinds, and those that are
never the keyword of a declaration, whatever a document looks like. So there is no definition
that cannot be reached, and none changes what is written without it.
-/

namespace Provision

/-- No kind is written as a word of the recipe language that means something else. -/
theorem Kind.not_languageWord {word : String} {kind : Kind} (h : ofKeyword? word = some kind) :
    word ∉ languageWords := by
  have hword : kind.keyword = word := by simpa using List.find?_some h
  rw [← hword]
  cases kind <;> decide

/-! ### What is read as a declaration -/

namespace Statement

open Provision.Value

/-- Entries in which a word stands with an identifier, and besides it only settings, in any
order. -/
structure Phrase (entries : List (Value × Value)) (word identifier : String)
    (block : Option Block) : Prop where
  keyword : ∃ before v after, entries = before ++ (.string word, v) :: after ∧
    v.Says identifier ∧ Keyed ["with", "notifies"] (before ++ after)
  settings : Settings entries block

/-- The keywords of entries are found one after another. -/
theorem keywords_append (es es' : List (Value × Value)) :
    keywords (es ++ es') = keywords es ++ keywords es' := by
  rw [keywords, List.filterMap_append, List.filter_append]
  rfl

/-- A plain key that is no setting is a keyword. -/
theorem keywords_cons {word : String} (hword : word ≠ "with" ∧ word ≠ "notifies") (v : Value)
    (rest : List (Value × Value)) :
    keywords ((.string word, v) :: rest) = word :: keywords rest := by
  change List.filter _ (word :: rest.filterMap (·.1.string?)) = _
  rw [List.filter_cons_of_pos (by simp [hword])]
  rfl

/-- There is no keyword among the settings. -/
theorem keyed_settings_iff {es : List (Value × Value)} :
    Keyed ["with", "notifies"] es ↔ keywords es = [] ∧ ∀ e ∈ es, e.1.string?.isSome := by
  constructor
  · intro h
    refine ⟨?_, fun e he => ?_⟩
    · rw [keywords, List.filter_eq_nil_iff]
      intro key hkey
      obtain ⟨e, he, hstring⟩ := List.mem_filterMap.mp hkey
      obtain ⟨word, hword, hsame⟩ := h e he
      cases hstring.symm.trans hsame
      simpa [Decidable.or_iff_not_imp_left] using hword
    · obtain ⟨word, -, hstring⟩ := h e he
      rw [hstring]
      rfl
  · rintro ⟨hkeywords, hstrings⟩ e he
    obtain ⟨word, hword⟩ := Option.isSome_iff_exists.mp (hstrings e he)
    refine ⟨word, ?_, hword⟩
    rw [keywords, List.filter_eq_nil_iff] at hkeywords
    have hsetting := hkeywords word (List.mem_filterMap.mpr ⟨e, he, hword⟩)
    simpa [Decidable.or_iff_not_imp_left] using hsetting

/-- What is not found in the first entries is looked for in the others. -/
theorem field?_append_of_none {name : String} {es : List (Value × Value)}
    (h : field? name es = none) (es' : List (Value × Value)) :
    field? name (es ++ es') = field? name es' := by
  induction es with
  | nil => rfl
  | cons e rest ih =>
    obtain ⟨k, v⟩ := e
    rw [field?_cons] at h
    split at h
    · cases h
    · rename_i hne
      rw [List.cons_append, field?_cons, if_neg hne, ih h]

/-- A value denotes a declaration of a word exactly if it is a phrase with the word, and the
word is none of the language itself. -/
theorem denotes_declare_iff {v : Value} {word identifier : String} {block : Option Block} :
    Denotes v (.declare word identifier block) ↔ word ∉ Kind.languageWords ∧
      ∃ entries, v.entries? = some entries ∧ Phrase entries word identifier block := by
  constructor
  · intro h
    cases h with
    | @declare _ entries _ _ _ hmapping hfree hkeyword hstrings hidentifier hblock =>
      obtain ⟨w, hw, hsays⟩ := hidentifier
      have hsetting : word ∈ keywords entries := by
        rw [hkeyword]
        exact List.mem_singleton_self _
      rw [keywords, List.mem_filter, Bool.and_eq_true, bne_iff_ne, bne_iff_ne] at hsetting
      refine ⟨by simp [Kind.languageWords, hfree, hsetting.2], entries, hmapping, ?_, hblock⟩
      obtain ⟨before, after, rfl⟩ := List.append_of_mem (mem_of_field? hw)
      -- The word is the only keyword, so there is none on either side of it.
      refine ⟨before, w, after, rfl, hsays, keyed_settings_iff.mpr ⟨?_, fun e he => ?_⟩⟩
      · rw [keywords_append, keywords_cons hsetting.2] at hkeyword
        rw [keywords_append]
        have hlength := congrArg List.length hkeyword
        simp only [List.length_append, List.length_cons, List.length_nil] at hlength
        exact List.length_eq_zero_iff.mp (by rw [List.length_append]; omega)
      · refine hstrings e ?_
        rcases List.mem_append.mp he with he | he
        · exact List.mem_append_left _ he
        · exact List.mem_append_right _ (List.mem_cons_of_mem _ he)
  · rintro ⟨hword, entries, hmapping, ⟨before, w, after, rfl, hsays, hkeyed⟩, hblock⟩
    simp only [Kind.languageWords, List.mem_cons, List.not_mem_nil, or_false, not_or] at hword
    obtain ⟨hdefine, hinclude, hwith, hnotifies⟩ := hword
    obtain ⟨hkeywords, hstrings⟩ := keyed_settings_iff.mp hkeyed
    rw [keywords_append, List.append_eq_nil_iff] at hkeywords
    refine .declare hmapping ⟨hinclude, hdefine⟩ ?_ ?_ ⟨w, ?_, hsays⟩ hblock
    · rw [keywords_append, keywords_cons ⟨hwith, hnotifies⟩, hkeywords.1, hkeywords.2]
      rfl
    · intro e he
      rcases List.mem_append.mp he with he | he
      · exact hstrings e (List.mem_append_left _ he)
      · rcases List.mem_cons.mp he with rfl | he
        · rfl
        · exact hstrings e (List.mem_append_right _ he)
    · have hbefore : Keyed ["with", "notifies"] before :=
        fun e he => hkeyed e (List.mem_append_left _ he)
      rw [field?_append_of_none (hbefore.field?_eq_none (by simp [hwith, hnotifies])), field?_cons,
        if_pos (same_string_iff.mpr rfl)]

/-- A statement stands in a list, or in the body of a definition there, at any depth. -/
inductive Contains : List Statement → Statement → Prop
  | here {list : List Statement} {s : Statement} (h : s ∈ list) : Contains list s
  | within {list body : List Statement} {name : String} {params : OrderedMap Value}
      {s : Statement} (h : .define name params body ∈ list) (hinner : Contains body s) :
      Contains list s

/-- Every statement of a document is denoted by some value. -/
theorem DenotesAll.exists_of_mem {vs : List Value} {list : List Statement} {s : Statement}
    (h : DenotesAll vs list) (hs : s ∈ list) : ∃ v, Denotes v s := by
  induction list generalizing vs with
  | nil => cases hs
  | cons t list ih =>
    cases h with
    | cons hfirst hrest =>
      rcases List.mem_cons.mp hs with rfl | hs
      · exact ⟨_, hfirst⟩
      · exact ih hrest hs

/-- What a document contains is denoted by some part of it. -/
theorem Contains.denotes {v : Value} {list : List Statement} {s : Statement}
    (h : Contains list s) (hholds : Holds v list) : ∃ w, Denotes w s := by
  induction h generalizing v with
  | here h =>
    cases hholds with
    | empty => cases h
    | sequence hitems => exact hitems.exists_of_mem h
  | within h _ ih =>
    cases hholds with
    | empty => cases h
    | sequence hitems =>
      obtain ⟨w, hw⟩ := hitems.exists_of_mem h
      cases hw with
      | define _ _ _ _ _ hbody => exact ih hbody

/-- Whatever stands with a word as a phrase is read as a declaration of the word. -/
def Speakable (word : String) : Prop :=
  ∀ (place : Place) (v : Value) (entries : List (Value × Value)) (identifier : String)
    (block : Option Block), v.entries? = some entries → Phrase entries word identifier block →
      read place v = .ok (.declare word identifier block)

/-- No document that is read contains a declaration of a word. -/
def Unspeakable (word : String) : Prop :=
  ∀ (v : Value) (list : List Statement), ofDocument v = .ok list →
    ∀ identifier block, ¬Contains list (.declare word identifier block)

/-- Every word that is not one of the language can be declared. -/
theorem speakable_of_not_mem {word : String} (h : word ∉ Kind.languageWords) :
    Speakable word := fun place _ entries _ _ hmapping hphrase =>
  read_of_denotes place (denotes_declare_iff.mpr ⟨h, entries, hmapping, hphrase⟩)

/-- No word of the language can be declared. -/
theorem unspeakable_of_mem {word : String} (h : word ∈ Kind.languageWords) :
    Unspeakable word := by
  intro v list hread identifier block hcontains
  obtain ⟨w, hw⟩ := hcontains.denotes (ofDocument_eq_ok_iff.mp hread)
  exact (denotes_declare_iff.mp hw).1 h

end Statement

/-! ### What a declaration does -/

namespace Progress

/-- A definition stays where it is until one of its name is registered. -/
theorem get?_replay {name : String} {es : List Event}
    (h : ∀ d, .define d ∈ es → d.name ≠ name) (p : Progress) :
    (p.replay es).definitions.get? name = p.definitions.get? name := by
  induction es generalizing p with
  | nil => rfl
  | cons e es ih =>
    rw [replay_cons, ih fun d hd => h d (List.mem_cons_of_mem _ hd)]
    cases e with
    | define d =>
      change (p.definitions.insert d.name d).get? name = _
      rw [OrderedMap.get?_insert, if_neg (h d List.mem_cons_self)]
    | root | child | resource | enter | leave | act => rfl

end Progress

namespace Context

open Provision.Run

/-- A declaration of which it is known what is to be done with its identifier, once that is
resolved. -/
def doing (c : Context) (identifier : String) (use : String → Run Unit) : Run Unit := do
  happen (.act c.recipe)
  use (← building (c.scope.buildText identifier))

/-- To perform a declaration of a word, in whichever context, is to do something with its
identifier and its block. -/
def Dispatches (s : Evaluation) (word : String)
    (use : Expansion → Context → String → Option Block → Run Unit) : Prop :=
  ∀ (host : Host) (expand : Expansion) (c : Context) (identifier : String)
    (block : Option Block),
    (c.perform host expand (.declare word identifier block)).outcome s =
      (c.doing identifier fun name => use expand c name block).outcome s

/-- To perform a declaration is to resolve its identifier and to declare that. -/
theorem perform_declare (host : Host) (expand : Expansion) (c : Context) (word identifier : String)
    (block : Option Block) :
    c.perform host expand (.declare word identifier block) =
      c.doing identifier fun name => c.declare expand word name block := rfl

/-- Resolving the identifier does not change what the word stands for. -/
theorem doing_congr (c : Context) (identifier : String) {use use' : String → Run Unit}
    {s : Evaluation}
    (h : ∀ t : Evaluation, t.definitions = s.definitions → ∀ name,
      (use name).outcome t = (use' name).outcome t) :
    (c.doing identifier use).outcome s = (c.doing identifier use').outcome s := by
  rw [doing, doing, outcome_bind, outcome_bind, outcome_happen]
  dsimp only
  rw [outcome_bind, outcome_bind]
  have hdefinitions := congrArg Progress.definitions
    (building_toProgress (c.scope.buildText identifier) (s.after (.act c.recipe)))
  rcases hr : outcome (building (c.scope.buildText identifier)) (s.after (.act c.recipe)) with
    ⟨stop | name, t⟩
  · rfl
  · rw [hr] at hdefinitions
    exact h t hdefinitions name

/-- A keyword of a kind leads to a resource of the kind, whatever is registered. -/
theorem dispatches_kind {word : String} {kind : Kind} (h : Kind.ofKeyword? word = some kind)
    (s : Evaluation) : Dispatches s word fun _ c => c.addResource kind := by
  intro host expand c identifier block
  rw [perform_declare]
  refine c.doing_congr identifier fun t _ name => ?_
  rw [outcome_declare, h]

/-- Any other word leads to the definition that is registered under it. -/
theorem dispatches_definition {word : String} {d : Definition} {s : Evaluation}
    (h : Kind.ofKeyword? word = none) (hd : s.definitions.get? word = some d) :
    Dispatches s word fun expand c => c.invoke expand d := by
  intro host expand c identifier block
  rw [perform_declare]
  refine c.doing_congr identifier fun t ht name => ?_
  rw [outcome_declare, h, ht, hd]

/-- A definition is registered exactly if its name is no word of the recipe language. Then what
stands with the name as a phrase is read as a declaration of it, and this is performed, whatever
has happened in between, by invoking that very definition, until the next one of its name is
registered. A name is refused only if it means a kind, whatever is registered, or if there is no
way to declare it. -/
theorem define_words (d : Definition) (s : Evaluation) :
    let done := (define d).outcome s
    done.1 = .ok () ∧ Statement.Speakable d.name ∧
        (∀ (es : List Event) (t : Evaluation), t.toProgress = done.2.toProgress.replay es →
          (∀ d', .define d' ∈ es → d'.name ≠ d.name) →
            Dispatches t d.name fun expand c => c.invoke expand d) ∨
      done.1 = .error (.failure (.reservedKeyword d.name)) ∧
        ((∃ kind, Kind.ofKeyword? d.name = some kind ∧ Statement.Speakable d.name ∧
            ∀ t, Dispatches t d.name fun _ c => c.addResource kind) ∨
          Statement.Unspeakable d.name) := by
  dsimp only
  rw [outcome_define]
  by_cases hreserved : Kind.isReserved d.name = true
  · rw [if_pos hreserved]
    refine .inr ⟨rfl, ?_⟩
    cases hkind : Kind.ofKeyword? d.name with
    | some kind =>
      have hspeakable := Statement.speakable_of_not_mem (Kind.not_languageWord hkind)
      exact .inl ⟨kind, rfl, hspeakable, dispatches_kind hkind⟩
    | none =>
      rw [Kind.isReserved, hkind, Option.isSome_none, Bool.false_or, List.contains_iff_mem]
        at hreserved
      exact .inr (Statement.unspeakable_of_mem hreserved)
  · rw [if_neg hreserved]
    rw [Kind.isReserved, Bool.or_eq_true, not_or, Option.not_isSome_iff_eq_none,
      List.contains_iff_mem] at hreserved
    refine .inl ⟨rfl, Statement.speakable_of_not_mem hreserved.2, fun es t ht hes => ?_⟩
    refine dispatches_definition hreserved.1 ?_
    rw [ht, Progress.get?_replay hes]
    exact (OrderedMap.get?_insert _ _ _ _).trans (if_pos rfl)

/-- A definition without statements. -/
def blank (name : String) : Definition := ⟨name, {}, .statements []⟩

/-- The word under which definitions are given parameters can itself be defined. It is reached
by a phrase with its settings in front, also after another definition. -/
theorem define_words_params :
    let done := (define (blank "params")).outcome Evaluation.empty
    done.1 = .ok () ∧
      Statement.read (.recipe 1)
          (.mapping [(.string "with", .mapping []), (.string "params", .int 5)]) =
        .ok (.declare "params" "5" (some ⟨{}, []⟩)) ∧
      Dispatches (done.2.after (.define (blank "web"))) "params"
        fun expand c => c.invoke expand (blank "params") := by
  have hphrase : Statement.Phrase [(.string "with", .mapping []), (.string "params", .int 5)]
      "params" "5" (some ⟨{}, []⟩) := by
    refine ⟨⟨[(.string "with", .mapping [])], .int 5, [], rfl, ⟨rfl, rfl⟩, ?_⟩,
      .some (.mapping .nil) .absent (.inl nofun)⟩
    intro e he
    cases List.mem_singleton.mp he
    exact ⟨"with", List.mem_cons_self, rfl⟩
  rcases define_words (blank "params") Evaluation.empty with ⟨hdone, hread, hdispatch⟩ | ⟨hfail, -⟩
  · refine ⟨hdone, hread _ _ _ _ _ rfl hphrase, hdispatch [.define (blank "web")] _ rfl ?_⟩
    intro d hd
    cases List.mem_singleton.mp hd
    decide
  · cases hfail

end Context

end Provision

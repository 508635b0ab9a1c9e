import Provision.Proofs.Statement.Spelling

/-!
# Keys that are read

Every key in the mapping of a statement is one that the grammar has for that statement, if it is
seen through its tags, and whatever is found under a key has become part of the statement. So all
keys are read exactly if none of them has a tag, those with tags being passed over. A
notification that is written as a mapping is not checked for its keys at all. All of them are
read exactly if each has a meaning, and any other is passed over: a timing whose name is misspelt
leaves the notification delayed.
-/

namespace Provision

namespace Value

/-- The key is a string without a tag around it. -/
def isPlain : Value → Bool
  | .string _ => true
  | _ => false

/-- Entries that are not looked for do not matter. -/
theorem field?_filter {name : String} {p : Value × Value → Bool}
    (hp : ∀ v, p (.string name, v) = true) (entries : List (Value × Value)) :
    field? name (entries.filter p) = field? name entries := by
  induction entries with
  | nil => rfl
  | cons e rest ih =>
    obtain ⟨k, v⟩ := e
    by_cases hkey : k = .string name
    · rw [hkey, List.filter_cons, if_pos (hp v), field?_cons, field?_cons, ih]
    · have hsame : ¬same k (.string name) = true := fun h => hkey (same_string_iff.mp h)
      rw [field?_cons, if_neg hsame, List.filter_cons]
      split
      · rw [field?_cons, if_neg hsame, ih]
      · exact ih

/-- A plain key is a string. -/
theorem isPlain_iff {k : Value} : k.isPlain = true ↔ ∃ name, k = .string name := by
  cases k <;> simp [isPlain]

/-- Something is found under every plain key. -/
theorem exists_field?_of_mem {name : String} {e : Value × Value}
    {entries : List (Value × Value)} (h : e ∈ entries) (hname : e.1 = .string name) :
    ∃ v, field? name entries = some v := by
  induction entries with
  | nil => cases h
  | cons first rest ih =>
    obtain ⟨k, w⟩ := first
    rw [field?_cons]
    split
    · exact ⟨w, rfl⟩
    · rename_i hsame
      rcases List.mem_cons.mp h with rfl | hrest
      · exact absurd (same_string_iff.mpr hname) hsame
      · exact ih hrest

/-- Every key is a plain string, and what is found under it has become something. -/
def KeysRead (became : String → Value → Prop) (entries : List (Value × Value)) : Prop :=
  ∀ e ∈ entries, ∃ name v, e.1 = .string name ∧ field? name entries = some v ∧ became name v

/-- Keys with tags are never found under a name. -/
theorem field?_filter_isPlain (name : String) (entries : List (Value × Value)) :
    field? name (entries.filter (·.1.isPlain)) = field? name entries :=
  field?_filter (fun _ => rfl) entries

/-- What is found under the name says the text. -/
theorem SaysAt.found {entries : List (Value × Value)} {name text : String} {v : Value}
    (h : SaysAt entries name text) (hv : field? name entries = some v) : v.Says text := by
  obtain ⟨w, hw, hsays⟩ := h
  cases hv.symm.trans hw
  exact hsays

/-- Some of the entries have no other keys than all of them. -/
theorem Keyed.filter {ws : List String} {entries : List (Value × Value)}
    (h : Keyed ws entries) (p : Value × Value → Bool) : Keyed ws (entries.filter p) :=
  fun e he => h e (List.mem_of_mem_filter he)

/-- The words of a statement are all that is found under any name. -/
theorem Keyed.mem {ws : List String} {entries : List (Value × Value)} (h : Keyed ws entries)
    {name : String} {v : Value} (hv : field? name entries = some v) : name ∈ ws := by
  by_contra hname
  cases hv.symm.trans (h.field?_eq_none hname)

end Value

namespace Statement

open Provision.Value

/-- The keys that the mapping of a statement may have. -/
def words : Statement → List String
  | .declare keyword _ _ => [keyword, "with", "notifies"]
  | .define _ _ _ => ["define", "params", "body"]
  | .includeRecipe _ => ["include_recipe"]

/-- What stands under a key has become part of a statement. -/
inductive Became : String → Value → Statement → Prop
  | identifier {keyword identifier : String} {block : Option Block} {v : Value}
      (h : v.Says identifier) : Became keyword v (.declare keyword identifier block)
  | attributes {keyword identifier : String} {block : Block} {v : Value}
      (h : Sets (some v) block.attributes) :
      Became "with" v (.declare keyword identifier (some block))
  | notifies {keyword identifier : String} {block : Option Block} {v : Value}
      (h : AsksAll (some v) (block.getD Block.empty).notifies) :
      Became "notifies" v (.declare keyword identifier block)
  | name {name : String} {params : OrderedMap Value} {body : List Statement} {v : Value}
      (h : v.Says name) : Became "define" v (.define name params body)
  | params {name : String} {params : OrderedMap Value} {body : List Statement} {v : Value}
      (h : Sets (some v) params) : Became "params" v (.define name params body)
  | body {name : String} {params : OrderedMap Value} {body : List Statement} {v : Value}
      (h : Holds v body) : Became "body" v (.define name params body)
  | target {target : String} {v : Value} (h : v.Says target) :
      Became "include_recipe" v (.includeRecipe target)

/-- What becomes of the keys of a mapping that denotes a statement. -/
structure Accounts (entries : List (Value × Value)) (s : Statement) : Prop where
  /-- Every key is one that the statement may have, seen through its tags. -/
  keyed : Keyed s.words entries
  /-- What is found under a key has become part of the statement. -/
  became : ∀ name v, field? name entries = some v → Became name v s
  /-- The keys with tags are passed over. -/
  passed : Denotes (.mapping (entries.filter (·.1.isPlain))) s

/-- All keys are read exactly if none of them has a tag. -/
theorem Accounts.read_iff {entries : List (Value × Value)} {s : Statement}
    (h : Accounts entries s) :
    KeysRead (Became · · s) entries ↔ ∀ e ∈ entries, e.1.isPlain = true := by
  constructor
  · intro hread e he
    obtain ⟨name, -, hname, -⟩ := hread e he
    exact isPlain_iff.mpr ⟨name, hname⟩
  · intro hplain e he
    obtain ⟨name, hname⟩ := isPlain_iff.mp (hplain e he)
    obtain ⟨v, hv⟩ := exists_field?_of_mem he hname
    exact ⟨name, v, hname, hv, h.became name v hv⟩

/-- With one keyword, the other keys are those of settings. -/
theorem keyed_of_keywords {entries : List (Value × Value)} {keyword : String}
    (hkeyword : keywords entries = [keyword]) (hstrings : ∀ e ∈ entries, e.1.string?.isSome) :
    Keyed [keyword, "with", "notifies"] entries := by
  intro e he
  obtain ⟨key, hkey⟩ := Option.isSome_iff_exists.mp (hstrings e he)
  refine ⟨key, ?_, hkey⟩
  by_cases hsetting : key = "with" ∨ key = "notifies"
  · rcases hsetting with rfl | rfl <;> simp
  · have hmem : key ∈ keywords entries := by
      rw [keywords, List.mem_filter, List.mem_filterMap]
      exact ⟨⟨e, he, hkey⟩, by simpa using hsetting⟩
    rw [hkeyword, List.mem_singleton] at hmem
    rw [hmem]
    exact List.mem_cons_self

/-- Without the keys with tags there is still one keyword. -/
theorem keywords_filter_isPlain {entries : List (Value × Value)} {keyword : String} {v : Value}
    (hkeyword : keywords entries = [keyword]) (hv : field? keyword entries = some v) :
    keywords (entries.filter (·.1.isPlain)) = [keyword] := by
  have hsublist : (keywords (entries.filter (·.1.isPlain))).Sublist [keyword] := by
    rw [← hkeyword, keywords, keywords]
    exact (List.filter_sublist.filterMap _).filter _
  have hsetting : keyword ∈ keywords entries := by
    rw [hkeyword]
    exact List.mem_singleton_self _
  rw [keywords, List.mem_filter] at hsetting
  have hmem : keyword ∈ keywords (entries.filter (·.1.isPlain)) := by
    refine mem_keywords (v := v) ?_ (by simpa using hsetting.2)
    rw [field?_filter_isPlain, hv]
  rcases List.sublist_singleton.mp hsublist with h | h
  · rw [h] at hmem
    cases hmem
  · exact h

/-- The notifications of a block are those that are asked for. -/
theorem Settings.notifies {entries : List (Value × Value)} {block : Option Block}
    (h : Settings entries block) :
    AsksAll (field? "notifies" entries) (block.getD Block.empty).notifies := by
  cases h with
  | none hwith hnotifies => exact hnotifies
  | some hwith hnotifies hset => exact hnotifies

/-- The settings are read from the plain keys alone. -/
theorem Settings.filter_isPlain {entries : List (Value × Value)} {block : Option Block}
    (h : Settings entries block) : Settings (entries.filter (·.1.isPlain)) block := by
  have hfield (name : String) := field?_filter_isPlain name entries
  cases h with
  | none hwith hnotifies => exact .none (by rwa [hfield]) (by rwa [hfield])
  | some hwith hnotifies hset =>
    exact .some (by rwa [hfield]) (by rwa [hfield]) (by rwa [hfield])

/-- What is found under a key of a declaration has become part of it. -/
theorem became_of_declare {entries : List (Value × Value)} {keyword identifier : String}
    {block : Option Block} (hkeyed : Keyed [keyword, "with", "notifies"] entries)
    (hidentifier : SaysAt entries keyword identifier) (hblock : Settings entries block)
    {name : String} {v : Value} (hv : field? name entries = some v) :
    Became name v (.declare keyword identifier block) := by
  have hmem := hkeyed.mem hv
  simp only [List.mem_cons, List.not_mem_nil, or_false] at hmem
  rcases hmem with rfl | rfl | rfl
  · exact .identifier (hidentifier.found hv)
  · cases hblock with
    | none hwith hnotifies => cases hv.symm.trans hwith
    | some hwith hnotifies hset =>
      rw [hv] at hwith
      exact .attributes hwith
  · have hnotifies := hblock.notifies
    rw [hv] at hnotifies
    exact .notifies hnotifies

/-- What is found under a key of a definition has become part of it. -/
theorem became_of_define {entries : List (Value × Value)} {name : String}
    {params : OrderedMap Value} {w : Value} {body : List Statement}
    (hkeys : Keyed ["define", "params", "body"] entries) (hname : SaysAt entries "define" name)
    (hparams : Sets (field? "params" entries) params) (hbody : field? "body" entries = some w)
    (hholds : Holds w body) {key : String} {v : Value} (hv : field? key entries = some v) :
    Became key v (.define name params body) := by
  have hmem := hkeys.mem hv
  simp only [List.mem_cons, List.not_mem_nil, or_false] at hmem
  rcases hmem with rfl | rfl | rfl
  · exact .name (hname.found hv)
  · rw [hv] at hparams
    exact .params hparams
  · cases hv.symm.trans hbody
    exact .body hholds

/-- Every key of a mapping is accounted for. -/
theorem accounts_of_denotes {entries : List (Value × Value)} {s : Statement}
    (h : Denotes (.mapping entries) s) : Accounts entries s := by
  have hfield (name : String) := field?_filter_isPlain name entries
  cases h with
  | @declare _ _ keyword identifier block hmapping hfree hkeyword hstrings hidentifier hblock =>
    cases hmapping
    have hkeyed := keyed_of_keywords hkeyword hstrings
    refine ⟨hkeyed, fun name v hv => became_of_declare hkeyed hidentifier hblock hv, ?_⟩
    obtain ⟨w, hw, htext⟩ := hidentifier
    exact .declare rfl hfree (keywords_filter_isPlain hkeyword hw)
      (fun e he => hstrings e (List.mem_of_mem_filter he))
      ⟨w, (hfield _).trans hw, htext⟩ hblock.filter_isPlain
  | define hmapping hkeys hname hparams hbody hholds =>
    cases hmapping
    refine ⟨hkeys, fun key v hv => became_of_define hkeys hname hparams hbody hholds hv, ?_⟩
    obtain ⟨w, hw, htext⟩ := hname
    exact .define rfl (hkeys.filter _) ⟨w, (hfield _).trans hw, htext⟩
      ((hfield _).symm ▸ hparams) ((hfield _).trans hbody) hholds
  | includeRecipe hmapping hkeys htarget =>
    cases hmapping
    refine ⟨hkeys, fun key v hv => ?_, ?_⟩
    · cases List.mem_singleton.mp (hkeys.mem hv)
      exact .target (htarget.found hv)
    · obtain ⟨w, hw, htext⟩ := htarget
      exact .includeRecipe rfl (hkeys.filter _) ⟨w, (hfield _).trans hw, htext⟩

/-! ### Notifications -/

/-- An entry under one of the keys that have a meaning in a notification. -/
def isNamed (e : Value × Value) : Bool :=
  ["action", "resource", "timing"].any fun name => e.1.same (.string name)

/-- An entry is named by the plain strings that have a meaning. -/
theorem isNamed_iff {e : Value × Value} :
    isNamed e = true ↔ ∃ name ∈ ["action", "resource", "timing"], e.1 = .string name := by
  rw [isNamed, List.any_eq_true]
  simp only [same_string_iff]

/-- What stands under a key has become part of a notification. -/
inductive BecameNotice : String → Value → Notice → Prop
  | action {v : Value} {n : Notice} (h : v.Says n.action) : BecameNotice "action" v n
  | target {v : Value} {n : Notice} (h : v.Says n.target) : BecameNotice "resource" v n
  | timing {v : Value} {n : Notice} (h : v.Says n.timing) : BecameNotice "timing" v n

/-- What is found under a key of a notification with a meaning has become part of it. -/
theorem becameNotice_of_asks {entries : List (Value × Value)} {n : Notice}
    (h : Asks (.mapping entries) n) {name : String}
    (hname : name ∈ ["action", "resource", "timing"]) {v : Value}
    (hv : field? name entries = some v) : BecameNotice name v n := by
  cases h with
  | mapping haction htarget htiming =>
    simp only [List.mem_cons, List.not_mem_nil, or_false] at hname
    rcases hname with rfl | rfl | rfl
    · exact .action (haction.found hv)
    · exact .target (htarget.found hv)
    · rw [hv] at htiming
      cases htiming with
      | written htext => exact .timing htext

/-- All keys of a notification are read exactly if each of them has a meaning. -/
theorem read_notice_iff {entries : List (Value × Value)} {n : Notice}
    (h : Asks (.mapping entries) n) :
    KeysRead (BecameNotice · · n) entries ↔ ∀ e ∈ entries, isNamed e = true := by
  constructor
  · intro hread e he
    obtain ⟨name, v, hname, -, hbecame⟩ := hread e he
    refine isNamed_iff.mpr ⟨name, ?_, hname⟩
    cases hbecame <;> simp
  · intro hnamed e he
    obtain ⟨name, hmem, hname⟩ := isNamed_iff.mp (hnamed e he)
    obtain ⟨v, hv⟩ := exists_field?_of_mem he hname
    exact ⟨name, v, hname, hv, becameNotice_of_asks h hmem hv⟩

/-- Only three keys matter to a notification, so any other is passed over. -/
theorem asks_filter_isNamed {entries : List (Value × Value)} {n : Notice}
    (h : Asks (.mapping entries) n) : Asks (.mapping (entries.filter isNamed)) n := by
  have hfield (name : String) (hname : name ∈ ["action", "resource", "timing"]) :
      field? name (entries.filter isNamed) = field? name entries :=
    field?_filter (fun _ => isNamed_iff.mpr ⟨name, hname, rfl⟩) entries
  cases h with
  | mapping haction htarget htiming =>
    obtain ⟨a, ha, haction⟩ := haction
    obtain ⟨t, ht, htarget⟩ := htarget
    refine .mapping ⟨a, (hfield _ (by simp)).trans ha, haction⟩
      ⟨t, (hfield _ (by simp)).trans ht, htarget⟩ ?_
    rwa [hfield _ (by simp)]

/-! ### Every mapping of a document -/

/-- Some entries are the mapping of a statement that a document holds, at any depth. -/
inductive Occurs : Value → List Statement → List (Value × Value) → Statement → Prop
  /-- A statement of the document itself. -/
  | item {items : List Value} {list : List Statement} {i : Nat} {v : Value} {s : Statement}
      {entries : List (Value × Value)} (hitem : items[i]? = some v)
      (hmapping : v.entries? = some entries) (hstatement : list[i]? = some s) :
      Occurs (.sequence items) list entries s
  /-- A statement in the body of a definition. -/
  | inner {v w : Value} {list body : List Statement} {name : String} {params : OrderedMap Value}
      {outer entries : List (Value × Value)} {s : Statement}
      (hdefine : Occurs v list outer (.define name params body))
      (hbody : field? "body" outer = some w) (hinner : Occurs w body entries s) :
      Occurs v list entries s

/-- Some entries are the mapping of a notification that is asked for. -/
inductive Listed : Option Value → List Notice → List (Value × Value) → Notice → Prop
  | item {vs : List Value} {notices : List Notice} {i : Nat} {entries : List (Value × Value)}
      {n : Notice} (hitem : vs[i]? = some (.mapping entries)) (hnotice : notices[i]? = some n) :
      Listed (some (.sequence vs)) notices entries n
  | single (entries : List (Value × Value)) (n : Notice) :
      Listed (some (.mapping entries)) [n] entries n

/-- Some entries are the mapping of a notification of a statement that a document holds. -/
def OccursNotice (v : Value) (list : List Statement) (entries : List (Value × Value))
    (n : Notice) : Prop :=
  ∃ outer keyword identifier block, Occurs v list outer (.declare keyword identifier block) ∧
    Listed (field? "notifies" outer) (block.getD Block.empty).notifies entries n

/-- The value at a place denotes the statement at that place. -/
theorem DenotesAll.getElem {vs : List Value} {list : List Statement} (h : DenotesAll vs list)
    {i : Nat} {v : Value} {s : Statement} (hv : vs[i]? = some v) (hs : list[i]? = some s) :
    Denotes v s := by
  induction i generalizing vs list with
  | zero =>
    cases h with
    | nil => cases hv
    | cons hfirst hrest =>
      cases hv
      cases hs
      exact hfirst
  | succ i ih =>
    cases h with
    | nil => cases hv
    | cons hfirst hrest => exact ih hrest hv hs

/-- Only the entries of a mapping matter, and no tags around it. -/
theorem Denotes.mapping {v : Value} {entries : List (Value × Value)} {s : Statement}
    (h : Denotes v s) (hv : v.entries? = some entries) : Denotes (.mapping entries) s := by
  cases h with
  | declare hmapping hfree hkeyword hstrings hidentifier hblock =>
    cases hmapping.symm.trans hv
    exact .declare rfl hfree hkeyword hstrings hidentifier hblock
  | define hmapping hkeys hname hparams hbody hholds =>
    cases hmapping.symm.trans hv
    exact .define rfl hkeys hname hparams hbody hholds
  | includeRecipe hmapping hkeys htarget =>
    cases hmapping.symm.trans hv
    exact .includeRecipe rfl hkeys htarget

/-- A mapping that occurs in a document denotes the statement that it is there for. -/
theorem Occurs.denotes {v : Value} {list : List Statement} {entries : List (Value × Value)}
    {s : Statement} (h : Occurs v list entries s) (hholds : Holds v list) :
    Denotes (.mapping entries) s := by
  induction h with
  | item hitem hmapping hstatement =>
    cases hholds with
    | sequence hitems => exact (hitems.getElem hitem hstatement).mapping hmapping
  | inner hdefine hbody hinner ih ih' =>
    cases ih hholds with
    | define hmapping hkeys hname hparams hfound hinside =>
      cases hmapping
      cases hfound.symm.trans hbody
      exact ih' hinside

/-- A mapping in a list of notifications asks for the one that it is there for. -/
theorem Listed.asks {written : Option Value} {notices : List Notice}
    {entries : List (Value × Value)} {n : Notice} (h : Listed written notices entries n)
    (hasks : AsksAll written notices) : Asks (.mapping entries) n := by
  cases h with
  | item hitem hnotice =>
    cases hasks with
    | sequence hnotices =>
      obtain ⟨hi, hv⟩ := List.getElem?_eq_some_iff.mp hitem
      obtain ⟨hi', hn⟩ := List.getElem?_eq_some_iff.mp hnotice
      have hasks := hnotices.get hi hi'
      rwa [List.get_eq_getElem, List.get_eq_getElem, hv, hn] at hasks
  | single =>
    cases hasks with
    | single hnotice => exact hnotice

/-- A mapping that occurs in a document for a notification asks for it. -/
theorem OccursNotice.asks {v : Value} {list : List Statement} {entries : List (Value × Value)}
    {n : Notice} (h : OccursNotice v list entries n) (hholds : Holds v list) :
    Asks (.mapping entries) n := by
  obtain ⟨outer, keyword, identifier, block, hoccurs, hlisted⟩ := h
  cases hoccurs.denotes hholds with
  | declare hmapping hfree hkeyword hstrings hidentifier hblock =>
    cases hmapping
    exact hlisted.asks hblock.notifies

/-- In a document that is read, every key of the mapping of a statement is accounted for, at any
depth. All of them are read exactly if none has a tag. All keys in the mapping of a notification
are read exactly if each of them has a meaning. Any others are passed over. -/
theorem ofDocument_keys {v : Value} {list : List Statement} (h : ofDocument v = .ok list) :
    (∀ entries s, Occurs v list entries s → Accounts entries s ∧
      (KeysRead (Became · · s) entries ↔ ∀ e ∈ entries, e.1.isPlain = true)) ∧
    ∀ entries n, OccursNotice v list entries n →
      Asks (.mapping (entries.filter isNamed)) n ∧
        (KeysRead (BecameNotice · · n) entries ↔ ∀ e ∈ entries, isNamed e = true) := by
  have hholds := ofDocument_eq_ok_iff.mp h
  refine ⟨fun entries s hoccurs => ?_, fun entries n hoccurs => ?_⟩
  · have haccounts := accounts_of_denotes (hoccurs.denotes hholds)
    exact ⟨haccounts, haccounts.read_iff⟩
  · have hasks := hoccurs.asks hholds
    exact ⟨asks_filter_isNamed hasks, read_notice_iff hasks⟩

/-- A notification that asks for a restart, with `immediately` written under some name. -/
def hurry (name : String) : List (String × Value) :=
  [("action", .string "restart"), ("resource", .string "service[nginx]"),
    (name, .string "immediately")]

/-- A package with this notification. -/
def hurried (name : String) : Value :=
  .sequence [.ofFields [("package", .string "nginx"), ("notifies", .ofFields (hurry name))]]

/-- What is read from it when the notification has this timing. -/
def restarting (timing : String) : List Statement :=
  [.declare "package" "nginx" (some ⟨{}, [⟨"restart", "service[nginx]", timing⟩]⟩)]

/-- The package is read with the timing that is found under the right name. -/
theorem ofDocument_hurried {name timing : String}
    (htiming : Timed (field? "timing" (plain (hurry name))) timing) :
    ofDocument (hurried name) = .ok (restarting timing) := by
  have hnotice := AsksAll.single
    (.mapping ⟨_, rfl, says_string "restart"⟩ ⟨_, rfl, says_string "service[nginx]"⟩ htiming)
  refine ofDocument_eq_ok_iff.mpr (.sequence (.cons ?_ .nil))
  exact .declare rfl ⟨by decide, by decide⟩ rfl isSome_string?_plain ⟨_, rfl, says_string _⟩
    (.some .absent hnotice (.inr (List.cons_ne_nil _ _)))

/-- The notification is one that occurs in this document. -/
theorem occursNotice_hurried (name timing : String) :
    OccursNotice (hurried name) (restarting timing) (plain (hurry name))
      ⟨"restart", "service[nginx]", timing⟩ :=
  ⟨_, _, _, _, .item (i := 0) rfl rfl rfl, .single _ _⟩

/-- With its timing spelt right, every key of the notification is read. -/
theorem ofDocument_keys_hurried :
    ofDocument (hurried "timing") = .ok (restarting "immediately") ∧
      KeysRead (BecameNotice · · ⟨"restart", "service[nginx]", "immediately"⟩)
        (plain (hurry "timing")) := by
  have hread : ofDocument (hurried "timing") = .ok (restarting "immediately") :=
    ofDocument_hurried (.written (says_string "immediately"))
  have hkeys := (ofDocument_keys hread).2 _ _ (occursNotice_hurried "timing" "immediately")
  exact ⟨hread, hkeys.2.mpr (by decide)⟩

/-- With its timing misspelt, the notification is delayed, and that key is not read. -/
theorem ofDocument_misspelt :
    ofDocument (hurried "timeing") = .ok (restarting "delay") ∧
      OccursNotice (hurried "timeing") (restarting "delay") (plain (hurry "timeing"))
        ⟨"restart", "service[nginx]", "delay"⟩ ∧
      ¬KeysRead (BecameNotice · · ⟨"restart", "service[nginx]", "delay"⟩)
        (plain (hurry "timeing")) := by
  have hread : ofDocument (hurried "timeing") = .ok (restarting "delay") :=
    ofDocument_hurried .absent
  have hoccurs := occursNotice_hurried "timeing" "delay"
  have hasks := hoccurs.asks (ofDocument_eq_ok_iff.mp hread)
  exact ⟨hread, hoccurs, fun hkeys => absurd ((read_notice_iff hasks).mp hkeys) (by decide)⟩

end Statement

end Provision

import Provision.Proofs.Graph.Documents

/-!
# Descriptors as addresses

The type of a descriptor goes up to the first opening bracket, and its name up to the first
closing one, which has to be the end. So a text is the descriptor of at most one type and name.
The descriptor of a resource is written without regard to that: it leads back to the resource,
or to one of its kind and name before it, unless its name is empty or has a closing bracket.
-/

namespace Provision

namespace Descriptor

variable {d d' : Descriptor}

/-- Descriptors whose types have no opening bracket are told apart by their texts. -/
theorem text_inj (h : '[' ∉ d.type.toList) (h' : '[' ∉ d'.type.toList) :
    d.text = d'.text ↔ d = d' := by
  refine ⟨fun heq => ?_, congrArg text⟩
  have hchars : d.type.toList ++ '[' :: (d.name.toList ++ [']']) =
      d'.type.toList ++ '[' :: (d'.name.toList ++ [']']) := by
    simpa [text] using congrArg String.toList heq
  have htype : d.type.toList = d'.type.toList := by
    have hfront := congrArg (List.takeWhile (· ≠ '[')) hchars
    rwa [takeWhile_of_not_mem h, takeWhile_of_not_mem h'] at hfront
  have hname : d.name.toList = d'.name.toList := by
    rw [htype, List.append_cancel_left_eq, List.cons_inj_right, List.append_left_inj] at hchars
    exact hchars
  cases d
  cases d'
  rw [mk.injEq]
  exact ⟨String.toList_inj.mp htype, String.toList_inj.mp hname⟩

/-- The text of a descriptor represents itself or nothing. -/
theorem ofText?_text_iff (h : '[' ∉ d.type.toList) :
    ofText? d.text = some d' ↔ d' = d ∧ d.WellFormed := by
  rw [ofText?_eq_some_iff]
  constructor
  · rintro ⟨hd', htext⟩
    obtain rfl := (text_inj h hd'.type_open).mp htext
    exact ⟨rfl, hd'⟩
  · rintro ⟨rfl, hd⟩
    exact ⟨hd, rfl⟩

end Descriptor

/-- No keyword of a kind is empty. -/
theorem Kind.keyword_ne (kind : Kind) : kind.keyword ≠ "" := by
  cases kind <;> decide

/-- No keyword of a kind has a bracket in it. -/
theorem Kind.not_mem_keyword (kind : Kind) : '[' ∉ kind.keyword.toList := by
  cases kind <;> decide

namespace Resource

/-- The type and the name of a resource. -/
def address (x : Resource) : Descriptor := ⟨x.kind.keyword, x.name⟩

/-- The descriptor of a resource can be read. -/
structure Addressable (x : Resource) : Prop where
  name_ne : x.name ≠ ""
  name_close : ']' ∉ x.name.toList

/-- A resource is the first of several that has the kind and the name of another. -/
def First (x : Resource) (xs : List Resource) (y : Resource) : Prop :=
  y.kind = x.kind ∧ y.name = x.name ∧ ∃ before after, xs = before ++ y :: after ∧
    ∀ z ∈ before, ¬(z.kind = x.kind ∧ z.name = x.name)

variable {x y : Resource}

/-- The descriptor that is written for a resource can be read if its name can be. -/
theorem wellFormed_address_iff : x.address.WellFormed ↔ x.Addressable := by
  constructor
  · intro h
    exact ⟨h.name_ne, h.name_close⟩
  · intro h
    exact ⟨x.kind.keyword_ne, x.kind.not_mem_keyword, h.name_ne, h.name_close⟩

/-- A resource's own descriptor names the resources of its kind and name. -/
theorem address_names_iff : x.address.Names y ↔ y.kind = x.kind ∧ y.name = x.name :=
  and_congr_left' Kind.keyword_injective.eq_iff

/-- The first of several that an address names. -/
theorem find?_address_eq_some_iff {xs : List Resource} :
    (xs.find? fun z => decide (x.address.Names z)) = some y ↔ x.First xs y := by
  rw [List.find?_eq_some_iff_append, First, decide_eq_true_eq, address_names_iff, and_assoc]
  simp only [Bool.not_eq_true', decide_eq_false_iff_not, address_names_iff]

/-- With a resource in a list, there is a first one of its kind and name. -/
theorem exists_first {xs : List Resource} (h : x ∈ xs) : ∃ y, x.First xs y := by
  have hnames : x.address.Names x := address_names_iff.mpr ⟨rfl, rfl⟩
  have hsome : (xs.find? fun z => decide (x.address.Names z)).isSome = true :=
    List.find?_isSome.mpr ⟨x, h, decide_eq_true hnames⟩
  obtain ⟨y, hy⟩ := Option.isSome_iff_exists.mp hsome
  exact ⟨y, find?_address_eq_some_iff.mp hy⟩

end Resource

namespace Notification

variable {n : Notification} {g : Graph} {r : Recipe} {x y : Resource}

/-- What the descriptor of a resource describes is the resource, if anything. -/
theorem describes_iff (hn : n.target = x.descriptor) {d : Descriptor} :
    n.Describes d ↔ d = x.address ∧ x.Addressable := by
  have hopen : '[' ∉ x.address.type.toList := x.kind.not_mem_keyword
  have htext : n.target = x.address.text := hn
  rw [← Resource.wellFormed_address_iff, ← Descriptor.ofText?_text_iff hopen, ← htext]
  exact Descriptor.ofText?_eq_some_iff.symm

/-- A target is malformed exactly if it describes nothing. -/
theorem resource?_malformed_iff :
    n.resource? g = .error (.malformed n.target) ↔ ∀ d, ¬n.Describes d := by
  constructor
  · intro h d hd
    rcases resource?_error h with ⟨-, hfailure⟩ | ⟨hnone, -⟩
    · cases hfailure
    · exact hnone ⟨d, hd⟩
  · intro h
    have hnone : Descriptor.ofText? n.target = none :=
      Option.eq_none_iff_forall_ne_some.mpr fun d hd => h d (Descriptor.ofText?_eq_some_iff.mp hd)
    rw [resource?, hnone]

section

variable (hr : g.recipe? n.recipe = some r) (hn : n.target = x.descriptor)

include hr hn

/-- Where the descriptor of a resource leads to. -/
theorem resource?_eq_ok_iff : n.resource? g = .ok y ↔ x.Addressable ∧ x.First r.resources y := by
  constructor
  · intro h
    obtain ⟨d, hd, hnames, before, after, hsplit, hbefore⟩ := means_of_resource? hr h
    obtain ⟨rfl, haddressable⟩ := (describes_iff hn).mp hd
    simp only [Resource.address_names_iff] at hnames hbefore
    exact ⟨haddressable, hnames.1, hnames.2, before, after, hsplit, hbefore⟩
  · rintro ⟨haddressable, hfirst⟩
    have hd : n.Describes x.address := (describes_iff hn).mpr ⟨rfl, haddressable⟩
    rw [resource?_of_describes hd, hr, Option.bind_some,
      Resource.find?_address_eq_some_iff.mpr hfirst]

/-- A notification finds a resource by the descriptor of one in the recipe exactly when this one is
addressable. -/
theorem resource?_isOk_iff_addressable (hx : x ∈ r.resources) :
    (∃ y, n.resource? g = .ok y) ↔ x.Addressable := by
  simp only [resource?_eq_ok_iff hr hn, exists_and_left]
  exact and_iff_left (Resource.exists_first hx)

/-- It fails only for a descriptor that cannot be read, never because nothing is found. -/
theorem resource?_eq_error_iff (hx : x ∈ r.resources) {f : Failure} :
    n.resource? g = .error f ↔ ¬x.Addressable ∧ f = .malformed x.descriptor := by
  constructor
  · intro h
    have hnot : ¬x.Addressable := by
      intro haddressable
      obtain ⟨y, hy⟩ := (resource?_isOk_iff_addressable hr hn hx).mpr haddressable
      cases hy.symm.trans h
    rcases resource?_error h with ⟨⟨d, hd⟩, -⟩ | ⟨-, hf⟩
    · exact absurd ((describes_iff hn).mp hd).2 hnot
    · exact ⟨hnot, hn ▸ hf⟩
  · rintro ⟨hnot, rfl⟩
    rw [← hn, resource?_malformed_iff]
    exact fun d hd => hnot ((describes_iff hn).mp hd).2

end

end Notification

/-- A text is a descriptor exactly if it is written as one, in one way only, and a target that is
not written as one is malformed. The descriptor of a resource of a recipe leads to the first of
its kind and name there, unless its name is empty or has a closing bracket. In that case it is
malformed. -/
theorem Descriptor.addresses :
    (∀ text type name, ofText? text = some ⟨type, name⟩ ↔
      (⟨type, name⟩ : Descriptor).WellFormed ∧ text = type ++ "[" ++ name ++ "]") ∧
    (∀ (n : Notification) g, n.resource? g = .error (.malformed n.target) ↔
      ¬∃ type name, (⟨type, name⟩ : Descriptor).WellFormed ∧
        n.target = type ++ "[" ++ name ++ "]") ∧
    ∀ (n : Notification) g r x, g.recipe? n.recipe = some r → x ∈ r.resources →
      n.target = x.descriptor →
        ((∃ y, n.resource? g = .ok y) ↔ x.Addressable) ∧
        (∀ y, n.resource? g = .ok y ↔ x.Addressable ∧ x.First r.resources y) ∧
        ∀ f, n.resource? g = .error f ↔ ¬x.Addressable ∧ f = .malformed x.descriptor := by
  refine ⟨fun text type name => ofText?_eq_some_iff, fun n g => ?_, fun n g r x hr hx hn => ?_⟩
  · rw [Notification.resource?_malformed_iff]
    constructor
    · rintro h ⟨type, name, hdescribes⟩
      exact h ⟨type, name⟩ hdescribes
    · rintro h ⟨type, name⟩ hdescribes
      exact h ⟨type, name, hdescribes⟩
  · exact ⟨Notification.resource?_isOk_iff_addressable hr hn hx,
      fun _ => Notification.resource?_eq_ok_iff hr hn,
      fun _ => Notification.resource?_eq_error_iff hr hn hx⟩

/-- A recipe with two commands of one name, and with one whose name has a closing bracket. -/
def Recipe.commands : Recipe :=
  ⟨⟨"/r.yml"⟩, .file, ["ls [a", "ls [a", "ls [a]"].map fun name =>
    .resource ⟨.execute, name, 0, {}, [], none, none⟩⟩

/-- An opening bracket is no harm to a name, a closing one is. -/
theorem Descriptor.addresses_commands :
    ofText? "execute[ls [a]" = some ⟨"execute", "ls [a"⟩ ∧
      (∃ y, Notification.resource? ⟨0, "run", "execute[ls [a]", .delay⟩
        ⟨[0], #[Recipe.commands]⟩ = .ok y ∧ y.name = "ls [a") ∧
      Notification.resource? ⟨0, "run", "execute[ls [a]]", .delay⟩ ⟨[0], #[Recipe.commands]⟩ =
        .error (.malformed "execute[ls [a]]") := by
  obtain ⟨hread, -, hleads⟩ := addresses
  refine ⟨?_, ?_, ?_⟩
  · exact (hread _ _ _).mpr ⟨⟨by decide, by decide, by decide, by decide⟩, rfl⟩
  · obtain ⟨hok, hfirst, -⟩ := hleads ⟨0, "run", "execute[ls [a]", .delay⟩ ⟨[0], #[Recipe.commands]⟩
      Recipe.commands ⟨.execute, "ls [a", 0, {}, [], none, none⟩ rfl (.head _) rfl
    obtain ⟨y, hy⟩ := hok.mpr ⟨by decide, by decide⟩
    exact ⟨y, hy, ((hfirst y).mp hy).2.2.1⟩
  · obtain ⟨-, -, hmalformed⟩ := hleads ⟨0, "run", "execute[ls [a]]", .delay⟩
      ⟨[0], #[Recipe.commands]⟩ Recipe.commands ⟨.execute, "ls [a]", 0, {}, [], none, none⟩ rfl
      (.tail _ (.tail _ (.head _))) rfl
    exact (hmalformed _).mpr ⟨fun h => h.name_close (by decide), rfl⟩

end Provision

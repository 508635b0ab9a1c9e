import Provision.Proofs.Json.Quotation

/-!
# Documents are told from their texts

A written document is never the beginning of another one, however the parts are set apart. The
first character tells its kind, a string ends at its quote, a number ends where no character of a
number follows, and an array or object ends where no comma follows. So two documents of one text
are one document.
-/

namespace Provision.Json

/-! ### Numbers -/

/-- The characters of numbers. -/
def numeralChars : List Char :=
  ['0', '1', '2', '3', '4', '5', '6', '7', '8', '9', '+', '-', '.', 'e']

/-- A text that has the characters of a number. -/
def IsNumeral (cs : List Char) : Prop := cs ≠ [] ∧ ∀ c ∈ cs, c ∈ numeralChars

/-- What follows a number: it does not go on in the number. -/
def Ended (rest : List Char) : Prop := ∀ c ∈ rest.head?, c ∉ numeralChars

/-- The characters of a number are all of a text up to where it has ended. -/
theorem takeWhile_numeral {cs rest : List Char} (hcs : IsNumeral cs) (hrest : Ended rest) :
    (cs ++ rest).takeWhile (· ∈ numeralChars) = cs := by
  rw [List.takeWhile_append_of_pos (by simpa using hcs.2)]
  cases rest with
  | nil => simp
  | cons c rest => simp [hrest c rfl]

/-- Where numbers have ended, they can be told from what follows. -/
theorem numeral_append_inj {s t : String} {rest rest' : List Char} (hs : IsNumeral s.toList)
    (ht : IsNumeral t.toList) (hrest : Ended rest) (hrest' : Ended rest')
    (h : s.toList ++ rest = t.toList ++ rest') : s = t ∧ rest = rest' := by
  have hst : s.toList = t.toList := by
    rw [← takeWhile_numeral hs hrest, h, takeWhile_numeral ht hrest']
  exact ⟨String.toList_inj.1 hst, List.append_cancel_left (by rwa [hst] at h)⟩

/-- A document whose numbers have the texts of numbers. -/
inductive Proper : Json → Prop
  | null : Proper .null
  | bool {b : Bool} : Proper (.bool b)
  | number {text : String} (h : IsNumeral text.toList) : Proper (.number text)
  | string {s : String} : Proper (.string s)
  | array {items : List Json} (h : ∀ j ∈ items, Proper j) : Proper (.array items)
  | object {fields : List (String × Json)} (h : ∀ e ∈ fields, Proper e.2) : Proper (.object fields)

/-! ### The first character -/

/-- The kinds of documents. -/
inductive Shape
  | null
  | bool
  | number
  | string
  | array
  | object

/-- The kind of a document. -/
def shape : Json → Shape
  | .null => .null
  | .bool _ => .bool
  | .number _ => .number
  | .string _ => .string
  | .array _ => .array
  | .object _ => .object

/-- The kind of the documents that a character begins. -/
def shapeOf? (c : Char) : Option Shape :=
  if c ∈ numeralChars then some .number
  else
    match c with
    | 'n' => some .null
    | 't' | 'f' => some .bool
    | '"' => some .string
    | '[' => some .array
    | '\x7b' => some .object
    | _ => none

section

variable (p : Spacing) {level : Nat} {j j' : Json} {rest rest' : List Char}

/-- What is written begins with a character that tells its shape. -/
theorem Proper.written_eq_cons (h : j.Proper) (level : Nat) :
    ∃ c cs, j.written p level = c :: cs ∧ shapeOf? c = some j.shape := by
  cases h with
  | null | string => exact ⟨_, _, rfl, rfl⟩
  | @bool b => cases b <;> exact ⟨_, _, rfl, rfl⟩
  | @number text h =>
    cases htext : text.toList with
    | nil => exact absurd htext h.1
    | cons c cs => exact ⟨c, cs, htext, if_pos (h.2 c (by simp [htext]))⟩
  | @array items => cases items <;> exact ⟨_, _, rfl, rfl⟩
  | @object fields => cases fields <;> exact ⟨_, _, rfl, rfl⟩

/-- Texts that begin with the same character have documents of the same kind. -/
theorem Proper.shape_eq (hj : j.Proper) (hj' : j'.Proper)
    (h : j.written p level ++ rest = j'.written p level ++ rest') : j.shape = j'.shape := by
  obtain ⟨c, cs, hc, hshape⟩ := hj.written_eq_cons p level
  obtain ⟨c', cs', hc', hshape'⟩ := hj'.written_eq_cons p level
  rw [hc, hc'] at h
  rw [(List.cons.inj h).1, hshape'] at hshape
  exact (Option.some.inj hshape).symm

/-! ### The end of arrays and objects -/

/-- The parts of an array in front of a text. -/
theorem written_array_cons (i : Json) (is : List Json) :
    (array (i :: is)).written p level ++ rest =
      '[' :: (p.gap (level + 1) ++ (i.written p (level + 1) ++
        (writtenItems p (level + 1) is ++ (p.gap level ++ ']' :: rest)))) := by
  simp only [written, List.cons_append, List.append_assoc, List.nil_append]

/-- The parts of an object in front of a text. -/
theorem written_object_cons (k : String) (i : Json) (fs : List (String × Json)) :
    (object ((k, i) :: fs)).written p level ++ rest =
      '\x7b' :: (p.gap (level + 1) ++ (quoted k ++ ':' :: (p.pad ++ (i.written p (level + 1) ++
        (writtenFields p (level + 1) fs ++ (p.gap level ++ '\x7d' :: rest)))))) := by
  simp only [written, List.cons_append, List.append_assoc, List.nil_append]

/-- What follows the parts of an array or object: neither another part nor more of a number. -/
def Closing (rest : List Char) : Prop := ∀ c ∈ rest.head?, c ∉ numeralChars ∧ c ≠ ','

/-- What closes a list does not go on in a number. -/
theorem Closing.ended (h : Closing rest) : Ended rest := fun c hc => (h c hc).1

/-- What closes a list is no comma. -/
theorem Closing.ne_comma (h : Closing rest) (cs : List Char) : rest ≠ ',' :: cs := by
  rintro rfl
  exact (h ',' rfl).2 rfl

/-- A gap begins with a space or a line break, if it is not empty. -/
theorem Spacing.head_gap {c : Char} (h : c ∈ (p.gap level ++ rest).head?) :
    c = ' ' ∨ c = '\n' ∨ c ∈ rest.head? := by
  cases hgap : p.gap level with
  | nil => exact .inr (.inr (by simpa [hgap] using h))
  | cons x xs =>
    obtain rfl : x = c := by simpa [hgap] using h
    rcases p.blank level x (by simp [hgap]) with hx | hx
    · exact .inl hx
    · exact .inr (.inl hx)

/-- A bracket closes a list, also after a gap. -/
theorem Spacing.closing_gap {c : Char} (hc : c ∉ numeralChars ∧ c ≠ ',') (level : Nat)
    (rest : List Char) : Closing (p.gap level ++ c :: rest) := by
  intro x hx
  rcases p.head_gap hx with rfl | rfl | hx
  · decide
  · decide
  · obtain rfl : c = x := by simpa using hx
    exact hc

/-- A comma ends a number. -/
theorem ended_comma (rest : List Char) : Ended (',' :: rest) := by
  intro c hc
  obtain rfl : ',' = c := by simpa using hc
  decide

/-- A number has ended before the items that follow it, or their end. -/
theorem Closing.ended_items (h : Closing rest) (level : Nat) (js : List Json) :
    Ended (writtenItems p level js ++ rest) := by
  cases js with
  | nil => exact h.ended
  | cons => exact ended_comma _

/-- A number has ended before the fields that follow it, or their end. -/
theorem Closing.ended_fields (h : Closing rest) (level : Nat) (fs : List (String × Json)) :
    Ended (writtenFields p level fs ++ rest) := by
  cases fs with
  | nil => exact h.ended
  | cons => exact ended_comma _

/-- An empty list is not the beginning of one with items. -/
theorem Spacing.no_items {c : Char} (hc : c ≠ ' ' ∧ c ≠ '\n' ∧ shapeOf? c = none) (hj : j.Proper) :
    c :: rest ≠ p.gap level ++ (j.written p level ++ rest') := by
  intro h
  obtain ⟨d, ds, hd, hshape⟩ := hj.written_eq_cons p level
  have hhead : c ∈ (p.gap level ++ (j.written p level ++ rest')).head? := by simp [← h]
  rcases p.head_gap hhead with hx | hx | hx
  · exact hc.1 hx
  · exact hc.2.1 hx
  · obtain rfl : d = c := by simpa [hd] using hx
    simp [hc.2.2] at hshape

/-- An empty object is not the beginning of one with fields. -/
theorem Spacing.no_fields {c : Char} (hc : c ≠ ' ' ∧ c ≠ '\n' ∧ c ≠ '"') {k : String} :
    c :: rest ≠ p.gap level ++ (quoted k ++ rest') := by
  intro h
  have hhead : c ∈ (p.gap level ++ (quoted k ++ rest')).head? := by simp [← h]
  rcases p.head_gap hhead with hx | hx | hx
  · exact hc.1 hx
  · exact hc.2.1 hx
  · exact hc.2.2 (by simpa [quoted] using hx.symm)

end

/-! ### A whole document -/

section

variable (p : Spacing)

mutual

/-- Documents that begin one text are the same, and so is what follows them. -/
theorem written_append_inj {j j' : Json} {level : Nat} {rest rest' : List Char} (hj : j.Proper)
    (hj' : j'.Proper) (hrest : Ended rest) (hrest' : Ended rest')
    (h : j.written p level ++ rest = j'.written p level ++ rest') : j = j' ∧ rest = rest' := by
  -- Documents of two kinds differ in the first character, so only equal kinds are left.
  have hshape := hj.shape_eq p hj' h
  match j, j' with
  | .null, .null => exact ⟨rfl, List.append_cancel_left h⟩
  | .bool b, .bool b' =>
    cases b <;> cases b' <;> first | exact ⟨rfl, List.append_cancel_left h⟩ | cases h
  | .number s, .number s' =>
    cases hj with | number hs =>
    cases hj' with | number hs' =>
    obtain ⟨rfl, htail⟩ := numeral_append_inj hs hs' hrest hrest' h
    exact ⟨rfl, htail⟩
  | .string s, .string s' =>
    obtain ⟨rfl, htail⟩ := quoted_append_inj h
    exact ⟨rfl, htail⟩
  | .array is, .array is' =>
    cases hj with | array his =>
    cases hj' with | array his' =>
    obtain ⟨rfl, htail⟩ := array_append_inj his his' h
    exact ⟨rfl, htail⟩
  | .object fs, .object fs' =>
    cases hj with | object hfs =>
    cases hj' with | object hfs' =>
    obtain ⟨rfl, htail⟩ := object_append_inj hfs hfs' h
    exact ⟨rfl, htail⟩

/-- Arrays can be told from what follows them if their items can. -/
theorem array_append_inj {is is' : List Json} {level : Nat} {rest rest' : List Char}
    (his : ∀ j ∈ is, j.Proper) (his' : ∀ j ∈ is', j.Proper)
    (h : (array is).written p level ++ rest = (array is').written p level ++ rest') :
    is = is' ∧ rest = rest' := by
  have hclosed := p.closing_gap (by decide : ']' ∉ numeralChars ∧ ']' ≠ ',') level
  match is, is' with
  | [], [] => exact ⟨rfl, List.append_cancel_left h⟩
  | [], i :: is =>
    rw [written_array_cons] at h
    exact absurd (List.cons.inj h).2 (p.no_items (by decide) (his' i (by simp)))
  | i :: is, [] =>
    rw [written_array_cons] at h
    exact absurd (List.cons.inj h.symm).2 (p.no_items (by decide) (his i (by simp)))
  | i :: is, i' :: is' =>
    rw [written_array_cons, written_array_cons] at h
    obtain ⟨hi, hmore⟩ := List.forall_mem_cons.1 his
    obtain ⟨hi', hmore'⟩ := List.forall_mem_cons.1 his'
    obtain ⟨rfl, hitems⟩ := written_append_inj hi hi'
      ((hclosed rest).ended_items p _ is) ((hclosed rest').ended_items p _ is')
      (List.append_cancel_left (List.cons.inj h).2)
    obtain ⟨rfl, hclose⟩ :=
      writtenItems_append_inj hmore hmore' (hclosed rest) (hclosed rest') hitems
    exact ⟨rfl, (List.cons.inj (List.append_cancel_left hclose)).2⟩

/-- Objects can be told from what follows them if the values of their fields can. -/
theorem object_append_inj {fs fs' : List (String × Json)} {level : Nat} {rest rest' : List Char}
    (hfs : ∀ e ∈ fs, e.2.Proper) (hfs' : ∀ e ∈ fs', e.2.Proper)
    (h : (object fs).written p level ++ rest = (object fs').written p level ++ rest') :
    fs = fs' ∧ rest = rest' := by
  have hclosed := p.closing_gap (by decide : '\x7d' ∉ numeralChars ∧ '\x7d' ≠ ',') level
  match fs, fs' with
  | [], [] => exact ⟨rfl, List.append_cancel_left h⟩
  | [], (k, i) :: fs =>
    rw [written_object_cons] at h
    exact absurd (List.cons.inj h).2 (p.no_fields (by decide))
  | (k, i) :: fs, [] =>
    rw [written_object_cons] at h
    exact absurd (List.cons.inj h.symm).2 (p.no_fields (by decide))
  | (k, i) :: fs, (k', i') :: fs' =>
    rw [written_object_cons, written_object_cons] at h
    obtain ⟨hi, hmore⟩ := List.forall_mem_cons.1 hfs
    obtain ⟨hi', hmore'⟩ := List.forall_mem_cons.1 hfs'
    obtain ⟨rfl, hfield⟩ := quoted_append_inj (List.append_cancel_left (List.cons.inj h).2)
    obtain ⟨rfl, hfields⟩ := written_append_inj hi hi'
      ((hclosed rest).ended_fields p _ fs) ((hclosed rest').ended_fields p _ fs')
      (List.append_cancel_left (List.cons.inj hfield).2)
    obtain ⟨rfl, hclose⟩ :=
      writtenFields_append_inj hmore hmore' (hclosed rest) (hclosed rest') hfields
    exact ⟨rfl, (List.cons.inj (List.append_cancel_left hclose)).2⟩

/-- Lists of items that end where no item follows are the same. -/
theorem writtenItems_append_inj {js js' : List Json} {level : Nat} {rest rest' : List Char}
    (hjs : ∀ j ∈ js, j.Proper) (hjs' : ∀ j ∈ js', j.Proper) (hrest : Closing rest)
    (hrest' : Closing rest')
    (h : writtenItems p level js ++ rest = writtenItems p level js' ++ rest') :
    js = js' ∧ rest = rest' := by
  match js, js' with
  | [], [] => exact ⟨rfl, h⟩
  | [], _ :: _ => exact absurd h (hrest.ne_comma _)
  | _ :: _, [] => exact absurd h.symm (hrest'.ne_comma _)
  | j :: js, j' :: js' =>
    simp only [writtenItems, List.cons_append, List.append_assoc, List.cons.injEq, true_and] at h
    obtain ⟨hj, hmore⟩ := List.forall_mem_cons.1 hjs
    obtain ⟨hj', hmore'⟩ := List.forall_mem_cons.1 hjs'
    obtain ⟨rfl, hitems⟩ := written_append_inj hj hj' (hrest.ended_items p _ js)
      (hrest'.ended_items p _ js') (List.append_cancel_left h)
    obtain ⟨rfl, htail⟩ := writtenItems_append_inj hmore hmore' hrest hrest' hitems
    exact ⟨rfl, htail⟩

/-- Lists of fields that end where no field follows are the same. -/
theorem writtenFields_append_inj {fs fs' : List (String × Json)} {level : Nat}
    {rest rest' : List Char} (hfs : ∀ e ∈ fs, e.2.Proper) (hfs' : ∀ e ∈ fs', e.2.Proper)
    (hrest : Closing rest) (hrest' : Closing rest')
    (h : writtenFields p level fs ++ rest = writtenFields p level fs' ++ rest') :
    fs = fs' ∧ rest = rest' := by
  match fs, fs' with
  | [], [] => exact ⟨rfl, h⟩
  | [], _ :: _ => exact absurd h (hrest.ne_comma _)
  | _ :: _, [] => exact absurd h.symm (hrest'.ne_comma _)
  | (k, j) :: fs, (k', j') :: fs' =>
    simp only [writtenFields, List.cons_append, List.append_assoc, List.cons.injEq, true_and] at h
    obtain ⟨hj, hmore⟩ := List.forall_mem_cons.1 hfs
    obtain ⟨hj', hmore'⟩ := List.forall_mem_cons.1 hfs'
    obtain ⟨rfl, hfield⟩ := quoted_append_inj (List.append_cancel_left h)
    obtain ⟨rfl, hfields⟩ := written_append_inj hj hj' (hrest.ended_fields p _ fs)
      (hrest'.ended_fields p _ fs') (List.append_cancel_left (List.cons.inj hfield).2)
    obtain ⟨rfl, htail⟩ := writtenFields_append_inj hmore hmore' hrest hrest' hfields
    exact ⟨rfl, htail⟩

end

/-- Documents of one text are the same, on one line or on several. -/
theorem Proper.eq_of_written {j j' : Json} (hj : j.Proper) (hj' : j'.Proper)
    (h : j.written p 0 = j'.written p 0) : j = j' :=
  (@written_append_inj p j j' 0 [] [] hj hj' nofun nofun (by rw [h])).1

end

end Provision.Json

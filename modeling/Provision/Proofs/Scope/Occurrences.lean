import Provision.Proofs.Scope.Leaves

/-!
# The placeholders of a value

The placeholders of a value are those of its leaves, in the order in which they are written. To
resolve the value is to ask for them one after the other, and to fill in the answers. Each of them
makes one read, without an argument, of the name at the front of its path, if that is bound. What
is put in is the answer to this read, followed along the rest of the path. The first placeholder
without a value ends the asking.
-/

namespace Provision

/-- A placeholder of a value. -/
structure Occurrence where
  /-- Its path. -/
  key : String
  /-- The leaf that it stands in. -/
  template : String
  deriving DecidableEq

namespace Template

/-- The path of a piece that is a placeholder. -/
def Piece.key? : Piece → Option String
  | .literal _ => none
  | .placeholder key => some key

/-- The placeholders among the pieces of a template. -/
def occurrencesIn (template : String) (pieces : List Piece) : List Occurrence :=
  (pieces.filterMap Piece.key?).map fun key => ⟨key, template⟩

/-- The placeholders of a template. One that is a single placeholder has no other. -/
def occurrences (template : String) : List Occurrence :=
  match wholePlaceholder? template with
  | some key => [⟨key, template⟩]
  | none => occurrencesIn template (pieces template.toList)

/-- Pieces with the texts of values in the place of their placeholders, and the values that are
left. -/
def fillPieces : List Piece → List Value → List Char × List Value
  | [], values => ([], values)
  | .literal text :: rest, values =>
    let filled := fillPieces rest values
    (text ++ filled.1, filled.2)
  | .placeholder _ :: rest, values =>
    let filled := fillPieces rest values.tail
    ((values.headD .null).chars ++ filled.1, filled.2)

/-- A template with values in the place of its placeholders, and the values that are left. -/
def fill (template : String) (values : List Value) : Value × List Value :=
  match wholePlaceholder? template with
  | some _ => (values.headD .null, values.tail)
  | none =>
    let filled := fillPieces (pieces template.toList) values
    (.string (String.ofList filled.1), filled.2)

end Template

namespace Value

/-- The placeholders of a value, in the order in which they are written. -/
def occurrences (v : Value) : List Occurrence := v.leaves.flatMap Template.occurrences

mutual

/-- A value with other values in the place of its placeholders, and the values that are left. -/
def fill : Value → List Value → Value × List Value
  | .string template, values => Template.fill template values
  | .sequence items, values =>
    let filled := fillItems items values
    (.sequence filled.1, filled.2)
  | .mapping entries, values =>
    let filled := fillEntries entries values
    (.mapping filled.1, filled.2)
  | v, values => (v, values)

/-- The items of a sequence with other values in the place of their placeholders. -/
def fillItems : List Value → List Value → List Value × List Value
  | [], values => ([], values)
  | v :: rest, values =>
    let first := v.fill values
    let filled := fillItems rest first.2
    (first.1 :: filled.1, filled.2)

/-- Entries with other values in the place of the placeholders of their values. -/
def fillEntries :
    List (Value × Value) → List Value → List (Value × Value) × List Value
  | [], values => ([], values)
  | (k, v) :: rest, values =>
    let first := v.fill values
    let filled := fillEntries rest first.2
    ((k, first.1) :: filled.1, filled.2)

end

end Value

/-! ### Asking and filling in -/

namespace Scope

/-- Asks for the value of a placeholder. -/
def ask (s : Scope) (o : Occurrence) : Resolving Value := s.placeholder o.template o.key

/-- Asks for several placeholders one after the other. -/
def askAll (s : Scope) (os : List Occurrence) : Resolving (List Value) := os.mapM s.ask

/-- The first placeholder is asked for before the others. -/
theorem askAll_cons (s : Scope) (o : Occurrence) (os : List Occurrence) :
    s.askAll (o :: os) = s.ask o >>= fun v => (v :: ·) <$> s.askAll os := by
  rw [askAll, List.mapM_cons]
  simp only [map_eq_pure_bind, askAll]

/-- A computation asks for placeholders and does nothing else. What it gives is made from the first
of the answers, and those to any questions after it are left over. -/
def Asks {α : Type} (s : Scope) (x : Resolving α) (os : List Occurrence)
    (fill : List Value → α × List Value) : Prop :=
  ∀ more, (x >>= fun a => (a, ·) <$> s.askAll more) = fill <$> s.askAll (os ++ more)

namespace Asks

variable {α β γ : Type} {s : Scope} {x : Resolving α} {y : Resolving β}
  {os others : List Occurrence} {fill : List Value → α × List Value}
  {refill : List Value → β × List Value}

/-- A computation that asks for placeholders is the asking, with the answers filled in. -/
theorem eq_map (h : s.Asks x os fill) : x = (fun values => (fill values).1) <$> s.askAll os := by
  have hnone : s.askAll [] = Pure.pure [] := List.mapM_nil
  have hx := congrArg (Prod.fst <$> ·) (h [])
  simpa only [hnone, List.append_nil, Functor.map_map, map_bind, map_pure, bind_pure] using hx

/-- A value that is there already asks for nothing. -/
theorem pure (a : α) : s.Asks (Pure.pure a) [] fun values => (a, values) := fun more => by
  rw [pure_bind, List.nil_append]

/-- One placeholder is filled with the first answer. -/
theorem ask (o : Occurrence) : s.Asks (s.ask o) [o] fun values =>
    (values.headD .null, values.tail) := fun more => by
  rw [List.singleton_append, askAll_cons, map_bind]
  simp only [Functor.map_map, List.headD_cons, List.tail_cons]

/-- Of two computations one after the other, the second is filled with what the first leaves
over. -/
theorem both (hx : s.Asks x os fill) (hy : s.Asks y others refill) (f : α → β → γ) :
    s.Asks (x >>= fun a => f a <$> y) (os ++ others) fun values =>
      let first := fill values
      let second := refill first.2
      (f first.1 second.1, second.2) := fun more => by
  -- For the first computation, the questions of the second are among those after its own.
  calc
    _ = x >>= fun a => (fun p => (f a p.1, p.2)) <$>
          (y >>= fun b => (b, ·) <$> s.askAll more) := by
      simp only [bind_assoc, bind_map_left, map_bind, Functor.map_map]
    _ = (fun p => (f p.1 (refill p.2).1, (refill p.2).2)) <$>
          (x >>= fun a => (a, ·) <$> s.askAll (others ++ more)) := by
      simp only [hy more, map_bind, Functor.map_map]
    _ = _ := by rw [hx, Functor.map_map, List.append_assoc]

/-- What is made of a result is made after the answers have been filled in. -/
theorem map (hx : s.Asks x os fill) (f : α → β) : s.Asks (f <$> x) os fun values =>
    let filled := fill values
    (f filled.1, filled.2) := fun more => by
  have hmore := congrArg ((fun p : α × List Value => (f p.1, p.2)) <$> ·) (hx more)
  simpa only [map_bind, bind_map_left, Functor.map_map] using hmore

end Asks

open Provision.Template

variable (s : Scope)

/-- A text asks for the placeholders among its pieces. -/
theorem interpolate_asks (template : String) {cs : List Char} {pieces : List Piece}
    (h : Splits cs pieces) :
    s.Asks (s.interpolate template cs) (occurrencesIn template pieces) (fillPieces pieces) := by
  induction h with
  | @rest cs hopen =>
    have hcs : s.interpolate template cs = Pure.pure (cs ++ []) := by
      rw [List.append_nil]
      cases ho : breakAtDouble '{' cs with
      | none => exact s.interpolate_of_none template ho
      | some opened =>
        obtain ⟨before, inside⟩ := opened
        have hclose := breakAtDouble_eq_none_iff.mpr (hopen _ _ (breakAtDouble_eq_some ho))
        rw [s.interpolate_of_some template ho, hclose]
    rw [hcs]
    exact .pure _
  | @placeholder before key after pieces hopen hclose hafter ih =>
    rw [s.interpolate_of_some template (breakAtDouble_append hopen), breakAtDouble_append hclose]
    have hfirst : s.Asks _ _ _ := .ask ⟨String.ofList (Text.trim key), template⟩
    have hboth := hfirst.both ih fun v rest => before ++ (v.chars ++ rest)
    have hcs : (s.ask ⟨String.ofList (Text.trim key), template⟩ >>= fun v =>
        (fun rest => before ++ (v.chars ++ rest)) <$> s.interpolate template after) = do
          let v ← s.placeholder template (String.ofList (Text.trim key))
          let rest ← s.interpolate template after
          return before ++ v.chars ++ rest := by
      simp only [ask, map_eq_pure_bind, List.append_assoc]
    rw [hcs] at hboth
    exact hboth

/-- A string asks for its placeholders, whether it is a single one or a text. -/
theorem resolveString_asks (template : String) :
    s.Asks (s.resolveString template) (Template.occurrences template)
      (Template.fill template) := by
  unfold resolveString Template.fill Template.occurrences
  cases wholePlaceholder? template with
  | some key => exact .ask ⟨key, template⟩
  | none =>
    dsimp only
    rw [s.resolveText_eq_interpolate]
    exact ((s.interpolate_asks template (splits_pieces template.toList)).map _).map _

mutual

/-- To resolve a value is to ask for its placeholders and to fill in the answers. -/
theorem resolve_asks (v : Value) : s.Asks (s.resolve v) v.occurrences v.fill := by
  match v with
  | .string template =>
    rw [Value.occurrences, Value.leaves, List.flatMap_singleton]
    exact s.resolveString_asks template
  | .null | .bool _ | .int _ | .float _ | .tagged _ _ => exact .pure _
  | .sequence items => exact (resolveItems_asks items).map Value.sequence
  | .mapping entries => exact (resolveEntries_asks entries).map Value.mapping

/-- Items ask for the placeholders of their leaves, in order. -/
theorem resolveItems_asks (items : List Value) :
    s.Asks (s.resolveItems items) ((Value.leavesItems items).flatMap Template.occurrences)
      (Value.fillItems items) := by
  match items with
  | [] => exact .pure _
  | v :: rest =>
    have hboth := (resolve_asks v).both (resolveItems_asks rest) List.cons
    simp only [map_eq_pure_bind] at hboth
    rw [Value.leavesItems, List.flatMap_append]
    exact hboth

/-- So do the values of entries. -/
theorem resolveEntries_asks (entries : List (Value × Value)) :
    s.Asks (s.resolveEntries entries)
      ((Value.leavesEntries entries).flatMap Template.occurrences)
      (Value.fillEntries entries) := by
  match entries with
  | [] => exact .pure _
  | (k, v) :: rest =>
    have hboth := (resolve_asks v).both (resolveEntries_asks rest) fun w others => (k, w) :: others
    simp only [map_eq_pure_bind] at hboth
    rw [Value.leavesEntries, List.flatMap_append]
    exact hboth

end

end Scope

/-! ### Reads -/

namespace Occurrence

/-- The name that a placeholder reads. -/
def name (o : Occurrence) : String := (Scope.segments o.key).headD ""

/-- The way from the value of the name to that of the placeholder. -/
def keys (o : Occurrence) : List String := (Scope.segments o.key).tail

/-- The segments of a path are the name that is read and the way from there. -/
theorem segments_key (o : Occurrence) : Scope.segments o.key = o.name :: o.keys := by
  obtain ⟨name, keys, h⟩ := Scope.exists_segments o.key
  rw [Occurrence.name, Occurrence.keys, h]
  rfl

end Occurrence

/-- What a binding gives if it has been read last. -/
def Binding.answer : Binding → Reads → Value
  | constant v, _ => v
  | lazy source answer, rs => answer (rs.arguments source)

namespace Scope

variable (s : Scope)

/-- What is recorded when a name is read without an argument. Constants are read without a trace,
and a name that is not bound is not read. -/
def trace (name : String) : Reads :=
  match s.get? name with
  | some (.lazy source _) => [⟨source, none⟩]
  | _ => []

/-- The value of a placeholder whose name has been read last. -/
def valueOf (o : Occurrence) (rs : Reads) : Option Value :=
  (s.get? o.name).bind fun b => Value.descend? o.keys (b.answer rs)

/-- The reads after the first few placeholders have been asked for. -/
def readsAfter (r : Reads) (os : List Occurrence) (n : Nat) : Reads :=
  r ++ (os.take n).flatMap fun o => s.trace o.name

/-- The value of the placeholder at a place in a list, when those in front of it and itself have
been asked for. -/
def valueAt? (r : Reads) (os : List Occurrence) (i : Nat) : Option Value :=
  os[i]?.bind fun o => s.valueOf o (s.readsAfter r os (i + 1))

/-- Before the first placeholder there are only the earlier reads. -/
theorem readsAfter_zero (r : Reads) (os : List Occurrence) : s.readsAfter r os 0 = r :=
  List.append_nil r

/-- After the first placeholder its name has been read. -/
theorem readsAfter_succ (r : Reads) (o : Occurrence) (os : List Occurrence) (n : Nat) :
    s.readsAfter r (o :: os) (n + 1) = s.readsAfter (r ++ s.trace o.name) os n := by
  rw [readsAfter, readsAfter, List.take_succ_cons, List.flatMap_cons, List.append_assoc]

/-- The value of the first placeholder is what its name has then. -/
theorem valueAt?_zero (r : Reads) (o : Occurrence) (os : List Occurrence) :
    s.valueAt? r (o :: os) 0 = s.valueOf o (r ++ s.trace o.name) := by
  rw [valueAt?, readsAfter_succ, readsAfter_zero]
  rfl

/-- The values of the others are those after the first has been asked for. -/
theorem valueAt?_succ (r : Reads) (o : Occurrence) (os : List Occurrence) (i : Nat) :
    s.valueAt? r (o :: os) (i + 1) = s.valueAt? (r ++ s.trace o.name) os i := by
  rw [valueAt?, readsAfter_succ]
  rfl

/-- A read is answered by the binding, and recorded in front of the answer. -/
theorem read?_run (name : String) (r : Reads) :
    (s.read? name).run r =
      ((s.get? name).map (·.answer (r ++ s.trace name)), r ++ s.trace name) := by
  unfold read? trace
  cases s.get? name with
  | none =>
    rw [List.append_nil]
    rfl
  | some b =>
    cases b with
    | constant v =>
      rw [List.append_nil]
      rfl
    | lazy source answer => rfl

/-- A placeholder makes one read, and its value is in the answer to it. -/
theorem ask_run (o : Occurrence) (r : Reads) :
    (s.ask o).run.run r =
      (match s.valueOf o (r ++ s.trace o.name) with
        | some v => .ok v
        | none => .error ⟨o.key, o.template⟩, r ++ s.trace o.name) := by
  have hlookup : (s.lookup? o.key).run r =
      (s.valueOf o (r ++ s.trace o.name), r ++ s.trace o.name) := by
    rw [lookup?, o.segments_key]
    dsimp only
    rw [StateT.run_bind, read?_run, valueOf]
    cases s.get? o.name <;> rfl
  change (ExceptT.lift (s.lookup? o.key) >>= _ : Resolving Value).run.run r = _
  rw [Reads.run_bind, Reads.run_lift, hlookup]
  dsimp only
  cases s.valueOf o (r ++ s.trace o.name) <;> rfl

/-- Placeholders are asked for up to the first one without a value. -/
theorem askAll_run (os : List Occurrence) (r : Reads) :
    (∃ values, values.length = os.length ∧ (∀ i, s.valueAt? r os i = values[i]?) ∧
        (s.askAll os).run.run r = (.ok values, s.readsAfter r os os.length)) ∨
      ∃ i o, os[i]? = some o ∧ (∀ j < i, (s.valueAt? r os j).isSome) ∧
        s.valueAt? r os i = none ∧
        (s.askAll os).run.run r = (.error ⟨o.key, o.template⟩, s.readsAfter r os (i + 1)) := by
  induction os generalizing r with
  | nil =>
    refine .inl ⟨[], rfl, fun i => by simp [valueAt?], ?_⟩
    rw [List.length_nil, readsAfter_zero]
    rfl
  | cons o os ih =>
    have hask := s.ask_run o r
    rw [askAll_cons, Reads.run_bind, hask]
    cases hv : s.valueOf o (r ++ s.trace o.name) with
    | none =>
      refine .inr ⟨0, o, rfl, nofun, ?_, ?_⟩
      · rw [valueAt?_zero, hv]
      · rw [readsAfter_succ, readsAfter_zero]
    | some v =>
      dsimp only
      rw [Reads.run_map]
      -- The others are asked for after the reads of the first.
      rcases ih (r ++ s.trace o.name) with ⟨values, hlength, hvalues, hrun⟩ |
        ⟨i, last, hlast, hfound, hnone, hrun⟩
      · refine .inl ⟨v :: values, congrArg _ hlength, fun i => ?_, ?_⟩
        · cases i with
          | zero =>
            rw [valueAt?_zero, hv]
            rfl
          | succ i => rw [valueAt?_succ, hvalues, List.getElem?_cons_succ]
        · rw [hrun, List.length_cons, readsAfter_succ]
          rfl
      · refine .inr ⟨i + 1, last, hlast, fun j hj => ?_, ?_, ?_⟩
        · cases j with
          | zero =>
            rw [valueAt?_zero, hv]
            rfl
          | succ j =>
            rw [valueAt?_succ]
            exact hfound j (Nat.lt_of_succ_lt_succ hj)
        · rw [valueAt?_succ, hnone]
        · rw [hrun, readsAfter_succ]
          rfl

/-- Resolving a value reads what its placeholders name, one read for each of them and in the order
in which they are written, all without arguments. Each placeholder is filled with the value that
is found in the answer to its own read. The first one for which none is found is the failure, and
it is the last to be read. -/
theorem resolve_reads (v : Value) (r : Reads) :
    (∃ values, values.length = v.occurrences.length ∧
        (∀ i, s.valueAt? r v.occurrences i = values[i]?) ∧
        (s.resolve v).run.run r =
          (.ok (v.fill values).1, s.readsAfter r v.occurrences v.occurrences.length)) ∨
      ∃ i o, v.occurrences[i]? = some o ∧ (∀ j < i, (s.valueAt? r v.occurrences j).isSome) ∧
        s.valueAt? r v.occurrences i = none ∧
        (s.resolve v).run.run r =
          (.error ⟨o.key, o.template⟩, s.readsAfter r v.occurrences (i + 1)) := by
  rw [(s.resolve_asks v).eq_map, Reads.run_map]
  rcases s.askAll_run v.occurrences r with ⟨values, hlength, hvalues, hrun⟩ |
    ⟨i, o, ho, hfound, hnone, hrun⟩
  · exact .inl ⟨values, hlength, hvalues, by rw [hrun]; rfl⟩
  · exact .inr ⟨i, o, ho, hfound, hnone, by rw [hrun]; rfl⟩

end Scope

end Provision

import Provision.Proofs.Evaluation.Conformance
import Provision.Proofs.Graph.Lines

/-!
# Files nested in files

While a recipe of a loaded tree is built, the stack has the files on the line from the root
down to it, although recipes of definitions stand on that line too and bring no file of
their own. This is kept along every course. With it the two checks of an inclusion, that
for an earlier inclusion by the same recipe and that of the stack, rule out that a file is
found twice among siblings or twice on a line.
-/

namespace Provision

/-- Whether a recipe has a file nested right in it. -/
def Graph.HasFile (g : Graph) (id : Nat) (path : Path) : Prop :=
  ∃ q ∈ g.files (g.nested id), q.same path = true

/-- The check before an inclusion looks for files only, and only right in the recipe. -/
theorem isIncluded_iff (p : Progress) (id : Nat) (path : Path) :
    Context.isIncluded p.graph (p.recipe id) path = true ↔ p.graph.HasFile id path := by
  have hnested : (p.recipe id).nested = p.graph.nested id := by
    rw [Progress.recipe, Graph.nested]
    cases p.graph.recipe? id <;> rfl
  have hfile (child : Nat) : ((p.graph.recipe? child).any fun n => n.isFile && n.path.same path) =
      (p.graph.file? child).any (·.same path) := by
    rw [Graph.file?]
    cases p.graph.recipe? child with
    | none => rfl
    | some r =>
      change (r.isFile && r.path.same path) = r.file?.any (·.same path)
      rw [Recipe.file?]
      cases r.isFile <;> rfl
  rw [Context.isIncluded, hnested, List.any_eq_true, Graph.HasFile]
  constructor
  · rintro ⟨child, hchild, hsame⟩
    rw [hfile, Option.any_eq_true] at hsame
    obtain ⟨q, hq, hsame⟩ := hsame
    exact ⟨q, List.mem_filterMap.mpr ⟨child, hchild, hq⟩, hsame⟩
  · rintro ⟨q, hq, hsame⟩
    obtain ⟨child, hchild, hq⟩ := List.mem_filterMap.mp hq
    refine ⟨child, hchild, ?_⟩
    rw [hfile, hq]
    exact hsame

namespace Progress

/-- What holds of the files at every moment of a run: a recipe has no file nested in it
twice, a line below a loaded root has no file on it twice, and the stack has none twice. -/
structure Sound (p : Progress) (loaded : List Nat) : Prop where
  forest : p.graph.Forest
  siblings : ∀ id, Path.Distinct (p.graph.files (p.graph.nested id))
  lines : ∀ root ∈ loaded, ∀ above id, p.graph.Line root above id →
    Path.Distinct (p.graph.files (above ++ [id]))
  stack : Path.Distinct p.stack

/-- A recipe has a line, and if its root was loaded, then the stack has the files on it. -/
def Tracks (p : Progress) (loaded : List Nat) (id : Nat) : Prop :=
  ∃ root above, p.graph.Line root above id ∧
    (root ∈ loaded → p.stack = p.graph.files (above ++ [id]))

namespace Sound

variable {p : Progress} {loaded : List Nat}

/-- Only the stack matters to an event that leaves the graph alone. -/
theorem quiet (h : p.Sound loaded) {e : Event} (hg : (p.after e).graph = p.graph)
    (hstack : Path.Distinct (p.after e).stack) : (p.after e).Sound loaded :=
  ⟨hg ▸ h.forest, hg ▸ h.siblings, hg ▸ h.lines, hstack⟩

/-- A file may be entered that is not on the stack. -/
theorem enter (h : p.Sound loaded) {path : Path}
    (acyclic : p.stack.any (·.same path) = false) : (p.after (.enter path)).Sound loaded := by
  refine h.quiet rfl (Path.distinct_concat.mpr ⟨h.stack, ?_⟩)
  simpa using acyclic

/-- A file may be left at any time. -/
theorem leave (h : p.Sound loaded) : (p.after .leave).Sound loaded :=
  h.quiet rfl h.stack.dropLast

/-- A resource brings no file. -/
theorem resource (h : p.Sound loaded) (parent : Nat) (x : Resource) :
    (p.after (.resource parent x)).Sound loaded := by
  have hfiles : (p.graph.addResource parent x).files = p.graph.files := by
    funext ids
    unfold Graph.files
    rw [Graph.file?_addResource]
  refine ⟨h.forest.addResource parent x, ?_, ?_, h.stack⟩
  · intro id
    change Path.Distinct ((p.graph.addResource parent x).files
      ((p.graph.addResource parent x).nested id))
    rw [hfiles, Graph.nested_addResource]
    exact h.siblings id
  · intro root hroot above id hline
    change Path.Distinct ((p.graph.addResource parent x).files (above ++ [id]))
    rw [hfiles]
    exact h.lines root hroot above id hline.of_addResource

/-- The files of recipes that there are stay the same. -/
theorem files_after (h : p.Sound loaded) (e : Event) {root id : Nat} {above : List Nat}
    (hline : p.graph.Line root above id) :
    (p.after e).graph.files (above ++ [id]) = p.graph.files (above ++ [id]) :=
  (p.grows_after e).files (hline.lt h.forest)

/-- A nested recipe may be begun if it brings no file, or a file that is new to its siblings
and to the line that it extends. -/
theorem child (h : p.Sound loaded) {id : Nat} (hid : id < p.graph.size) {r : Recipe}
    (hempty : r.nested = [])
    (hsiblings : ∀ path, r.file? = some path → ¬p.graph.HasFile id path)
    (hline : ∀ path, r.file? = some path → ∀ root ∈ loaded, ∀ above, p.graph.Line root above id →
      ∀ q ∈ p.graph.files (above ++ [id]), q.same path = false) :
    (p.after (.child id r)).Sound loaded := by
  have hfile : (p.after (.child id r)).graph.files [p.graph.size] = r.file?.toList :=
    p.graph.files_addChild_self id r
  have hold (i : Nat) :
      (p.after (.child id r)).graph.files (p.graph.nested i) = p.graph.files (p.graph.nested i) :=
    (p.grows_after _).files (h.forest.nested_lt i)
  refine ⟨h.forest.addChild hid hempty, ?_, ?_, h.stack⟩
  · intro i
    have hnested : (p.after (.child id r)).graph.nested i =
        if i = id then p.graph.nested i ++ [p.graph.size] else p.graph.nested i :=
      Graph.nested_addChild hid hempty i
    rw [hnested]
    split
    · rename_i hi
      rw [Graph.files_append, hfile, hold]
      cases hr : r.file? with
      | none => rw [Option.toList_none, List.append_nil]; exact h.siblings i
      | some path =>
        refine Path.distinct_concat.mpr ⟨h.siblings i, fun q hq => ?_⟩
        exact Bool.eq_false_iff.mpr fun hsame => hsiblings path hr ⟨q, hi ▸ hq, hsame⟩
    · rw [hold]
      exact h.siblings i
  · intro root hroot above i hnew
    -- A line is an old one, or it goes on from an old one to the new recipe.
    rcases hnew.of_addChild hid hempty with hkept | ⟨above', rfl, rfl, hparent⟩
    · rw [h.files_after _ hkept]
      exact h.lines root hroot above i hkept
    · rw [Graph.files_append, hfile, h.files_after _ hparent]
      cases hr : r.file? with
      | none =>
        rw [Option.toList_none, List.append_nil]
        exact h.lines root hroot above' id hparent
      | some path =>
        exact Path.distinct_concat.mpr ⟨h.lines root hroot above' id hparent,
          hline path hr root hroot above' hparent⟩

/-- A root may be begun with nothing nested in it. -/
theorem root (h : p.Sound loaded) {r : Recipe} (hempty : r.nested = []) :
    (p.after (.root r)).Sound loaded := by
  have hold (i : Nat) :
      (p.after (.root r)).graph.files (p.graph.nested i) = p.graph.files (p.graph.nested i) :=
    (p.grows_after _).files (h.forest.nested_lt i)
  refine ⟨h.forest.addRoot hempty, ?_, ?_, h.stack⟩
  · intro i
    have hnested : (p.after (.root r)).graph.nested i = p.graph.nested i :=
      congrFun (Graph.nested_addRoot p.graph hempty) i
    rw [hnested, hold]
    exact h.siblings i
  · intro root hroot above i hnew
    rcases hnew.of_addRoot hempty with hkept | ⟨-, rfl, rfl⟩
    · rw [h.files_after _ hkept]
      exact h.lines root hroot above i hkept
    · -- The line of a root has one file at most.
      have hfile : (p.after (.root r)).graph.files [p.graph.size] = r.file?.toList :=
        p.graph.files_addRoot_self r
      rw [List.nil_append, hfile]
      cases r.file? with
      | none => exact List.Pairwise.nil
      | some path => exact List.pairwise_singleton _ _

/-- A root may count as loaded before it is begun. -/
theorem loading (h : p.Sound loaded) : p.Sound (loaded ++ [p.graph.size]) := by
  refine ⟨h.forest, h.siblings, ?_, h.stack⟩
  intro root hroot above id hline
  rw [List.mem_append, List.mem_singleton] at hroot
  rcases hroot with hroot | hroot
  · exact h.lines root hroot above id hline
  · have hlt : root < p.graph.size := hline.root_lt h.forest
    omega

end Sound

namespace Tracks

variable {p q : Progress} {loaded : List Nat} {id : Nat}

/-- A recipe whose files the stack has is one of the graph. -/
theorem lt (h : p.Tracks loaded id) (hp : p.graph.Forest) : id < p.graph.size := by
  obtain ⟨root, above, hline, -⟩ := h
  exact hline.id_lt hp

/-- Growth alone does not matter. -/
theorem grows (h : p.Tracks loaded id) (hp : p.graph.Forest) (hg : p.graph.Grows q.graph)
    (hstack : q.stack = p.stack) : q.Tracks loaded id := by
  obtain ⟨root, above, hline, htop⟩ := h
  refine ⟨root, above, hline.grows hg, fun hroot => ?_⟩
  rw [hstack, htop hroot, hg.files (hline.lt hp)]

/-- A nested recipe is tracked if the stack has the file that it brings, if it brings one. -/
theorem child (h : p.Tracks loaded id) (hp : p.graph.Forest) {r : Recipe}
    (hempty : r.nested = []) (hg : q.graph = p.graph)
    (hstack : q.stack = p.stack ++ r.file?.toList) :
    (q.after (.child id r)).Tracks loaded p.graph.size := by
  obtain ⟨root, above, hline, htop⟩ := h
  have hid : id < p.graph.size := hline.id_lt hp
  have hgraph : (q.after (.child id r)).graph = p.graph.addChild id r := by
    change q.graph.addChild id r = _
    rw [hg]
  have hgrows : p.graph.Grows (p.graph.addChild id r) := p.graph.grows_addChild id r
  refine ⟨root, above ++ [id], ?_, fun hroot => ?_⟩
  · rw [hgraph]
    exact .nested (hline.grows hgrows) (Graph.mem_nested_addChild hid hempty)
  · rw [hgraph, Graph.files_append, Graph.files_addChild_self, hgrows.files (hline.lt hp),
      ← htop hroot]
    exact hstack

end Tracks

/-- What holds right before an event: the files are in order, and a recipe that something is
performed for is tracked. -/
def Attended (loaded : List Nat) (p : Progress) (e : Event) : Prop :=
  p.Sound loaded ∧ ∀ id, e = .act id → p.Tracks loaded id

/-- Only an act is about a recipe that has to be tracked. -/
theorem Sound.attended {p : Progress} {loaded : List Nat} (h : p.Sound loaded) {e : Event}
    (he : ∀ id, e ≠ .act id) : Attended loaded p e := ⟨h, fun id hid => absurd hid (he id)⟩

end Progress

open Provision.Progress

/-- The files are in order at every moment of a course for a recipe that is tracked. -/
theorem Course.attended {p : Progress} {c : Context} {es : List Event} (h : Course p c es)
    {loaded : List Nat} (hs : p.Sound loaded) (ht : p.Tracks loaded c.recipe) :
    Throughout (Attended loaded) p es ∧ (p.replay es).Sound loaded := by
  induction h with
  | nil => exact ⟨trivial, hs⟩
  | append first _ ih ih' =>
    obtain ⟨hfirst, hmid⟩ := ih hs ht
    have htracks := ht.grows hs.forest (grows_replay _ _) first.stack_replay
    obtain ⟨hsecond, hend⟩ := ih' hmid htracks
    rw [throughout_append, replay_append]
    exact ⟨⟨hfirst, hsecond⟩, hend⟩
  | act p c =>
    refine ⟨⟨⟨hs, fun j hj => ?_⟩, trivial⟩, hs.quiet rfl hs.stack⟩
    cases hj
    exact ht
  | @resource p c x => exact ⟨⟨hs.attended nofun, trivial⟩, hs.resource c.recipe x⟩
  | define => exact ⟨⟨hs.attended nofun, trivial⟩, hs.quiet rfl hs.stack⟩
  | @expand p c es definition name v inner ih =>
    -- A definition brings no file, so there is nothing to compare.
    have hnew := hs.child (r := .ofDefinition definition name (p.recipe c.recipe).path)
      (ht.lt hs.forest) rfl nofun nofun
    have htracks := ht.child (q := p) hs.forest
      (r := .ofDefinition definition name (p.recipe c.recipe).path) rfl rfl
      (List.append_nil _).symm
    obtain ⟨hinner, hend⟩ := ih hnew htracks
    exact ⟨⟨hs.attended nofun, hinner⟩, hend⟩
  | unread c new acyclic =>
    have hentered := hs.enter acyclic
    exact ⟨⟨hs.attended nofun, hentered.attended nofun, trivial⟩, hentered.leave⟩
  | @included p c es path new acyclic inner ih =>
    have hentered := hs.enter acyclic
    have hnew : ((p.after (.enter path)).after (.child c.recipe (.ofFile path))).Sound
        loaded := by
      refine hentered.child (ht.lt hs.forest) rfl ?_ ?_
      · intro q hq hfile
        cases hq
        have hincluded := (isIncluded_iff p c.recipe path).mpr hfile
        rw [new] at hincluded
        cases hincluded
      · -- The line of the recipe is what the stack has, and the file is not there.
        intro q hq root hroot above hline f hf
        cases hq
        obtain ⟨root', above', hline', htop⟩ := ht
        obtain ⟨hr, ha⟩ := hline.unique hs.forest hline'
        subst hr ha
        rw [List.any_eq_false] at acyclic
        exact Bool.eq_false_iff.mpr (acyclic f (htop hroot ▸ hf))
    have htracks := ht.child (q := p.after (.enter path)) hs.forest (r := .ofFile path) rfl rfl rfl
    obtain ⟨hinner, hend⟩ := ih hnew htracks
    rw [throughout_append, replay_append]
    exact ⟨⟨⟨hs.attended nofun, hentered.attended nofun, hinner⟩, hend.attended nofun, trivial⟩,
      hend.leave⟩

/-- The files are in order at every moment of a load that is not part of another one. -/
theorem Loading.attended {p : Progress} {scope : Scope} {es : List Event}
    (h : Loading p scope es) {loaded : List Nat} (hs : p.Sound loaded) (hstack : p.stack = []) :
    let begun := (p.replay es).graph.roots.drop p.graph.roots.length
    (∀ root ∈ begun, root < (p.replay es).graph.size) ∧
      Throughout (Attended (loaded ++ begun)) p es ∧ (p.replay es).Sound (loaded ++ begun) := by
  cases h with
  | refused =>
    dsimp only
    rw [replay_nil, List.drop_length, List.append_nil]
    exact ⟨nofun, trivial, hs⟩
  | cyclic path hcyclic =>
    -- Between operations the stack is empty, so that no file is on it.
    rw [hstack] at hcyclic
    cases hcyclic
  | @evaluated path es acyclic inner =>
    dsimp only
    let root : Event := .root (.ofFile path)
    have hroots : (p.replay (root :: .enter path :: es ++ [.leave])).graph.roots =
        p.graph.roots ++ [p.graph.size] := by
      rw [replay_append]
      exact inner.extendsAt_replay.roots
    rw [hroots, List.drop_left]
    have hlt : p.graph.size < (p.replay (root :: .enter path :: es ++ [.leave])).graph.size := by
      have hle := (grows_replay (p.after root) (.enter path :: es ++ [.leave])).size_le
      have hsize : (p.after root).graph.size = p.graph.size + 1 := p.graph.size_addRoot _
      exact Nat.lt_of_lt_of_le (by omega) hle
    have hloading := hs.loading
    have hbegun := hloading.root (r := .ofFile path) rfl
    have hentered := hbegun.enter acyclic
    have htracks : ((p.after root).after (.enter path)).Tracks (loaded ++ [p.graph.size])
        p.graph.size := by
      refine ⟨p.graph.size, [], .root (p.graph.mem_roots_addRoot _), fun _ => ?_⟩
      change p.stack ++ [path] = (p.graph.addRoot (.ofFile path)).files [p.graph.size]
      rw [hstack, Graph.files_addRoot_self]
      rfl
    obtain ⟨hinner, hend⟩ := inner.attended hentered htracks
    constructor
    · intro i hi
      rw [List.mem_singleton.mp hi]
      exact hlt
    · rw [throughout_append, replay_append]
      exact ⟨⟨⟨hloading.attended nofun, hbegun.attended nofun, hinner⟩, hend.attended nofun,
        trivial⟩, hend.leave⟩

namespace Session

/-- What holds of a session between two operations. -/
structure Sound (s : Session) : Prop where
  state : s.state.Sound s.loaded
  stack : s.state.stack = []
  loaded : ∀ root ∈ s.loaded, root < s.state.graph.size
  context : ∀ c, s.context = some c → s.state.Tracks s.loaded c.recipe

/-- In the session before any operation there is no file at all. -/
theorem sound_start : start.Sound := by
  refine ⟨⟨Graph.forest_empty, ?_, nofun, List.Pairwise.nil⟩, rfl, nofun, nofun⟩
  intro id
  exact List.Pairwise.nil

/-- The files are in order at every moment of an operation, and after it. -/
theorem Sound.next {host : Host} {depth : Nat} {s s' : Session} (h : s.Sound)
    (hn : Next host depth s s') :
    s'.Sound ∧ ∃ es, s'.state.toProgress = s.state.toProgress.replay es ∧
      Throughout (Attended s'.loaded) s.state.toProgress es := by
  cases hn with
  | load path scope =>
    obtain ⟨es, hes, hend⟩ := Evaluation.load_follows host depth path scope s.state
    have hstack := hes.stack_replay.trans h.stack
    have hsize := (grows_replay s.state.toProgress es).size_le
    obtain ⟨hlt, hmoments, hsound⟩ := hes.attended h.state h.stack
    rw [← hend] at hlt hsound hstack hmoments hsize
    refine ⟨⟨hsound, hstack, ?_, nofun⟩, es, hend, hmoments⟩
    intro root hroot
    rcases List.mem_append.mp hroot with hroot | hroot
    · exact Nat.lt_of_lt_of_le (h.loaded root hroot) hsize
    · exact hlt root hroot
  | root path scope =>
    have hsound := h.state.root (r := .ofFile path) rfl
    have hsize : (s.root path scope).state.graph.size = s.state.graph.size + 1 :=
      s.state.graph.size_addRoot _
    refine ⟨⟨hsound, h.stack, ?_, ?_⟩, [.root (.ofFile path)], rfl,
      h.state.attended nofun, trivial⟩
    · intro root hroot
      have hlt := h.loaded root hroot
      omega
    · -- A recipe that is begun is no loaded root.
      intro c hc
      cases hc
      refine ⟨s.state.graph.size, [], .root (s.state.graph.mem_roots_addRoot _), fun hroot => ?_⟩
      have hlt := h.loaded _ hroot
      omega
  | step c st hc =>
    obtain ⟨es, hes, hend⟩ := c.step_build_follows host depth st s.state
    have htracks := h.context c hc
    obtain ⟨hmoments, hsound⟩ := hes.attended h.state htracks
    have hstack := hes.stack_replay
    have hgrows := grows_replay s.state.toProgress es
    rw [← hend] at hsound hstack hgrows
    refine ⟨⟨hsound, hstack.trans h.stack, ?_, ?_⟩, es, hend, hmoments⟩
    · intro root hroot
      exact Nat.lt_of_lt_of_le (h.loaded root hroot) hgrows.size_le
    · intro c' hc'
      have hsame : c = c' := Option.some.inj (hc.symm.trans hc')
      exact hsame ▸ htracks.grows h.state.forest hgrows hstack

/-- In every reachable session, files are nested as they should be. -/
theorem Reachable.sound {s : Session} (h : Reachable s) : s.Sound := by
  induction h with
  | start => exact sound_start
  | next _ hn ih => exact (ih.next hn).1

end Session

end Provision

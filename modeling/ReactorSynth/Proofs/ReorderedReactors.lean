import ReactorSynth.Proofs.ClassSearch
import ReactorSynth.Proofs.Embedding

/-!
# Reordered reactors

Where a reactor stands in its program shows in the instances, which keep the position of their
reactor, and in the keys of reactions. Reactors with distinct names are found by name wherever they
stand, so their order decides no more than these positions.

* `Reordering.reactor?_positionIn`, `Reordering.embeds`: a program lies inside any reordering of it,
  with its reactors moved along (`Program.positionIn`).
* `answersLike_relocate`: a layout whose reaction keys are moved along answers like the layout.
* **`elaborate_and_generate_reorder`**: the reordered program has the same instance tree with its
  reactors moved along, or the same failure, and for layouts that are moved along too the same
  classes and diagnostics.
-/

namespace ReactorSynth

/-! ## Moved federates -/

/-- The key of the reaction with its reactor at another position. -/
def ReactionKey.relocate (σ : Nat → Nat) (k : ReactionKey) : ReactionKey :=
  { k with reactor := σ k.reactor }

/-- The layout with the reactors of its reaction keys at other positions. -/
def FederateLayout.relocate (σ : Nat → Nat) (l : FederateLayout) : FederateLayout :=
  { l with
    excluded := l.excluded.map (·.relocate σ)
    network := l.network.map (·.relocate σ) }

theorem Forest.path_map {α β : Type} (f : Forest α) (φ : α → β) (found : β → Bool) :
    (f.map φ).path found = (f.path fun a => found (φ a)).map φ := by
  induction f with
  | nil => rfl
  | cons top below after ihb iha =>
    rw [map, path, path, ihb, iha]
    split
    · rfl
    · cases below.path fun a => found (φ a) <;> rfl

theorem InstanceTree.path_relocate (σ : Nat → Nat) (t : InstanceTree) (id : Nat) :
    (t.relocate σ).path id = (t.path id).map (Instance.relocate σ) := by
  have hroot : (t.relocate σ).root.id = t.root.id := rfl
  have hbelow : (t.relocate σ).children.path (·.id == id) =
      (t.children.path (·.id == id)).map (Instance.relocate σ) := Forest.path_map _ _ _
  unfold path
  rw [hroot, hbelow]
  split
  · rfl
  · cases t.children.path (·.id == id) <;> rfl

theorem InstanceTree.topLevelAncestor?_relocate (σ : Nat → Nat) (t : InstanceTree) (id : Nat) :
    (t.relocate σ).topLevelAncestor? id = (t.topLevelAncestor? id).map (Instance.relocate σ) := by
  rw [topLevelAncestor?, path_relocate, List.getElem?_map, topLevelAncestor?]

section

variable {σ : Nat → Nat}

theorem contains_map_relocate (hσ : ∀ a b, σ a = σ b → a = b) (keys : List ReactionKey)
    (id k : Nat) : (keys.map (·.relocate σ)).contains ⟨σ id, k⟩ = keys.contains ⟨id, k⟩ := by
  rw [Bool.eq_iff_iff, List.contains_iff_mem, List.contains_iff_mem, List.mem_map]
  constructor
  · rintro ⟨key, hkey, hmoved⟩
    rw [ReactionKey.relocate, ReactionKey.mk.injEq] at hmoved
    obtain ⟨hreactor, rfl⟩ := hmoved
    rwa [← hσ _ _ hreactor]
  · exact fun hkey => ⟨_, hkey, rfl⟩

/-- Layouts that are moved along answer alike, if no two positions are moved to the same one. -/
theorem answersLike_relocate (hσ : ∀ a b, σ a = σ b → a = b) (p : Program) (t : InstanceTree)
    (l : FederateLayout) : l.toFederate.AnswersLike σ p t (l.relocate σ).toFederate where
  name := rfl
  owns id := by
    simp only [FederateLayout.toFederate, FederateLayout.owns, FederateLayout.relocate,
      InstanceTree.topLevelAncestor?_relocate]
    cases l.instantiation with
    | none => rfl
    | some name => cases t.topLevelAncestor? id <;> rfl
  keeps _ k := by
    simp only [Federate.keeps, FederateLayout.toFederate, FederateLayout.relocate,
      contains_map_relocate hσ]

end

/-! ## Moved reactors -/

namespace Program

/-- Where the reactor at a position stands in another program. -/
def positionIn (p q : Program) (id : Nat) : Nat :=
  ((p.reactor? id).bind fun r => q.reactorId? r.name).getD id

/-- The reactors of `q` are those of `p`, which have distinct names, in some order. -/
structure Reordering (p q : Program) : Prop where
  perm : q.reactors.Perm p.reactors
  names : (p.reactors.map (·.name)).Nodup

variable {p q : Program} {r : Reactor} {id : Nat}

/-- With distinct names, every reactor is found by its name. -/
theorem reactorId?_name (hnames : (p.reactors.map (·.name)).Nodup) (hr : p.reactor? id = some r) :
    p.reactorId? r.name = some id := by
  cases hid : p.reactorId? r.name with
  | none =>
    have := List.findIdx?_eq_none_iff.mp hid r (List.mem_of_getElem? hr)
    simp at this
  | some j =>
    obtain ⟨r', hr', hname⟩ := exists_reactor_of_reactorId hid
    refine congrArg some (className_injective hnames (List.getElem?_eq_some_iff.mp hr').1
      (List.getElem?_eq_some_iff.mp hr).1 ?_)
    simp only [className, hr, hr', hname]

namespace Reordering

theorem names_right (h : p.Reordering q) : (q.reactors.map (·.name)).Nodup :=
  (h.perm.map _).nodup_iff.mpr h.names

theorem positionIn_of_none (hr : p.reactor? id = none) : p.positionIn q id = id := by
  rw [positionIn, hr]
  rfl

/-- A reactor stands in the reordered program at its new position; behind the reactors there are
none in either. -/
theorem reactor?_positionIn (h : p.Reordering q) (id : Nat) :
    q.reactor? (p.positionIn q id) = p.reactor? id := by
  cases hr : p.reactor? id with
  | none =>
    rw [positionIn_of_none hr]
    exact List.getElem?_eq_none (h.perm.length_eq ▸ List.getElem?_eq_none_iff.mp hr)
  | some r =>
    obtain ⟨j, hj⟩ := List.mem_iff_getElem?.mp (h.perm.mem_iff.mpr (List.mem_of_getElem? hr))
    rw [positionIn, hr, Option.bind_some, reactorId?_name h.names_right hj]
    exact hj

theorem reactorId?_eq_none (h : p.Reordering q) {name : String} (hp : p.reactorId? name = none) :
    q.reactorId? name = none :=
  List.findIdx?_eq_none_iff.mpr fun r hr =>
    List.findIdx?_eq_none_iff.mp hp r (h.perm.mem_iff.mp hr)

theorem embeds (h : p.Reordering q) : Embeds (p.positionIn q) p q where
  reactor hr := (h.reactor?_positionIn _).trans hr
  reactorId hid := by
    obtain ⟨r, hr, rfl⟩ := exists_reactor_of_reactorId hid
    exact reactorId?_name h.names_right ((h.reactor?_positionIn _).trans hr)

/-- No two positions are moved to the same one. -/
theorem positionIn_injective (h : p.Reordering q) (a b : Nat)
    (hab : p.positionIn q a = p.positionIn q b) : a = b := by
  have hsame : p.reactor? a = p.reactor? b := by
    rw [← h.reactor?_positionIn a, hab, h.reactor?_positionIn]
  cases ha : p.reactor? a with
  | none => rwa [positionIn_of_none ha, positionIn_of_none (hsame ▸ ha)] at hab
  | some r =>
    have hname := reactorId?_name h.names ha
    rw [reactorId?_name h.names (hsame ▸ ha)] at hname
    exact (Option.some.inj hname).symm

theorem elaborateFrom_eq (h : p.Reordering q) (hr : p.reactor? id = some r) :
    q.elaborateFrom (p.positionIn q id) =
      (p.elaborateFrom id).map (InstanceTree.relocate (p.positionIn q)) :=
  (elaborateFrom_relocate h.embeds hr).eq_map fun _ => h.reactorId?_eq_none

end Reordering

/-- The only main reactor of a program is the one that is found. -/
theorem exists_mainId? (hmain : p.reactors.countP (·.isMain) = 1) :
    ∃ main r, p.mainId? = some main ∧ p.reactor? main = some r ∧ r.isMain = true ∧
      ∀ r' ∈ p.reactors, r'.isMain = true → r' = r := by
  rw [List.countP_eq_length_filter, List.length_eq_one_iff] at hmain
  obtain ⟨only, honly⟩ := hmain
  have hunique : ∀ r' ∈ p.reactors, r'.isMain = true → r' = only := fun r' hr' hm =>
    List.mem_singleton.mp (honly ▸ List.mem_filter.mpr ⟨hr', hm⟩)
  cases hid : p.mainId? with
  | none =>
    have hmem : only ∈ p.reactors.filter (·.isMain) := honly ▸ List.mem_singleton_self only
    obtain ⟨hmem, hm⟩ := List.mem_filter.mp hmem
    exact absurd hm (by simp [List.findIdx?_eq_none_iff.mp hid only hmem])
  | some main =>
    obtain ⟨hlt, hm, -⟩ := List.findIdx?_eq_some_iff_getElem.mp hid
    refine ⟨main, p.reactors[main], rfl, List.getElem?_eq_getElem hlt, hm, fun r' hr' hm' => ?_⟩
    rw [hunique _ hr' hm', hunique _ (List.getElem_mem hlt) hm]

namespace Reordering

theorem mainId?_eq (h : p.Reordering q) (hmain : p.reactors.countP (·.isMain) = 1) :
    q.mainId? = p.mainId?.map (p.positionIn q) := by
  obtain ⟨main, r, hid, hr, hm, -⟩ := exists_mainId? hmain
  obtain ⟨main', r', hid', hr', -, hunique⟩ := exists_mainId? ((h.perm.countP_eq _).trans hmain)
  have hmoved : q.reactor? (p.positionIn q main) = some r := (h.reactor?_positionIn main).trans hr
  obtain rfl : r = r' := hunique r (List.mem_of_getElem? hmoved) hm
  have hname := reactorId?_name h.names_right hr'
  rw [reactorId?_name h.names_right hmoved] at hname
  rw [hid, hid', Option.map_some, Option.some.inj hname]

theorem elaborate_eq (h : p.Reordering q) (hmain : p.reactors.countP (·.isMain) = 1) :
    q.elaborate = p.elaborate.map (InstanceTree.relocate (p.positionIn q)) := by
  obtain ⟨main, r, hid, hr, -⟩ := exists_mainId? hmain
  rw [elaborate, elaborate, h.mainId?_eq hmain, hid]
  exact h.elaborateFrom_eq hr

theorem generate_eq (h : p.Reordering q) {top : Nat} {t : InstanceTree}
    (ht : p.elaborateFrom top = .ok t) (ls : List FederateLayout) (options : Options) :
    generate q (t.relocate (p.positionIn q))
        (ls.map fun l => (l.relocate (p.positionIn q)).toFederate) PythonClass.emitter options =
      generate p t (ls.map (·.toFederate)) PythonClass.emitter options :=
  generate_relocate h.embeds ht
    (fun l _ => answersLike_relocate h.positionIn_injective p t l) options

end Reordering

/-- In a program with distinct reactor names and one main reactor the order of the reactors decides
their positions and nothing else: in any other order every reactor is still there, elaboration has
the same outcome up to these positions, and generation for layouts whose keys follow the reactors
has the same result. -/
theorem elaborate_and_generate_reorder (hnames : (p.reactors.map (·.name)).Nodup)
    (hmain : p.reactors.countP (·.isMain) = 1) (hperm : q.reactors.Perm p.reactors) :
    (∀ id, q.reactor? (p.positionIn q id) = p.reactor? id) ∧
    q.elaborate = p.elaborate.map (InstanceTree.relocate (p.positionIn q)) ∧
    ∀ t, p.elaborate = .ok t → ∀ (ls : List FederateLayout) (options : Options),
      generate q (t.relocate (p.positionIn q))
          (ls.map fun l => (l.relocate (p.positionIn q)).toFederate) PythonClass.emitter options =
        generate p t (ls.map (·.toFederate)) PythonClass.emitter options := by
  have h : p.Reordering q := ⟨hperm, hnames⟩
  refine ⟨h.reactor?_positionIn, h.elaborate_eq hmain, fun t ht ls options => ?_⟩
  obtain ⟨main, -, htree⟩ := exists_mainId?_of_elaborate ht
  exact h.generate_eq htree ls options

/-- A program with its main reactor behind the classes that it uses. -/
def plantInOrder : Program where
  reactors :=
    [{ name := "Sensor", ports := [{ name := "reading", direction := .output }] },
     { name := "Pump", instantiations := [{ name := "gauge", reactorClass := "Sensor" }] },
     { name := "Plant"
       isMain := true
       isFederated := true
       reactions :=
         [{ triggers := [{ container := some "sensor", name := "reading" }] },
          { triggers := [{ container := some "pump", name := "reading" }] }]
       instantiations :=
         [{ name := "sensor", reactorClass := "Sensor" },
          { name := "pump", reactorClass := "Pump", width := some (.literal 2) }] }]

/-- The same reactors, the main one first. -/
def plantMainFirst : Program where
  reactors := plantInOrder.reactors.drop 2 ++ plantInOrder.reactors.take 2

/-- Federates of the plant; the last alone has the second reaction of the plant, which fails. -/
def plantFederates : List FederateLayout :=
  [{ name := "sensor", instantiation := some "sensor", excluded := [⟨2, 1⟩] },
   { name := "pump", instantiation := some "pump", network := [⟨2, 1⟩, ⟨5, 0⟩] },
   { name := "all" }]

theorem elaborate_and_generate_reorder_plantMainFirst :
    (plantInOrder.reactors.map (·.name)).Nodup ∧
    plantInOrder.reactors.countP (·.isMain) = 1 ∧
    plantMainFirst.reactors.Perm plantInOrder.reactors ∧
    [0, 1, 2].map (plantInOrder.positionIn plantMainFirst) = [1, 2, 0] ∧
    ∃ t, plantInOrder.elaborate = .ok t ∧
      plantMainFirst.elaborate = .ok (t.relocate (plantInOrder.positionIn plantMainFirst)) ∧
      ∃ result, generate plantMainFirst (t.relocate (plantInOrder.positionIn plantMainFirst))
          (plantFederates.map fun l =>
            (l.relocate (plantInOrder.positionIn plantMainFirst)).toFederate)
          PythonClass.emitter {} = result ∧
        result.federates.map (·.classNames) = [["Plant", "Sensor"], ["Plant", "Pump", "Sensor"]] ∧
        result.diagnostics.map (·.subject) = [some "all"] := by
  have hnames : (plantInOrder.reactors.map (·.name)).Nodup := by decide
  have hmain : plantInOrder.reactors.countP (·.isMain) = 1 := by decide
  have hperm : plantMainFirst.reactors.Perm plantInOrder.reactors := by
    have h : plantMainFirst.reactors.Perm
        (plantInOrder.reactors.take 2 ++ plantInOrder.reactors.drop 2) := List.perm_append_comm
    rwa [List.take_append_drop] at h
  have htree : plantInOrder.elaborate = .ok (.ofSites ⟨Text.lowercase "Plant", 2, none⟩
      (.cons ⟨"sensor", 0, none⟩ .nil
        (.cons ⟨"pump", 1, some 0⟩ (.cons ⟨"gauge", 0, none⟩ .nil .nil)
          (.cons ⟨"pump", 1, some 1⟩ (.cons ⟨"gauge", 0, none⟩ .nil .nil) .nil)))) := by rfl
  obtain ⟨-, hmoved, hgenerates⟩ := elaborate_and_generate_reorder hnames hmain hperm
  rw [htree] at hmoved
  exact ⟨hnames, hmain, hperm, by decide, _, htree, hmoved, _,
    hgenerates _ htree plantFederates {}, by rfl, by rfl⟩

end Program

end ReactorSynth

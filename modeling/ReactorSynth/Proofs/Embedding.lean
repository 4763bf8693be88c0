import ReactorSynth.Proofs.BrokenReactions
import ReactorSynth.Proofs.Candidates
import ReactorSynth.Proofs.Outcomes

/-!
# Programs inside programs

A program lies inside another one when every reactor has a position there, and every class name
that is found in the inner program is found in the outer one at the new position
(`Program.Embeds`). What else the outer program declares does not matter.

The positions of reactors are all that a tree keeps of its program, so the inner program's trees are
relocated by moving these:

* `unfold_relocate`, `elaborateFrom_relocate`: elaboration in the outer program has the relocated
  outcome, unless it fails in the inner one for want of a class that the outer one has.
* `Embeds.classText_eq`: the class of a reactor with instances has the same text in both, since all
  its containers have their classes in the inner program already.
* **`generate_relocate`**: generation from the relocated tree has the same result, for federates
  that answer alike.
-/

namespace ReactorSynth

/-! ## Relocation -/

/-- The site with its reactor at another position. -/
def Site.relocate (σ : Nat → Nat) (s : Site) : Site := { s with reactor := σ s.reactor }

/-- The instance with its reactor at another position. -/
def Instance.relocate (σ : Nat → Nat) (i : Instance) : Instance :=
  { i with reactor := σ i.reactor }

/-- The tree with its reactors at other positions. -/
def InstanceTree.relocate (σ : Nat → Nat) (t : InstanceTree) : InstanceTree :=
  ⟨t.root.relocate σ, t.children.map (Instance.relocate σ)⟩

namespace Forest

variable {α β : Type}

theorem map_id (f : Forest α) : f.map id = f := by
  induction f with
  | nil => rfl
  | cons top below after ihb iha => rw [map, ihb, iha, id]

theorem size_map (f : Forest α) (φ : α → β) : (f.map φ).size = f.size := by
  rw [← length_preorder, preorder_map, List.length_map, length_preorder]

theorem map_append (f g : Forest α) (φ : α → β) :
    (f.append g).map φ = (f.map φ).append (g.map φ) := by
  induction f with
  | nil => rfl
  | cons top below after _ iha => rw [append, map, map, append, iha]

theorem map_replicate (below : Forest α) (labels : List α) (φ : α → β) :
    (replicate below labels).map φ = replicate (below.map φ) (labels.map φ) := by
  induction labels with
  | nil => rfl
  | cons top rest ih => rw [replicate, map, ih, List.map_cons, replicate]

theorem number_map_relocate (f : Forest Site) (σ : Nat → Nat) (parent next : Nat) :
    (f.map (Site.relocate σ)).number parent next =
      (f.number parent next).map (Instance.relocate σ) := by
  induction f generalizing parent next with
  | nil => rfl
  | cons site below after ihb iha =>
    rw [map, number, number, map, ihb, iha, size_map]
    rfl

end Forest

namespace InstanceTree

theorem relocate_ofSites (σ : Nat → Nat) (root : Site) (below : Forest Site) :
    (ofSites root below).relocate σ = ofSites (root.relocate σ) (below.map (Site.relocate σ)) := by
  unfold ofSites
  rw [Forest.number_map_relocate]
  rfl

theorem relocate_id (t : InstanceTree) : t.relocate id = t := by
  have hid : Instance.relocate id = id := rfl
  rw [relocate, hid, Forest.map_id]
  rfl

theorem instances_relocate (σ : Nat → Nat) (t : InstanceTree) :
    (t.relocate σ).instances = t.instances.map (Instance.relocate σ) := by
  rw [instances, relocate, Forest.preorder_map]
  rfl

end InstanceTree

/-! ## Embeddings -/

namespace Program

/-- The reactors of `p` stand in `q` at the positions that `σ` gives, and the classes that `p` finds
by name are those that `q` finds. -/
structure Embeds (σ : Nat → Nat) (p q : Program) : Prop where
  reactor : ∀ {id r}, p.reactor? id = some r → q.reactor? (σ id) = some r
  reactorId : ∀ {name id}, p.reactorId? name = some id → q.reactorId? name = some (σ id)

/-- An outcome in `q` is one in `p` carried over by `f`, unless that one fails for want of a class
that only `q` has. -/
def Follows (p q : Program) {α β : Type} (f : α → β) (x : Except GenError α)
    (y : Except GenError β) : Prop :=
  y = x.map f ∨ ∃ name, x = .error (.unknownReactor name) ∧ p.reactorId? name = none ∧
    (q.reactorId? name).isSome

variable {p q : Program} {σ : Nat → Nat} {r : Reactor}

theorem follows_refl (p q : Program) {α : Type} (x : Except GenError α) : p.Follows q id x x := by
  cases x <;> exact Or.inl rfl

/-- Steps that follow each other do so one after the other. -/
theorem Follows.bind {α β γ δ : Type} {f : α → β} {g : γ → δ} {x : Except GenError α}
    {y : Except GenError β} {k : α → Except GenError γ} {k' : β → Except GenError δ}
    (h : p.Follows q f x y) (hk : ∀ a, p.Follows q g (k a) (k' (f a))) :
    p.Follows q g (x >>= k) (y >>= k') := by
  rcases h with rfl | ⟨name, rfl, hname⟩
  · cases x with
    | error e => exact Or.inl rfl
    | ok a => exact hk a
  · exact Or.inr ⟨name, rfl, hname⟩

/-- An outcome without failure is followed by the same, carried over. -/
theorem Follows.eq_ok {α β : Type} {f : α → β} {a : α} {y : Except GenError β}
    (h : p.Follows q f (.ok a) y) : y = .ok (f a) := by
  rcases h with h | ⟨name, h, -⟩
  · exact h
  · simp at h

/-- If `q` has no other classes than `p`, outcomes follow as they are. -/
theorem Follows.eq_map {α β : Type} {f : α → β} {x : Except GenError α} {y : Except GenError β}
    (h : p.Follows q f x y) (hpq : ∀ name, p.reactorId? name = none → q.reactorId? name = none) :
    y = x.map f := by
  rcases h with h | ⟨name, -, hp, hq⟩
  · exact h
  · simp [hpq name hp] at hq

/-- The class of an instantiation is the first question, its width the second. -/
theorem placeOne_relocate (h : Embeds σ p q) {below below' : Nat → Except GenError (Forest Site)}
    (hbelow : ∀ id r, p.reactor? id = some r →
      p.Follows q (Forest.map (Site.relocate σ)) (below id) (below' (σ id)))
    (r : Reactor) (i : Instantiation) :
    p.Follows q (Forest.map (Site.relocate σ)) (p.placeOne below r i) (q.placeOne below' r i) := by
  cases hid : p.reactorId? i.reactorClass with
  | none =>
    rw [placeOne_of_unknown hid]
    cases hq : q.reactorId? i.reactorClass with
    | none =>
      rw [placeOne_of_unknown hq]
      exact Or.inl rfl
    | some id => exact Or.inr ⟨_, rfl, hid, Option.isSome_of_eq_some hq⟩
  | some id =>
    obtain ⟨r', hr', -⟩ := exists_reactor_of_reactorId hid
    simp only [placeOne, hid, h.reactorId hid]
    refine (follows_refl p q (i.memberCount r)).bind fun count => ?_
    cases count with
    | none => exact (hbelow id r' hr').bind fun inner => Or.inl rfl
    | some count =>
      cases count with
      | zero => exact Or.inl rfl
      | succ n =>
        refine (hbelow id r' hr').bind fun inner => Or.inl (congrArg Except.ok ?_)
        rw [Forest.map_replicate, List.map_map]
        rfl

theorem placeAll_relocate (h : Embeds σ p q) {below below' : Nat → Except GenError (Forest Site)}
    (hbelow : ∀ id r, p.reactor? id = some r →
      p.Follows q (Forest.map (Site.relocate σ)) (below id) (below' (σ id)))
    (r : Reactor) (is : List Instantiation) :
    p.Follows q (Forest.map (Site.relocate σ)) (p.placeAll below r is) (q.placeAll below' r is) := by
  induction is with
  | nil => exact Or.inl rfl
  | cons i rest ih =>
    refine (placeOne_relocate h hbelow r i).bind fun first => ih.bind fun others => Or.inl ?_
    exact congrArg Except.ok (Forest.map_append first others _).symm

theorem unfold_relocate (h : Embeds σ p q) (n id : Nat) (hr : p.reactor? id = some r) :
    p.Follows q (Forest.map (Site.relocate σ)) (p.unfold n id) (q.unfold n (σ id)) := by
  induction n generalizing id r with
  | zero =>
    rw [unfold_zero hr, unfold_zero (h.reactor hr)]
    split <;> exact Or.inl rfl
  | succ n ih =>
    rw [unfold_succ hr, unfold_succ (h.reactor hr)]
    exact placeAll_relocate h (fun id r hr => ih id hr) r r.instantiations

theorem elaborateFrom_relocate (h : Embeds σ p q) {top : Nat} (hr : p.reactor? top = some r) :
    p.Follows q (InstanceTree.relocate σ) (p.elaborateFrom top) (q.elaborateFrom (σ top)) := by
  rw [elaborateFrom, elaborateFrom, hr, h.reactor hr]
  refine (unfold_relocate h depthLimit top hr).bind fun below => Or.inl (congrArg Except.ok ?_)
  rw [InstanceTree.relocate_ofSites]
  rfl

/-! ## Class texts -/

theorem reactorNamed?_of_reactorId {name : String} {id : Nat} (h : p.reactorId? name = some id) :
    p.reactorNamed? name = p.reactor? id := by
  obtain ⟨hlt, hname, hbefore⟩ := List.findIdx?_eq_some_iff_getElem.mp h
  rw [reactor?, List.getElem?_eq_getElem hlt, reactorNamed?, List.find?_eq_some_iff_getElem]
  exact ⟨hname, id, hlt, rfl, fun j hj => by simpa using hbefore j hj⟩

/-- In a reactor whose instantiations have their classes, references stand for the same in both
programs. -/
theorem Embeds.resolve_eq (h : Embeds σ p q)
    (hr : ∀ i ∈ r.instantiations, ∃ id, p.reactorId? i.reactorClass = some id) (ref : VarRef) :
    ref.resolve q r = ref.resolve p r := by
  have hscope : ref.scope q r = ref.scope p r := by
    unfold VarRef.scope
    cases ref.container with
    | none => rfl
    | some name =>
      cases hi : r.instantiationNamed? name with
      | none => simp only [hi]
      | some i =>
        obtain ⟨id, hid⟩ := hr i (List.mem_of_find?_eq_some hi)
        obtain ⟨inner, hinner, -⟩ := exists_reactor_of_reactorId hid
        have hp : p.reactorNamed? i.reactorClass = some inner :=
          (reactorNamed?_of_reactorId hid).trans hinner
        have hq : q.reactorNamed? i.reactorClass = some inner :=
          (reactorNamed?_of_reactorId (h.reactorId hid)).trans (h.reactor hinner)
        simp only [hi, hp, hq]
  unfold VarRef.resolve
  rw [hscope]

/-- The class of such a reactor has the same text in both programs. -/
theorem Embeds.classText_eq (h : Embeds σ p q)
    (hr : ∀ i ∈ r.instantiations, ∃ id, p.reactorId? i.reactorClass = some id) (id : Nat)
    (options : Options) (reactions : List (Nat × Reaction)) :
    PythonClass.emitter.classText ⟨q, σ id, r, options⟩ reactions =
      PythonClass.emitter.classText ⟨p, id, r, options⟩ reactions := by
  refine PythonClass.classText_congr rfl rfl fun m _ => ?_
  simp only [PythonClass.methodCode, PythonClass.reactionCode, PythonClass.resolveReaction,
    h.resolve_eq hr]

end Program

/-! ## Generation -/

/-- The federate `g` says of the relocated tree and of relocated reactions what `f` says of the tree
and the reactions of the program. -/
structure Federate.AnswersLike (σ : Nat → Nat) (p : Program) (t : InstanceTree) (f g : Federate) :
    Prop where
  name : g.name = f.name
  owns : ∀ id, g.owns (t.relocate σ) id = f.owns t id
  keeps : ∀ {id r}, p.reactor? id = some r → ∀ k, g.keeps r ⟨σ id, k⟩ = f.keeps r ⟨id, k⟩

section Generation

variable {p q : Program} {σ : Nat → Nat} {top : Nat} {t : InstanceTree} {f g : Federate}

theorem candidates_relocate (h : Program.Embeds σ p q) (ht : p.elaborateFrom top = .ok t)
    (hfg : f.AnswersLike σ p t g) (options : Options) :
    (Expansion.mk q (t.relocate σ) g PythonClass.emitter options).candidates =
      (Expansion.mk p t f PythonClass.emitter options).candidates := by
  have hreactor : ∀ i ∈ t.instances, ∃ r, p.reactor? i.reactor = some r := fun i hi =>
    Program.exists_reactor_of_elaborateFrom ht hi
  have hmay : ∀ i ∈ t.instances,
      (Expansion.mk q (t.relocate σ) g PythonClass.emitter options).mayWrite (i.relocate σ) =
        (Expansion.mk p t f PythonClass.emitter options).mayWrite i := by
    intro i hi
    obtain ⟨r, hr⟩ := hreactor i hi
    have hq : q.reactor? (i.relocate σ).reactor = some r := h.reactor hr
    simp only [Expansion.mayWrite, hr, hq, Expansion.isEligible]
    rw [hfg.owns]
    rfl
  have hentry : ∀ i ∈ t.instances,
      (Expansion.mk q (t.relocate σ) g PythonClass.emitter options).classEntry (σ i.reactor) =
        (Expansion.mk p t f PythonClass.emitter options).classEntry i.reactor := by
    intro i hi
    obtain ⟨r, hr⟩ := hreactor i hi
    have hclasses := (Program.elaborateFrom_isUnfolding ht).resolved i hi r hr
    have hkept : (Expansion.mk q (t.relocate σ) g PythonClass.emitter options).keptReactions
        (σ i.reactor) r =
          (Expansion.mk p t f PythonClass.emitter options).keptReactions i.reactor r :=
      List.filter_congr fun m _ => hfg.keeps hr m.1
    simp only [Expansion.classEntry, Program.className, hr, h.reactor hr, Expansion.classText, hkept]
    rw [h.classText_eq fun d hd => (hclasses d hd).1]
  have hfilter := List.filter_congr hmay
  unfold Expansion.candidates
  rw [InstanceTree.instances_relocate, List.filter_map, List.map_map]
  refine (congrArg _ hfilter).trans (List.map_congr_left fun i hi => ?_)
  exact hentry i (List.mem_filter.mp hi).1

/-- Federates that answer alike have the same classes and the same diagnostics. -/
theorem generate_relocate (h : Program.Embeds σ p q) (ht : p.elaborateFrom top = .ok t)
    {α : Type} {ls : List α} {a b : α → Federate}
    (hab : ∀ l ∈ ls, (a l).AnswersLike σ p t (b l)) (options : Options) :
    generate q (t.relocate σ) (ls.map b) PythonClass.emitter options =
      generate p t (ls.map a) PythonClass.emitter options := by
  refine generate_map_congr (fun l hl => (hab l hl).name) fun l hl => ?_
  exact Expansion.expandClasses_congr (candidates_relocate h ht (hab l hl) options)

end Generation

end ReactorSynth

import ReactorSynth.Proofs.Subtrees
import ReactorSynth.Proofs.Width

/-!
# What unfolding leaves

`childSites` reads the sites directly below an instance off the instantiations of its reactor.
Unfolding leaves exactly these at every level:

* `placeOne_eq_ok_iff`, `placeAll_eq_ok_iff`: a list of instantiations is placed when every one
  has its class and its width and, if it leaves anything, an unfolded class.
* `placeOne_eq_error_iff`, `exists_placeOne_of_placeAll`: it fails at the first that is not placed,
  by a fault of its own (`Faulty`) or below it.
* `UnfoldsTo`: what lies below an instance depends on its reactor alone (`UnfoldsTo.unique`), and
  so down to the leaves (`UnfoldsTo.subtrees`).
-/

namespace ReactorSynth

/-! ## Sites -/

/-- The sites of an instantiation in a reactor, of the class at a position: one without an index,
or one for each member of the bank. -/
def Instantiation.sites (i : Instantiation) (r : Reactor) (id : Nat) : List Site :=
  match i.width with
  | none => [⟨i.name, id, none⟩]
  | some w => (List.range ((r.widthValue? w).getD 0)).map fun k => ⟨i.name, id, some k⟩

theorem Instantiation.length_sites (i : Instantiation) (r : Reactor) (id : Nat) :
    (i.sites r id).length = (r.multiplicity? i).getD 0 := by
  unfold sites Reactor.multiplicity?
  cases i.width with
  | none => rfl
  | some w => simp

theorem Instantiation.reactor_of_mem_sites {i : Instantiation} {r : Reactor} {id : Nat} {s : Site}
    (h : s ∈ i.sites r id) : s.reactor = id := by
  unfold sites at h
  split at h
  · rw [List.mem_singleton.mp h]
  · obtain ⟨k, -, rfl⟩ := List.mem_map.mp h
    rfl

theorem Instantiation.name_of_mem_sites {i : Instantiation} {r : Reactor} {id : Nat} {s : Site}
    (h : s ∈ i.sites r id) : s.name = i.name := by
  unfold sites at h
  split at h
  · rw [List.mem_singleton.mp h]
  · obtain ⟨k, -, rfl⟩ := List.mem_map.mp h
    rfl

/-- The sites are numbered below the multiplicity, though only members of a bank bear the number. -/
theorem Instantiation.exists_mem_sites_iff {i : Instantiation} {r : Reactor} {id n : Nat}
    (hn : r.multiplicity? i = some n) {q : Site → Prop} :
    (∃ s ∈ i.sites r id, q s) ↔ ∃ k < n, q ⟨i.name, id, i.width.map fun _ => k⟩ := by
  unfold Reactor.multiplicity? at hn
  unfold sites
  cases hw : i.width with
  | none =>
    rw [hw] at hn
    obtain rfl := Option.some.inj hn
    constructor
    · rintro ⟨s, hs, hq⟩
      rw [List.mem_singleton.mp hs] at hq
      exact ⟨0, Nat.zero_lt_one, hq⟩
    · rintro ⟨k, -, hq⟩
      exact ⟨_, List.mem_singleton_self _, hq⟩
  | some w =>
    have hn : r.widthValue? w = some n := by rwa [hw] at hn
    simp only [hn, Option.getD_some, Option.map_some]
    constructor
    · rintro ⟨s, hs, hq⟩
      obtain ⟨k, hk, rfl⟩ := List.mem_map.mp hs
      exact ⟨k, List.mem_range.mp hk, hq⟩
    · rintro ⟨k, hk, hq⟩
      exact ⟨_, List.mem_map.mpr ⟨k, List.mem_range.mpr hk, rfl⟩, hq⟩

namespace Program

/-- The sites that an instantiation in a reactor leaves; none if its class does not exist. -/
def sitesOf (p : Program) (r : Reactor) (i : Instantiation) : List Site :=
  match p.reactorId? i.reactorClass with
  | none => []
  | some id => i.sites r id

/-- The sites directly below an instance of a reactor, in declaration order. -/
def childSites (p : Program) (r : Reactor) : List Site := r.instantiations.flatMap (p.sitesOf r)

/-- An instantiation has a fault of its own: its class does not exist, or it does and its width
fails. -/
inductive Faulty (p : Program) (r : Reactor) (i : Instantiation) : GenError → Prop
  | unknownClass (h : p.reactorId? i.reactorClass = none) :
      Faulty p r i (.unknownReactor i.reactorClass)
  | width {id : Nat} {w : Width} {e : GenError} (hid : p.reactorId? i.reactorClass = some id)
      (hw : i.width = some w) (h : i.WidthFails r 0 w.terms e) : Faulty p r i e

variable {p : Program} {r : Reactor}

theorem name_of_mem_sitesOf {i : Instantiation} {s : Site} (h : s ∈ p.sitesOf r i) :
    s.name = i.name := by
  unfold sitesOf at h
  split at h
  · exact absurd h List.not_mem_nil
  · exact Instantiation.name_of_mem_sites h

theorem exists_reactor_of_reactorId {name : String} {id : Nat} (h : p.reactorId? name = some id) :
    ∃ r, p.reactor? id = some r ∧ r.name = name := by
  obtain ⟨hlt, hname, -⟩ := List.findIdx?_eq_some_iff_getElem.mp h
  exact ⟨p.reactors[id], List.getElem?_eq_getElem hlt, by simpa using hname⟩

/-! ## Placing instantiations -/

variable {below : Nat → Except GenError (Forest Site)}

theorem placeOne_of_unknown {i : Instantiation} (h : p.reactorId? i.reactorClass = none) :
    p.placeOne below r i = .error (.unknownReactor i.reactorClass) := by
  rw [placeOne, h]

theorem placeOne_of_width_error {i : Instantiation} {id : Nat} {w : Width} {e : GenError}
    (hid : p.reactorId? i.reactorClass = some id) (hw : i.width = some w)
    (h : i.resolveWidth r w = .error e) : p.placeOne below r i = .error e := by
  simp only [placeOne, hid, Instantiation.memberCount, hw, h]
  rfl

/-- With a class and a width, an instantiation is placed as copies of its unfolded class, which is
not needed when there are none. -/
theorem placeOne_of_multiplicity {i : Instantiation} {id n : Nat}
    (hid : p.reactorId? i.reactorClass = some id) (hn : r.multiplicity? i = some n) :
    p.placeOne below r i =
      if n = 0 then .ok .nil else (below id).map fun inner => .replicate inner (i.sites r id) := by
  unfold Reactor.multiplicity? at hn
  cases hw : i.width with
  | none =>
    rw [hw] at hn
    obtain rfl := Option.some.inj hn
    simp only [placeOne, hid, Instantiation.memberCount, hw, Instantiation.sites]
    cases below id <;> rfl
  | some w =>
    rw [hw] at hn
    have hok : i.resolveWidth r w = .ok n := Instantiation.resolveWidth_eq_ok_iff.mpr hn
    simp only [placeOne, hid, Instantiation.memberCount, hw, hok, Instantiation.sites, hn]
    cases n with
    | zero => rfl
    | succ n => cases below id <;> rfl

/-- An instantiation is faulty or has both a class and a width. -/
theorem faulty_or_multiplicity (p : Program) (r : Reactor) (i : Instantiation) :
    (∃ e, p.Faulty r i e ∧ ∀ below, p.placeOne below r i = .error e) ∨
      ∃ id n, p.reactorId? i.reactorClass = some id ∧ r.multiplicity? i = some n := by
  cases hid : p.reactorId? i.reactorClass with
  | none => exact Or.inl ⟨_, .unknownClass hid, fun _ => placeOne_of_unknown hid⟩
  | some id =>
    cases hw : i.width with
    | none => exact Or.inr ⟨id, 1, rfl, by rw [Reactor.multiplicity?, hw]⟩
    | some w =>
      cases hres : i.resolveWidth r w with
      | error e =>
        exact Or.inl ⟨e, .width hid hw (Instantiation.resolveWidth_eq_error_iff.mp hres),
          fun _ => placeOne_of_width_error hid hw hres⟩
      | ok n =>
        refine Or.inr ⟨id, n, rfl, ?_⟩
        rw [Reactor.multiplicity?, hw]
        exact Instantiation.resolveWidth_eq_ok_iff.mp hres

/-- A faulty instantiation fails with its fault, whatever lies below. -/
theorem Faulty.placeOne {i : Instantiation} {e : GenError} (h : p.Faulty r i e)
    (below : Nat → Except GenError (Forest Site)) : p.placeOne below r i = .error e := by
  cases h with
  | unknownClass hid => exact placeOne_of_unknown hid
  | width hid hw hf =>
    exact placeOne_of_width_error hid hw (Instantiation.resolveWidth_eq_error_iff.mpr hf)

theorem Faulty.unique {i : Instantiation} {e e' : GenError} (h : p.Faulty r i e)
    (h' : p.Faulty r i e') : e = e' :=
  Except.error.inj ((h.placeOne fun _ => .ok .nil).symm.trans (h'.placeOne _))

/-- A faulty instantiation lacks a class or a width. -/
theorem Faulty.not_multiplicity {i : Instantiation} {e : GenError} {id n : Nat}
    (h : p.Faulty r i e) (hid : p.reactorId? i.reactorClass = some id) :
    r.multiplicity? i ≠ some n := fun hn => by
  have h0 := h.placeOne fun _ => .ok .nil
  rw [placeOne_of_multiplicity hid hn] at h0
  split at h0 <;> exact absurd h0 (by simp [Except.map])

theorem placeOne_eq_ok_iff {i : Instantiation} {f : Forest Site} :
    p.placeOne below r i = .ok f ↔
      ∃ id n inner, p.reactorId? i.reactorClass = some id ∧ r.multiplicity? i = some n ∧
        (0 < n → below id = .ok inner) ∧ .replicate inner (i.sites r id) = f := by
  rcases faulty_or_multiplicity p r i with ⟨e, hf, hp⟩ | ⟨id, n, hid, hn⟩
  · rw [hp]
    constructor
    · intro h
      exact absurd h (by simp)
    · rintro ⟨id, n, inner, hid, hn, -⟩
      exact absurd hn (hf.not_multiplicity hid)
  · simp only [hid, hn, Option.some.injEq, placeOne_of_multiplicity hid hn]
    have hlen := i.length_sites r id
    rw [hn, Option.getD_some] at hlen
    constructor
    · intro h
      split at h
      · rename_i h0
        rw [h0] at hlen
        rw [List.length_eq_zero_iff] at hlen
        refine ⟨id, n, .nil, rfl, rfl, fun hpos => by omega, ?_⟩
        rw [hlen]
        exact Except.ok.inj h
      · cases hb : below id with
        | error e => exact absurd (hb ▸ h) (by simp [Except.map])
        | ok inner =>
          rw [hb] at h
          exact ⟨id, n, inner, rfl, rfl, fun _ => hb, Except.ok.inj h⟩
    · rintro ⟨_, _, inner, rfl, rfl, hb, rfl⟩
      split
      · rename_i h0
        rw [h0, List.length_eq_zero_iff] at hlen
        rw [hlen]
        rfl
      · rw [hb (by omega)]
        rfl

theorem placeOne_eq_error_iff {i : Instantiation} {e : GenError} :
    p.placeOne below r i = .error e ↔
      p.Faulty r i e ∨ ∃ id n, p.reactorId? i.reactorClass = some id ∧
        r.multiplicity? i = some n ∧ 0 < n ∧ below id = .error e := by
  rcases faulty_or_multiplicity p r i with ⟨e', hf, hp⟩ | ⟨id, n, hid, hn⟩
  · constructor
    · intro h
      rw [hp] at h
      obtain rfl := Except.error.inj h
      exact Or.inl hf
    · rintro (h | ⟨id, n, hid, hn, -⟩)
      · exact h.placeOne below
      · exact absurd hn (hf.not_multiplicity hid)
  · constructor
    · intro h
      rw [placeOne_of_multiplicity hid hn] at h
      split at h
      · exact absurd h (by simp)
      · refine Or.inr ⟨id, n, hid, hn, by omega, ?_⟩
        cases hb : below id with
        | error e' => exact congrArg _ (Except.error.inj (hb ▸ h))
        | ok inner => exact absurd (hb ▸ h) (by simp [Except.map])
    · rintro (h | ⟨id', n', hid', hn', hpos, hb⟩)
      · exact h.placeOne below
      · rw [placeOne_of_multiplicity hid' hn', if_neg (by omega), hb]
        rfl

theorem placeAll_cons_eq_ok_iff {i : Instantiation} {rest : List Instantiation}
    {f : Forest Site} : p.placeAll below r (i :: rest) = .ok f ↔
      ∃ g h, p.placeOne below r i = .ok g ∧ p.placeAll below r rest = .ok h ∧
        g.append h = f := by
  rw [placeAll]
  cases p.placeOne below r i with
  | error e => exact ⟨fun h => absurd h (by simp [bind, Except.bind]), fun h => by simp at h⟩
  | ok g =>
    cases p.placeAll below r rest with
    | error e => exact ⟨fun h => absurd h (by simp [bind, Except.bind]), fun h => by simp at h⟩
    | ok h =>
      constructor
      · intro heq
        exact ⟨g, h, rfl, rfl, Except.ok.inj heq⟩
      · rintro ⟨_, _, ⟨⟩, ⟨⟩, rfl⟩
        rfl

/-- When all are placed, so is each. -/
theorem placeOne_of_placeAll {is : List Instantiation} {f : Forest Site}
    (h : p.placeAll below r is = .ok f) : ∀ i ∈ is, ∃ g, p.placeOne below r i = .ok g := by
  induction is generalizing f with
  | nil => exact fun i hi => absurd hi List.not_mem_nil
  | cons first rest ih =>
    obtain ⟨g, g', h1, h2, -⟩ := placeAll_cons_eq_ok_iff.mp h
    intro i hi
    rcases List.mem_cons.mp hi with rfl | hi
    · exact ⟨g, h1⟩
    · exact ih h2 i hi

/-- When not all are placed, the error is that of the first that is not. -/
theorem exists_placeOne_of_placeAll {is : List Instantiation} {e : GenError}
    (h : p.placeAll below r is = .error e) :
    ∃ (k : Nat) (i : Instantiation), is[k]? = some i ∧ p.placeOne below r i = .error e ∧
      ∀ j < k, ∀ i', is[j]? = some i' → ∃ g, p.placeOne below r i' = .ok g := by
  induction is with
  | nil => exact absurd h (by simp [placeAll])
  | cons first rest ih =>
    cases h1 : p.placeOne below r first with
    | error e' =>
      rw [placeAll, h1] at h
      obtain rfl : e' = e := Except.error.inj h
      exact ⟨0, first, rfl, h1, fun j hj => absurd hj (Nat.not_lt_zero j)⟩
    | ok g =>
      have h2 : p.placeAll below r rest = .error e := by
        rw [placeAll, h1] at h
        cases hrest : p.placeAll below r rest with
        | error e' =>
          rw [hrest] at h
          exact h
        | ok g' =>
          rw [hrest] at h
          exact absurd h (by simp [bind, Except.bind, pure, Except.pure])
      obtain ⟨k, i, hi, he, hbefore⟩ := ih h2
      refine ⟨k + 1, i, hi, he, fun j hj i' hi' => ?_⟩
      cases j with
      | zero =>
        obtain rfl := Option.some.inj hi'
        exact ⟨g, h1⟩
      | succ j => exact hbefore j (by omega) i' hi'

/-- The trees that an instantiation leaves: one for each of its sites, with the class unfolded. -/
theorem trees_of_placeOne {i : Instantiation} {f : Forest Site}
    (h : p.placeOne below r i = .ok f) :
    f.tops = p.sitesOf r i ∧
      ∀ s g, (s, g) ∈ f.trees →
        (∃ r', p.reactor? s.reactor = some r') ∧ below s.reactor = .ok g := by
  obtain ⟨id, n, inner, hid, hn, hb, rfl⟩ := placeOne_eq_ok_iff.mp h
  refine ⟨by rw [Forest.tops_replicate, sitesOf, hid], fun s g hg => ?_⟩
  rw [Forest.trees_replicate] at hg
  obtain ⟨s, hs, heq⟩ := List.mem_map.mp hg
  obtain ⟨rfl, rfl⟩ := Prod.mk.inj heq
  have hpos : 0 < n := by
    have hlen := i.length_sites r id
    rw [hn, Option.getD_some] at hlen
    rw [← hlen]
    exact List.length_pos_of_mem hs
  rw [Instantiation.reactor_of_mem_sites hs]
  obtain ⟨r', hr', -⟩ := exists_reactor_of_reactorId hid
  exact ⟨⟨r', hr'⟩, hb hpos⟩

theorem trees_of_placeAll {is : List Instantiation} {f : Forest Site}
    (h : p.placeAll below r is = .ok f) :
    f.tops = is.flatMap (p.sitesOf r) ∧
      ∀ s g, (s, g) ∈ f.trees →
        (∃ r', p.reactor? s.reactor = some r') ∧ below s.reactor = .ok g := by
  induction is generalizing f with
  | nil =>
    obtain rfl := Except.ok.inj h
    exact ⟨rfl, fun s g hg => absurd hg List.not_mem_nil⟩
  | cons i rest ih =>
    obtain ⟨f1, f2, h1, h2, rfl⟩ := placeAll_cons_eq_ok_iff.mp h
    obtain ⟨htops, htrees⟩ := trees_of_placeOne h1
    obtain ⟨htops', htrees'⟩ := ih h2
    refine ⟨by rw [Forest.tops_append, htops, htops', List.flatMap_cons], fun s g hg => ?_⟩
    rw [Forest.trees_append, List.mem_append] at hg
    exact hg.elim (htrees s g) (htrees' s g)

/-- Whatever is placed has its class and the number of its members. -/
theorem resolved_of_placeAll {is : List Instantiation} {f : Forest Site}
    (h : p.placeAll below r is = .ok f) :
    ∀ i ∈ is, (∃ id, p.reactorId? i.reactorClass = some id) ∧
      ∃ n, r.multiplicity? i = some n := by
  intro i hi
  obtain ⟨g, hg⟩ := placeOne_of_placeAll h i hi
  obtain ⟨id, n, -, hid, hn, -⟩ := placeOne_eq_ok_iff.mp hg
  exact ⟨⟨id, hid⟩, n, hn⟩

/-- Placing succeeds again, with the same result, where more classes unfold. -/
theorem placeAll_mono {below' : Nat → Except GenError (Forest Site)}
    (hle : ∀ id g, below id = .ok g → below' id = .ok g) {is : List Instantiation}
    {f : Forest Site} (h : p.placeAll below r is = .ok f) : p.placeAll below' r is = .ok f := by
  induction is generalizing f with
  | nil => exact h
  | cons i rest ih =>
    obtain ⟨f1, f2, h1, h2, rfl⟩ := placeAll_cons_eq_ok_iff.mp h
    obtain ⟨id, n, inner, hid, hn, hb, rfl⟩ := placeOne_eq_ok_iff.mp h1
    have h1' : p.placeOne below' r i = .ok (.replicate inner (i.sites r id)) :=
      placeOne_eq_ok_iff.mpr ⟨id, n, inner, hid, hn, fun hpos => hle id inner (hb hpos), rfl⟩
    exact placeAll_cons_eq_ok_iff.mpr ⟨_, f2, h1', ih h2, rfl⟩

/-! ## Unfolding a class -/

theorem unfold_of_none {n id : Nat} (hr : p.reactor? id = none) : p.unfold n id = .ok .nil := by
  cases n <;> simp only [unfold, hr]

theorem unfold_zero {id : Nat} (hr : p.reactor? id = some r) :
    p.unfold 0 id =
      if r.instantiations.isEmpty then .ok .nil else .error (.tooDeep r.name depthLimit) := by
  simp only [unfold, hr]

theorem unfold_succ {n id : Nat} (hr : p.reactor? id = some r) :
    p.unfold (n + 1) id = p.placeAll (p.unfold n) r r.instantiations := by
  simp only [unfold, hr]

/-- More levels change nothing about what unfolds within fewer. -/
theorem unfold_mono {n m id : Nat} {f : Forest Site} (hle : n ≤ m) (h : p.unfold n id = .ok f) :
    p.unfold m id = .ok f := by
  induction n generalizing m id f with
  | zero =>
    cases m with
    | zero => exact h
    | succ m =>
      cases hr : p.reactor? id with
      | none =>
        rw [unfold_of_none hr] at h ⊢
        exact h
      | some r =>
        rw [unfold_zero hr] at h
        split at h
        · rename_i hempty
          rw [unfold_succ hr, List.isEmpty_iff.mp hempty]
          exact h
        · exact absurd h (by simp)
  | succ n ih =>
    obtain ⟨m, rfl⟩ : ∃ k, m = k + 1 := ⟨m - 1, by omega⟩
    cases hr : p.reactor? id with
    | none =>
      rw [unfold_of_none hr] at h ⊢
      exact h
    | some r =>
      rw [unfold_succ hr] at h ⊢
      exact placeAll_mono (fun id g hg => ih (by omega) hg) h

/-- There is a reactor at a position, and what lies below its instances is a given forest. -/
def UnfoldsTo (p : Program) (id : Nat) (f : Forest Site) : Prop :=
  (∃ r, p.reactor? id = some r) ∧ p.unfold depthLimit id = .ok f

namespace UnfoldsTo

variable {id : Nat} {f g : Forest Site}

/-- Instances of one reactor have the same forest below them. -/
theorem unique (hf : p.UnfoldsTo id f) (hg : p.UnfoldsTo id g) : f = g :=
  Except.ok.inj (hf.2.symm.trans hg.2)

theorem tops_and_trees (hf : p.UnfoldsTo id f) (hr : p.reactor? id = some r) :
    f.tops = p.childSites r ∧ ∀ s g, (s, g) ∈ f.trees → p.UnfoldsTo s.reactor g := by
  obtain ⟨-, h⟩ := hf
  rw [show depthLimit = 63 + 1 from rfl, unfold_succ hr] at h
  obtain ⟨htops, htrees⟩ := trees_of_placeAll h
  refine ⟨htops, fun s g hg => ?_⟩
  obtain ⟨hr', hg'⟩ := htrees s g hg
  exact ⟨hr', unfold_mono (by decide) hg'⟩

/-- Directly below an instance stand the sites that its reactor declares. -/
theorem tops (hf : p.UnfoldsTo id f) (hr : p.reactor? id = some r) : f.tops = p.childSites r :=
  (hf.tops_and_trees hr).1

theorem trees (hf : p.UnfoldsTo id f) {s : Site} (hg : (s, g) ∈ f.trees) :
    p.UnfoldsTo s.reactor g := by
  obtain ⟨r, hr⟩ := hf.1
  exact (hf.tops_and_trees hr).2 s g hg

/-- Every instantiation of a reactor that unfolds has its class and its width. -/
theorem resolved (hf : p.UnfoldsTo id f) (hr : p.reactor? id = some r) :
    ∀ i ∈ r.instantiations, (∃ next, p.reactorId? i.reactorClass = some next) ∧
      ∃ n, r.multiplicity? i = some n := by
  obtain ⟨-, h⟩ := hf
  rw [show depthLimit = 63 + 1 from rfl, unfold_succ hr] at h
  exact resolved_of_placeAll h

/-- Every instance further down has below it what its reactor unfolds to. -/
theorem subtrees (hf : p.UnfoldsTo id f) {s : Site} (hg : (s, g) ∈ f.subtrees) :
    p.UnfoldsTo s.reactor g :=
  Forest.forall_mem_subtrees (P := fun s g => p.UnfoldsTo s.reactor g) (fun _ _ h => hf.trees h)
    (fun _ _ hb _ _ h => hb.trees h) s g hg

/-- No class lies below itself, or its forest would be larger than itself. -/
theorem reactor_ne (hf : p.UnfoldsTo id f) {s : Site} (hg : (s, g) ∈ f.subtrees) :
    s.reactor ≠ id := by
  intro heq
  have hsame := hf.subtrees hg
  rw [heq] at hsame
  have hlt := Forest.size_lt_of_mem_subtrees hg
  rw [hf.unique hsame] at hlt
  exact Nat.lt_irrefl _ hlt

end UnfoldsTo

/-- An elaborated tree is the numbered forest that its top reactor unfolds to. -/
theorem elaborateFrom_eq_ok_iff {top : Nat} {t : InstanceTree} :
    p.elaborateFrom top = .ok t ↔
      ∃ r f, p.reactor? top = some r ∧ p.unfold depthLimit top = .ok f ∧
        .ofSites ⟨Text.lowercase r.name, top, none⟩ f = t := by
  rw [elaborateFrom]
  cases hr : p.reactor? top with
  | none => simp
  | some r =>
    cases hf : p.unfold depthLimit top with
    | error e => simp [bind, Except.bind]
    | ok f => simp [bind, Except.bind, pure, Except.pure]

/-- A program that elaborates does so from its main reactor. -/
theorem exists_mainId?_of_elaborate {t : InstanceTree} (h : p.elaborate = .ok t) :
    ∃ main, p.mainId? = some main ∧ p.elaborateFrom main = .ok t := by
  unfold elaborate at h
  cases hmain : p.mainId? with
  | none =>
    rw [hmain] at h
    simp at h
  | some main =>
    rw [hmain] at h
    exact ⟨main, rfl, h⟩

end Program

end ReactorSynth

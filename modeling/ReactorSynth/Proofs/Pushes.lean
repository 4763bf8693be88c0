import ReactorSynth.InstanceTree.Arena
import ReactorSynth.Proofs.Numbering

/-!
# Elaboration by pushes

Elaboration unfolds a program into a forest of sites and numbers it, with what lies below the
members of a bank unfolded once; the arena is filled by one push after another. Both come to the
same entries.

* `Arena.pushForest_eq`: pushing a forest appends its numbered instances, each with its children,
  and tells the parent of the roots.
* `Program.pushOne_eq`, `Program.pushBelow_eq`: a step of the run pushes what its instantiation
  unfolds to, and a run what the reactor does, with the same errors.
* **`Program.arenaFrom_eq`**: the arena of a program is that of its instance tree.
-/

namespace ReactorSynth

/-! ## Pushing a forest -/

/-- The entries of a numbered forest, depth first. -/
def Forest.entries (f : Forest Instance) : List Entry :=
  f.subtrees.map fun t => ⟨t.1, t.2.tops.map (·.id)⟩

theorem Forest.entries_cons (i : Instance) (below after : Forest Instance) :
    (Forest.cons i below after).entries =
      ⟨i, below.tops.map (·.id)⟩ :: (below.entries ++ after.entries) := by
  rw [entries, subtrees, List.map_cons, List.map_append]
  rfl

namespace Arena

variable {a b : Arena} {q : Nat}

/-- Push a forest below an instance, depth first. -/
def pushForest (a : Arena) (parent : Nat) : Forest Site → Arena
  | .nil => a
  | .cons site below after =>
    ((a.push site (some parent)).pushForest a.length below).pushForest parent after

theorem pushForest_append (a : Arena) (parent : Nat) (f g : Forest Site) :
    a.pushForest parent (f.append g) = (a.pushForest parent f).pushForest parent g := by
  induction f generalizing a with
  | nil => rfl
  | cons site below after _ iha => rw [Forest.append, pushForest, iha, pushForest]

/-- The next slot holds what is pushed. -/
theorem getElem?_push (a : Arena) (site : Site) (parent : Option Nat) :
    ∃ e, (a.push site parent)[a.length]? = some e ∧ e.toSite = site := by
  cases parent with
  | none => exact ⟨_, List.getElem?_concat_length, rfl⟩
  | some q =>
    rw [push, List.getElem?_modify, List.getElem?_concat_length]
    by_cases hq : q = a.length
    · exact ⟨_, congrArg some (if_pos hq), rfl⟩
    · exact ⟨_, congrArg some (if_neg hq), rfl⟩

theorem modify_append (h : q < a.length) (φ : Entry → Entry) :
    List.modify (a ++ b) q φ = List.modify a q φ ++ b := by
  induction a generalizing q with
  | nil => exact absurd h (Nat.not_lt_zero q)
  | cons e a ih =>
    cases q with
    | zero => rfl
    | succ q =>
      rw [List.cons_append, List.modify_succ_cons, List.modify_succ_cons,
        ih (Nat.lt_of_succ_lt_succ h), List.cons_append]

theorem modify_concat {n : Nat} (h : a.length = n) (e : Entry) (φ : Entry → Entry) :
    List.modify (a ++ [e]) n φ = a ++ [φ e] := by
  subst h
  induction a with
  | nil => rfl
  | cons e' a ih => rw [List.cons_append, List.length_cons, List.modify_succ_cons, ih]; rfl

theorem modify_adopt_adopt (a : Arena) (q : Nat) (ids ids' : List Nat) :
    List.modify (List.modify a q (·.adopt ids)) q (·.adopt ids') =
      List.modify a q (·.adopt (ids ++ ids')) := by
  rw [List.modify_modify_eq]
  congr 1
  funext e
  exact congrArg (Entry.mk e.toInstance) (List.append_assoc _ _ _)

theorem modify_adopt_nil (a : Arena) (q : Nat) : List.modify a q (·.adopt []) = a := by
  have hid : (fun e : Entry => e.adopt []) = id := by
    funext e
    exact congrArg (Entry.mk e.toInstance) (List.append_nil _)
  rw [hid, List.modify_id]

theorem push_eq (h : q < a.length) (site : Site) :
    a.push site (some q) =
      List.modify a q (·.adopt [a.length]) ++ [⟨⟨site, a.length, some q⟩, []⟩] :=
  modify_append h _

theorem length_push (a : Arena) (site : Site) (q : Nat) :
    (a.push site (some q)).length = a.length + 1 := by
  rw [push, List.length_modify, List.length_append]
  rfl

theorem length_pushForest (a : Arena) (q : Nat) (f : Forest Site) :
    (a.pushForest q f).length = a.length + f.size := by
  induction f generalizing a q with
  | nil => rfl
  | cons site below after ihb iha =>
    rw [pushForest, iha, ihb, length_push, Forest.size]
    omega

/-- A forest is appended as its instances are numbered, and its roots become children. -/
theorem pushForest_eq (h : q < a.length) (f : Forest Site) :
    a.pushForest q f =
      List.modify a q (·.adopt ((f.number q a.length).tops.map (·.id))) ++
        (f.number q a.length).entries := by
  induction f generalizing a q with
  | nil =>
    rw [Forest.number, Forest.tops, List.map_nil, modify_adopt_nil]
    exact (List.append_nil a).symm
  | cons site below after ihb iha =>
    have hbelow : (a.push site (some q)).pushForest a.length below =
        List.modify a q (·.adopt [a.length]) ++
          ⟨⟨site, a.length, some q⟩, (below.number a.length (a.length + 1)).tops.map (·.id)⟩ ::
            (below.number a.length (a.length + 1)).entries := by
      rw [ihb (by rw [length_push]; omega), length_push, push_eq h,
        modify_concat (List.length_modify _ _ _), List.append_assoc]
      rfl
    have hlt : q < (List.modify a q (·.adopt [a.length])).length := by rwa [List.length_modify]
    rw [pushForest, iha (by rw [length_pushForest, length_push]; omega), length_pushForest,
      length_push, hbelow, modify_append hlt, modify_adopt_adopt, Forest.number,
      Forest.entries_cons, List.append_assoc]
    rfl

end Arena

/-! ## Runs -/

namespace Program

variable {p : Program} {below : Arena → Nat → Except GenError Arena}
  {unfolded : Nat → Except GenError (Forest Site)}

/-- What `below` pushes below an instance is what its reactor unfolds to. -/
def PushesUnfolded (below : Arena → Nat → Except GenError Arena)
    (unfolded : Nat → Except GenError (Forest Site)) : Prop :=
  ∀ (a : Arena) (id : Nat) (e : Entry), a[id]? = some e →
    below a id = (unfolded e.reactor).map (a.pushForest id)

theorem pushWith_eq (h : PushesUnfolded below unfolded) (parent : Nat) (a : Arena) (site : Site) :
    pushWith below parent a site =
      (unfolded site.reactor).map fun inner => a.pushForest parent (.cons site inner .nil) := by
  obtain ⟨e, he, hsite⟩ := a.getElem?_push site (some parent)
  rw [pushWith, h _ _ e he, ← hsite]
  rfl

/-- Each member of a bank has its own run, with the outcome of one run below all of them. -/
theorem foldlM_pushWith (h : PushesUnfolded below unfolded) (parent reactor : Nat)
    {sites : List Site} (hsites : ∀ s ∈ sites, s.reactor = reactor) (hne : sites ≠ []) (a : Arena) :
    sites.foldlM (pushWith below parent) a =
      (unfolded reactor).map fun inner => a.pushForest parent (.replicate inner sites) := by
  cases hu : unfolded reactor with
  | error e =>
    obtain ⟨s, rest, rfl⟩ := List.exists_cons_of_ne_nil hne
    rw [List.foldlM_cons, pushWith_eq h, hsites s List.mem_cons_self, hu]
    rfl
  | ok inner =>
    clear hne
    induction sites generalizing a with
    | nil => rfl
    | cons s sites ih =>
      obtain ⟨hs, hrest⟩ := List.forall_mem_cons.mp hsites
      rw [List.foldlM_cons, pushWith_eq h, hs, hu]
      exact ih hrest _

/-- A step pushes what its instantiation unfolds to, or fails alike. -/
theorem pushOne_eq (h : PushesUnfolded below unfolded) (enclosing : Reactor) (parent : Nat)
    (a : Arena) (i : Instantiation) :
    p.pushOne below enclosing parent a i =
      (p.placeOne unfolded enclosing i).map (a.pushForest parent) := by
  unfold pushOne placeOne
  cases p.reactorId? i.reactorClass with
  | none => rfl
  | some reactor =>
    cases hw : i.width with
    | none =>
      simp only [Instantiation.memberCount, hw, pushWith_eq h]
      cases unfolded reactor <;> rfl
    | some width =>
      simp only [Instantiation.memberCount, hw]
      cases i.resolveWidth enclosing width with
      | error e => rfl
      | ok count =>
        cases count with
        | zero => rfl
        | succ n =>
          let members : List Site := (List.range (n + 1)).map fun k => ⟨i.name, reactor, some k⟩
          have hrun : members.foldlM (pushWith below parent) a = _ :=
            foldlM_pushWith h parent reactor (by simp [members]) (by simp [members]) a
          rw [List.foldlM_map] at hrun
          refine hrun.trans ?_
          cases unfolded reactor <;> rfl

/-- The instantiations of a reactor, one step after the other. -/
theorem foldlM_pushOne (h : PushesUnfolded below unfolded) (enclosing : Reactor) (parent : Nat)
    (is : List Instantiation) (a : Arena) :
    is.foldlM (p.pushOne below enclosing parent) a =
      (p.placeAll unfolded enclosing is).map (a.pushForest parent) := by
  induction is generalizing a with
  | nil => rfl
  | cons i is ih =>
    rw [List.foldlM_cons, pushOne_eq h, placeAll]
    cases p.placeOne unfolded enclosing i with
    | error e => rfl
    | ok first =>
      refine (ih (a.pushForest parent first)).trans ?_
      cases p.placeAll unfolded enclosing is with
      | error e => rfl
      | ok others => exact congrArg Except.ok (Arena.pushForest_append a parent first others).symm

/-- A run below an instance pushes what its reactor unfolds to, or fails alike. -/
theorem pushBelow_eq (p : Program) (remaining : Nat) :
    PushesUnfolded (p.pushBelow remaining) (p.unfold remaining) := by
  induction remaining with
  | zero =>
    intro a id e he
    rw [pushBelow, unfold, reactorAt?, he, Option.bind_some]
    cases p.reactor? e.reactor with
    | none => rfl
    | some r => cases hnil : r.instantiations.isEmpty <;> simp only [hnil] <;> rfl
  | succ remaining ih =>
    intro a id e he
    rw [pushBelow, unfold, reactorAt?, he, Option.bind_some]
    cases p.reactor? e.reactor with
    | none => rfl
    | some r => exact foldlM_pushOne ih r id r.instantiations a

end Program

/-! ## The arena of a program -/

theorem InstanceTree.Numbered.arena_eq {t : InstanceTree} (h : t.Numbered) :
    t.arena = t.forest.entries := by
  rw [arena, instances_eq, ← Forest.map_fst_subtrees, List.map_map, Forest.entries]
  refine List.map_congr_left fun u hu => ?_
  rw [Function.comp_apply, h.childIds_eq hu]

/-- **The arena of a program is that of its instance tree**, and where there is no tree, the run over
the arena fails with the same error. -/
theorem Program.arenaFrom_eq (p : Program) (top : Nat) :
    p.arenaFrom top = (p.elaborateFrom top).map InstanceTree.arena := by
  unfold arenaFrom elaborateFrom
  cases p.reactor? top with
  | none => rfl
  | some r =>
    have hroot : (Arena.push [] ⟨Text.lowercase r.name, top, none⟩ none)[0]? =
        some ⟨⟨⟨Text.lowercase r.name, top, none⟩, 0, none⟩, []⟩ := rfl
    refine (p.pushBelow_eq depthLimit _ 0 _ hroot).trans ?_
    cases p.unfold depthLimit top with
    | error e => rfl
    | ok f =>
      refine congrArg Except.ok ?_
      rw [Arena.pushForest_eq Nat.zero_lt_one, (InstanceTree.numbered_ofSites _ f).arena_eq,
        InstanceTree.forest, Forest.entries_cons]
      exact congrArg (List.cons _) (List.append_nil _).symm

/-- A bank of two members with an instance below each, and an instance behind it. -/
def cellRow : Program where
  reactors :=
    [{ name := "Valve" },
     { name := "Cell", instantiations := [{ name := "valve", reactorClass := "Valve" }] },
     { name := "Row"
       instantiations :=
         [{ name := "cell", reactorClass := "Cell", width := some (.literal 2) },
          { name := "outlet", reactorClass := "Valve" }] }]

example : (cellRow.arenaFrom 2).map
      (·.map fun e => (e.name, e.bankIndex, e.parent, e.children)) =
    .ok [("row", none, none, [1, 3, 5]), ("cell", some 0, some 0, [2]),
      ("valve", none, some 1, []), ("cell", some 1, some 0, [4]), ("valve", none, some 3, []),
      ("outlet", none, some 0, [])] := by rfl

end ReactorSynth

import ReactorSynth.Proofs.Candidates
import ReactorSynth.Proofs.Outcomes
import ReactorSynth.PythonClass

/-!
# Members of a bank

The members of a bank are instances of one class, so below each of them stands the same forest but
for the numbers. A federate that runs a single member owns that tree of the row and no other
(`keep_ownsSite_of_member`), hence any two such federates have the same candidates
(`candidates_of_members`).

**`generate_bank_member`**: two federates that run a member each of one bank, and the same
reactions, have the same classes or the same diagnostic, but for their names.
-/

namespace ReactorSynth

/-! ## The federate of a member -/

namespace FederateLayout

/-- The federate runs one member of a bank of `n`. -/
def RunsMember (l : FederateLayout) (i : Instantiation) (n : Nat) : Prop :=
  l.instantiation = some i.name ∧ ∃ k < n, l.bankIndex = some k

/-- Two federates run the same reactions, and the same of them only carry messages. -/
def SameReactions (a b : FederateLayout) : Prop :=
  ∀ key, (key ∈ a.excluded ↔ key ∈ b.excluded) ∧ (key ∈ a.network ↔ key ∈ b.network)

theorem SameReactions.keeps_eq {a b : FederateLayout} (h : a.SameReactions b) (r : Reactor)
    (key : ReactionKey) : a.toFederate.keeps r key = b.toFederate.keeps r key := by
  have hexcluded : a.excluded.contains key = b.excluded.contains key := by
    rw [Bool.eq_iff_iff, List.contains_iff_mem, List.contains_iff_mem]
    exact (h key).1
  have hnetwork : a.network.contains key = b.network.contains key := by
    rw [Bool.eq_iff_iff, List.contains_iff_mem, List.contains_iff_mem]
    exact (h key).2
  simp only [Federate.keeps, toFederate, hexcluded, hnetwork]

end FederateLayout

/-- Values that contribute nothing may be left out. -/
theorem flatMap_eq_flatMap_filter {α β : Type} {g : α → List β} {l : List α} (q : α → Bool)
    (h : ∀ a ∈ l, q a = false → g a = []) : l.flatMap g = (l.filter q).flatMap g := by
  induction l with
  | nil => rfl
  | cons a l ih =>
    have hl := ih fun b hb => h b (List.mem_cons_of_mem a hb)
    cases hq : q a with
    | true => rw [List.filter_cons_of_pos hq, List.flatMap_cons, List.flatMap_cons, hl]
    | false =>
      rw [List.filter_cons_of_neg (by simp [hq]), List.flatMap_cons, h a List.mem_cons_self hq,
        List.nil_append, hl]

namespace Program

variable {p : Program} {r : Reactor} {i : Instantiation} {w : Width} {n : Nat} {top : Nat}
  {f : Forest Site} {l : FederateLayout}

/-- Of the sites below the root the federate runs that of its member alone, if no other
instantiation has the name of the bank. -/
theorem filter_ownsSite_of_member {c k : Nat}
    (hi : r.instantiations.filter (·.name == i.name) = [i])
    (hid : p.reactorId? i.reactorClass = some c) (hw : i.width = some w)
    (hn : r.widthValue? w = some n) (hinst : l.instantiation = some i.name)
    (hk : l.bankIndex = some k) (hlt : k < n) :
    (p.childSites r).filter l.ownsSite = [⟨i.name, c, some k⟩] := by
  have hother : ∀ d ∈ r.instantiations, (d.name == i.name) = false →
      (p.sitesOf r d).filter l.ownsSite = [] := by
    intro d _ hne
    rw [List.filter_eq_nil_iff]
    intro s hs
    simp [FederateLayout.ownsSite, hinst, name_of_mem_sitesOf hs, hne]
  have hmember : (l.ownsSite ∘ fun m => (⟨i.name, c, some m⟩ : Site)) = fun m => m == k := by
    funext m
    simp [FederateLayout.ownsSite, hinst, hk]
  rw [childSites, List.filter_flatMap, flatMap_eq_flatMap_filter (·.name == i.name) hother, hi,
    List.flatMap_singleton, sitesOf, hid]
  simp only [Instantiation.sites, hw, hn, Option.getD_some]
  rw [List.filter_map, hmember, List.filter_beq, List.count_range, if_pos hlt]
  rfl

/-- What a federate of a member runs: the member, with what its class unfolds to. -/
theorem keep_ownsSite_of_member (h : p.UnfoldsTo top f) (hr : p.reactor? top = some r)
    (hi : r.instantiations.filter (·.name == i.name) = [i]) (hw : i.width = some w)
    (hn : r.widthValue? w = some n) (hl : l.RunsMember i n) :
    ∃ c k g, p.reactorId? i.reactorClass = some c ∧ p.UnfoldsTo c g ∧
      f.keep l.ownsSite = .cons ⟨i.name, c, some k⟩ g .nil := by
  obtain ⟨hinst, k, hlt, hk⟩ := hl
  have hmem : i ∈ r.instantiations := by
    have : i ∈ r.instantiations.filter (·.name == i.name) := by rw [hi]; exact List.mem_cons_self
    exact (List.mem_filter.mp this).1
  obtain ⟨⟨c, hid⟩, -⟩ := h.resolved hr i hmem
  have htops : (f.keep l.ownsSite).tops = [⟨i.name, c, some k⟩] := by
    rw [Forest.tops_keep, h.tops hr, filter_ownsSite_of_member hi hid hw hn hinst hk hlt]
  cases hkeep : f.keep l.ownsSite with
  | nil => simp [hkeep, Forest.tops] at htops
  | cons first g after =>
    rw [hkeep, Forest.tops, List.cons.injEq] at htops
    obtain ⟨rfl, hafter⟩ := htops
    cases after with
    | cons _ _ _ => simp [Forest.tops] at hafter
    | nil =>
      have hg : (⟨i.name, c, some k⟩, g) ∈ f.subtrees := by
        apply f.subtrees_keep_subset l.ownsSite
        rw [hkeep]
        exact List.mem_cons_self
      exact ⟨c, k, g, hid, h.subtrees hg, rfl⟩

/-- The federates of two members run instances of the same classes, in the same order. -/
theorem reactorsOf_keep_of_members {a b : FederateLayout} (h : p.UnfoldsTo top f)
    (hr : p.reactor? top = some r) (hi : r.instantiations.filter (·.name == i.name) = [i])
    (hw : i.width = some w) (hn : r.widthValue? w = some n) (ha : a.RunsMember i n)
    (hb : b.RunsMember i n) :
    reactorsOf (f.keep a.ownsSite) = reactorsOf (f.keep b.ownsSite) := by
  obtain ⟨c, j, g, hc, hg, hkeep⟩ := keep_ownsSite_of_member h hr hi hw hn ha
  obtain ⟨c', k, g', hc', hg', hkeep'⟩ := keep_ownsSite_of_member h hr hi hw hn hb
  obtain rfl := Option.some.inj (hc.symm.trans hc')
  obtain rfl := hg.unique hg'
  rw [hkeep, hkeep']
  rfl

end Program

/-! ## Outcomes of members -/

section Members

variable {p : Program} {t : InstanceTree} {top : Nat} {r : Reactor} {i : Instantiation} {w : Width}
  {n : Nat} {a b : FederateLayout}

theorem candidates_of_members (h : p.elaborateFrom top = .ok t) (hr : p.reactor? top = some r)
    (hi : r.instantiations.filter (·.name == i.name) = [i]) (hw : i.width = some w)
    (hn : r.widthValue? w = some n) (ha : a.RunsMember i n) (hb : b.RunsMember i n)
    (hab : a.SameReactions b) (emitter : ClassEmitter) (options : Options) :
    (Expansion.mk p t a.toFederate emitter options).candidates =
      (Expansion.mk p t b.toFederate emitter options).candidates := by
  have hunfold := Program.unfoldsTo_children_of_elaborateFrom h
  rw [Expansion.candidates_eq h rfl, Expansion.candidates_eq h rfl,
    Program.reactorsOf_keep_of_members hunfold hr hi hw hn ha hb]
  refine List.map_congr_left fun id _ => ?_
  simp only [Expansion.classEntry, Expansion.classText, Expansion.keptReactions, hab.keeps_eq]

/-- Two federates that run a member each of one bank, and the same reactions, have the same classes
or the same diagnostic, but for their names; this holds wherever they stand among federates. -/
theorem generate_bank_member (h : p.elaborateFrom top = .ok t) (hr : p.reactor? top = some r)
    (hi : r.instantiations.filter (·.name == i.name) = [i]) (hw : i.width = some w)
    (hn : r.widthValue? w = some n) (ha : a.RunsMember i n) (hb : b.RunsMember i n)
    (hab : a.SameReactions b) (emitter : ClassEmitter) (options : Options) :
    (∃ source names, ∀ l ∈ [a, b], ∀ before after : List Federate,
      generate p t (before ++ l.toFederate :: after) emitter options =
        generate p t before emitter options ++
          ⟨[⟨l.name, source, names, fingerprint source⟩], [], false⟩ ++
          generate p t after emitter options) ∨
    ∃ d : Diagnostic, ∀ l ∈ [a, b], ∀ before after : List Federate,
      generate p t (before ++ l.toFederate :: after) emitter options =
        generate p t before emitter options ++ ⟨[], [d.withSubject l.name], true⟩ ++
          generate p t after emitter options := by
  have hsame : ∀ l ∈ [a, b], Expansion.expandClasses ⟨p, t, l.toFederate, emitter, options⟩ =
      Expansion.expandClasses ⟨p, t, a.toFederate, emitter, options⟩ := by
    intro l hl
    have hcandidates := candidates_of_members h hr hi hw hn ha hb hab emitter options
    rcases List.mem_cons.mp hl with rfl | hl
    · rfl
    · rw [List.mem_singleton.mp hl]
      exact (Expansion.expandClasses_congr hcandidates).symm
  cases hout : Expansion.expandClasses ⟨p, t, a.toFederate, emitter, options⟩ with
  | ok out =>
    refine Or.inl ⟨out.source, out.classNames, ?_⟩
    intro l hl before after
    rw [generate_middle, generate_singleton_of_ok ((hsame l hl).trans hout)]
    rfl
  | error e =>
    refine Or.inr ⟨e.toDiagnostic, ?_⟩
    intro l hl before after
    rw [generate_middle, generate_singleton_of_error ((hsame l hl).trans hout)]
    rfl

end Members

/-- A bank of two wrappers behind an instance of their inner class, in a federated reactor. -/
def wrapperBank : Program where
  reactors :=
    [{ name := "Leaf" },
     { name := "Wrapper", instantiations := [{ name := "leaf", reactorClass := "Leaf" }] },
     { name := "Main"
       isFederated := true
       reactions := [{ code := "send()" }, { code := "observe()" }]
       instantiations :=
         [{ name := "first", reactorClass := "Leaf" },
          { name := "wrapper", reactorClass := "Wrapper", width := some (.literal 2) }] }]

/-- The federate of one member of the bank, which does not run the first reaction. -/
def wrapperMember (k : Nat) : FederateLayout where
  name := "wrapper_" ++ toString k
  instantiation := some "wrapper"
  bankIndex := some k
  excluded := [⟨2, 0⟩]

theorem generate_bank_member_wrapperBank :
    ∃ t, wrapperBank.elaborateFrom 2 = .ok t ∧ ∃ source names,
      ∀ l ∈ [wrapperMember 0, wrapperMember 1],
        generate wrapperBank t [l.toFederate] PythonClass.emitter {} =
          ⟨[⟨l.name, source, names, fingerprint source⟩], [], false⟩ := by
  have htree : wrapperBank.elaborateFrom 2 = .ok (.ofSites ⟨Text.lowercase "Main", 2, none⟩
      (.cons ⟨"first", 0, none⟩ .nil
        (.cons ⟨"wrapper", 1, some 0⟩ (.cons ⟨"leaf", 0, none⟩ .nil .nil)
          (.cons ⟨"wrapper", 1, some 1⟩ (.cons ⟨"leaf", 0, none⟩ .nil .nil) .nil)))) := by rfl
  have hmember : ∀ k < 2, (wrapperMember k).RunsMember
      { name := "wrapper", reactorClass := "Wrapper", width := some (.literal 2) } 2 :=
    fun k hk => ⟨rfl, k, hk, rfl⟩
  have hsame : (wrapperMember 0).SameReactions (wrapperMember 1) := fun _ => ⟨Iff.rfl, Iff.rfl⟩
  refine ⟨_, htree, ?_⟩
  rcases generate_bank_member htree rfl rfl rfl (by decide) (hmember 0 (by decide))
    (hmember 1 (by decide)) hsame PythonClass.emitter {} with ⟨source, names, h⟩ | ⟨d, h⟩
  · refine ⟨source, names, ?_⟩
    intro l hl
    exact h l hl [] []
  · have hone : [] = [d.withSubject (wrapperMember 0).name] :=
      congrArg GenerationResult.diagnostics (h _ List.mem_cons_self [] [])
    simp at hone

end ReactorSynth

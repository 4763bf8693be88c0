import Mathlib.Data.List.Nodup
import ReactorSynth.Federate
import ReactorSynth.Proofs.Arena
import ReactorSynth.Proofs.JsonText
import ReactorSynth.Proofs.Lineage

/-!
# Full names

A full name is one flat text, in which a dot separates the instances of a lineage and a bracket a
name from a bank index. It can be read back when no instantiation has a dot or an opening bracket
in its name; the root may be named freely, as all full names start with its name.

* `append_bracketed_inj`: a name and an index in brackets behind it can both be read back, so a
  segment tells the name and the bank index of a site (`Site.segment_inj`).
* `join_dots_inj`: the dotted text tells the segments behind the first.
* `Program.lineage_inj`: the segments tell the instances, from the root down, since the children of
  one instance differ in their segments.

**`Program.fullName_identifies`**: every walk up the parents ends, no two instances share a full
name, and a federate that owns instances by their full names owns those it was given alone.
-/

namespace ReactorSynth

/-! ## Reading full names -/

/-- A text is cut in one way before the first occurrence of a character. -/
theorem append_inj_of_notMem {c : Char} {a a' b b' : List Char} (ha : c ∉ a) (ha' : c ∉ a')
    (hb : ∀ x ∈ b.head?, x = c) (hb' : ∀ x ∈ b'.head?, x = c) (h : a ++ b = a' ++ b') :
    a = a' ∧ b = b' := by
  have hcut : ∀ {s r : List Char}, c ∉ s → (∀ x ∈ r.head?, x = c) →
      (s ++ r).takeWhile (· != c) = s := by
    intro s r hs hr
    have hnone : r.takeWhile (· != c) = [] := by
      cases r with
      | nil => rfl
      | cons x r => rw [List.takeWhile_cons_of_neg (by simp [hr x rfl])]
    have hall : ∀ x ∈ s, (x != c) = true := fun x hx =>
      bne_iff_ne.mpr (ne_of_mem_of_not_mem hx hs)
    rw [List.takeWhile_append_of_pos hall, hnone, List.append_nil]
  have heq : a = a' := by rw [← hcut ha hb, h, hcut ha' hb']
  rw [heq] at h
  exact ⟨heq, List.append_cancel_left h⟩

/-- The dotted text of a list of texts. -/
theorem toList_join_dots (first : String) (rest : List String) :
    (".".intercalate (first :: rest)).toList =
      first.toList ++ rest.flatMap fun s => '.' :: s.toList := by
  induction rest generalizing first with
  | nil => simp
  | cons second rest ih =>
    rw [String.intercalate_cons_cons, String.toList_append, String.toList_append, ih,
      List.flatMap_cons, List.append_assoc]
    rfl

theorem flatMap_dots_inj {a b : List String} (ha : ∀ s ∈ a, '.' ∉ s.toList)
    (hb : ∀ s ∈ b, '.' ∉ s.toList)
    (h : (a.flatMap fun s => '.' :: s.toList) = b.flatMap fun s => '.' :: s.toList) : a = b := by
  have hhead : ∀ l : List String, ∀ x ∈ (l.flatMap fun s => '.' :: s.toList).head?, x = '.' := by
    intro l x hx
    cases l with
    | nil => simp at hx
    | cons s l => exact (Option.some.inj hx).symm
  induction a generalizing b with
  | nil =>
    cases b with
    | nil => rfl
    | cons s' b => exact absurd h (by simp)
  | cons s a ih =>
    cases b with
    | nil => exact absurd h (by simp)
    | cons s' b =>
      rw [List.forall_mem_cons] at ha hb
      rw [List.flatMap_cons, List.flatMap_cons, List.cons_append, List.cons_append] at h
      obtain ⟨hfirst, hrest⟩ :=
        append_inj_of_notMem ha.1 hb.1 (hhead a) (hhead b) (List.cons.inj h).2
      rw [String.toList_inj.mp hfirst, ih ha.2 hb.2 hrest]

/-- Behind a common first text, pieces without a dot can be read back from the dotted text. -/
theorem join_dots_inj {first : String} {a b : List String} (ha : ∀ s ∈ a, '.' ∉ s.toList)
    (hb : ∀ s ∈ b, '.' ∉ s.toList)
    (h : ".".intercalate (first :: a) = ".".intercalate (first :: b)) : a = b := by
  have hchars := congrArg String.toList h
  rw [toList_join_dots, toList_join_dots] at hchars
  exact flatMap_dots_inj ha hb (List.append_cancel_left hchars)

/-! ## Names with an index -/

/-- A name without the characters that end a segment or the name in it. -/
def PlainName (name : String) : Prop := '.' ∉ name.toList ∧ '[' ∉ name.toList

instance (name : String) : Decidable (PlainName name) :=
  inferInstanceAs (Decidable ('.' ∉ name.toList ∧ '[' ∉ name.toList))

/-- What stands behind a name: an index in brackets, or nothing. -/
def bracketed : Option String → List Char
  | none => []
  | some index => '[' :: (index.toList ++ [']'])

theorem bracketed_inj {a b : Option String} (h : bracketed a = bracketed b) : a = b := by
  cases a with
  | none =>
    cases b with
    | none => rfl
    | some j => exact absurd h (by simp [bracketed])
  | some i =>
    cases b with
    | none => exact absurd h (by simp [bracketed])
    | some j => rw [String.toList_inj.mp (List.append_cancel_right (List.cons.inj h).2)]

/-- A plain name and the index behind it can both be read back. -/
theorem append_bracketed_inj {name name' : String} {a b : Option String} (hname : PlainName name)
    (hname' : PlainName name')
    (h : name.toList ++ bracketed a = name'.toList ++ bracketed b) : name = name' ∧ a = b := by
  have hhead : ∀ index : Option String, ∀ c ∈ (bracketed index).head?, c = '[' := by
    intro index c hc
    cases index with
    | none => exact absurd hc (by simp [bracketed])
    | some _ => exact (Option.some.inj hc).symm
  obtain ⟨htexts, hindices⟩ := append_inj_of_notMem hname.2 hname'.2 (hhead a) (hhead b) h
  exact ⟨String.toList_inj.mp htexts, bracketed_inj hindices⟩

theorem dot_notMem_append_bracketed {name : String} {index : Option String}
    (hname : PlainName name) (hindex : ∀ text ∈ index, '.' ∉ text.toList) :
    '.' ∉ name.toList ++ bracketed index := by
  have hbracketed : '.' ∉ bracketed index := by
    cases index with
    | none => exact List.not_mem_nil
    | some text =>
      simp only [bracketed, List.mem_cons, List.mem_append, List.not_mem_nil, or_false, not_or]
      exact ⟨by decide, hindex text rfl, by decide⟩
  rw [List.mem_append, not_or]
  exact ⟨hname.1, hbracketed⟩

/-! ## Segments -/

namespace Site

/-- What follows the name in a segment. -/
def subscript (s : Site) : List Char :=
  match s.bankIndex with
  | none => []
  | some index => '[' :: ((toString index).toList ++ [']'])

theorem subscript_eq (s : Site) : s.subscript = bracketed (s.bankIndex.map toString) := by
  unfold subscript
  cases s.bankIndex <;> rfl

theorem toList_segment (s : Site) : s.segment.toList = s.name.toList ++ s.subscript := by
  unfold segment subscript
  cases s.bankIndex with
  | none => rw [List.append_nil]
  | some index => simp

/-- A segment tells the name and the bank index. -/
theorem segment_inj {s s' : Site} (hs : PlainName s.name) (hs' : PlainName s'.name)
    (h : s.segment = s'.segment) : s.name = s'.name ∧ s.bankIndex = s'.bankIndex := by
  have hchars := congrArg String.toList h
  rw [toList_segment, toList_segment, subscript_eq, subscript_eq] at hchars
  obtain ⟨hname, hindex⟩ := append_bracketed_inj hs hs' hchars
  have hdigits : Function.Injective (toString : Nat → String) := fun k k' heq => by
    rw [← Text.decimalValue_toString k, ← Text.decimalValue_toString k', heq]
  exact ⟨hname, Option.map_injective hdigits hindex⟩

theorem dot_notMem_segment {s : Site} (hs : PlainName s.name) : '.' ∉ s.segment.toList := by
  rw [toList_segment, subscript_eq]
  refine dot_notMem_append_bracketed hs fun text htext hmem => ?_
  obtain ⟨index, -, rfl⟩ := Option.mem_map.mp htext
  exact absurd (Json.isAsciiDigit_toString index '.' hmem) (by decide)

end Site

/-! ## Siblings -/

/-- The instantiations of a reactor are told apart by their names, and these can be read back from
full names. -/
structure Reactor.HasPlainNames (r : Reactor) : Prop where
  distinct : (r.instantiations.map (·.name)).Nodup
  plain : ∀ d ∈ r.instantiations, PlainName d.name

namespace Program

variable {p : Program} {top : Nat} {t : InstanceTree} {r : Reactor} {i j : Instance}

theorem nodup_segments_sitesOf {d : Instantiation} (hd : PlainName d.name) :
    ((p.sitesOf r d).map (·.segment)).Nodup := by
  unfold sitesOf Instantiation.sites
  split
  · exact List.nodup_nil
  · split
    · exact List.nodup_singleton _
    · rw [List.map_map]
      refine List.nodup_range.map fun k k' heq => ?_
      rw [Function.comp_apply, Function.comp_apply] at heq
      exact Option.some.inj (Site.segment_inj hd hd heq).2

/-- The sites below an instance differ in their segments. -/
theorem nodup_segments_childSites (hr : r.HasPlainNames) :
    ((p.childSites r).map (·.segment)).Nodup := by
  rw [childSites, List.map_flatMap, List.nodup_flatMap]
  refine ⟨fun d hd => nodup_segments_sitesOf (hr.plain d hd), ?_⟩
  have hnames : r.instantiations.Pairwise fun d d' => d.name ≠ d'.name :=
    List.pairwise_map.mp hr.distinct
  refine hnames.imp_of_mem fun {d d'} hd hd' hne => ?_
  intro segment hmem hmem'
  obtain ⟨s, hs, rfl⟩ := List.mem_map.mp hmem
  obtain ⟨s', hs', heq⟩ := List.mem_map.mp hmem'
  have hname := name_of_mem_sitesOf hs
  have hname' := name_of_mem_sitesOf hs'
  have hsame := (Site.segment_inj (hname' ▸ hr.plain d' hd') (hname ▸ hr.plain d hd) heq).1
  exact hne (hname.symm.trans (hsame.symm.trans hname'))

/-- An instance with a parent is one of the sites that the parent's reactor declares. -/
theorem exists_tops_of_parent (h : p.elaborateFrom top = .ok t) (hi : i ∈ t.instances) {q : Nat}
    (hq : i.parent = some q) : ∃ a g r, (a, g) ∈ t.forest.subtrees ∧ a.id = q ∧ i ∈ g.tops ∧
      p.reactor? a.reactor = some r ∧ g.tops.map Instance.toSite = p.childSites r := by
  have hnum := numbered_of_elaborateFrom h
  obtain ⟨a, g, hg, hid, htop⟩ := hnum.exists_mem_tops hi hq
  have hunfold := unfoldsTo_of_elaborateFrom h hg
  obtain ⟨r, hr⟩ := hunfold.1
  refine ⟨a, g, r, hg, hid, htop, hr, ?_⟩
  rw [← Forest.tops_map]
  exact hunfold.tops hr

theorem plainName_of_parent (hnames : ∀ r ∈ p.reactors, r.HasPlainNames)
    (h : p.elaborateFrom top = .ok t) (hi : i ∈ t.instances) {q : Nat} (hq : i.parent = some q) :
    PlainName i.name := by
  obtain ⟨a, g, r, -, -, htop, hr, hsites⟩ := exists_tops_of_parent h hi hq
  have hsite : i.toSite ∈ p.childSites r := hsites ▸ List.mem_map_of_mem htop
  obtain ⟨d, hd, hmem⟩ := List.mem_flatMap.mp hsite
  have hname : i.name = d.name := name_of_mem_sitesOf hmem
  rw [hname]
  exact (hnames r (List.mem_of_getElem? hr)).plain d hd

/-- Instances with the same parent differ in their segments. -/
theorem eq_of_segment_eq (hnames : ∀ r ∈ p.reactors, r.HasPlainNames)
    (h : p.elaborateFrom top = .ok t) (hi : i ∈ t.instances) (hj : j ∈ t.instances)
    (hparent : i.parent = j.parent) (hsegment : i.segment = j.segment) : i = j := by
  have hnum := numbered_of_elaborateFrom h
  cases hq : i.parent with
  | none => rw [hnum.eq_root hi hq, hnum.eq_root hj (hparent.symm.trans hq)]
  | some q =>
    obtain ⟨a, g, r, hg, hid, htop, hr, hsites⟩ := exists_tops_of_parent h hi hq
    obtain ⟨a', g', -, hg', hid', htop', -, -⟩ :=
      exists_tops_of_parent h hj (hparent.symm.trans hq)
    obtain ⟨-, rfl⟩ := hnum.subtree_unique hg hg' (hid.trans hid'.symm)
    have hnodup : (g.tops.map (·.segment)).Nodup := by
      have hchildren := nodup_segments_childSites (p := p) (hnames r (List.mem_of_getElem? hr))
      rwa [← hsites, List.map_map] at hchildren
    exact List.inj_on_of_nodup_map hnodup htop htop' hsegment

/-! ## Full names -/

/-- Lineages with the same segments are one: by induction from the root down. -/
theorem lineage_inj (hnames : ∀ r ∈ p.reactors, r.HasPlainNames)
    (h : p.elaborateFrom top = .ok t) {id id' : Option Nat} {chain chain' : List Instance}
    (hchain : t.Lineage id chain) (hchain' : t.Lineage id' chain')
    (hsegments : chain.map (·.segment) = chain'.map (·.segment)) : chain = chain' := by
  have hnum := numbered_of_elaborateFrom h
  induction hchain generalizing id' chain' with
  | nil =>
    cases hchain' with
    | nil => rfl
    | snoc _ _ => exact absurd hsegments (by simp)
  | @snoc _ i above hi habove ih =>
    cases hchain' with
    | nil => exact absurd hsegments (by simp)
    | @snoc _ j above' hj habove' =>
      rw [List.map_append, List.map_append] at hsegments
      obtain ⟨hbefore, hlast⟩ := List.append_inj' hsegments rfl
      obtain rfl := ih habove' hbefore
      have hparent : i.parent = j.parent :=
        (habove.eq_map_getLast? hnum).trans (habove'.eq_map_getLast? hnum).symm
      have hsegment : i.segment = j.segment := (List.cons.inj hlast).1
      rw [eq_of_segment_eq hnames h (hnum.get?_eq_some_iff.mp hi).1
        (hnum.get?_eq_some_iff.mp hj).1 hparent hsegment]

/-- Full names tell instances apart. -/
theorem eq_of_fullName_eq (hnames : ∀ r ∈ p.reactors, r.HasPlainNames)
    (h : p.elaborateFrom top = .ok t) (hi : i ∈ t.instances) (hj : j ∈ t.instances)
    (hname : t.fullName i.id = t.fullName j.id) : i = j := by
  have hnum := numbered_of_elaborateFrom h
  have hdotless : ∀ rest ⊆ t.children.preorder, ∀ s ∈ rest.map (·.segment), '.' ∉ s.toList := by
    intro rest hrest s hs
    obtain ⟨k, hk, rfl⟩ := List.mem_map.mp hs
    obtain ⟨q, hq⟩ := hnum.exists_parent_of_mem_children (hrest hk)
    have hmem : k ∈ t.instances := List.mem_cons_of_mem _ (hrest hk)
    exact Site.dot_notMem_segment (plainName_of_parent hnames h hmem hq)
  obtain ⟨rest, hpath, hrest⟩ := hnum.exists_path_eq_cons hi
  obtain ⟨rest', hpath', hrest'⟩ := hnum.exists_path_eq_cons hj
  rw [InstanceTree.fullName, InstanceTree.fullName, hpath, hpath', List.map_cons,
    List.map_cons] at hname
  have hsegments := join_dots_inj (hdotless rest hrest) (hdotless rest' hrest') hname
  have hsame : t.path i.id = t.path j.id := by
    apply lineage_inj hnames h (hnum.lineage_path hi) (hnum.lineage_path hj)
    rw [hpath, hpath', List.map_cons, List.map_cons, hsegments]
  have hid : some i.id = some j.id := by
    rw [(hnum.lineage_path hi).eq_map_getLast? hnum, (hnum.lineage_path hj).eq_map_getLast? hnum,
      hsame]
  have hget : t.get? i.id = some j := Option.some.inj hid ▸ hnum.get?_id hj
  exact Option.some.inj ((hnum.get?_id hi).symm.trans hget)

/-- With plain names of instantiations, every instance of an elaborated tree has a full name, that
of its lineage; it shares it with no other instance; and a federate that owns instances by full name
owns exactly the instances whose full names it was given. -/
theorem fullName_identifies (hnames : ∀ r ∈ p.reactors, r.HasPlainNames)
    (h : p.elaborateFrom top = .ok t) :
    (∀ i ∈ t.instances, ∃ chain, t.Lineage (some i.id) chain ∧
      t.fullName i.id = ".".intercalate (chain.map (·.segment))) ∧
    (∀ i ∈ t.instances, ∀ j ∈ t.instances, t.fullName i.id = t.fullName j.id → i = j) ∧
    ∀ (f : Federate) (given : List Instance), given ⊆ t.instances → ∀ i ∈ t.instances,
      ((f.owningNames (given.map fun j => t.fullName j.id)).owns t i.id = true ↔ i ∈ given) := by
  refine ⟨fun i hi => ⟨_, (numbered_of_elaborateFrom h).lineage_path hi, rfl⟩,
    fun i hi j hj => eq_of_fullName_eq hnames h hi hj, fun f given hgiven i hi => ?_⟩
  rw [Federate.owningNames, List.contains_iff_mem, List.mem_map]
  constructor
  · rintro ⟨j, hj, hname⟩
    rwa [← eq_of_fullName_eq hnames h (hgiven hj) hi hname]
  · exact fun hmem => ⟨i, hmem, rfl⟩

/-- A bank with an instance below each member, beside an instance with a bracket in its name, under
a root whose name reads like a path. -/
def freelyNamedLine : Program where
  reactors :=
    [{ name := "Valve" },
     { name := "Cell", instantiations := [{ name := "", reactorClass := "Valve" }] },
     { name := "Plant.Line[1]"
       instantiations :=
         [{ name := "cell", reactorClass := "Cell", width := some (.literal 2) },
          { name := "cell1]", reactorClass := "Cell" }] }]

theorem fullName_identifies_freelyNamedLine :
    (∀ r ∈ freelyNamedLine.reactors, r.HasPlainNames) ∧
      ∃ t, freelyNamedLine.elaborateFrom 2 = .ok t ∧
        t.instances.map (fun i => t.fullName i.id) =
          ["plant.line[1]", "plant.line[1].cell[0]", "plant.line[1].cell[0].",
            "plant.line[1].cell[1]", "plant.line[1].cell[1].", "plant.line[1].cell1]",
            "plant.line[1].cell1]."] ∧
        ∀ i ∈ t.instances, ∀ j ∈ t.instances, t.fullName i.id = t.fullName j.id → i = j := by
  have hnames : ∀ r ∈ freelyNamedLine.reactors, r.HasPlainNames := by
    simp only [freelyNamedLine, List.forall_mem_cons]
    exact ⟨⟨by decide, by decide⟩, ⟨by decide, by decide⟩, ⟨by decide, by decide⟩,
      fun r hr => absurd hr List.not_mem_nil⟩
  have h : freelyNamedLine.elaborateFrom 2 = .ok (.ofSites ⟨Text.lowercase "Plant.Line[1]", 2, none⟩
      (.cons ⟨"cell", 1, some 0⟩ (.cons ⟨"", 0, none⟩ .nil .nil)
        (.cons ⟨"cell", 1, some 1⟩ (.cons ⟨"", 0, none⟩ .nil .nil)
          (.cons ⟨"cell1]", 1, none⟩ (.cons ⟨"", 0, none⟩ .nil .nil) .nil)))) := by rfl
  exact ⟨hnames, _, h, by decide, (fullName_identifies hnames h).2.1⟩

end Program

end ReactorSynth

/-
Well-formed forests, and what the operations on single nodes do.

Every edge of a forest is written down twice, at the child and at the parent.
`Forest.WellFormed` says that the two records agree, that no child is listed
twice, and that no node is above itself; `wellFormed_of_forall` is a test for it
that looks at each node once, for forests whose nodes are numbered from the root
down.

An operation is pinned down by what it makes of the parent, the children and the
content of every node, which is all there is to a forest (`ext_of`).  A number that
names no node has none of the three, so no bounds are needed to state most of it.
-/
import Mathlib.Logic.Relation
import Mathlib.Tactic.Common
import StyleInliner.Dom.Document
import StyleInliner.Proofs.Text

namespace StyleInliner.Dom

/-- Whether it is text, a comment or a processing instruction. -/
def Content.isCharacterData : Content → Bool
  | .text _ => true
  | .comment _ => true
  | .instruction _ _ => true
  | .document => false
  | .element _ => false

namespace Forest

variable {f g : Forest} {n m : NodeId}

/-! ### Numbers that name no node -/

theorem parent?_eq_none (h : f.size ≤ n) : f.parent? n = none := by
  rw [parent?, Array.getElem?_eq_none h]
  rfl

theorem children_eq_nil (h : f.size ≤ n) : f.children n = [] := by
  rw [children, Array.getElem?_eq_none h]

theorem content?_eq_none (h : f.size ≤ n) : f.content? n = none := by
  rw [content?, Array.getElem?_eq_none h]
  rfl

theorem lt_size_of_parent? {p : NodeId} (h : f.parent? n = some p) : n < f.size := by
  by_contra hle
  rw [parent?_eq_none (Nat.le_of_not_lt hle)] at h
  cases h

theorem lt_size_of_mem_children (h : m ∈ f.children n) : n < f.size := by
  by_contra hle
  rw [children_eq_nil (Nat.le_of_not_lt hle)] at h
  cases h

theorem lt_size_of_content? {c : Content} (h : f.content? n = some c) : n < f.size := by
  by_contra hle
  rw [content?_eq_none (Nat.le_of_not_lt hle)] at h
  cases h

theorem element?_eq_some_iff {e : Element} :
    f.element? n = some e ↔ f.content? n = some (.element e) := by
  rw [element?]
  cases f.content? n with
  | none => simp
  | some c => cases c <;> simp [Content.element?]

theorem lt_size_of_element? {e : Element} (h : f.element? n = some e) : n < f.size :=
  lt_size_of_content? (element?_eq_some_iff.1 h)

theorem hasTag_iff {tag : String} :
    f.hasTag n tag = true ↔ f.tag? n = some (Text.lower tag) := by
  cases he : f.element? n with
  | none => simp [hasTag, tag?, he]
  | some e => simp [hasTag, tag?, he, Element.hasTag, Text.sameIgnoringCase, Element.tag,
      Text.lower_lower]

/-- Parent, children and content of every node are all there is to a forest. -/
theorem ext_of (hsize : f.size = g.size) (hparent : ∀ n, f.parent? n = g.parent? n)
    (hchildren : ∀ n, f.children n = g.children n)
    (hcontent : ∀ n, f.content? n = g.content? n) : f = g := by
  obtain ⟨xs⟩ := f
  obtain ⟨ys⟩ := g
  congr 1
  refine Array.ext hsize fun i hi hj => ?_
  have hp := hparent i
  have hch := hchildren i
  have hc := hcontent i
  simp only [parent?, children, content?, Array.getElem?_eq_getElem hi,
    Array.getElem?_eq_getElem hj, Option.bind_some, Option.map_some, Option.some.injEq]
    at hp hch hc
  cases hx : xs[i]
  cases hy : ys[i]
  simp_all

/-! ### Changing single nodes -/

/-- What a change of one node makes of a part of each node. -/
theorem map_getElem?_modify {α : Type} (part : Node → α) (nodes : Array Node) (n : NodeId)
    (change : Node → Node) (m : NodeId) :
    (nodes.modify n change)[m]?.map part =
      nodes[m]?.map fun node => if n = m then part (change node) else part node := by
  rw [Array.getElem?_modify]
  by_cases h : n = m
  · simp [h, Function.comp_def]
  · simp [h]

theorem parent?_eq (f : Forest) (n : NodeId) :
    f.parent? n = (f.nodes[n]?.map Node.parent).getD none := by
  rw [parent?]
  cases f.nodes[n]? <;> rfl

theorem children_eq (f : Forest) (n : NodeId) :
    f.children n = (f.nodes[n]?.map Node.children).getD [] := by
  rw [children]
  cases f.nodes[n]? <;> rfl

@[simp] theorem size_setParent (f : Forest) (n : NodeId) (p : Option NodeId) :
    (f.setParent n p).size = f.size := by
  simp [setParent, size]

@[simp] theorem size_modifyChildren (f : Forest) (n : NodeId)
    (change : List NodeId → List NodeId) : (f.modifyChildren n change).size = f.size := by
  simp [modifyChildren, size]

@[simp] theorem size_setContent (f : Forest) (n : NodeId) (c : Content) :
    (f.setContent n c).size = f.size := by
  simp [setContent, size]

theorem parent?_setParent (f : Forest) (n : NodeId) (p : Option NodeId) (m : NodeId) :
    (f.setParent n p).parent? m = if n = m ∧ m < f.size then p else f.parent? m := by
  rw [parent?_eq, setParent, map_getElem?_modify, parent?_eq]
  by_cases hlt : m < f.size
  · rw [Array.getElem?_eq_getElem hlt]
    by_cases h : n = m <;> simp [h, hlt]
  · simp [Array.getElem?_eq_none (Nat.le_of_not_lt hlt), hlt]

@[simp] theorem children_setParent (f : Forest) (n : NodeId) (p : Option NodeId) (m : NodeId) :
    (f.setParent n p).children m = f.children m := by
  rw [children_eq, setParent, map_getElem?_modify, children_eq]
  simp only [ite_self]

@[simp] theorem content?_setParent (f : Forest) (n : NodeId) (p : Option NodeId) (m : NodeId) :
    (f.setParent n p).content? m = f.content? m := by
  rw [content?, setParent, map_getElem?_modify, content?]
  simp only [ite_self]

@[simp] theorem parent?_modifyChildren (f : Forest) (n : NodeId)
    (change : List NodeId → List NodeId) (m : NodeId) :
    (f.modifyChildren n change).parent? m = f.parent? m := by
  rw [parent?_eq, modifyChildren, map_getElem?_modify, parent?_eq]
  simp only [ite_self]

theorem children_modifyChildren (f : Forest) (n : NodeId) (change : List NodeId → List NodeId)
    (m : NodeId) :
    (f.modifyChildren n change).children m =
      if n = m ∧ m < f.size then change (f.children m) else f.children m := by
  rw [children_eq, modifyChildren, map_getElem?_modify, children_eq]
  by_cases hlt : m < f.size
  · rw [Array.getElem?_eq_getElem hlt]
    by_cases h : n = m <;> simp [h, hlt]
  · simp [Array.getElem?_eq_none (Nat.le_of_not_lt hlt), hlt]

@[simp] theorem content?_modifyChildren (f : Forest) (n : NodeId)
    (change : List NodeId → List NodeId) (m : NodeId) :
    (f.modifyChildren n change).content? m = f.content? m := by
  rw [content?, modifyChildren, map_getElem?_modify, content?]
  simp only [ite_self]

@[simp] theorem parent?_setContent (f : Forest) (n : NodeId) (c : Content) (m : NodeId) :
    (f.setContent n c).parent? m = f.parent? m := by
  rw [parent?_eq, setContent, map_getElem?_modify, parent?_eq]
  simp only [ite_self]

@[simp] theorem children_setContent (f : Forest) (n : NodeId) (c : Content) (m : NodeId) :
    (f.setContent n c).children m = f.children m := by
  rw [children_eq, setContent, map_getElem?_modify, children_eq]
  simp only [ite_self]

theorem content?_setContent (f : Forest) (n : NodeId) (c : Content) (m : NodeId) :
    (f.setContent n c).content? m = if n = m ∧ m < f.size then some c else f.content? m := by
  rw [content?, setContent, map_getElem?_modify, content?]
  by_cases hlt : m < f.size
  · rw [Array.getElem?_eq_getElem hlt]
    by_cases h : n = m <;> simp [h, hlt]
  · simp [Array.getElem?_eq_none (Nat.le_of_not_lt hlt), hlt]

theorem element?_setContent (f : Forest) (n : NodeId) (c : Content) (m : NodeId) :
    (f.setContent n c).element? m =
      if n = m ∧ m < f.size then c.element? else f.element? m := by
  rw [element?, content?_setContent]
  split <;> rfl

theorem setContent_self {e : Element} (h : f.element? n = some e) :
    f.setContent n (.element e) = f := by
  refine ext_of (by simp) (by simp) (by simp) fun m => ?_
  rw [content?_setContent]
  split
  · rename_i hm
    rw [← hm.1, element?_eq_some_iff.1 h]
  · rfl

theorem setContent_setContent (f : Forest) (n : NodeId) (c c' : Content) :
    (f.setContent n c).setContent n c' = f.setContent n c' := by
  refine ext_of (by simp) (by simp) (by simp) fun m => ?_
  rw [content?_setContent, content?_setContent, content?_setContent, size_setContent]
  split <;> rfl

theorem modifyElement_eq {e : Element} (h : f.element? n = some e) (change : Element → Element) :
    f.modifyElement n change = f.setContent n (.element (change e)) := by
  rw [modifyElement, h]

theorem modifyElement_setContent (hn : n < f.size) (e : Element) (change : Element → Element) :
    (f.setContent n (.element e)).modifyElement n change =
      f.setContent n (.element (change e)) := by
  have he : (f.setContent n (.element e)).element? n = some e := by
    rw [element?_setContent, if_pos ⟨rfl, hn⟩]
    rfl
  rw [modifyElement_eq he, setContent_setContent]

/-- What is told by its nodes to be a forest with one element changed is that forest. -/
theorem modifyElement_eq_of {e : Element} (he : f.element? n = some e)
    {change : Element → Element} (hsize : g.size = f.size)
    (hparent : ∀ m, g.parent? m = f.parent? m) (hchildren : ∀ m, g.children m = f.children m)
    (hcontent : ∀ m, g.content? m = if n = m then some (.element (change e)) else f.content? m) :
    f.modifyElement n change = g := by
  have hn := lt_size_of_element? he
  rw [modifyElement_eq he]
  refine ext_of (by simp [hsize]) (by simp [hparent]) (by simp [hchildren]) fun m => ?_
  rw [content?_setContent, hcontent]
  by_cases hm : n = m
  · subst hm
    simp [hn]
  · simp [hm]

@[simp] theorem size_add (f : Forest) (c : Content) : (f.add c).size = f.size + 1 := by
  simp [add, size]

/-! ### Adding a node -/

theorem getElem?_add (f : Forest) (c : Content) (m : NodeId) :
    (f.add c).nodes[m]? = if m = f.size then some ⟨none, [], c⟩ else f.nodes[m]? := by
  rw [add, Array.getElem?_push]
  rfl

@[simp] theorem parent?_add (f : Forest) (c : Content) (m : NodeId) :
    (f.add c).parent? m = f.parent? m := by
  rw [parent?, getElem?_add]
  split
  · subst_vars
    exact (parent?_eq_none (Nat.le_refl _)).symm
  · rfl

@[simp] theorem children_add (f : Forest) (c : Content) (m : NodeId) :
    (f.add c).children m = f.children m := by
  rw [children, getElem?_add]
  by_cases h : m = f.size
  · subst h
    simp [children_eq_nil]
  · simp [h, children]

theorem content?_add (f : Forest) (c : Content) (m : NodeId) :
    (f.add c).content? m = if m = f.size then some c else f.content? m := by
  rw [content?, getElem?_add]
  split <;> rfl

/-! ### Ancestors -/

/-- The second node is the parent of the first. -/
def ChildOf (f : Forest) (n p : NodeId) : Prop :=
  f.parent? n = some p

/-- The first node is the second one or somewhere below it. -/
def Below (f : Forest) : NodeId → NodeId → Prop :=
  Relation.ReflTransGen f.ChildOf

/-- Both records of each edge agree, and following them up never leads back. -/
structure WellFormed (f : Forest) : Prop where
  mem_children_iff : ∀ {p c}, c ∈ f.children p ↔ f.parent? c = some p
  nodup_children : ∀ p, (f.children p).Nodup
  acyclic : ∀ n, ¬ Relation.TransGen f.ChildOf n n

/-- A test for forests that are numbered from the root down. -/
theorem wellFormed_of_forall
    (h : ∀ n < f.size, (∀ c ∈ f.children n, f.parent? c = some n) ∧ (f.children n).Nodup ∧
      ∀ p ∈ f.parent? n, p < n ∧ n ∈ f.children p) : f.WellFormed := by
  have hup : ∀ {n m}, Relation.TransGen f.ChildOf n m → m < n := by
    intro n m hnm
    induction hnm with
    | single hp => exact ((h _ (lt_size_of_parent? hp)).2.2 _ hp).1
    | tail _ hp ih => exact Nat.lt_trans ((h _ (lt_size_of_parent? hp)).2.2 _ hp).1 ih
  constructor
  · intro p c
    constructor
    · exact fun hc => (h p (lt_size_of_mem_children hc)).1 c hc
    · exact fun hp => ((h c (lt_size_of_parent? hp)).2.2 p hp).2
  · intro p
    by_cases hp : p < f.size
    · exact (h p hp).2.1
    · rw [children_eq_nil (Nat.le_of_not_lt hp)]
      exact List.nodup_nil
  · exact fun n hn => Nat.lt_irrefl n (hup hn)

theorem childOf_congr (hparent : ∀ n, g.parent? n = f.parent? n) : g.ChildOf = f.ChildOf := by
  funext n p
  rw [ChildOf, ChildOf, hparent]

theorem below_congr (hparent : ∀ n, g.parent? n = f.parent? n) : g.Below n m ↔ f.Below n m := by
  rw [Below, Below, childOf_congr hparent]

/-- Forests that differ in their contents only are well-formed together. -/
theorem WellFormed.of_eq (hf : f.WellFormed) (hparent : ∀ n, g.parent? n = f.parent? n)
    (hchildren : ∀ n, g.children n = f.children n) : g.WellFormed := by
  constructor
  · intro p c
    rw [hparent, hchildren]
    exact hf.mem_children_iff
  · intro p
    rw [hchildren]
    exact hf.nodup_children p
  · rw [childOf_congr hparent]
    exact hf.acyclic

theorem WellFormed.ne_parent (hf : f.WellFormed) {p : NodeId} (h : f.parent? n = some p) :
    p ≠ n := by
  rintro rfl
  exact hf.acyclic p (Relation.TransGen.single h)

/-! ### The ends of the trees -/

/-- Nothing is below texts, comments and processing instructions. -/
def DataAtEnds (f : Forest) : Prop :=
  ∀ n c, f.content? n = some c → c.isCharacterData = true → f.children n = []

/-- A test for it. -/
theorem dataAtEnds_of_forall {f : Forest}
    (h : ∀ n < f.size, (f.content? n).any Content.isCharacterData = true → f.children n = []) :
    f.DataAtEnds := by
  intro n c hc hdata
  exact h n (lt_size_of_content? hc) (by rw [hc]; exact hdata)

/-! ### Taking a node out -/

theorem size_detach (f : Forest) (n : NodeId) : (f.detach n).size = f.size := by
  unfold detach
  split <;> simp

theorem content?_detach (f : Forest) (n m : NodeId) :
    (f.detach n).content? m = f.content? m := by
  unfold detach
  split <;> simp

theorem parent?_detach (f : Forest) (n m : NodeId) :
    (f.detach n).parent? m = if n = m then none else f.parent? m := by
  unfold detach
  split
  · rename_i hnone
    split
    · subst_vars
      exact hnone
    · rfl
  · rename_i p hp
    rw [parent?_modifyChildren, parent?_setParent]
    by_cases h : n = m
    · subst h
      simp [lt_size_of_parent? hp]
    · simp [h]

theorem children_detach (hf : f.WellFormed) (n m : NodeId) :
    (f.detach n).children m = (f.children m).filter (· != n) := by
  have hout : ∀ {m}, f.parent? n ≠ some m → (f.children m).filter (· != n) = f.children m := by
    intro m hm
    rw [List.filter_eq_self]
    intro c hc
    rw [bne_iff_ne]
    rintro rfl
    exact hm (hf.mem_children_iff.1 hc)
  unfold detach
  split
  · rename_i hnone
    rw [hout (by simp [hnone])]
  · rename_i p hp
    rw [children_modifyChildren, children_setParent, size_setParent]
    by_cases hpm : p = m
    · subst hpm
      simp [lt_size_of_mem_children (hf.mem_children_iff.2 hp)]
    · simp [hpm, hout (m := m) (by simp [hp, hpm])]

/-- **Taking a node out keeps a forest well-formed.** -/
theorem WellFormed.detach (hf : f.WellFormed) (n : NodeId) : (f.detach n).WellFormed := by
  have hchild : ∀ m p, (f.detach n).ChildOf m p → f.ChildOf m p := by
    intro m p h
    rw [ChildOf, parent?_detach] at h
    split at h
    · cases h
    · exact h
  constructor
  · intro p c
    rw [children_detach hf, List.mem_filter, hf.mem_children_iff, parent?_detach]
    by_cases h : n = c
    · simp [h]
    · simp [h, Ne.symm h]
  · intro p
    rw [children_detach hf]
    exact (hf.nodup_children p).filter _
  · exact fun m hm => hf.acyclic m (Relation.TransGen.mono hchild m m hm)

/-! ### Moving nodes -/

theorem detach_eq_self (h : f.parent? n = none) : f.detach n = f := by
  rw [detach, h]

theorem parent?_appendChild {c : NodeId} (hc : f.parent? c = none) (p m : NodeId) :
    (f.appendChild p c).parent? m = if c = m ∧ m < f.size then some p else f.parent? m := by
  rw [appendChild, detach_eq_self hc, parent?_modifyChildren, parent?_setParent]

theorem children_appendChild {c : NodeId} (hc : f.parent? c = none) (p m : NodeId) :
    (f.appendChild p c).children m =
      if p = m ∧ m < f.size then f.children m ++ [c] else f.children m := by
  rw [appendChild, detach_eq_self hc, children_modifyChildren, children_setParent, size_setParent]

@[simp] theorem size_appendChild (f : Forest) (p c : NodeId) :
    (f.appendChild p c).size = f.size := by
  simp [appendChild, size_detach]

@[simp] theorem content?_appendChild (f : Forest) (p c m : NodeId) :
    (f.appendChild p c).content? m = f.content? m := by
  simp [appendChild, content?_detach]

theorem foldl_setParent (moved : List NodeId) (target : NodeId) (f : Forest) :
    let g := moved.foldl (fun f n => f.setParent n (some target)) f
    g.size = f.size ∧ (∀ m, g.children m = f.children m) ∧
      (∀ m, g.content? m = f.content? m) ∧
      ∀ m, g.parent? m = if m ∈ moved ∧ m < f.size then some target else f.parent? m := by
  induction moved generalizing f with
  | nil => simp
  | cons n moved ih =>
      obtain ⟨hsize, hchildren, hcontent, hparent⟩ := ih (f.setParent n (some target))
      refine ⟨by simpa using hsize, fun m => by simpa using hchildren m,
        fun m => by simpa using hcontent m, fun m => ?_⟩
      rw [List.foldl_cons, hparent, size_setParent, parent?_setParent]
      by_cases hlt : m < f.size
      · by_cases hm : m = n
        · subst hm
          simp [hlt]
        · simp [hlt, hm, Ne.symm hm]
      · simp [hlt]

section Move

variable (f) (source target : NodeId)

@[simp] theorem size_moveChildren : (f.moveChildren source target).size = f.size := by
  obtain ⟨hsize, -⟩ := foldl_setParent (f.children source) target
    (f.modifyChildren source fun _ => [])
  rw [moveChildren, size_modifyChildren, hsize, size_modifyChildren]

@[simp] theorem content?_moveChildren (m : NodeId) :
    (f.moveChildren source target).content? m = f.content? m := by
  obtain ⟨-, -, hcontent, -⟩ := foldl_setParent (f.children source) target
    (f.modifyChildren source fun _ => [])
  rw [moveChildren, content?_modifyChildren, hcontent, content?_modifyChildren]

theorem parent?_moveChildren (m : NodeId) :
    (f.moveChildren source target).parent? m =
      if m ∈ f.children source ∧ m < f.size then some target else f.parent? m := by
  obtain ⟨-, -, -, hparent⟩ := foldl_setParent (f.children source) target
    (f.modifyChildren source fun _ => [])
  rw [moveChildren, parent?_modifyChildren, hparent, size_modifyChildren, parent?_modifyChildren]

theorem children_moveChildren (hne : source ≠ target) (m : NodeId) :
    (f.moveChildren source target).children m =
      if m = source then []
      else if m = target ∧ m < f.size then f.children m ++ f.children source
      else f.children m := by
  obtain ⟨hsize, hchildren, -, -⟩ := foldl_setParent (f.children source) target
    (f.modifyChildren source fun _ => [])
  rw [moveChildren, children_modifyChildren, hchildren, hsize, size_modifyChildren,
    children_modifyChildren]
  by_cases hs : m = source
  · subst hs
    by_cases hlt : m < f.size
    · simp [hlt, hne.symm]
    · simp [hlt, children_eq_nil (Nat.le_of_not_lt hlt)]
  · simp [hs, Ne.symm hs, eq_comm]

end Move

section Replace

variable {old new p : NodeId} (hold : f.parent? old = some p) (hmem : old ∈ f.children p)
  (hnew : f.parent? new = none)
include hold hmem hnew

theorem replace_eq : (f.replace old new).1 =
    ((f.setParent new (some p)).modifyChildren p (putInPlace old new)).setParent old none := by
  rw [replace, hold]
  simp only [detach_eq_self hnew, hmem, if_true]

theorem parent?_replace (m : NodeId) :
    (f.replace old new).1.parent? m =
      if old = m then none
      else if new = m ∧ m < f.size then some p
      else f.parent? m := by
  have hlt := lt_size_of_parent? hold
  rw [replace_eq hold hmem hnew, parent?_setParent, parent?_modifyChildren, size_modifyChildren,
    size_setParent, parent?_setParent]
  by_cases h : old = m
  · subst h
    simp [hlt]
  · simp [h]

theorem children_replace (m : NodeId) :
    (f.replace old new).1.children m =
      if p = m then putInPlace old new (f.children m) else f.children m := by
  have hlt := lt_size_of_mem_children hmem
  rw [replace_eq hold hmem hnew, children_setParent, children_modifyChildren, size_setParent,
    children_setParent]
  by_cases h : p = m
  · subst h
    simp [hlt]
  · simp [h]

theorem content?_replace (m : NodeId) : (f.replace old new).1.content? m = f.content? m := by
  rw [replace_eq hold hmem hnew]
  simp

theorem size_replace : (f.replace old new).1.size = f.size := by
  rw [replace_eq hold hmem hnew]
  simp

end Replace

end Forest

/-- A well-formed forest with the document node on top of it. -/
structure Document.WellFormed (d : Document) : Prop where
  forest : d.forest.WellFormed
  parent?_root : d.forest.parent? d.root = none
  content?_root : d.forest.content? d.root = some .document

theorem Document.WellFormed.root_lt_size {d : Document} (hd : d.WellFormed) :
    d.root < d.forest.size :=
  Forest.lt_size_of_content? hd.content?_root

end StyleInliner.Dom

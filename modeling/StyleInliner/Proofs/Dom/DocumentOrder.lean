/-
Document order, by recursion on the tree and by a loop with a stack.

A well-formed forest has no way down that never ends, so its trees can be read
without fuel: a node comes before what is below its children (`inOrder`), and its
text before theirs (`gatheredText`).  The walk gives the same (`preorder_eq_inOrder`).

The loop that lists elements takes the last node from a stack and puts the children
there in reverse order.  What it has on the stack is always the list of nodes that
the walk has still to come, read from the end, so it ends with an empty stack and the
elements of the walk (`iterate_round`).

The index sorts the same elements by tag: each group of it is a choice from them, and
each of them stands in one group only.
-/
import Mathlib.Logic.Function.Iterate
import StyleInliner.Proofs.Dom.Element
import StyleInliner.Proofs.Dom.Preorder

namespace StyleInliner.Dom

namespace Forest

variable {f : Forest} {n : NodeId}

/-! ### Without fuel -/

/-- From no node can one go down to a child for ever. -/
theorem WellFormed.wellFounded_child (hf : f.WellFormed) :
    WellFounded fun c p => c ∈ f.children p := by
  refine ⟨fun n => ⟨n, fun c hc => ?_⟩⟩
  exact induction_children (P := Acc fun c p => c ∈ f.children p) hf (fun n _ ih => ⟨n, ih⟩)
    (hf.lt_size_of_child hc)

/-- A node, and behind it what is below its children, one child after the other. -/
def inOrder (f : Forest) (hf : f.WellFormed) (n : NodeId) : List NodeId :=
  n :: (f.children n).attach.flatMap fun c => f.inOrder hf c.1
termination_by hf.wellFounded_child.wrap n
decreasing_by exact c.2

/-- The text of a node, and behind it the text that is below its children. -/
def gatheredText (f : Forest) (hf : f.WellFormed) (n : NodeId) : String :=
  (f.text? n).getD "" ++ String.join ((f.children n).attach.map fun c => f.gatheredText hf c.1)
termination_by hf.wellFounded_child.wrap n
decreasing_by exact c.2

theorem inOrder_eq (hf : f.WellFormed) (n : NodeId) :
    f.inOrder hf n = n :: (f.children n).flatMap (f.inOrder hf) := by
  rw [inOrder, List.flatMap_subtype (g := f.inOrder hf) fun _ _ => rfl, List.unattach_attach]

theorem gatheredText_eq (hf : f.WellFormed) (n : NodeId) :
    f.gatheredText hf n =
      (f.text? n).getD "" ++ String.join ((f.children n).map (f.gatheredText hf)) := by
  rw [gatheredText, List.map_subtype (g := f.gatheredText hf) fun _ _ => rfl,
    List.unattach_attach]

/-- **The walk lists a tree as the recursion does.** -/
theorem preorder_eq_inOrder (hf : f.WellFormed) (hn : n < f.size) :
    f.preorder n = f.inOrder hf n := by
  refine induction_children (P := fun n => f.preorder n = f.inOrder hf n) hf ?_ hn
  intro n hn ih
  rw [preorder_eq hf hn, inOrder_eq, List.flatMap_congr ih]

theorem textContent_eq (hf : f.WellFormed) (hn : n < f.size) :
    f.textContent n =
      (f.text? n).getD "" ++ String.join ((f.children n).map f.textContent) := by
  have hbelow : String.join (((f.children n).flatMap f.preorder).filterMap f.text?) =
      String.join ((f.children n).map f.textContent) := by
    rw [List.filterMap_flatMap, Text.join_flatMap]
    rfl
  rw [textContent, preorder_eq hf hn, List.filterMap_cons]
  cases f.text? n with
  | none => exact hbelow.trans (String.empty_append).symm
  | some text => exact (String.join_cons).trans (congrArg (text ++ ·) hbelow)

theorem textContent_eq_gatheredText (hf : f.WellFormed) (hn : n < f.size) :
    f.textContent n = f.gatheredText hf n := by
  refine induction_children (P := fun n => f.textContent n = f.gatheredText hf n) hf ?_ hn
  intro n hn ih
  rw [textContent_eq hf hn, gatheredText_eq, List.map_congr_left ih]

/-! ### With a stack -/

/-- How far the listing of elements has come. -/
structure Listing where
  /-- The nodes still to come; the next one is on top, which is the end. -/
  stack : List NodeId
  /-- The elements met so far. -/
  found : List NodeId
  deriving DecidableEq, Repr

namespace Listing

/-- Only the root is still to come. -/
def start (root : NodeId) : Listing :=
  ⟨[root], []⟩

/-- Takes the node on top and puts its children there, the first one topmost. -/
def round (f : Forest) (l : Listing) : Listing :=
  match l.stack.getLast? with
  | none => l
  | some n =>
    ⟨l.stack.dropLast ++ (f.children n).reverse,
      if (f.element? n).isSome then l.found ++ [n] else l.found⟩

theorem round_cons (f : Forest) (n : NodeId) (rest found : List NodeId) :
    round f ⟨(n :: rest).reverse, found⟩ =
      ⟨(f.children n ++ rest).reverse, found ++ [n].filter fun m => (f.element? m).isSome⟩ := by
  have htop : (rest.reverse ++ [n]).getLast? = some n := by simp
  rw [List.reverse_cons, round, htop]
  cases h : (f.element? n).isSome <;> simp [h]

/-- **The loop goes along with the walk**: as many rounds as the walk has nodes, if its fuel
is not used up, leave nothing on the stack and have found the elements of the walk. -/
theorem iterate_round {fuel : Nat} {todo : List NodeId} (h : (f.walk fuel todo).length < fuel)
    (found : List NodeId) :
    (round f)^[(f.walk fuel todo).length] ⟨todo.reverse, found⟩ =
      ⟨[], found ++ (f.walk fuel todo).filter fun m => (f.element? m).isSome⟩ := by
  induction fuel generalizing todo found with
  | zero => omega
  | succ fuel ih =>
      cases todo with
      | nil => simp [walk]
      | cons n rest =>
          rw [walk, List.length_cons] at h
          rw [walk, List.length_cons, Function.iterate_succ_apply, round_cons,
            ih (Nat.lt_of_succ_lt_succ h), List.append_assoc, ← List.filter_append,
            List.singleton_append]

theorem exists_iterate_round (hf : f.WellFormed) (hn : n < f.size) :
    (round f)^[(f.preorder n).length] (start n) = ⟨[], f.elements n⟩ := by
  have hone := List.pairwise_singleton f.Apart n
  have hlt : ∀ m ∈ [n], m < f.size := by simpa using hn
  have hwalk : f.walk (f.size + 1) [n] = f.preorder n :=
    walk_of_size_le hf hone hlt (Nat.le_succ _)
  have hshort := Nat.lt_succ_of_le (length_walk_le hf hone hlt (f.size + 1))
  have hrun := iterate_round hshort []
  rwa [hwalk, List.nil_append] at hrun

end Listing

/-! ### What is found -/

theorem findElement?_eq (f : Forest) (root : NodeId) (tag : String) :
    f.findElement? root tag =
      (f.elements root).find? fun n => f.tag? n = some (Text.lower tag) := by
  rw [findElement?]
  congr 1
  funext n
  rw [Bool.eq_iff_iff, hasTag_iff, decide_eq_true_iff]

/-- The one node of a tag is what is found. -/
theorem findElement?_eq_some {root : NodeId} {tag : String} (hn : n ∈ f.preorder root)
    (htag : f.tag? n = some (Text.lower tag))
    (honly : ∀ m ∈ f.preorder root, f.tag? m = some (Text.lower tag) → m = n) :
    f.findElement? root tag = some n := by
  have hmem : n ∈ f.elements root := by
    obtain ⟨e, he, -⟩ := Option.map_eq_some_iff.1 htag
    exact List.mem_filter.2 ⟨hn, by rw [he]; rfl⟩
  obtain ⟨m, hm⟩ : ∃ m, f.findElement? root tag = some m := by
    rw [← Option.isSome_iff_exists, findElement?_eq, List.find?_isSome]
    exact ⟨n, hmem, by simpa using htag⟩
  rw [findElement?_eq] at hm
  have hwalk := (List.mem_filter.1 (List.mem_of_find?_eq_some hm)).1
  rw [findElement?_eq, hm, honly m hwalk (by simpa using List.find?_some hm)]

theorem findElement?_eq_none {root : NodeId} {tag : String}
    (h : ∀ m ∈ f.preorder root, f.tag? m ≠ some (Text.lower tag)) :
    f.findElement? root tag = none := by
  rw [findElement?_eq, List.find?_eq_none]
  intro m hm
  simpa using h m (List.mem_filter.1 hm).1

/-- What walking the tree below a node gives. -/
structure Traversed (f : Forest) (hf : f.WellFormed) (n : NodeId) : Prop where
  /-- The loop ends, and has then listed the elements. -/
  iterate_round : (Listing.round f)^[(f.inOrder hf n).length] (Listing.start n) =
    ⟨[], f.elements n⟩
  elements_eq : f.elements n = (f.inOrder hf n).filter fun m => (f.element? m).isSome
  nodup_elements : (f.elements n).Nodup
  textContent_eq : f.textContent n = String.join ((f.inOrder hf n).filterMap f.text?)
  /-- The text comes together in the recursion as well. -/
  gatheredText_eq : f.gatheredText hf n = f.textContent n
  findElement?_eq : ∀ tag, f.findElement? n tag =
    (f.elements n).find? fun m => f.tag? m = some (Text.lower tag)

theorem traversed (hf : f.WellFormed) (hn : n < f.size) : f.Traversed hf n where
  iterate_round := by
    rw [← preorder_eq_inOrder hf hn]
    exact Listing.exists_iterate_round hf hn
  elements_eq := by rw [elements, preorder_eq_inOrder hf hn]
  nodup_elements := (nodup_preorder hf n).filter _
  textContent_eq := by rw [textContent, preorder_eq_inOrder hf hn]
  gatheredText_eq := (textContent_eq_gatheredText hf hn).symm
  findElement?_eq := findElement?_eq f n

theorem exists_tag?_of_mem_elements {root : NodeId} (h : n ∈ f.elements root) :
    ∃ tag, f.tag? n = some tag := by
  obtain ⟨e, he⟩ := Option.isSome_iff_exists.1 (List.mem_filter.1 h).2
  exact ⟨e.tag, by rw [tag?, he, Option.map_some]⟩

end Forest

/-! ### What is indexed -/

namespace Index

/-- An index lists nodes: all of them in order, and in order those of each tag and those with
a class. -/
structure Lists (index : Index) (f : Forest) (nodes : List NodeId) : Prop where
  nodup : nodes.Nodup
  elements_eq : index.elements = nodes
  byTag_eq : ∀ tag, index.byTag tag = nodes.filter fun n => f.tag? n = some (Text.lower tag)
  group_eq : ∀ group ∈ index.tags.groups,
    group.2 = nodes.filter fun n => f.tag? n = some group.1
  existsUnique_group : ∀ n ∈ nodes, ∃! group, group ∈ index.tags.groups ∧ n ∈ group.2
  classed_eq : index.classed = nodes.filter fun n =>
    (f.element? n).any fun e => e.attributes.any fun a => Text.lower a.name = "class"

variable (d : Document)

theorem getD_get?_tags (tag : String) :
    ((ofDocument d).tags.get? tag).getD [] =
      d.elements.filter fun n => d.forest.tag? n = some tag := by
  rw [getD_get?_tags_ofDocument]
  refine List.filter_congr fun n hn => ?_
  obtain ⟨own, hown⟩ := Forest.exists_tag?_of_mem_elements hn
  simp [hown]

theorem group_eq_filter {group : String × List NodeId} (h : group ∈ (ofDocument d).tags.groups) :
    group.2 = d.elements.filter fun n => d.forest.tag? n = some group.1 := by
  rw [← getD_get?_tags, Grouping.get?_of_mem h, Option.getD_some]

/-- **Each element stands in the group of its tag, and in no other.** -/
theorem existsUnique_group {n : NodeId} (hn : n ∈ d.elements) :
    ∃! group, group ∈ (ofDocument d).tags.groups ∧ n ∈ group.2 := by
  obtain ⟨tag, htag⟩ := Forest.exists_tag?_of_mem_elements hn
  have hmem : n ∈ ((ofDocument d).tags.get? tag).getD [] := by
    rw [getD_get?_tags]
    exact List.mem_filter.2 ⟨hn, by simpa using htag⟩
  obtain ⟨values, hvalues⟩ : ∃ values, (ofDocument d).tags.get? tag = some values := by
    cases hget : (ofDocument d).tags.get? tag with
    | none => simp [hget] at hmem
    | some values => exact ⟨values, rfl⟩
  rw [hvalues, Option.getD_some] at hmem
  refine ⟨(tag, values), ⟨Grouping.mem_of_get? hvalues, hmem⟩, ?_⟩
  rintro ⟨other, others⟩ ⟨hgroup, hother⟩
  -- a node of the group has the tag of the group
  rw [group_eq_filter d hgroup] at hother
  have htags : d.forest.tag? n = some other := by simpa using (List.mem_filter.1 hother).2
  obtain rfl : tag = other := Option.some.inj (htag.symm.trans htags)
  have hget := (Grouping.get?_of_mem hgroup).symm.trans hvalues
  exact congrArg (Prod.mk tag) (Option.some.inj hget)

theorem lists_ofDocument (hd : d.forest.WellFormed) :
    (ofDocument d).Lists d.forest d.elements where
  nodup := (Forest.nodup_preorder hd d.root).filter _
  elements_eq := elements_ofDocument d
  byTag_eq tag := getD_get?_tags d (Text.lower tag)
  group_eq _ := group_eq_filter d
  existsUnique_group _ := existsUnique_group d
  classed_eq := by
    rw [classed_ofDocument]
    refine List.filter_congr fun n _ => ?_
    congr 1
    funext e
    rw [Element.hasAttribute, Attributes.has_eq_any,
      show Text.lower "class" = "class" by decide +kernel]

end Index

/-- **Traversals and indices agree with document order.**  In a well-formed forest the elements
below a node, their text and the first of a tag are what the recursion on the tree gives, and the
loop that lists the elements ends; and the index of a document lists its elements in that order, by
tag and by whether they have a class. -/
theorem document_order {f : Forest} (hf : f.WellFormed) :
    (∀ n < f.size, f.Traversed hf n) ∧
      ∀ d : Document, d.forest = f → (Index.ofDocument d).Lists f (f.elements d.root) := by
  refine ⟨fun n hn => Forest.traversed hf hn, ?_⟩
  rintro d rfl
  exact Index.lists_ofDocument d hf

/-- A page with two paragraphs, the first one with a text before and behind its `b`. -/
theorem document_order_paragraphs :
    let f : Forest := ⟨#[
      ⟨none, [1, 5], .document⟩,
      ⟨some 0, [2, 3, 4], .element ⟨.html, "p", []⟩⟩,
      ⟨some 1, [], .text "x"⟩,
      ⟨some 1, [6], .element ⟨.html, "b", [⟨"class", ""⟩]⟩⟩,
      ⟨some 1, [], .text "z"⟩,
      ⟨some 0, [], .element ⟨.html, "p", []⟩⟩,
      ⟨some 3, [], .text "y"⟩]⟩
    let index := Index.ofDocument ⟨f, 0, none, false⟩
    (∃ hf : f.WellFormed, f.Traversed hf 0) ∧ index.Lists f [1, 3, 5] ∧
      f.elements 0 = [1, 3, 5] ∧ f.textContent 0 = "xyz" ∧ f.findElement? 0 "b" = some 3 ∧
      index.byTag "p" = [1, 5] ∧ index.classed = [3] := by
  intro f index
  have hf : f.WellFormed := Forest.wellFormed_of_forall (by decide)
  obtain ⟨htraversed, hindexed⟩ := document_order hf
  have helements : f.elements 0 = [1, 3, 5] := by decide +kernel
  exact ⟨⟨hf, htraversed 0 (by decide)⟩, helements ▸ hindexed _ rfl, helements, by decide +kernel,
    by decide +kernel, by decide +kernel, by decide +kernel⟩

end StyleInliner.Dom

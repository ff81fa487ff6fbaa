/-
Pages, and the character data in them.

A parser makes a page of a fragment: an `html` element at the top, with a head and a
body in it.  Style sheets are taken out of the head only, so what is in the body is
never taken out (`Page.filter_dataOf_body`).

Character data is listed with the nodes that hold it, in document order; a tree that
was read off a forest has the same in it (`data_tree`), as nothing is below texts,
comments and instructions.
-/
import StyleInliner.Proofs.Dom.DocumentOrder
import StyleInliner.Proofs.Dom.Tree
import StyleInliner.Proofs.Html.Pieces
import StyleInliner.Proofs.Inline.Content

namespace StyleInliner

open StyleInliner.Dom StyleInliner.Inline

/-! ### Character data in trees -/

namespace Dom

/-- The character data of nodes and of what is below them, in document order. -/
def Document.dataOf (d : Document) (nodes : List NodeId) : List (NodeId × Content) :=
  (nodes.flatMap d.forest.preorder).filterMap d.forest.characterData?

theorem Document.dataOf_append (d : Document) (nodes more : List NodeId) :
    d.dataOf (nodes ++ more) = d.dataOf nodes ++ d.dataOf more := by
  rw [dataOf, List.flatMap_append, List.filterMap_append]
  rfl

theorem Document.exists_below_of_mem_dataOf {d : Document} (hd : d.forest.WellFormed)
    {nodes : List NodeId} (hnodes : ∀ n ∈ nodes, n < d.forest.size) {x : NodeId × Content}
    (hx : x ∈ d.dataOf nodes) : ∃ n ∈ nodes, d.forest.Below x.1 n := by
  obtain ⟨m, hm, hdata⟩ := List.mem_filterMap.1 hx
  obtain ⟨n, hn, hwalk⟩ := List.mem_flatMap.1 hm
  obtain ⟨c, -, rfl⟩ := Option.map_eq_some_iff.1 hdata
  exact ⟨n, hn, (Forest.mem_preorder_iff hd (hnodes n hn)).1 hwalk⟩

/-- The character data of an element is what is below its children. -/
theorem Document.dataOf_singleton {d : Document} (hd : d.forest.WellFormed) {n : NodeId}
    {tag : String} (htag : d.forest.tag? n = some tag) :
    d.dataOf [n] = d.dataOf (d.forest.children n) := by
  obtain ⟨e, he, -⟩ := Option.map_eq_some_iff.1 htag
  rw [dataOf, List.flatMap_singleton, Forest.preorder_eq hd (Forest.lt_size_of_element? he),
    List.filterMap_cons, Forest.characterData?_eq_none he]
  rfl

/-- **The tree of a node has the character data that is met in the walk over it.** -/
theorem Forest.data_tree {f : Forest} (hf : f.WellFormed) (hends : f.DataAtEnds) {n : NodeId}
    (hn : n < f.size) :
    (f.tree n).data = ((f.preorder n).filterMap f.characterData?).map Prod.snd := by
  refine Forest.induction_children (P := fun n =>
    (f.tree n).data = ((f.preorder n).filterMap f.characterData?).map Prod.snd) hf ?_ hn
  intro n hn ih
  have hbelow : ∀ l : List NodeId, (∀ c ∈ l,
      (f.tree c).data = ((f.preorder c).filterMap f.characterData?).map Prod.snd) →
      Tree.allData (l.map f.tree) =
        ((l.flatMap f.preorder).filterMap f.characterData?).map Prod.snd := by
    intro l hl
    induction l with
    | nil => rw [List.map_nil, Tree.allData]; rfl
    | cons c l ihl =>
        obtain ⟨hc, hl⟩ := List.forall_mem_cons.1 hl
        rw [List.map_cons, Tree.allData, hc, ihl hl, List.flatMap_cons, List.filterMap_append,
          List.map_append]
  obtain ⟨c, hc⟩ : ∃ c, f.content? n = some c := by
    rw [Forest.content?, Array.getElem?_eq_getElem hn]
    exact ⟨_, rfl⟩
  rw [Forest.tree_eq hf hn, Forest.preorder_eq hf hn, List.filterMap_cons, Forest.characterData?,
    hc, Option.getD_some]
  have hleaf := hends n c hc
  cases c with
  | document => rw [Tree.data, hbelow _ ih]; rfl
  | element e => rw [Tree.data, hbelow _ ih]; rfl
  | text s => rw [Tree.data, hleaf rfl]; rfl
  | comment s => rw [Tree.data, hleaf rfl]; rfl
  | instruction target data => rw [Tree.data, hleaf rfl]; rfl

/-! ### Pages -/

/-- A document as a parser makes it: one `html` element at the top, in it one `head` and one `body`,
and nothing below texts, comments and instructions. -/
structure Document.Page (d : Document) (html head body : NodeId) : Prop where
  html_mem : html ∈ d.forest.children d.root
  head_mem : head ∈ d.forest.children html
  body_mem : body ∈ d.forest.children html
  tag?_html : ∀ n ∈ d.forest.preorder d.root, d.forest.tag? n = some "html" ↔ n = html
  tag?_head : ∀ n ∈ d.forest.preorder d.root, d.forest.tag? n = some "head" ↔ n = head
  tag?_body : ∀ n ∈ d.forest.preorder d.root, d.forest.tag? n = some "body" ↔ n = body
  dataAtEnds : d.forest.DataAtEnds

namespace Document.Page

variable {d : Document} {html head body : NodeId} (h : d.Page html head body) (hd : d.WellFormed)
include h hd

theorem mem_preorder : html ∈ d.forest.preorder d.root ∧ head ∈ d.forest.preorder d.root ∧
    body ∈ d.forest.preorder d.root := by
  have hroot := hd.root_lt_size
  have hhtml := Forest.below_of_mem_children hd.forest h.html_mem
  refine ⟨(Forest.mem_preorder_iff hd.forest hroot).2 hhtml,
    (Forest.mem_preorder_iff hd.forest hroot).2 ?_,
    (Forest.mem_preorder_iff hd.forest hroot).2 ?_⟩
  · exact (Forest.below_of_mem_children hd.forest h.head_mem).trans hhtml
  · exact (Forest.below_of_mem_children hd.forest h.body_mem).trans hhtml

theorem head?_eq : d.head? = some head := by
  obtain ⟨-, hmem, -⟩ := h.mem_preorder hd
  have hword : Text.lower "head" = "head" := by decide +kernel
  refine Forest.findElement?_eq_some hmem ?_ fun m hm htag => ?_
  · rw [hword]
    exact (h.tag?_head head hmem).2 rfl
  · rw [hword] at htag
    exact (h.tag?_head m hm).1 htag

/-- What is taken out is inside the head. -/
theorem below_head_of_removed {options : InlineOptions} {n : NodeId}
    (hn : n ∈ removedNodes d options) : d.forest.Below n head ∧ n ≠ head := by
  obtain ⟨s, hs, hns⟩ := (mem_removedNodes_iff hd options).1 hn
  obtain ⟨-, head', hhead', hsh, htag⟩ := (mem_takenOut_iff hd options).1 hs
  obtain rfl : head = head' := Option.some.inj ((h.head?_eq hd).symm.trans hhead')
  refine ⟨hns.trans hsh, ?_⟩
  rintro rfl
  obtain rfl := Forest.below_antisymm hd.forest hns hsh
  rw [(h.tag?_head n (h.mem_preorder hd).2.1).2 rfl] at htag
  exact absurd (Option.some.inj htag) (by decide)

theorem head_ne_body : head ≠ body := by
  intro heq
  have hmem := (h.mem_preorder hd).2.2
  have htag := (h.tag?_head body hmem).2 heq.symm
  rw [(h.tag?_body body hmem).2 rfl] at htag
  exact absurd (Option.some.inj htag) (by decide)

/-- Nothing is in the head and in the body. -/
theorem not_below_head {n : NodeId} (hn : d.forest.Below n body) : ¬ d.forest.Below n head :=
  fun hhead => h.head_ne_body hd
    (Forest.eq_of_below_children hd.forest h.head_mem h.body_mem hhead hn)

/-- Nothing is taken out from right below the document node, the `html` element or the body. -/
theorem kept_of_child {options : InlineOptions} {n p : NodeId}
    (hp : p = d.root ∨ p = html ∨ p = body) (hn : n ∈ d.forest.children p) :
    n ∉ removedNodes d options := by
  intro hremoved
  obtain ⟨hbelow, hne⟩ := h.below_head_of_removed hd hremoved
  have hself : d.forest.Below n n := Relation.ReflTransGen.refl
  have hhead := Forest.below_of_mem_children hd.forest h.head_mem
  rcases hp with rfl | rfl | rfl
  · obtain rfl := Forest.eq_of_below_children hd.forest hn h.html_mem hself (hbelow.trans hhead)
    exact Forest.not_below_child hd.forest h.head_mem hbelow
  · exact hne (Forest.eq_of_below_children hd.forest hn h.head_mem hself hbelow)
  · exact h.not_below_head hd (Forest.below_of_mem_children hd.forest hn) hbelow

/-- The character data of the body is not taken out. -/
theorem filter_dataOf_body (options : InlineOptions) :
    ((d.dataOf (d.forest.children body)).filter fun x => x.1 ∉ removedNodes d options) =
      d.dataOf (d.forest.children body) := by
  rw [List.filter_eq_self]
  intro x hx
  obtain ⟨n, hn, hbelow⟩ := Document.exists_below_of_mem_dataOf hd.forest
    (fun n hn => hd.forest.lt_size_of_child hn) hx
  have hbody := hbelow.trans (Forest.below_of_mem_children hd.forest hn)
  rw [decide_eq_true_iff]
  exact fun hremoved => h.not_below_head hd hbody (h.below_head_of_removed hd hremoved).1

/-- Head and body share no character data. -/
theorem dataOf_disjoint {x : NodeId × Content} (hx : x ∈ d.dataOf (d.forest.children head)) :
    x ∉ d.dataOf (d.forest.children body) := by
  have hbelow : ∀ {p : NodeId}, x ∈ d.dataOf (d.forest.children p) → d.forest.Below x.1 p := by
    intro p hx
    obtain ⟨n, hn, hbelow⟩ := Document.exists_below_of_mem_dataOf hd.forest
      (fun n hn => hd.forest.lt_size_of_child hn) hx
    exact hbelow.trans (Forest.below_of_mem_children hd.forest hn)
  exact fun hbody => h.not_below_head hd (hbelow hbody) (hbelow hx)

end Document.Page

end Dom

end StyleInliner

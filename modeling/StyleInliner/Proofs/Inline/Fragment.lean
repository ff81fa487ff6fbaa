/-
What is written of a fragment.

Once a document is inlined, what is written of a fragment is looked up anew: what is
in the body; without a body, what is in the `html` element and not in the head; and
without that, all there is.  Any of the three may have been replaced by a table, and
then it is not found (`findElement?_result`).  The nodes that are written stand where
nodes of the page were (`fragmentContent_result`), and so they have the character data
of those nodes (`Passed.dataOf_place`).

It comes out as it went in, unless the body was replaced and the head or the `html`
element too.  In that case the head is not known as one any more, or it is not looked
for, and what is in it is written in front of what is in the body.
-/
import StyleInliner.Proofs.Inline.Page

namespace StyleInliner

open StyleInliner.Css StyleInliner.Dom StyleInliner.Html StyleInliner.Inline

namespace Inline

/-! ### Passes -/

/-- What a run makes of a document: nodes are taken out, elements edited in place, and some of them
replaced by tables. -/
structure Passed (d result : Document) (options : InlineOptions) (f : Forest) (tables : Tables) :
    Prop where
  wellFormed : f.WellFormed
  size_eq : f.size = d.forest.size
  children_eq : ∀ n, f.children n = (d.forest.children n).filter (· ∉ takenOut d options)
  characterData?_eq : ∀ n, f.characterData? n = d.forest.characterData? n
  tag?_eq : ∀ n, f.tag? n = d.forest.tag? n
  preorder_eq : ∀ n < d.forest.size, n ∉ removedNodes d options →
    f.preorder n = (d.forest.preorder n).filter (· ∉ removedNodes d options)
  converted : Converted f result.forest tables
  root_eq : result.root = d.root
  root_kept : tables d.root = none
  fragment_eq : result.fragment = d.fragment

theorem exists_passed {order : List String → List String} {d result : Document}
    {options : InlineOptions} (hd : d.WellFormed)
    (hrun : inlineDocumentIn order d options = Run.done result) :
    let c := (collectStylesheet d options).1
    ∃ styled tables,
      applyStylesheet order (collectStylesheet d options).2 options.removeClassAttributes c =
        Run.done styled ∧
      ByMention styled.forest result.forest c.elements c.root tables ∧
      Passed d result options styled.forest tables := by
  intro c
  obtain ⟨styled, tables, hstyled, hresult, hmention⟩ := exists_passes hd hrun
  refine ⟨styled, tables, hstyled, hmention, ?_⟩
  obtain ⟨rules, m, -, -, hedited⟩ := applyStylesheet_eq_done hstyled
  have hroot : c.root = d.root := root_collectStylesheet d options
  have hforest : c.forest = (takenOut d options).foldl Forest.detach d.forest :=
    congrArg Document.forest (collectStylesheet_eq d options)
  have hfragment : c.fragment = d.fragment := by
    rw [show c = _ from collectStylesheet_eq d options]
  exact
    { wellFormed := wellFormed_of_edited hd hedited
      size_eq := by rw [hedited.size_eq, hforest, Forest.size_foldl_detach]
      children_eq := fun n => by
        rw [hedited.children_eq, hforest, Forest.children_foldl_detach _ hd.forest]
      characterData?_eq := fun n => by
        rw [hedited.characterData?_eq, characterData?_collectStylesheet]
      tag?_eq := fun n => by
        rw [hedited.tag?_eq fun _ _ _ => sameKind_of_passes, Forest.tag?,
          element?_collectStylesheet, ← Forest.tag?]
      preorder_eq := fun n hn hkept => by
        rw [hedited.preorder_eq, hforest]
        refine Forest.preorder_foldl_detach _ hd.forest
          (fun s hs => lt_size_of_mem_takenOut hd options hs) hn fun s hs hns => hkept ?_
        exact (mem_removedNodes_iff hd options).2 ⟨s, hs, hns⟩
      converted := hmention.converted
      root_eq := by rw [hresult, hroot]
      root_kept := hroot ▸ hmention.root_kept (wellFormed_collectStylesheet hd options)
      fragment_eq := by rw [hresult, hfragment] }

namespace Passed

variable {d result : Document} {options : InlineOptions} {f : Forest} {tables : Tables}
  (h : Passed d result options f tables)
include h

/-- What has the children of a node has them in order, those aside that are taken out. -/
theorem children_holder {n : NodeId} (hn : n < d.forest.size) :
    result.forest.children (tables.holder n) =
      ((d.forest.children n).filter (· ∉ takenOut d options)).map tables.place := by
  rw [h.converted.children_holder (h.size_eq ▸ hn), h.children_eq]

theorem tag?_result {n : NodeId} (hn : n < d.forest.size) :
    result.forest.tag? n = d.forest.tag? n := by
  rw [Forest.tag?, h.converted.element?_eq (h.size_eq ▸ hn), ← Forest.tag?, h.tag?_eq]

/-- **What stands where nodes were has their character data,** without what is taken out. -/
theorem dataOf_place {nodes : List NodeId}
    (hnodes : ∀ n ∈ nodes, n < d.forest.size ∧ n ∉ removedNodes d options) :
    result.dataOf (nodes.map tables.place) =
      (d.dataOf nodes).filter fun x => x.1 ∉ removedNodes d options := by
  rw [Document.dataOf, Document.dataOf, List.flatMap_map, List.filterMap_flatMap,
    List.filterMap_flatMap, List.filter_flatMap]
  refine List.flatMap_congr fun n hn => ?_
  obtain ⟨hlt, hkept⟩ := hnodes n hn
  rw [h.converted.characterData_place h.wellFormed (h.size_eq ▸ hlt), h.preorder_eq n hlt hkept,
    List.filterMap_congr fun n _ => h.characterData?_eq n, filterMap_characterData?_filter]

/-- The parts of tables are no character data, and other nodes are what they were. -/
theorem dataAtEnds (hends : d.forest.DataAtEnds) : result.forest.DataAtEnds := by
  intro n c hc hdata
  have hsome : result.forest.characterData? n = some (n, c) := by
    rw [Forest.characterData?, hc, Option.filter_some, if_pos hdata, Option.map_some]
  have hother : ∀ e, result.forest.element? n ≠ some e := by
    intro e he
    rw [Forest.characterData?_eq_none he] at hsome
    cases hsome
  have hlt : n < f.size := by
    by_contra hle
    have hlt : n < result.forest.size := Forest.lt_size_of_content? hc
    obtain ⟨k, hpart⟩ := h.converted.covered (Nat.le_of_not_lt hle) hlt
    rcases h.converted.tag?_of_partFor hpart with htag | htag | htag <;>
      obtain ⟨e, he, -⟩ := Option.map_eq_some_iff.1 htag <;> exact hother e he
  have hkept : tables n = none := by
    rw [Option.eq_none_iff_forall_ne_some]
    intro t ht
    obtain ⟨e, -, he, -⟩ := h.converted.table ht
    exact hother e ((h.converted.element?_eq hlt).trans he)
  rw [Forest.characterData?, h.converted.content?_eq hlt, ← Forest.characterData?,
    h.characterData?_eq] at hsome
  obtain ⟨c', hc', heq⟩ := Option.map_eq_some_iff.1 hsome
  obtain ⟨hcontent, hdata'⟩ := Option.filter_eq_some_iff.1 hc'
  rw [← Tables.holder_of_none hkept, h.children_holder (h.size_eq ▸ hlt),
    hends n c' hcontent hdata']
  rfl

/-- The walk over the result meets what stands for the nodes that were not taken out. -/
theorem preorder_result (hd : d.WellFormed) : result.forest.preorder result.root =
    ((d.forest.preorder d.root).filter (· ∉ removedNodes d options)).flatMap tables.nodesFor := by
  have hroot : d.root < d.forest.size := hd.root_lt_size
  have hplaced := h.converted.preorder_place h.wellFormed (h.size_eq ▸ hroot)
  rw [Tables.place_of_none h.root_kept] at hplaced
  rw [h.root_eq, hplaced, h.preorder_eq _ hroot (root_not_mem_removedNodes hd options)]

/-- A node of the result was met before and kept, or it is a part of a table. -/
theorem tag?_of_mem_preorder {m : NodeId} (hd : d.WellFormed)
    (hm : m ∈ result.forest.preorder result.root) :
    (tables m = none ∧ m ∈ d.forest.preorder d.root ∧ m ∉ removedNodes d options ∧
      result.forest.tag? m = d.forest.tag? m) ∨
    result.forest.tag? m ∈ [some "table", some "tr", some "td"] := by
  rw [h.preorder_result hd, List.mem_flatMap] at hm
  obtain ⟨k, hk, hstands⟩ := hm
  obtain ⟨hwalk, hkept⟩ := List.mem_filter.1 hk
  rcases Tables.mem_nodesFor.1 hstands with ⟨hnone, rfl⟩ | hpart
  · have hlt := Forest.lt_size_of_mem_preorder hd.forest hd.root_lt_size hwalk
    exact Or.inl ⟨hnone, hwalk, of_decide_eq_true hkept, h.tag?_result hlt⟩
  · right
    rcases h.converted.tag?_of_partFor hpart with htag | htag | htag <;> rw [htag] <;> decide

/-- **An element that was the only one of its tag is still found unless it was replaced.** -/
theorem findElement?_result (hd : d.WellFormed) {n : NodeId} {tag : String}
    (hword : Text.lower tag = tag) (hpart : tag ∉ ["table", "tr", "td"])
    (hn : n ∈ d.forest.preorder d.root) (hkept : n ∉ removedNodes d options)
    (honly : ∀ m ∈ d.forest.preorder d.root, d.forest.tag? m = some tag ↔ m = n) :
    result.findElement? tag = if tables n = none then some n else none := by
  have hfound : ∀ m ∈ result.forest.preorder result.root, result.forest.tag? m = some tag →
      tables m = none ∧ m = n := by
    intro m hm htag
    rcases h.tag?_of_mem_preorder hd hm with ⟨hnone, hwalk, -, hsame⟩ | hpart'
    · exact ⟨hnone, (honly m hwalk).1 (hsame.symm.trans htag)⟩
    · rw [htag] at hpart'
      simp_all
  split
  · rename_i hnone
    have hlt := Forest.lt_size_of_mem_preorder hd.forest hd.root_lt_size hn
    refine Forest.findElement?_eq_some ?_ ?_ fun m hm htag => ?_
    · rw [h.preorder_result hd, List.mem_flatMap]
      exact ⟨n, List.mem_filter.2 ⟨hn, decide_eq_true hkept⟩,
        Tables.mem_nodesFor.2 (Or.inl ⟨hnone, rfl⟩)⟩
    · rw [hword, h.tag?_result hlt]
      exact (honly n hn).2 rfl
    · exact (hfound m hm (hword ▸ htag)).2
  · rename_i hsome
    refine Forest.findElement?_eq_none fun m hm htag => hsome ?_
    obtain ⟨hnone, rfl⟩ := hfound m hm (hword ▸ htag)
    exact hnone

end Passed

end Inline

/-! ### What is written -/

namespace Html

/-- The pieces that a fragment is written in. -/
def fragmentPieces (d : Document) : List Piece :=
  (fragmentContent d).flatMap fun n => pieces .outermost (d.forest.tree n)

theorem writeDocument_eq_join {d : Document} (h : d.fragment = true) :
    writeDocument d = String.join ((fragmentPieces d).map Piece.text) := by
  rw [writeDocument, if_pos h, fragmentPieces, List.map_flatMap, Text.join_flatMap]
  exact congrArg String.join (List.map_congr_left fun n _ => write_eq_join _ _)

theorem lt_size_of_mem_fragmentContent {d : Document} (hd : d.forest.WellFormed) {n : NodeId}
    (hn : n ∈ fragmentContent d) : n < d.forest.size := by
  unfold fragmentContent at hn
  split at hn
  · exact hd.lt_size_of_child hn
  · split at hn
    · exact hd.lt_size_of_child (List.mem_filter.1 hn).1
    · exact hd.lt_size_of_child hn

/-- **The pieces that are no tags are the character data of what is written.** -/
theorem content_fragmentPieces {d : Document} (hd : d.forest.WellFormed)
    (hends : d.forest.DataAtEnds) :
    (fragmentPieces d).filterMap Piece.content? =
      (d.dataOf (fragmentContent d)).map Prod.snd := by
  rw [fragmentPieces, List.filterMap_flatMap, Document.dataOf, List.filterMap_flatMap,
    List.map_flatMap]
  refine List.flatMap_congr fun n hn => ?_
  rw [content_pieces, Forest.data_tree hd hends (lt_size_of_mem_fragmentContent hd hn)]

/-- The nodes of a page that are written once it is inlined as a fragment: what is in the body; if
the body was replaced, what is in the `html` element, except a head that was not; and if that was
replaced too, all there is. -/
def fragmentNodes (d : Document) (html head body : NodeId) (tables : Tables) : List NodeId :=
  if tables body = none then d.forest.children body
  else if tables html = none then
    (d.forest.children html).filter fun n => n ≠ head ∨ tables head ≠ none
  else d.forest.children d.root

end Html

namespace Inline

section Written

variable {d result : Document} {options : InlineOptions} {f : Forest} {tables : Tables}
  {html head body : NodeId} (h : Passed d result options f tables) (hd : d.WellFormed)
  (hpage : d.Page html head body)
include h hd hpage

/-- What is right below the parts of a page stays there, or tables take its place. -/
theorem children_of_page {p : NodeId} (hp : p = d.root ∨ p = html ∨ p = body)
    (hkept : tables p = none) :
    result.forest.children p = (d.forest.children p).map tables.place := by
  have hlt : p < d.forest.size := by
    rcases hp with rfl | rfl | rfl
    · exact hd.root_lt_size
    · exact hd.forest.lt_size_of_child hpage.html_mem
    · exact hd.forest.lt_size_of_child hpage.body_mem
  have hall : (d.forest.children p).filter (· ∉ takenOut d options) = d.forest.children p := by
    rw [List.filter_eq_self]
    intro n hn
    rw [decide_eq_true_iff]
    exact fun hout => hpage.kept_of_child hd hp hn
      ((mem_removedNodes_iff hd options).2 ⟨n, hout, Relation.ReflTransGen.refl⟩)
  rw [← hall, ← h.children_holder hlt, Tables.holder_of_none hkept]

theorem findElement?_html :
    result.findElement? "html" = if tables html = none then some html else none :=
  h.findElement?_result hd (by decide +kernel) (by decide) (hpage.mem_preorder hd).1
    (hpage.kept_of_child hd (Or.inl rfl) hpage.html_mem) hpage.tag?_html

theorem body?_result : result.body? = if tables body = none then some body else none :=
  h.findElement?_result hd (by decide +kernel) (by decide) (hpage.mem_preorder hd).2.2
    (hpage.kept_of_child hd (Or.inr (Or.inl rfl)) hpage.body_mem) hpage.tag?_body

/-- Of what is right below the `html` element only a head that was kept is found to be one. -/
theorem hasTag_place {n : NodeId} (hn : n ∈ d.forest.children html) :
    result.forest.hasTag (tables.place n) "head" = true ↔ n = head ∧ tables head = none := by
  rw [Forest.hasTag_iff, show Text.lower "head" = "head" by decide +kernel]
  cases hplaced : tables n with
  | none =>
      have hwalk : n ∈ d.forest.preorder d.root :=
        (Forest.mem_preorder_iff hd.forest hd.root_lt_size).2
          ((Forest.below_of_mem_children hd.forest hn).trans
            (Forest.below_of_mem_children hd.forest hpage.html_mem))
      rw [Tables.place_of_none hplaced, h.tag?_result (hd.forest.lt_size_of_child hn),
        hpage.tag?_head n hwalk]
      exact (and_iff_left_of_imp fun hhead => hhead ▸ hplaced).symm
  | some t =>
      rw [Tables.place_of_some hplaced]
      constructor
      · intro htag
        rcases h.converted.tag?_of_partFor ⟨t, hplaced, Or.inl rfl⟩ with heq | heq | heq <;>
          exact absurd (Option.some.inj (htag.symm.trans heq)) (by decide)
      · rintro ⟨rfl, hkept⟩
        rw [hplaced] at hkept
        cases hkept

/-- **What is written stands where the nodes of the page were.** -/
theorem fragmentContent_result :
    fragmentContent result = (fragmentNodes d html head body tables).map tables.place := by
  rw [fragmentContent, body?_result h hd hpage, findElement?_html h hd hpage, fragmentNodes]
  by_cases hbody : tables body = none
  · rw [if_pos hbody, if_pos hbody]
    exact children_of_page h hd hpage (Or.inr (Or.inr rfl)) hbody
  · rw [if_neg hbody, if_neg hbody]
    by_cases hhtml : tables html = none
    · rw [if_pos hhtml, if_pos hhtml]
      dsimp only
      rw [children_of_page h hd hpage (Or.inr (Or.inl rfl)) hhtml, List.filter_map]
      congr 1
      refine List.filter_congr fun n hn => ?_
      have htag := hasTag_place h hd hpage hn
      by_cases hhead : n = head ∧ tables head = none
      · rw [Function.comp_apply, htag.2 hhead]
        simp [hhead.1, hhead.2]
      · rw [Function.comp_apply, Bool.eq_false_iff.2 (mt htag.1 hhead)]
        rcases not_and_or.1 hhead with hne | hne <;> simp [hne]
    · rw [if_neg hhtml, if_neg hhtml]
      dsimp only
      rw [h.root_eq]
      exact children_of_page h hd hpage (Or.inl rfl) h.root_kept

omit h in
/-- The nodes that are written were not taken out. -/
theorem kept_of_mem_fragmentNodes {n : NodeId}
    (hn : n ∈ fragmentNodes d html head body tables) :
    n < d.forest.size ∧ n ∉ removedNodes d options := by
  obtain ⟨p, hp, hmem⟩ : ∃ p, (p = d.root ∨ p = html ∨ p = body) ∧ n ∈ d.forest.children p := by
    unfold fragmentNodes at hn
    split at hn
    · exact ⟨body, Or.inr (Or.inr rfl), hn⟩
    · split at hn
      · exact ⟨html, Or.inr (Or.inl rfl), (List.mem_filter.1 hn).1⟩
      · exact ⟨d.root, Or.inl rfl, hn⟩
  exact ⟨hd.forest.lt_size_of_child hmem, hpage.kept_of_child hd hp hmem⟩

/-- **The character data that is written is that of the nodes of the page,** without what was taken
out. -/
theorem content_result : (fragmentPieces result).filterMap Piece.content? =
    ((d.dataOf (fragmentNodes d html head body tables)).filter fun x =>
      x.1 ∉ removedNodes d options).map Prod.snd := by
  rw [content_fragmentPieces (h.converted.wellFormed h.wellFormed) (h.dataAtEnds hpage.dataAtEnds),
    fragmentContent_result h hd hpage,
    h.dataOf_place fun n hn => kept_of_mem_fragmentNodes hd hpage hn]

end Written

/-- What is written of a fragment after a run: which texts, comments and instructions, in which
order. -/
structure FragmentWritten (d result : Document) (options : InlineOptions) (tables : Tables)
    (html head body : NodeId) : Prop where
  written_eq : writeDocument result = String.join ((fragmentPieces result).map Piece.text)
  content_eq : (fragmentPieces result).filterMap Piece.content? =
    ((d.dataOf (fragmentNodes d html head body tables)).filter fun x =>
      x.1 ∉ removedNodes d options).map Prod.snd
  of_body : tables body = none → (fragmentPieces result).filterMap Piece.content? =
    (d.dataOf (d.forest.children body)).map Prod.snd
  /-- On a page that is nothing but head and body, what is in the head is written just when the body
  was replaced and the head or the `html` element too. -/
  of_parsed : d.forest.children d.root = [html] → d.forest.children html = [head, body] →
    (fragmentPieces result).filterMap Piece.content? =
      ((if tables body = none ∨ tables html = none ∧ tables head = none then []
        else (d.dataOf (d.forest.children head)).filter fun x => x.1 ∉ removedNodes d options) ++
        d.dataOf (d.forest.children body)).map Prod.snd
  disjoint : ∀ x ∈ d.dataOf (d.forest.children head), x ∉ d.dataOf (d.forest.children body)

/-- The character data of a page that is nothing but head and body. -/
theorem dataOf_fragmentNodes {d : Document} (hd : d.WellFormed) {html head body : NodeId}
    (hpage : d.Page html head body) (tables : Tables)
    (htop : d.forest.children d.root = [html]) (hparts : d.forest.children html = [head, body]) :
    d.dataOf (fragmentNodes d html head body tables) =
      (if tables body = none ∨ tables html = none ∧ tables head = none then []
        else d.dataOf (d.forest.children head)) ++ d.dataOf (d.forest.children body) := by
  obtain ⟨hhtml, hhead, hbody⟩ := hpage.mem_preorder hd
  have hinHtml := Document.dataOf_singleton hd.forest ((hpage.tag?_html html hhtml).2 rfl)
  have hinHead := Document.dataOf_singleton hd.forest ((hpage.tag?_head head hhead).2 rfl)
  have hinBody := Document.dataOf_singleton hd.forest ((hpage.tag?_body body hbody).2 rfl)
  have hall : d.dataOf [head, body] =
      d.dataOf (d.forest.children head) ++ d.dataOf (d.forest.children body) := by
    rw [← List.singleton_append, Document.dataOf_append, hinHead, hinBody]
  unfold fragmentNodes
  by_cases hb : tables body = none
  · simp [hb]
  by_cases hp : tables html = none
  · rw [if_neg hb, if_pos hp, hparts]
    by_cases hh : tables head = none
    · have hfilter : ([head, body].filter fun n => n ≠ head ∨ tables head ≠ none) = [body] := by
        simp [hh, (hpage.head_ne_body hd).symm]
      rw [hfilter, if_pos (Or.inr ⟨hp, hh⟩), hinBody, List.nil_append]
    · rw [if_neg (by tauto), ← hall]
      simp [hh]
  · rw [if_neg hb, if_neg hp, if_neg (by tauto), htop, hinHtml, hparts, hall]

/-- **A fragment in gives the content of the fragment out,** unless the body was replaced and either
the head or the `html` element was replaced too: then what is in the head is written as well. -/
theorem fragment_written {order : List String → List String} {d result : Document}
    {options : InlineOptions} {html head body : NodeId} (hd : d.WellFormed)
    (hfragment : d.fragment = true) (hpage : d.Page html head body)
    (hrun : inlineDocumentIn order d options = Run.done result) :
    let c := (collectStylesheet d options).1
    ∃ styled tables,
      applyStylesheet order (collectStylesheet d options).2 options.removeClassAttributes c =
        Run.done styled ∧
      ByMention styled.forest result.forest c.elements c.root tables ∧
      FragmentWritten d result options tables html head body := by
  intro c
  obtain ⟨styled, tables, hstyled, hmention, hpassed⟩ := exists_passed hd hrun
  have hcontent := content_result hpassed hd hpage
  refine ⟨styled, tables, hstyled, hmention, ?_⟩
  exact
    { written_eq := writeDocument_eq_join (hpassed.fragment_eq.trans hfragment)
      content_eq := hcontent
      of_body := fun hbody => by
        rw [hcontent, fragmentNodes, if_pos hbody, hpage.filter_dataOf_body hd]
      of_parsed := fun htop hparts => by
        rw [hcontent, dataOf_fragmentNodes hd hpage tables htop hparts, List.filter_append,
          hpage.filter_dataOf_body hd]
        split <;> rfl
      disjoint := fun _ => hpage.dataOf_disjoint hd }

/-- A page of a head with a title and a body with a paragraph. -/
def titledPage (headAttributes bodyAttributes : List Attribute) : Document :=
  Document.ofTrees
    [.node (.element ⟨.html, "html", []⟩)
      [.node (.element ⟨.html, "head", headAttributes⟩)
        [.node (.element ⟨.html, "title", []⟩) [.node (.text "t") []]],
      .node (.element ⟨.html, "body", bodyAttributes⟩)
        [.node (.element ⟨.html, "p", []⟩) [.node (.text "x") []]]]] none true

theorem fragment_written_table :
    let d := titledPage [] [⟨"style", "-tableize:1"⟩]
    let result := (inlineDocumentIn id d {}).state
    d.WellFormed ∧ d.fragment = true ∧ d.Page 1 2 5 ∧
      inlineDocumentIn id d {} = Run.done result ∧
      writeDocument result =
        "<table cellspacing=\"0\" border=\"0\"><tr><td><p>x</p></td></tr></table>" ∧
      let c := (collectStylesheet d {}).1
      ∃ styled tables,
        applyStylesheet id (collectStylesheet d {}).2 true c = Run.done styled ∧
        ByMention styled.forest result.forest c.elements c.root tables ∧
        FragmentWritten d result {} tables 1 2 5 := by
  intro d result
  have hd : d.WellFormed := ⟨Forest.wellFormed_of_forall (by decide), by decide, by decide⟩
  have hpage : d.Page 1 2 5 := ⟨by decide +kernel, by decide +kernel, by decide +kernel,
    by decide +kernel, by decide +kernel, by decide +kernel,
    Forest.dataAtEnds_of_forall (by decide +kernel)⟩
  have hrun : inlineDocumentIn id d {} = Run.done result :=
    Run.eq_done_of_fault (by decide +kernel)
  exact ⟨hd, rfl, hpage, hrun, by decide +kernel, fragment_written hd rfl hpage hrun⟩

/-- With the head replaced too, the title is written in front of what is in the body. -/
theorem replaced_head_written :
    let d := titledPage [⟨"style", "-tableize:1"⟩] [⟨"style", "-tableize:1"⟩]
    let result := (inlineDocumentIn id d {}).state
    d.WellFormed ∧ d.fragment = true ∧ d.Page 1 2 5 ∧
      inlineDocumentIn id d {} = Run.done result ∧
      d.dataOf (d.forest.children 2) = [(4, .text "t")] ∧
      d.dataOf (d.forest.children 5) = [(7, .text "x")] ∧
      writeDocument result = String.join ((fragmentPieces result).map Piece.text) ∧
      (fragmentPieces result).filterMap Piece.content? = [.text "t", .text "x"] := by
  refine ⟨⟨Forest.wellFormed_of_forall (by decide), by decide, by decide⟩, rfl,
    ⟨by decide +kernel, by decide +kernel, by decide +kernel, by decide +kernel,
      by decide +kernel, by decide +kernel, Forest.dataAtEnds_of_forall (by decide +kernel)⟩,
    Run.eq_done_of_fault (by decide +kernel), by decide +kernel, by decide +kernel,
    by decide +kernel, by decide +kernel⟩

end Inline

end StyleInliner

/-
Text goes into the tree as one text, however it is cut into chunks.

Text is inserted into a gap among the children of a node, behind the last of them or
in front of one.  If the child before the gap is a text node, that one takes in what is
added, and otherwise a new text node is put into the gap (`TextPut`).  In both cases a
text node stands before the gap afterwards, so the chunk that comes next is taken in by
it; that is why two chunks give the forest that one text of both gives
(`TextPut.append`).  The argument knows nothing of how the gap was asked for.

The walk over a node above the gap is cut by it into what comes before and what comes
behind (`CutAt`).  A change among the children of one node changes a walk only where
that node comes in it (`exists_around`), so the text of a node above the gap is what it
was, with what is added at the cut.  Text nodes without children are needed for that:
text that is added to a node with children would come before theirs.
-/
import StyleInliner.Proofs.Dom.DocumentOrder
import StyleInliner.Proofs.Dom.Mutation

namespace StyleInliner.Dom

/-- A gap among the children of a node: the children before it and those behind it. -/
structure Gap where
  parent : NodeId
  left : List NodeId
  right : List NodeId
  deriving DecidableEq, Repr

namespace Forest

variable {f g h : Forest} {gap : Gap} {n m p q s t : NodeId}

/-- The gap is among the children of a node of the forest. -/
structure HasGap (f : Forest) (gap : Gap) : Prop where
  parent_lt_size : gap.parent < f.size
  children_eq : f.children gap.parent = gap.left ++ gap.right

/-- The child before the gap is a text node. -/
structure InFront (f : Forest) (gap : Gap) (t : NodeId) (text : String) : Prop where
  getLast?_left : gap.left.getLast? = some t
  text?_eq : f.text? t = some text

/-- A node has another content, and all else is as it was. -/
structure ContentChanged (f g : Forest) (n : NodeId) (content : Content) : Prop where
  size_eq : g.size = f.size
  parent?_eq : ∀ m, g.parent? m = f.parent? m
  children_eq : ∀ m, g.children m = f.children m
  content?_eq : ∀ m, g.content? m = if m = n then some content else f.content? m

/-- A new node stands in the gap, and all else is as it was. -/
structure NodeAdded (f g : Forest) (gap : Gap) (content : Content) : Prop where
  size_eq : g.size = f.size + 1
  parent?_eq : ∀ m, g.parent? m = if m = f.size then some gap.parent else f.parent? m
  children_eq : ∀ m, g.children m =
    if m = gap.parent then gap.left ++ f.size :: gap.right else f.children m
  content?_eq : ∀ m, g.content? m = if m = f.size then some content else f.content? m

/-- Text was put into the gap: the text before the gap has taken it in, or, if there is none, a new
node has. -/
inductive TextPut (f g : Forest) (gap : Gap) (added : String) : Prop
  | extended {t : NodeId} {text : String} (hfront : f.InFront gap t text)
      (h : ContentChanged f g t (.text (text ++ added)))
  | new (hnone : ∀ t text, ¬ f.InFront gap t text) (h : NodeAdded f g gap (.text added))

theorem text?_eq_some_iff {text : String} :
    f.text? n = some text ↔ f.content? n = some (.text text) := by
  rw [text?]
  cases f.content? n with
  | none => simp
  | some c => cases c <;> simp [Content.text?]

/-! ### One text, or two chunks of it -/

theorem ContentChanged.unique {content : Content} (hg : ContentChanged f g n content)
    (hh : ContentChanged f h n content) : g = h :=
  ext_of (hg.size_eq.trans hh.size_eq.symm)
    (fun m => (hg.parent?_eq m).trans (hh.parent?_eq m).symm)
    (fun m => (hg.children_eq m).trans (hh.children_eq m).symm)
    fun m => (hg.content?_eq m).trans (hh.content?_eq m).symm

theorem NodeAdded.unique {content : Content} (hg : NodeAdded f g gap content)
    (hh : NodeAdded f h gap content) : g = h :=
  ext_of (hg.size_eq.trans hh.size_eq.symm)
    (fun m => (hg.parent?_eq m).trans (hh.parent?_eq m).symm)
    (fun m => (hg.children_eq m).trans (hh.children_eq m).symm)
    fun m => (hg.content?_eq m).trans (hh.content?_eq m).symm

theorem ContentChanged.trans {content content' : Content} (hg : ContentChanged f g n content)
    (hh : ContentChanged g h n content') : ContentChanged f h n content' := by
  refine ⟨hh.size_eq.trans hg.size_eq, fun m => (hh.parent?_eq m).trans (hg.parent?_eq m),
    fun m => (hh.children_eq m).trans (hg.children_eq m), fun m => ?_⟩
  rw [hh.content?_eq, hg.content?_eq]
  split <;> rfl

/-- A new node that gets another content could have been added with it. -/
theorem NodeAdded.trans {content content' : Content} (hg : NodeAdded f g gap content)
    (hh : ContentChanged g h f.size content') : NodeAdded f h gap content' := by
  refine ⟨hh.size_eq.trans hg.size_eq, fun m => (hh.parent?_eq m).trans (hg.parent?_eq m),
    fun m => (hh.children_eq m).trans (hg.children_eq m), fun m => ?_⟩
  rw [hh.content?_eq, hg.content?_eq]
  split <;> rfl

theorem InFront.unique {t' : NodeId} {text text' : String} (ht : f.InFront gap t text)
    (ht' : f.InFront gap t' text') : t = t' ∧ text = text' := by
  obtain rfl := Option.some.inj (ht.getLast?_left.symm.trans ht'.getLast?_left)
  exact ⟨rfl, Option.some.inj (ht.text?_eq.symm.trans ht'.text?_eq)⟩

theorem TextPut.unique {added : String} (hg : TextPut f g gap added)
    (hh : TextPut f h gap added) : g = h := by
  cases hg with
  | extended hfront hg =>
      cases hh with
      | extended hfront' hh =>
          obtain ⟨rfl, rfl⟩ := hfront.unique hfront'
          exact hg.unique hh
      | new hnone _ => exact absurd hfront (hnone _ _)
  | new hnone hg =>
      cases hh with
      | extended hfront _ => exact absurd hfront (hnone _ _)
      | new _ hh => exact hg.unique hh

theorem TextPut.size_le {added : String} (hg : TextPut f g gap added) : f.size ≤ g.size := by
  cases hg with
  | extended _ hg => exact Nat.le_of_eq hg.size_eq.symm
  | new _ hg => exact hg.size_eq ▸ Nat.le_succ _

theorem TextPut.parent?_eq {added : String} (hg : TextPut f g gap added) (hn : n < f.size) :
    g.parent? n = f.parent? n := by
  cases hg with
  | extended _ hg => exact hg.parent?_eq n
  | new _ hg => rw [hg.parent?_eq, if_neg (Nat.ne_of_lt hn)]

/-- Behind the text that was put into a gap there is a gap again. -/
theorem TextPut.exists_hasGap {added : String} (hgap : f.HasGap gap)
    (hg : TextPut f g gap added) : ∃ left, g.HasGap ⟨gap.parent, left, gap.right⟩ := by
  have hlt := Nat.lt_of_lt_of_le hgap.parent_lt_size hg.size_le
  cases hg with
  | extended _ hg => exact ⟨gap.left, hlt, by rw [hg.children_eq, hgap.children_eq]⟩
  | new _ hg =>
      exact ⟨gap.left ++ [f.size], hlt, by rw [hg.children_eq, if_pos rfl]; simp⟩

/-- **A second chunk goes to the text that has the first one.** -/
theorem TextPut.append {first second : String} {left : List NodeId} (hgap : f.HasGap gap)
    (hg : TextPut f g gap first) (hgap' : g.HasGap ⟨gap.parent, left, gap.right⟩)
    (hh : TextPut g h ⟨gap.parent, left, gap.right⟩ second) :
    TextPut f h gap (first ++ second) := by
  have hchildren : g.children gap.parent = left ++ gap.right := hgap'.children_eq
  cases hg with
  | @extended t text hfront hg =>
      have hleft : gap.left = left := List.append_cancel_right
        (hgap.children_eq.symm.trans ((hg.children_eq _).symm.trans hchildren))
      have hfront' : g.InFront ⟨gap.parent, left, gap.right⟩ t (text ++ first) :=
        ⟨hleft ▸ hfront.getLast?_left, text?_eq_some_iff.2 (by rw [hg.content?_eq, if_pos rfl])⟩
      cases hh with
      | extended hlast hh =>
          obtain ⟨rfl, rfl⟩ := hfront'.unique hlast
          rw [String.append_assoc] at hh
          exact .extended hfront (hg.trans hh)
      | new hnone _ => exact absurd hfront' (hnone _ _)
  | new hnone hg =>
      have hsame : gap.left ++ [f.size] ++ gap.right = left ++ gap.right := by
        rw [← hchildren, hg.children_eq, if_pos rfl, List.append_assoc, List.singleton_append]
      have hleft : gap.left ++ [f.size] = left := List.append_cancel_right hsame
      have hfront : g.InFront ⟨gap.parent, left, gap.right⟩ f.size first :=
        ⟨by rw [← hleft]; exact List.getLast?_concat,
          text?_eq_some_iff.2 (by rw [hg.content?_eq, if_pos rfl])⟩
      cases hh with
      | extended hlast hh =>
          obtain ⟨rfl, rfl⟩ := hfront.unique hlast
          exact .new hnone (hg.trans hh)
      | new hnone' _ => exact absurd hfront (hnone' _ _)

/-! ### Where text is inserted -/

theorem contentChanged_setContent (hn : n < f.size) (content : Content) :
    ContentChanged f (f.setContent n content) n content := by
  refine ⟨size_setContent f n content, parent?_setContent f n content,
    children_setContent f n content, fun m => ?_⟩
  rw [content?_setContent]
  by_cases hm : m = n
  · subst hm
    simp [hn]
  · simp [hm, Ne.symm hm]

/-- A node that is new to the forest is put into the gap. -/
theorem nodeAdded_place (hf : f.WellFormed) (hgap : f.HasGap gap) (content : Content)
    {change : List NodeId → List NodeId}
    (hchange : change (gap.left ++ gap.right) = gap.left ++ f.size :: gap.right) :
    NodeAdded f ((f.add content).place gap.parent f.size change) gap content := by
  have hlt : f.size < (f.add content).size := by simp
  have hp : gap.parent < (f.add content).size := Nat.lt_trans hgap.parent_lt_size hlt
  refine ⟨by simp, fun m => ?_, fun m => ?_, fun m => ?_⟩
  · rw [parent?_place _ _ _ _ hlt, parent?_add]
  · have hold : (f.children m).filter (· != f.size) = f.children m := by
      refine List.filter_eq_self.2 fun c hc => ?_
      rw [bne_iff_ne]
      exact Nat.ne_of_lt (hf.lt_size_of_child hc)
    rw [children_place _ _ _ _ (hf.add content) hp, children_add, hold]
    by_cases hm : m = gap.parent
    · rw [if_pos hm.symm, if_pos hm, hm, hgap.children_eq, hchange]
    · rw [if_neg (Ne.symm hm), if_neg hm]
  · rw [content?_place, content?_add]

/-- Text goes to the text before the gap, or a node that was put there has it. -/
theorem textPut_of_nodeAdded {added : String} (hplaced : NodeAdded f g gap (.text added)) :
    TextPut f (match f.extendText? gap.left.getLast? added with
      | some extended => extended
      | none => g) gap added := by
  split
  · rename_i extended hextended
    obtain ⟨t, ht, hextended⟩ := Option.bind_eq_some_iff.1 hextended
    obtain ⟨text, htext, rfl⟩ := Option.map_eq_some_iff.1 hextended
    have hlt : t < f.size := lt_size_of_content? (text?_eq_some_iff.1 htext)
    exact .extended ⟨ht, htext⟩ (contentChanged_setContent hlt _)
  · rename_i hnone
    refine .new (fun t text hfront => ?_) hplaced
    rw [extendText?, hfront.getLast?_left, Option.bind_some, hfront.text?_eq] at hnone
    cases hnone

theorem textPut_insertLast (hf : f.WellFormed) {left : List NodeId}
    (hgap : f.HasGap ⟨p, left, []⟩) (added : String) :
    TextPut f (f.insertLast p (.text added)) ⟨p, left, []⟩ added := by
  have hchildren : f.children p = left := hgap.children_eq.trans (List.append_nil left)
  have hplaced : NodeAdded f ((f.add (.text added)).place p f.size (· ++ [f.size])) ⟨p, left, []⟩
      (.text added) := nodeAdded_place hf hgap _ (by simp)
  rw [insertLast, hchildren]
  exact textPut_of_nodeAdded hplaced

theorem putBefore_append_cons {left : List NodeId} (hs : s ∉ left) (n : NodeId)
    (right : List NodeId) : putBefore s n (left ++ s :: right) = left ++ n :: s :: right := by
  induction left with
  | nil => exact if_pos rfl
  | cons a left ih =>
      rw [List.mem_cons, not_or] at hs
      rw [List.cons_append, putBefore, if_neg (Ne.symm hs.1), ih hs.2, List.cons_append]

theorem itemBefore_append_cons {left : List NodeId} (hs : s ∉ left) (right : List NodeId) :
    itemBefore s (left ++ s :: right) = left.getLast? := by
  induction left with
  | nil => cases right <;> simp [itemBefore]
  | cons a left ih =>
      rw [List.mem_cons, not_or] at hs
      cases left with
      | nil => simp [itemBefore, Ne.symm hs.1]
      | cons b left =>
          have hb : b ≠ s := fun hb => hs.2 (by simp [hb])
          rw [List.cons_append, List.cons_append, itemBefore, if_neg (Ne.symm hs.1), if_neg hb,
            ← List.cons_append, ih hs.2, List.getLast?_cons_cons]

theorem textPut_insertAhead (hf : f.WellFormed) {left right : List NodeId}
    (hgap : f.HasGap ⟨p, left, s :: right⟩) (added : String) :
    TextPut f (f.insertAhead s (.text added)) ⟨p, left, s :: right⟩ added := by
  have hchildren : f.children p = left ++ s :: right := hgap.children_eq
  have hparent : f.parent? s = some p := hf.mem_children_iff.1 (by simp [hchildren])
  have hout : s ∉ left ++ right := (List.nodup_middle.1 (hchildren ▸ hf.nodup_children p)).notMem
  have hs : s ∉ left := fun hmem => hout (List.mem_append_left right hmem)
  have hbefore : f.previousSibling? s = left.getLast? := by
    rw [previousSibling?, hparent, Option.bind_some, hchildren, itemBefore_append_cons hs]
  have hplaced := nodeAdded_place hf hgap (.text added) (putBefore_append_cons hs f.size right)
  have hinsert : ((f.add (.text added)).insertBefore s f.size) =
      (f.add (.text added)).place p f.size (putBefore s f.size) := by
    rw [insertBefore, parent?_add, hparent, place]
  rw [insertAhead, hparent, hbefore]
  dsimp only
  rw [hinsert]
  exact textPut_of_nodeAdded hplaced

/-! ### The text above the gap -/

/-- The text of nodes, one after the other. -/
def textOf (f : Forest) (nodes : List NodeId) : String :=
  String.join (nodes.filterMap f.text?)

theorem textOf_append (f : Forest) (nodes more : List NodeId) :
    f.textOf (nodes ++ more) = f.textOf nodes ++ f.textOf more := by
  rw [textOf, List.filterMap_append, String.join_append]
  rfl

theorem textOf_singleton {text : String} (h : f.text? n = some text) : f.textOf [n] = text := by
  simp [textOf, h]

theorem textOf_congr {nodes : List NodeId} (h : ∀ n ∈ nodes, g.text? n = f.text? n) :
    g.textOf nodes = f.textOf nodes := by
  rw [textOf, List.filterMap_congr h]
  rfl

theorem textContent_eq_textOf (f : Forest) (n : NodeId) :
    f.textContent n = f.textOf (f.preorder n) :=
  rfl

/-- A walk over nodes that have the text they had, but for one. -/
theorem textContent_of_walk {before after : List NodeId} {text : String}
    (hwalk : g.preorder q = before ++ n :: after) (hn : g.text? n = some text)
    (hother : ∀ m ∈ before ++ after, g.text? m = f.text? m) :
    g.textContent q = f.textOf before ++ text ++ f.textOf after := by
  rw [textContent_eq_textOf, hwalk, ← List.singleton_append, textOf_append, textOf_append,
    textOf_singleton hn, textOf_congr fun m hm => hother m (List.mem_append_left after hm),
    textOf_congr fun m hm => hother m (List.mem_append_right before hm), String.append_assoc]

/-- The walk over a node, cut at the gap. -/
structure CutAt (f : Forest) (gap : Gap) (q : NodeId) (before after : List NodeId) : Prop where
  walk_eq : f.preorder q = before ++ after
  before_ends : gap.parent :: gap.left.flatMap f.preorder <:+ before
  after_begins : gap.right.flatMap f.preorder <+: after

/-- The second forest has other children under the node at most. -/
structure ChangedUnder (f g : Forest) (p : NodeId) : Prop where
  wellFormed : g.WellFormed
  size_le : f.size ≤ g.size
  children_eq : ∀ m, m ≠ p → g.children m = f.children m

theorem ChangedUnder.refl (hf : f.WellFormed) (p : NodeId) : ChangedUnder f f p :=
  ⟨hf, Nat.le_refl _, fun _ _ => rfl⟩

theorem ChangedUnder.preorder_eq (hf : f.WellFormed) (hg : ChangedUnder f g p) (hn : n < f.size)
    (hnot : ¬ f.Below p n) : g.preorder n = f.preorder n := by
  refine induction_children (P := fun n => ¬ f.Below p n → g.preorder n = f.preorder n) hf ?_ hn
    hnot
  intro n hn ih hnot
  have hne : n ≠ p := fun hnp => hnot (hnp ▸ Relation.ReflTransGen.refl)
  rw [Forest.preorder_eq hg.wellFormed (Nat.lt_of_lt_of_le hn hg.size_le), Forest.preorder_eq hf hn,
    hg.children_eq n hne]
  congr 1
  refine List.flatMap_congr fun c hc => ih c hc fun hpc => hnot ?_
  exact hpc.trans (below_of_mem_children hf hc)

/-- **A change under a node changes the walk only where that node comes in it.** -/
theorem exists_around (hf : f.WellFormed) (hq : f.Below p q) :
    ∃ outer outer', ∀ g, ChangedUnder f g p →
      g.preorder q = outer ++ g.preorder p ++ outer' := by
  induction hq with
  | refl => exact ⟨[], [], fun g _ => by rw [List.nil_append, List.append_nil]⟩
  | @tail c q hpc hcq ih =>
      obtain ⟨outer, outer', haround⟩ := ih
      have hc : c ∈ f.children q := hf.mem_children_iff.2 hcq
      obtain ⟨left, right, hchildren⟩ := List.append_of_mem hc
      refine ⟨q :: left.flatMap f.preorder ++ outer, outer' ++ right.flatMap f.preorder,
        fun g hg => ?_⟩
      have hne : q ≠ p := by
        rintro rfl
        exact not_below_child hf hc hpc
      have hout : c ∉ left ++ right :=
        (List.nodup_middle.1 (hchildren ▸ hf.nodup_children q)).notMem
      -- the siblings of the child that the way up goes by are not above the node
      have hsibling : ∀ d ∈ left ++ right, g.preorder d = f.preorder d := by
        intro d hd
        have hchild : d ∈ f.children q := by
          rw [hchildren, List.perm_middle.mem_iff]
          exact List.mem_cons_of_mem c hd
        refine hg.preorder_eq hf (hf.lt_size_of_child hchild) fun hpd => hout ?_
        rwa [← eq_of_below_children hf hchild hc hpd hpc]
      have hlt : q < g.size :=
        Nat.lt_of_lt_of_le (lt_size_of_mem_children hc) hg.size_le
      rw [Forest.preorder_eq hg.wellFormed hlt, hg.children_eq q hne, hchildren,
        List.flatMap_append, List.flatMap_cons, haround g hg,
        List.flatMap_congr fun d hd => hsibling d (List.mem_append_left _ hd),
        List.flatMap_congr fun d hd => hsibling d (List.mem_append_right _ hd)]
      simp only [List.cons_append, List.append_assoc]

theorem TextPut.changedUnder {added : String} (hwell : g.WellFormed) (hg : TextPut f g gap added) :
    ChangedUnder f g gap.parent := by
  refine ⟨hwell, hg.size_le, fun m hm => ?_⟩
  cases hg with
  | extended _ hg => exact hg.children_eq m
  | new _ hg => rw [hg.children_eq, if_neg hm]

theorem HasGap.preorder_eq (hf : f.WellFormed) (hgap : f.HasGap gap) :
    f.preorder gap.parent =
      gap.parent :: gap.left.flatMap f.preorder ++ gap.right.flatMap f.preorder := by
  rw [Forest.preorder_eq hf hgap.parent_lt_size, hgap.children_eq, List.flatMap_append,
    List.cons_append]

/-- A walk that goes around the gap is cut by it. -/
theorem CutAt.of_around (hf : f.WellFormed) (hgap : f.HasGap gap) {outer outer' : List NodeId}
    (h : f.preorder q = outer ++ f.preorder gap.parent ++ outer') :
    f.CutAt gap q (outer ++ gap.parent :: gap.left.flatMap f.preorder)
      (gap.right.flatMap f.preorder ++ outer') := by
  refine ⟨?_, List.suffix_append _ _, List.prefix_append _ _⟩
  rw [h, hgap.preorder_eq hf]
  simp only [List.cons_append, List.append_assoc]

theorem lt_size_of_below_gap (hf : f.WellFormed) (hgap : f.HasGap gap)
    (hq : f.Below gap.parent q) : q < f.size := by
  rcases Relation.ReflTransGen.cases_tail hq with heq | ⟨c, -, hc⟩
  · exact heq ▸ hgap.parent_lt_size
  · exact lt_size_of_mem_children (hf.mem_children_iff.2 hc)

theorem ContentChanged.text?_eq {text : String} (hg : ContentChanged f g t (.text text))
    (n : NodeId) : g.text? n = if n = t then some text else f.text? n := by
  rw [text?, hg.content?_eq]
  split <;> rfl

theorem NodeAdded.text?_eq {text : String} (hg : NodeAdded f g gap (.text text)) (n : NodeId) :
    g.text? n = if n = f.size then some text else f.text? n := by
  rw [text?, hg.content?_eq]
  split <;> rfl

/-- The text before the gap ends the walk up to it. -/
theorem ContentChanged.textContent_eq {text added : String} (hf : f.WellFormed)
    (hends : f.DataAtEnds) (hg : ContentChanged f g t (.text (text ++ added)))
    (hfront : f.InFront gap t text) {before after : List NodeId}
    (hcut : f.CutAt gap q before after) :
    g.textContent q = f.textOf before ++ added ++ f.textOf after := by
  have hcontent : f.content? t = some (.text text) := text?_eq_some_iff.1 hfront.text?_eq
  have hleaf : f.preorder t = [t] := by
    rw [Forest.preorder_eq hf (lt_size_of_content? hcontent), hends t _ hcontent rfl,
      List.flatMap_nil]
  obtain ⟨left, hleft⟩ := List.getLast?_eq_some_iff.1 hfront.getLast?_left
  obtain ⟨outer, houter⟩ := hcut.before_ends
  obtain ⟨before', rfl⟩ : ∃ before', before = before' ++ [t] := by
    refine ⟨outer ++ gap.parent :: left.flatMap f.preorder, ?_⟩
    rw [← houter, hleft, List.flatMap_append, List.flatMap_singleton, hleaf]
    simp only [List.append_assoc, List.cons_append]
  have hwalk : f.preorder q = before' ++ t :: after := by
    rw [hcut.walk_eq, List.append_assoc, List.singleton_append]
  -- the text node comes once only
  have hout : t ∉ before' ++ after := (List.nodup_middle.1 (hwalk ▸ nodup_preorder hf q)).notMem
  have hother : ∀ m ∈ before' ++ after, g.text? m = f.text? m := by
    intro m hm
    rw [hg.text?_eq, if_neg]
    rintro rfl
    exact hout hm
  have hsame : g.preorder q = f.preorder q := preorder_congr hg.size_eq hg.children_eq q
  rw [textContent_of_walk (hsame.trans hwalk) (by rw [hg.text?_eq, if_pos rfl]) hother,
    textOf_append, textOf_singleton hfront.text?_eq, String.append_assoc, String.append_assoc,
    String.append_assoc, String.append_assoc]

/-- The new node stands in the walk where the gap was. -/
theorem NodeAdded.preorder_eq {content : Content} (hf : f.WellFormed) (hgap : f.HasGap gap)
    (hwell : g.WellFormed) (hg : NodeAdded f g gap content) :
    g.preorder gap.parent =
      gap.parent :: gap.left.flatMap f.preorder ++ f.size :: gap.right.flatMap f.preorder := by
  have hunder : ChangedUnder f g gap.parent :=
    ⟨hwell, hg.size_eq ▸ Nat.le_succ _, fun m hm => by rw [hg.children_eq, if_neg hm]⟩
  have hchild : ∀ c ∈ gap.left ++ gap.right, g.preorder c = f.preorder c := by
    intro c hc
    rw [← hgap.children_eq] at hc
    exact hunder.preorder_eq hf (hf.lt_size_of_child hc) (not_below_child hf hc)
  have hleaf : g.preorder f.size = [f.size] := by
    have hlt : f.size < g.size := hg.size_eq ▸ Nat.lt_succ_self _
    rw [Forest.preorder_eq hwell hlt, hg.children_eq, if_neg (Nat.ne_of_gt hgap.parent_lt_size),
      children_eq_nil (Nat.le_refl _), List.flatMap_nil]
  rw [Forest.preorder_eq hwell (Nat.lt_of_lt_of_le hgap.parent_lt_size hunder.size_le),
    hg.children_eq, if_pos rfl, List.flatMap_append, List.flatMap_cons, hleaf,
    List.flatMap_congr fun c hc => hchild c (List.mem_append_left _ hc),
    List.flatMap_congr fun c hc => hchild c (List.mem_append_right _ hc)]
  rfl

/-- **Text that is put into a gap is put into the text of the nodes above it**, at the gap. -/
theorem TextPut.textContent_above {added : String} (hf : f.WellFormed) (hends : f.DataAtEnds)
    (hgap : f.HasGap gap) (hwell : g.WellFormed) (hg : TextPut f g gap added)
    (hq : f.Below gap.parent q) : ∃ before after, f.CutAt gap q before after ∧
      g.textContent q = f.textOf before ++ added ++ f.textOf after := by
  obtain ⟨outer, outer', haround⟩ := exists_around hf hq
  have hcut := CutAt.of_around hf hgap (haround f (ChangedUnder.refl hf _))
  have hwalk := haround g (hg.changedUnder hwell)
  refine ⟨_, _, hcut, ?_⟩
  cases hg with
  | extended hfront hg => exact hg.textContent_eq hf hends hfront hcut
  | new _ hg =>
      rw [hg.preorder_eq hf hgap hwell] at hwalk
      refine textContent_of_walk (n := f.size) (hwalk.trans ?_) (by rw [hg.text?_eq, if_pos rfl])
        fun m hm => ?_
      · simp only [List.cons_append, List.append_assoc]
      · rw [← hcut.walk_eq] at hm
        have hlt := lt_size_of_mem_preorder hf (lt_size_of_below_gap hf hgap hq) hm
        rw [hg.text?_eq, if_neg (Nat.ne_of_lt hlt)]

theorem TextPut.textContent_elsewhere {added : String} (hf : f.WellFormed) (hgap : f.HasGap gap)
    (hwell : g.WellFormed) (hg : TextPut f g gap added) (hm : m < f.size)
    (habove : ¬ f.Below gap.parent m) (hfront : ∀ text, ¬ f.InFront gap m text) :
    g.textContent m = f.textContent m := by
  rw [textContent_eq_textOf, textContent_eq_textOf,
    (hg.changedUnder hwell).preorder_eq hf hm habove]
  refine textOf_congr fun n hn => ?_
  cases hg with
  | new _ hg => rw [hg.text?_eq, if_neg (Nat.ne_of_lt (lt_size_of_mem_preorder hf hm hn))]
  | @extended t text ht hg =>
      rw [hg.text?_eq, if_neg]
      rintro rfl
      have hchild : n ∈ f.children gap.parent := by
        rw [hgap.children_eq]
        exact List.mem_append_left _ (List.mem_of_getLast? ht.getLast?_left)
      rcases below_parent_of_below_child hf hchild ((mem_preorder_iff hf hm).1 hn) with rfl | habove'
      · exact hfront _ ht
      · exact habove habove'

/-! ### Insertion -/

/-- What text that was put into a gap has changed. -/
structure TextInserted (f g : Forest) (gap : Gap) (added : String) : Prop where
  wellFormed : g.WellFormed
  put : TextPut f g gap added
  /-- The gap cuts the text of a node above it in two, and there it stands. -/
  textContent_above : ∀ q, f.Below gap.parent q → ∃ before after, f.CutAt gap q before after ∧
    f.textContent q = f.textOf before ++ f.textOf after ∧
    g.textContent q = f.textOf before ++ added ++ f.textOf after
  /-- All other nodes have the text they had, if it is not the text before the gap that took it
  in. -/
  textContent_elsewhere : ∀ m < f.size, ¬ f.Below gap.parent m →
    (∀ text, ¬ f.InFront gap m text) → g.textContent m = f.textContent m

/-- A way of inserting text that puts it into the gap, in one piece or in chunks. -/
structure InsertsText (insert : Forest → String → Forest) (f : Forest) (gap : Gap) : Prop where
  inserted : ∀ added, TextInserted f (insert f added) gap added
  two_chunks : ∀ first second, insert (insert f first) second = insert f (first ++ second)
  chunks : ∀ first more,
    more.foldl insert (insert f first) = insert f (String.join (first :: more))

theorem TextPut.textInserted {added : String} (hf : f.WellFormed) (hends : f.DataAtEnds)
    (hgap : f.HasGap gap) (hwell : g.WellFormed) (hg : TextPut f g gap added) :
    TextInserted f g gap added where
  wellFormed := hwell
  put := hg
  textContent_above q hq := by
    obtain ⟨before, after, hcut, htext⟩ := hg.textContent_above hf hends hgap hwell hq
    refine ⟨before, after, hcut, ?_, htext⟩
    rw [textContent_eq_textOf, hcut.walk_eq, textOf_append]
  textContent_elsewhere _ := hg.textContent_elsewhere hf hgap hwell

/-- If two chunks make one text, any number of them do. -/
theorem foldl_insert {insert : Forest → String → Forest}
    (h : ∀ first second, insert (insert f first) second = insert f (first ++ second))
    (first : String) (more : List String) :
    more.foldl insert (insert f first) = insert f (String.join (first :: more)) := by
  induction more generalizing first with
  | nil => simp
  | cons second more ih =>
      rw [List.foldl_cons, h, ih]
      simp only [String.join_cons, String.append_assoc]

/-- What puts text into a gap, and then into the gap that is left behind the text, takes chunks. -/
theorem insertsText_of_textPut {insert : Forest → String → Forest} (hf : f.WellFormed)
    (hends : f.DataAtEnds) (hgap : f.HasGap gap) (hwell : ∀ added, (insert f added).WellFormed)
    (hput : ∀ added, TextPut f (insert f added) gap added)
    (hagain : ∀ first second left, (insert f first).HasGap ⟨gap.parent, left, gap.right⟩ →
      TextPut (insert f first) (insert (insert f first) second) ⟨gap.parent, left, gap.right⟩
        second) :
    InsertsText insert f gap := by
  have htwo : ∀ first second, insert (insert f first) second = insert f (first ++ second) := by
    intro first second
    obtain ⟨left, hgap'⟩ := (hput first).exists_hasGap hgap
    have hboth := (hput first).append hgap hgap' (hagain first second left hgap')
    exact hboth.unique (hput (first ++ second))
  exact ⟨fun added => (hput added).textInserted hf hends hgap (hwell added), htwo,
    foldl_insert htwo⟩

section Insert

variable (hf : f.WellFormed) (hends : f.DataAtEnds)
include hf hends

theorem insertsText_insertLast (hp : p < f.size) :
    InsertsText (fun f added => f.insertLast p (.text added)) f ⟨p, f.children p, []⟩ := by
  have hgap : f.HasGap ⟨p, f.children p, []⟩ := ⟨hp, (List.append_nil _).symm⟩
  exact insertsText_of_textPut hf hends hgap (hf.insertLast_text hp) (textPut_insertLast hf hgap)
    fun first second _ hgap' => textPut_insertLast (hf.insertLast_text hp first) hgap' second

theorem insertsText_insertAhead {left right : List NodeId}
    (hgap : f.HasGap ⟨p, left, s :: right⟩) :
    InsertsText (fun f added => f.insertAhead s (.text added)) f ⟨p, left, s :: right⟩ :=
  insertsText_of_textPut hf hends hgap (hf.insertAhead_text s) (textPut_insertAhead hf hgap)
    fun first second _ hgap' => textPut_insertAhead (hf.insertAhead_text s first) hgap' second

end Insert

/-- A way of inserting text that is another one as long as a node stays where it is. -/
theorem InsertsText.congr {insert insert' : Forest → String → Forest}
    (h : InsertsText insert f gap) (hn : n < f.size)
    (hsame : ∀ g, g.parent? n = f.parent? n → insert' g = insert g) :
    InsertsText insert' f gap := by
  have hfirst : insert' f = insert f := hsame f rfl
  have hnext : ∀ added, insert' (insert f added) = insert (insert f added) := fun added =>
    hsame _ ((h.inserted added).put.parent?_eq hn)
  have htwo : ∀ first second, insert' (insert' f first) second = insert' f (first ++ second) := by
    intro first second
    rw [hfirst, hnext, h.two_chunks]
  exact ⟨fun added => by rw [hfirst]; exact h.inserted added, htwo, foldl_insert htwo⟩

/-- **Text is inserted as one text, however it is cut into chunks**, behind the last child of a
node, in front of a node that has a parent, and where text goes that may not stand in a table.  Each
time it is put into the one gap that is meant, which is all that is changed. -/
theorem text_insertion (hf : f.WellFormed) (hends : f.DataAtEnds) :
    (∀ p < f.size,
      InsertsText (fun f added => f.insertLast p (.text added)) f ⟨p, f.children p, []⟩) ∧
    (∀ s p, f.parent? s = some p → ∃ left right, f.children p = left ++ s :: right ∧
      InsertsText (fun f added => f.insertAhead s (.text added)) f ⟨p, left, s :: right⟩) ∧
    (∀ table previous,
      (∀ p, f.parent? table = some p → ∃ left right, f.children p = left ++ table :: right ∧
        InsertsText (fun f added => f.insertByTable table previous (.text added)) f
          ⟨p, left, table :: right⟩) ∧
      (f.parent? table = none → table < f.size → previous < f.size →
        InsertsText (fun f added => f.insertByTable table previous (.text added)) f
          ⟨previous, f.children previous, []⟩)) := by
  have hahead : ∀ s p, f.parent? s = some p → ∃ left right, f.children p = left ++ s :: right ∧
      InsertsText (fun f added => f.insertAhead s (.text added)) f ⟨p, left, s :: right⟩ := by
    intro s p hp
    have hs : s ∈ f.children p := hf.mem_children_iff.2 hp
    obtain ⟨left, right, hchildren⟩ := List.append_of_mem hs
    exact ⟨left, right, hchildren,
      insertsText_insertAhead hf hends ⟨lt_size_of_mem_children hs, hchildren⟩⟩
  refine ⟨fun p hp => insertsText_insertLast hf hends hp, hahead,
    fun table previous => ⟨fun p hp => ?_, fun hnone htable hprevious => ?_⟩⟩
  · obtain ⟨left, right, hchildren, hinserts⟩ := hahead table p hp
    refine ⟨left, right, hchildren, hinserts.congr (lt_size_of_parent? hp) fun g hg => ?_⟩
    funext added
    rw [insertByTable, hg, hp]
  · refine (insertsText_insertLast hf hends hprevious).congr htable fun g hg => ?_
    funext added
    rw [insertByTable, hg, hnone]

/-- A page with a table in a paragraph, and a table that is in no tree: the text in front of the
first table goes to the text that stands there, the text by the second one into a new node. -/
theorem text_insertion_by_tables :
    let f : Forest := ⟨#[
      ⟨none, [1], .document⟩,
      ⟨some 0, [2, 3, 4], .element (.ofTag "p")⟩,
      ⟨some 1, [], .text "a"⟩,
      ⟨some 1, [], .element (.ofTag "table")⟩,
      ⟨some 1, [], .comment "c"⟩,
      ⟨none, [], .element (.ofTag "table")⟩]⟩
    f.WellFormed ∧ f.DataAtEnds ∧
      InsertsText (fun f added => f.insertLast 1 (.text added)) f ⟨1, [2, 3, 4], []⟩ ∧
      (∃ left right, f.children 1 = left ++ 3 :: right ∧
        InsertsText (fun f added => f.insertAhead 3 (.text added)) f ⟨1, left, 3 :: right⟩) ∧
      (∃ left right, f.children 1 = left ++ 3 :: right ∧
        InsertsText (fun f added => f.insertByTable 3 1 (.text added)) f ⟨1, left, 3 :: right⟩) ∧
      InsertsText (fun f added => f.insertByTable 5 1 (.text added)) f ⟨1, [2, 3, 4], []⟩ ∧
      (f.insertByTable 3 1 (.text "b")).textContent 0 = "ab" ∧
      (f.insertByTable 3 1 (.text "b")).size = 6 ∧
      (f.insertByTable 5 1 (.text "b")).children 1 = [2, 3, 4, 6] := by
  intro f
  have hf : f.WellFormed := wellFormed_of_forall (by decide)
  have hends : f.DataAtEnds := dataAtEnds_of_forall (by decide)
  obtain ⟨hlast, hahead, hby⟩ := text_insertion hf hends
  exact ⟨hf, hends, hlast 1 (by decide), hahead 3 1 (by decide), (hby 3 1).1 1 (by decide),
    (hby 5 1).2 (by decide) (by decide) (by decide), by decide +kernel, by decide +kernel,
    by decide +kernel⟩

end Forest

end StyleInliner.Dom

/-
Inlining rules as a schedule of edits.

Both passes over a document change elements in place, one at a time, and what an
edit makes of an element depends on that element only.  So a run is told by a
list of edits, each for a node (`inlineRules_toExcept`), and what it makes of a
node is told by the edits for that node alone (`runSchedule_eq_ok_iff`): the run
succeeds just when they do at every element, and leaves what they make of it.  In
what order edits for different nodes come makes no difference.
-/
import StyleInliner.Inline.Document
import StyleInliner.Proofs.Dom.Forest
import StyleInliner.Proofs.Run

namespace StyleInliner.Inline

open StyleInliner.Css StyleInliner.Dom

/-- A change of an element that may fail. -/
abbrev Edit := Element → Except CssError Element

/-- Edits the element that a node is; other nodes have nothing to edit. -/
def editAt (f : Forest) (n : NodeId) (edit : Edit) : Except CssError Forest :=
  match f.element? n with
  | none => .ok f
  | some e => (edit e).map fun e => f.setContent n (.element e)

/-- Edits in their order, each with the node it is for. -/
abbrev Schedule := List (NodeId × Edit)

/-- The edits of a schedule, one after the other. -/
def runSchedule (schedule : Schedule) (f : Forest) : Except CssError Forest :=
  schedule.foldlM (fun f entry => editAt f entry.1 entry.2) f

/-- The edits of a schedule that are for one node, one after the other. -/
def editOf (schedule : Schedule) (n : NodeId) : Edit := fun e =>
  schedule.foldlM (fun e entry => if entry.1 = n then entry.2 e else .ok e) e

/-- Two forests that differ in their elements only, and there by a relation. -/
structure Edited (f g : Forest) (R : NodeId → Element → Element → Prop) : Prop where
  size_eq : g.size = f.size
  parent?_eq : ∀ n, g.parent? n = f.parent? n
  children_eq : ∀ n, g.children n = f.children n
  element : ∀ n e, f.element? n = some e → ∃ e', g.element? n = some e' ∧ R n e e'
  other : ∀ n, f.element? n = none → g.content? n = f.content? n

namespace Edited

variable {f g : Forest} {R S : NodeId → Element → Element → Prop}

theorem mono (h : Edited f g R) (hRS : ∀ n e, f.element? n = some e → ∀ e', R n e e' → S n e e') :
    Edited f g S := by
  refine ⟨h.size_eq, h.parent?_eq, h.children_eq, ?_, h.other⟩
  intro n e he
  obtain ⟨e', he', hR⟩ := h.element n e he
  exact ⟨e', he', hRS n e he e' hR⟩

theorem eq (h : Edited f g fun _ e e' => e' = e) : g = f := by
  refine Forest.ext_of h.size_eq h.parent?_eq h.children_eq fun n => ?_
  cases he : f.element? n with
  | none => exact h.other n he
  | some e =>
      obtain ⟨e', he', rfl⟩ := h.element n e he
      rw [Forest.element?_eq_some_iff.1 he, Forest.element?_eq_some_iff.1 he']

theorem refl (f : Forest) : Edited f f fun _ e e' => e' = e :=
  ⟨rfl, fun _ => rfl, fun _ => rfl, fun _ e he => ⟨e, he, rfl⟩, fun _ _ => rfl⟩

theorem element?_eq_none (h : Edited f g R) {n : NodeId} (he : f.element? n = none) :
    g.element? n = none := by
  rw [Forest.element?, h.other n he]
  exact he

theorem isSome_element? (h : Edited f g R) (n : NodeId) :
    (g.element? n).isSome = (f.element? n).isSome := by
  cases he : f.element? n with
  | none => rw [h.element?_eq_none he]
  | some e =>
      obtain ⟨e', he', -⟩ := h.element n e he
      rw [he']
      rfl

theorem trans (hfg : Edited f g R) {k : Forest} (hgk : Edited g k S) :
    Edited f k fun n e e'' => ∃ e', R n e e' ∧ S n e' e'' := by
  refine ⟨hgk.size_eq.trans hfg.size_eq, fun n => (hgk.parent?_eq n).trans (hfg.parent?_eq n),
    fun n => (hgk.children_eq n).trans (hfg.children_eq n), ?_, ?_⟩
  · intro n e he
    obtain ⟨e', he', hR⟩ := hfg.element n e he
    obtain ⟨e'', he'', hS⟩ := hgk.element n e' he'
    exact ⟨e'', he'', e', hR, hS⟩
  · intro n he
    exact (hgk.other n (hfg.element?_eq_none he)).trans (hfg.other n he)

/-- What is left of an edit when its first part is done. -/
theorem cancel {T : NodeId → Element → Element → Prop} (hfg : Edited f g R) {k : Forest}
    (hfk : Edited f k T) (hrest : ∀ n e e' e'', R n e e' → T n e e'' → S n e' e'') :
    Edited g k S := by
  refine ⟨hfk.size_eq.trans hfg.size_eq.symm,
    fun n => (hfk.parent?_eq n).trans (hfg.parent?_eq n).symm,
    fun n => (hfk.children_eq n).trans (hfg.children_eq n).symm, ?_, ?_⟩
  · intro n e' he'
    cases he : f.element? n with
    | none =>
        rw [hfg.element?_eq_none he] at he'
        cases he'
    | some e =>
        obtain ⟨x, hx, hR⟩ := hfg.element n e he
        obtain rfl := Option.some.inj (hx.symm.trans he')
        obtain ⟨e'', he'', hT⟩ := hfk.element n e he
        exact ⟨e'', he'', hrest n e x e'' hR hT⟩
  · intro n hnone
    have he : f.element? n = none := by
      rw [← Option.not_isSome_iff_eq_none, ← hfg.isSome_element?, hnone]
      simp
    exact (hfk.other n he).trans (hfg.other n he).symm

end Edited

/-! ### Node by node -/

theorem editOf_cons (n m : NodeId) (edit : Edit) (schedule : Schedule) (e : Element) :
    editOf ((m, edit) :: schedule) n e =
      (if m = n then edit e else .ok e) >>= editOf schedule n := rfl

theorem editOf_append (s t : Schedule) (n : NodeId) (e : Element) :
    editOf (s ++ t) n e = editOf s n e >>= editOf t n := by
  rw [editOf, List.foldlM_append]
  rfl

/-- An edit changes the element it is for. -/
theorem edited_of_editAt {f g : Forest} {n : NodeId} {edit : Edit} (h : editAt f n edit = .ok g) :
    Edited f g fun m e e' => (if n = m then edit e else .ok e) = .ok e' := by
  unfold editAt at h
  split at h
  · rename_i hnone
    cases h
    refine (Edited.refl f).mono ?_
    rintro m e he e' rfl
    rw [if_neg]
    rintro rfl
    rw [hnone] at he
    cases he
  · rename_i e he
    obtain ⟨e', he', rfl⟩ := map_eq_ok_iff.1 h
    have hlt := Forest.lt_size_of_element? he
    refine ⟨by simp, by simp, by simp, ?_, ?_⟩
    · intro m x hx
      rw [Forest.element?_setContent]
      by_cases hm : n = m
      · subst hm
        obtain rfl := Option.some.inj (he.symm.trans hx)
        exact ⟨e', by simp [hlt, Content.element?], by simp [he']⟩
      · exact ⟨x, by simp [hm, hx], by simp [hm]⟩
    · intro m hm
      rw [Forest.content?_setContent, if_neg]
      rintro ⟨rfl, -⟩
      rw [he] at hm
      cases hm

/-- **A run does to each node what the edits for it do.** -/
theorem runSchedule_eq_ok_iff {schedule : Schedule} {f g : Forest} :
    runSchedule schedule f = .ok g ↔
      Edited f g fun n e e' => editOf schedule n e = .ok e' := by
  induction schedule generalizing f with
  | nil =>
      constructor
      · intro h
        obtain rfl : f = g := Except.ok.inj h
        refine (Edited.refl f).mono ?_
        rintro n e - e' rfl
        rfl
      · intro h
        rw [(h.mono fun n e _ e' he => (Except.ok.inj he).symm).eq]
        rfl
  | cons entry schedule ih =>
      obtain ⟨m, edit⟩ := entry
      rw [runSchedule, List.foldlM_cons, bind_eq_ok_iff]
      constructor
      · rintro ⟨f', hf', hrun⟩
        refine ((edited_of_editAt hf').trans (ih.1 hrun)).mono ?_
        rintro n e - e' ⟨x, hx, he'⟩
        rw [editOf_cons, hx]
        exact he'
      · intro h
        obtain ⟨f', hf'⟩ : ∃ f', editAt f m edit = .ok f' := by
          unfold editAt
          cases he : f.element? m with
          | none => exact ⟨f, rfl⟩
          | some e =>
              obtain ⟨e', -, hedit⟩ := h.element m e he
              rw [editOf_cons, if_pos rfl] at hedit
              obtain ⟨x, hx, -⟩ := bind_eq_ok_iff.1 hedit
              exact ⟨f.setContent m (.element x), map_eq_ok_iff.2 ⟨x, hx, rfl⟩⟩
        refine ⟨f', hf', ih.2 ((edited_of_editAt hf').cancel h ?_)⟩
        intro n e e' e'' he' he''
        rwa [editOf_cons, he'] at he''

/-! ### The passes -/

/-- The edits of the rules for one tag. -/
def tagEdits (rules : Dictionary) (index : Index) (tag : String) : Schedule :=
  match rules.get? tag with
  | none => []
  | some ds => (index.byTag tag).map fun n => (n, (applyDeclarations · ds))

/-- The edit of the rules for one class. -/
def classEdit (rules : Dictionary) (matchable : Matchable) (name : String) : Edit := fun e =>
  if matchable.classes.contains name then
    match rules.getClass? name with
    | none => .ok e
    | some ds => applyDeclarations e ds
  else .ok e

/-- The edit of the rules for all classes of an element. -/
def classesEdit (rules : Dictionary) (matchable : Matchable) (remove : Bool) : Edit := fun e => do
  let e ← (classesOf ((e.attribute? "class").getD "")).foldlM
    (fun e name => classEdit rules matchable name e) e
  return if remove then e.removeAttribute "class" else e

/-- The edits of both passes. -/
def passes (rules : Dictionary) (matchable : Matchable) (index : Index) (remove : Bool) :
    Schedule :=
  matchable.tags.flatMap (tagEdits rules index) ++
    index.classed.map fun n => (n, classesEdit rules matchable remove)

theorem toExcept_applyTo (ds : List Declaration) (f : Forest) (n : NodeId) :
    (applyTo ds f n).toExcept = editAt f n (applyDeclarations · ds) := by
  unfold applyTo editAt
  cases f.element? n <;> simp

theorem toExcept_inlineTag (rules : Dictionary) (index : Index) (f : Forest) (tag : String) :
    (inlineTag rules index f tag).toExcept = runSchedule (tagEdits rules index tag) f := by
  unfold inlineTag tagEdits
  cases rules.get? tag with
  | none => rfl
  | some ds =>
      rw [Run.toExcept_forEach, runSchedule, List.foldlM_map]
      simp only [toExcept_applyTo]

/-- An edit that leaves every element alone leaves the forest alone. -/
theorem editAt_ok (f : Forest) (n : NodeId) : editAt f n .ok = .ok f := by
  unfold editAt
  cases he : f.element? n with
  | none => rfl
  | some e =>
      show Except.ok (f.setContent n (.element e)) = .ok f
      rw [Forest.setContent_self he]

/-- Two edits of one node are one edit. -/
theorem editAt_bind (f : Forest) (n : NodeId) (first second : Edit) :
    (editAt f n first >>= fun f => editAt f n second) =
      editAt f n fun e => first e >>= second := by
  unfold editAt
  cases he : f.element? n with
  | none =>
      show editAt f n second = .ok f
      rw [editAt, he]
  | some e =>
      simp only
      cases hfirst : first e with
      | error fault => rfl
      | ok e' =>
          have hlt := Forest.lt_size_of_element? he
          show editAt (f.setContent n (.element e')) n second = (second e').map _
          rw [editAt, Forest.element?_setContent, if_pos ⟨rfl, hlt⟩]
          simp only [Content.element?, Forest.setContent_setContent]

/-- So are several. -/
theorem foldlM_editAt (f : Forest) (n : NodeId) {α : Type} (edit : α → Edit) (l : List α) :
    l.foldlM (fun f a => editAt f n (edit a)) f =
      editAt f n fun e => l.foldlM (fun e a => edit a e) e := by
  induction l generalizing f with
  | nil => exact (editAt_ok f n).symm
  | cons a l ih =>
      rw [List.foldlM_cons]
      simp only [ih, editAt_bind, List.foldlM_cons]

theorem toExcept_inlineClass (rules : Dictionary) (matchable : Matchable) (n : NodeId)
    (f : Forest) (name : String) :
    (inlineClass rules matchable n f name).toExcept =
      editAt f n (classEdit rules matchable name) := by
  unfold inlineClass classEdit
  by_cases hname : matchable.classes.contains name
  · simp only [hname, if_true]
    cases rules.getClass? name with
    | none => exact (editAt_ok f n).symm
    | some ds => exact toExcept_applyTo ds f n
  · simp only [hname]
    exact (editAt_ok f n).symm

theorem toExcept_inlineClasses (rules : Dictionary) (matchable : Matchable) (remove : Bool)
    (f : Forest) (n : NodeId) :
    (inlineClasses rules matchable remove f n).toExcept =
      editAt f n (classesEdit rules matchable remove) := by
  have hremove : ∀ g : Forest, (Except.ok (if remove then g.modifyElement n
      (·.removeAttribute "class") else g) : Except CssError Forest) =
      editAt g n fun e => .ok (if remove then e.removeAttribute "class" else e) := by
    intro g
    cases remove with
    | false => exact (editAt_ok g n).symm
    | true =>
        unfold Forest.modifyElement editAt
        cases g.element? n <;> rfl
  unfold inlineClasses
  simp only [Run.toExcept_andThen, Run.toExcept_forEach, toExcept_inlineClass, foldlM_editAt,
    Run.toExcept_done, hremove, editAt_bind]
  -- the classes are those the element lists before its edits
  unfold editAt classesEdit
  cases f.element? n <;> rfl

/-- The first pass is running the edits of one tag after the other. -/
theorem toExcept_inlineTags (rules : Dictionary) (index : Index) (f : Forest)
    (tags : List String) :
    (Run.forEach (inlineTag rules index) f tags).toExcept =
      runSchedule (tags.flatMap (tagEdits rules index)) f := by
  rw [Run.toExcept_forEach]
  simp only [toExcept_inlineTag]
  induction tags generalizing f with
  | nil => rfl
  | cons tag tags ih =>
      rw [List.foldlM_cons, List.flatMap_cons, runSchedule, runSchedule, List.foldlM_append]
      simp only [ih]
      rfl

/-- **Inlining rules is running the edits of both passes.** -/
theorem toExcept_inlineRules (rules : Dictionary) (matchable : Matchable) (index : Index)
    (remove : Bool) (f : Forest) :
    (inlineRules rules matchable index remove f).toExcept =
      runSchedule (passes rules matchable index remove) f := by
  unfold inlineRules passes
  rw [Run.toExcept_andThen, toExcept_inlineTags]
  simp only [Run.toExcept_forEach, toExcept_inlineClasses]
  rw [runSchedule, runSchedule, List.foldlM_append]
  simp only [List.foldlM_map]

/-! ### What every edit keeps -/

/-- The keys that a dictionary is asked for. -/
def Matchable.keys (m : Matchable) : List String :=
  m.tags ++ m.classes.map ("." ++ ·)

section Keeps

variable {R : Element → Element → Prop} (hrefl : ∀ e, R e e)
  (htrans : ∀ {a b c}, R a b → R b c → R a c) {rules : Dictionary} {m : Matchable}
  (happly : ∀ key ∈ m.keys, ∀ ds, rules.get? key = some ds →
    ∀ e e', applyDeclarations e ds = .ok e' → R e e')
  {index : Index} {n : NodeId} {e e' : Element}

include hrefl htrans happly in
/-- What applying declarations keeps, the rules for tags keep. -/
theorem rel_of_tagEdits (h : editOf (m.tags.flatMap (tagEdits rules index)) n e = .ok e') :
    R e e' := by
  refine rel_of_foldlM hrefl htrans ?_ h
  rintro ⟨k, edit⟩ hentry e e' hedit
  dsimp only at hedit
  split at hedit
  · obtain ⟨tag, htag, hmem⟩ := List.mem_flatMap.1 hentry
    unfold tagEdits at hmem
    split at hmem
    · cases hmem
    · rename_i ds hds
      obtain ⟨_, -, heq⟩ := List.mem_map.1 hmem
      cases heq
      exact happly tag (List.mem_append_left _ htag) ds hds e e' hedit
  · exact Except.ok.inj hedit ▸ hrefl e

include hrefl htrans happly in
/-- The rules for the classes of an element keep it, too. -/
theorem rel_of_classEdits {names : List String}
    (h : names.foldlM (fun e name => classEdit rules m name e) e = .ok e') : R e e' := by
  refine rel_of_foldlM hrefl htrans ?_ h
  intro name _ e e' hedit
  unfold classEdit at hedit
  split at hedit
  · rename_i hname
    have hkey : "." ++ name ∈ m.classes.map ("." ++ ·) :=
      List.mem_map_of_mem (List.contains_iff_mem.1 hname)
    split at hedit
    · exact Except.ok.inj hedit ▸ hrefl e
    · rename_i ds hds
      exact happly _ (List.mem_append_right _ hkey) ds hds e e' hedit
  · exact Except.ok.inj hedit ▸ hrefl e

include hrefl htrans happly in
/-- **What applying declarations keeps, and taking out the class attribute, all the passes
keep.** -/
theorem rel_of_passes (hremove : ∀ e, R e (e.removeAttribute "class")) {remove : Bool}
    (h : editOf (passes rules m index remove) n e = .ok e') : R e e' := by
  rw [passes, editOf_append] at h
  obtain ⟨mid, hmid, h⟩ := bind_eq_ok_iff.1 h
  refine htrans (rel_of_tagEdits hrefl htrans happly hmid) (rel_of_foldlM hrefl htrans ?_ h)
  rintro ⟨k, edit⟩ hentry e e' hedit
  dsimp only at hedit
  split at hedit
  · obtain ⟨_, -, heq⟩ := List.mem_map.1 hentry
    cases heq
    obtain ⟨mid, hmid, hedit⟩ := bind_eq_ok_iff.1 hedit
    obtain rfl := Except.ok.inj hedit
    refine htrans (rel_of_classEdits hrefl htrans happly hmid) ?_
    split
    · exact hremove mid
    · exact hrefl mid
  · exact Except.ok.inj hedit ▸ hrefl e

end Keeps

end StyleInliner.Inline

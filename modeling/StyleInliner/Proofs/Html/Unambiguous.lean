/-
What is written tells the tree.

Every part of a tree ends where the text itself says so: a name at a blank or a
bracket, a value at its quote, a text at the next tag, a comment at its end mark, and
the children of an element at an end tag, which no child begins like.  So a part can
be cancelled from the front of a text, and what stands behind it is the same on both
sides (`Told`).

For that the parts must not have in them what ends them.  Texts and values never do,
because they are written with references (`Safe`); of names and comments it is asked
(`Legible`).
-/
import Mathlib.Data.List.Chain
import Mathlib.Data.List.Infix
import StyleInliner.Proofs.Html.StartTag

namespace StyleInliner.Html

open StyleInliner.Dom

/-! ### Legible trees -/

/-- A name that is not empty, with no space and no character that markup is made of. -/
def PlainName (name : String) : Prop :=
  name ≠ "" ∧
    ∀ c ∈ name.toList, isSpace c = false ∧ c ∉ ['<', '>', '/', '=', '"', '\'', '&', '!', '?']

instance (name : String) : Decidable (PlainName name) :=
  @instDecidableAnd _ _ inferInstance (List.decidableBAll _ name.toList)

/-- Whether the topmost node of a tree is a text. -/
def isText (t : Tree) : Bool :=
  t.content.text?.isSome

/-- The mark at which a comment ends. -/
def commentEnd : List Char :=
  ['-', '-', '>']

/-- Trees of texts, comments and HTML elements with an end tag and escaped content, as they can be
read back: names are plain, no comment has the end mark in it, and texts are neither empty nor side
by side. -/
inductive Legible : Tree → Prop
  | text {s : String} (ne_empty : s ≠ "") : Legible (.node (.text s) [])
  | comment {s : String} (unmarked : ¬ commentEnd <:+: s.toList) : Legible (.node (.comment s) [])
  | element {e : Element} {children : List Tree} (ns_eq : e.ns = .html)
      (not_void : e.name ∉ voidTags) (not_raw : e.name ∉ rawTextTags) (name : PlainName e.name)
      (attributes : ∀ a ∈ e.attributes, PlainName a.name) (legible : ∀ t ∈ children, Legible t)
      (apart : children.IsChain fun t t' => ¬ (isText t ∧ isText t')) :
      Legible (.node (.element e) children)

/-! ### Up to where a part goes -/

/-- A part of characters of one kind that is followed by one of another kind. -/
theorem append_inj_of_stop {p : Char → Bool} {a b r s : List Char} (ha : ∀ c ∈ a, p c = true)
    (hb : ∀ c ∈ b, p c = true) (hr : ∀ c ∈ r.head?, p c = false)
    (hs : ∀ c ∈ s.head?, p c = false) (h : a ++ r = b ++ s) : a = b ∧ r = s := by
  have hstop : ∀ {r : List Char}, (∀ c ∈ r.head?, p c = false) → r.takeWhile p = [] := by
    intro r hr
    cases r with
    | nil => rfl
    | cons c r => exact List.takeWhile_cons_of_neg (by simp [hr c rfl])
  have htake := congrArg (List.takeWhile p) h
  rw [List.takeWhile_append_of_pos ha, List.takeWhile_append_of_pos hb, hstop hr, hstop hs,
    List.append_nil, List.append_nil] at htake
  subst htake
  exact ⟨rfl, List.append_cancel_left h⟩

/-! ### Escaped characters -/

/-- Each character is written as it is, except `&`, or as a reference to it. -/
def Safe (escape : Char → List Char) : Prop :=
  ∀ c, (c ≠ '&' ∧ escape c = [c]) ∨
    ∃ name, (name, c) ∈ writtenReferences ∧ escape c = '&' :: (name.toList ++ [';'])

/-- A character of a text is written as it is, or as a reference to it. -/
theorem escapeText_cases (c : Char) :
    (c ≠ '&' ∧ c ≠ '<' ∧ escapeText c = [c]) ∨
      ∃ name, (name, c) ∈ writtenReferences ∧ escapeText c = '&' :: (name.toList ++ [';']) := by
  unfold escapeText
  split
  · exact Or.inr ⟨"amp", by decide, by decide +kernel⟩
  · exact Or.inr ⟨"nbsp", by decide, by decide +kernel⟩
  · exact Or.inr ⟨"lt", by decide, by decide +kernel⟩
  · exact Or.inr ⟨"gt", by decide, by decide +kernel⟩
  · rename_i hamp _ hlt _
    exact Or.inl ⟨hamp, hlt, rfl⟩

theorem safe_escapeText : Safe escapeText := fun c =>
  (escapeText_cases c).imp_left fun h => ⟨h.1, h.2.2⟩

theorem safe_escapeValue : Safe escapeValue := fun c =>
  (escapeValue_cases c).imp_left fun h => ⟨h.1, h.2.2⟩

theorem lt_notMem_escaped (cs : List Char) : '<' ∉ cs.flatMap escapeText := by
  have hname : ∀ entry ∈ writtenReferences, '<' ∉ '&' :: (entry.1.toList ++ [';']) := by
    decide +kernel
  rw [List.mem_flatMap]
  rintro ⟨c, -, hc⟩
  rcases escapeText_cases c with ⟨-, hlt, heq⟩ | ⟨name, hentry, heq⟩
  · rw [heq, List.mem_singleton] at hc
    exact hlt hc.symm
  · rw [heq] at hc
    exact hname _ hentry hc

namespace Safe

variable {escape : Char → List Char} (hsafe : Safe escape)
include hsafe

/-- What was written for one character is not the beginning of what is written for another. -/
theorem append_inj {c d : Char} {r s : List Char} (h : escape c ++ r = escape d ++ s) :
    c = d ∧ r = s := by
  have hnames : ∀ entry ∈ writtenReferences, entry.1.toList.all (· != ';') = true := by
    decide +kernel
  have hdetermined : ∀ entry ∈ writtenReferences, ∀ entry' ∈ writtenReferences,
      entry.1 = entry'.1 → entry.2 = entry'.2 := by
    decide
  rcases hsafe c with ⟨hc, hplain⟩ | ⟨name, hentry, hname⟩ <;>
    rcases hsafe d with ⟨hd, hplain'⟩ | ⟨name', hentry', hname'⟩
  · rw [hplain, hplain'] at h
    exact List.cons.inj h
  · rw [hplain, hname'] at h
    exact absurd (List.cons.inj h).1 hc
  · rw [hname, hplain'] at h
    exact absurd (List.cons.inj h).1.symm hd
  · rw [hname, hname', List.cons_append, List.cons_append, List.append_assoc,
      List.append_assoc] at h
    obtain ⟨heq, hrest⟩ := append_inj_of_stop (List.all_eq_true.1 (hnames _ hentry))
      (List.all_eq_true.1 (hnames _ hentry')) (by simp) (by simp) (List.cons.inj h).2
    exact ⟨hdetermined _ hentry _ hentry' (String.toList_inj.1 heq), (List.cons.inj hrest).2⟩

theorem flatMap_inj {cs ds : List Char} (h : cs.flatMap escape = ds.flatMap escape) : cs = ds := by
  have hne : ∀ c, escape c ≠ [] := by
    intro c
    rcases hsafe c with ⟨-, hc⟩ | ⟨name, -, hc⟩ <;> simp [hc]
  induction cs generalizing ds with
  | nil =>
      cases ds with
      | nil => rfl
      | cons d ds =>
          rw [List.flatMap_cons] at h
          exact absurd (List.append_eq_nil_iff.1 h.symm).1 (hne d)
  | cons c cs ih =>
      cases ds with
      | nil =>
          rw [List.flatMap_cons] at h
          exact absurd (List.append_eq_nil_iff.1 h).1 (hne c)
      | cons d ds =>
          rw [List.flatMap_cons, List.flatMap_cons] at h
          obtain ⟨rfl, hrest⟩ := hsafe.append_inj h
          rw [ih hrest]

end Safe

/-! ### Tags -/

theorem writeAttribute_append_inj {a b : Attribute} (ha : PlainName a.name)
    (hb : PlainName b.name) {r s : List Char}
    (h : (writeAttribute a).toList ++ r = (writeAttribute b).toList ++ s) : a = b ∧ r = s := by
  have hstop : ∀ {a : Attribute}, PlainName a.name → ∀ c ∈ a.name.toList, (c != '=') = true := by
    intro a ha c hc
    have := (ha.2 c hc).2
    simp_all
  have hquote : ∀ (value : String), ∀ c ∈ value.toList.flatMap escapeValue, (c != '"') = true := by
    intro value c hc
    rw [bne_iff_ne]
    rintro rfl
    exact quote_notMem_escaped _ hc
  rw [toList_writeAttribute, toList_writeAttribute] at h
  simp only [List.cons_append, List.append_assoc, List.nil_append] at h
  obtain ⟨hname, hvalue⟩ := append_inj_of_stop (p := (· != '=')) (hstop ha) (hstop hb) (by simp)
    (by simp) (List.cons.inj h).2
  obtain ⟨hescaped, hrest⟩ := append_inj_of_stop (p := (· != '"')) (hquote _) (hquote _) (by simp)
    (by simp) (List.cons.inj (List.cons.inj hvalue).2).2
  refine ⟨?_, (List.cons.inj hrest).2⟩
  rw [Attribute.mk.injEq]
  exact ⟨String.toList_inj.1 hname, String.toList_inj.1 (safe_escapeValue.flatMap_inj hescaped)⟩

theorem writtenAttributes_append_inj {as bs : List Attribute} (ha : ∀ a ∈ as, PlainName a.name)
    (hb : ∀ b ∈ bs, PlainName b.name) {r s : List Char}
    (h : writtenAttributes as ++ '>' :: r = writtenAttributes bs ++ '>' :: s) :
    as = bs ∧ r = s := by
  have hblank : ∀ (a : Attribute) (more : List Attribute) (r s : List Char),
      writtenAttributes (a :: more) ++ r ≠ '>' :: s := by
    intro a more r s heq
    rw [writtenAttributes, List.flatMap_cons, toList_writeAttribute] at heq
    exact absurd (List.cons.inj heq).1 (by decide)
  induction as generalizing bs with
  | nil =>
      cases bs with
      | nil => exact ⟨rfl, (List.cons.inj h).2⟩
      | cons b bs => exact absurd h.symm (hblank b bs _ _)
  | cons a as ih =>
      cases bs with
      | nil => exact absurd h (hblank a as _ _)
      | cons b bs =>
          obtain ⟨ha, has⟩ := List.forall_mem_cons.1 ha
          obtain ⟨hb, hbs⟩ := List.forall_mem_cons.1 hb
          rw [writtenAttributes, writtenAttributes, List.flatMap_cons, List.flatMap_cons,
            List.append_assoc, List.append_assoc] at h
          obtain ⟨rfl, hrest⟩ := writeAttribute_append_inj ha hb h
          obtain ⟨rfl, hrs⟩ := ih has hbs hrest
          exact ⟨rfl, hrs⟩

theorem PlainName.endsTagName {name : String} (h : PlainName name) :
    ∀ c ∈ name.toList, (!endsTagName c) = true := by
  intro c hc
  obtain ⟨hspace, hmarkup⟩ := h.2 c hc
  simp only [List.mem_cons, not_or] at hmarkup
  simp [Html.endsTagName, hspace, hmarkup]

/-- **A start tag tells the name and the attributes,** and where it ends. -/
theorem startTag_append_inj {e e' : Element} (hname : PlainName e.name)
    (hname' : PlainName e'.name) (ha : ∀ a ∈ e.attributes, PlainName a.name)
    (ha' : ∀ a ∈ e'.attributes, PlainName a.name) {r s : List Char}
    (h : (startTag e).toList ++ r = (startTag e').toList ++ s) :
    e.name = e'.name ∧ e.attributes = e'.attributes ∧ r = s := by
  have hend : ∀ (attributes : List Attribute) (rest : List Char),
      ∀ c ∈ (writtenAttributes attributes ++ '>' :: rest).head?, (!Html.endsTagName c) = false := by
    intro attributes rest c hc
    obtain ⟨d, cs, heq, hd⟩ := exists_cons_of_written attributes rest
    rw [heq, List.head?_cons, Option.mem_some_iff] at hc
    rw [← hc, hd, Bool.not_true]
  rw [toList_startTag, toList_startTag] at h
  simp only [List.cons_append, List.append_assoc, List.nil_append] at h
  obtain ⟨heq, hrest⟩ := append_inj_of_stop hname.endsTagName hname'.endsTagName (hend _ _)
    (hend _ _) (List.cons.inj h).2
  exact ⟨String.toList_inj.1 heq, writtenAttributes_append_inj ha ha' hrest⟩

/-! ### Comments -/

/-- An end mark behind a comment does not begin inside it. -/
theorem eq_nil_of_unmarked {a more r s : List Char} (hunmarked : ¬ commentEnd <:+: a ++ more)
    (h : commentEnd ++ r = more ++ (commentEnd ++ s)) : more = [] := by
  match more with
  | [] => rfl
  | [x] => simp [commentEnd] at h
  | [x, y] => simp [commentEnd] at h
  | x :: y :: z :: more =>
      simp only [commentEnd, List.cons_append, List.nil_append, List.cons.injEq] at h
      obtain ⟨rfl, rfl, rfl, -⟩ := h
      exact absurd ⟨a, more, by simp [commentEnd]⟩ hunmarked

/-- **A comment goes up to the first end mark.** -/
theorem comment_append_inj {a b r s : List Char} (ha : ¬ commentEnd <:+: a)
    (hb : ¬ commentEnd <:+: b) (h : a ++ (commentEnd ++ r) = b ++ (commentEnd ++ s)) :
    a = b ∧ r = s := by
  rcases List.append_eq_append_iff.1 h with ⟨more, rfl, hmore⟩ | ⟨more, rfl, hmore⟩
  · obtain rfl := eq_nil_of_unmarked hb hmore
    exact ⟨(List.append_nil a).symm, List.append_cancel_left hmore⟩
  · obtain rfl := eq_nil_of_unmarked ha hmore
    exact ⟨List.append_nil b, (List.append_cancel_left hmore).symm⟩

/-! ### Trees -/

/-- The characters of a tree as it is written where nothing is above it. -/
def written (t : Tree) : List Char :=
  (write .outermost t).toList

/-- The characters of trees as they are written one after the other. -/
def writtenAll (ts : List Tree) : List Char :=
  (writeAll .outermost ts).toList

theorem writtenAll_cons (t : Tree) (ts : List Tree) :
    writtenAll (t :: ts) = written t ++ writtenAll ts := by
  rw [writtenAll, writeAll, String.toList_append]
  rfl

theorem written_text (s : String) (children : List Tree) :
    written (.node (.text s) children) = s.toList.flatMap escapeText := by
  simp [written, write, Surroundings.outermost, escaped]

theorem written_comment (s : String) (children : List Tree) :
    written (.node (.comment s) children) =
      '<' :: '!' :: '-' :: '-' :: (s.toList ++ commentEnd) := by
  simp [written, write, commentEnd]

/-- An element with an end tag and escaped content is written with its children between its
tags. -/
theorem written_element {e : Element} (not_void : e.name ∉ voidTags)
    (not_raw : e.name ∉ rawTextTags) (children : List Tree) :
    written (.node (.element e) children) =
      (startTag e).toList ++ (writtenAll children ++ (endTag e).toList) := by
  have hbelow : Surroundings.outermost.below e = .outermost := by
    simp [Surroundings.below, Surroundings.outermost, not_void, not_raw]
  have hwrite : write .outermost (.node (.element e) children) =
      startTag e ++ writeAll (Surroundings.outermost.below e) children ++
        (if (Surroundings.outermost.below e).muted then "" else endTag e) := by
    rw [write]
    rfl
  rw [written, hwrite, hbelow, String.toList_append, String.toList_append, List.append_assoc]
  rfl

/-- Nothing stands behind a text, or the next tag or comment does. -/
def Ends (r : List Char) : Prop :=
  ∀ c ∈ r.head?, c = '<'

/-- An end tag stands behind the children of an element. -/
def Closes (r : List Char) : Prop :=
  ∃ rest, r = '<' :: '/' :: rest

theorem Closes.ends {r : List Char} (h : Closes r) : Ends r := by
  obtain ⟨rest, rfl⟩ := h
  simp [Ends]

theorem closes_endTag (e : Element) (r : List Char) : Closes ((endTag e).toList ++ r) := by
  refine ⟨e.name.toList ++ ['>'] ++ r, ?_⟩
  simp [endTag]

theorem endTag_append_inj {e e' : Element} (hname : e.name = e'.name) {r s : List Char}
    (h : (endTag e).toList ++ r = (endTag e').toList ++ s) : r = s := by
  rw [endTag, endTag, hname] at h
  exact List.append_cancel_left h

/-- A start tag begins neither like an end tag nor like a comment. -/
theorem startTag_eq_cons {e : Element} (hname : PlainName e.name) :
    ∃ c rest, (startTag e).toList = '<' :: c :: rest ∧ c ≠ '/' ∧ c ≠ '!' := by
  obtain ⟨c, rest, hcons⟩ := List.exists_cons_of_ne_nil
    (fun hnil => hname.1 (String.toList_eq_nil_iff.1 hnil))
  have hmarkup := (hname.2 c (by simp [hcons])).2
  refine ⟨c, rest ++ (writtenAttributes e.attributes ++ ['>']), ?_, ?_, ?_⟩
  · rw [toList_startTag, hcons, List.cons_append]
  · rintro rfl
    exact hmarkup (by decide)
  · rintro rfl
    exact hmarkup (by decide)

/-- A text does not begin like markup, and nothing else begins like an end tag. -/
theorem Legible.written_cases {t : Tree} (h : Legible t) :
    (isText t = true ∧ ∃ c rest, written t = c :: rest ∧ c ≠ '<') ∨
      (isText t = false ∧ ∃ c rest, written t = '<' :: c :: rest ∧ c ≠ '/') := by
  cases h with
  | @text s ne_empty =>
      obtain ⟨c, rest, hcons⟩ : ∃ c rest, s.toList.flatMap escapeText = c :: rest := by
        refine List.exists_cons_of_ne_nil fun hnil => ne_empty ?_
        have hempty : s.toList = [] := safe_escapeText.flatMap_inj hnil
        exact String.toList_eq_nil_iff.1 hempty
      refine Or.inl ⟨rfl, c, rest, (written_text s []).trans hcons, ?_⟩
      rintro rfl
      exact lt_notMem_escaped s.toList (by simp [hcons])
  | comment => exact Or.inr ⟨rfl, '!', _, written_comment _ _, by decide⟩
  | @element e children _ not_void not_raw name _ _ _ =>
      obtain ⟨c, rest, hcons, hslash, -⟩ := startTag_eq_cons name
      refine Or.inr ⟨rfl, c, rest ++ (writtenAll children ++ (endTag e).toList), ?_, hslash⟩
      rw [written_element not_void not_raw, hcons, List.cons_append, List.cons_append]

/-- The first character tells a text from all else. -/
theorem isText_eq {t t' : Tree} (ht : Legible t) (ht' : Legible t') {r r' : List Char}
    (h : written t ++ r = written t' ++ r') : isText t = isText t' := by
  rcases ht.written_cases with ⟨htext, c, rest, heq, hc⟩ | ⟨htext, c, rest, heq, -⟩ <;>
    rcases ht'.written_cases with ⟨htext', c', rest', heq', hc'⟩ | ⟨htext', c', rest', heq', -⟩ <;>
    rw [heq, heq'] at h
  · rw [htext, htext']
  · exact absurd (List.cons.inj h).1 hc
  · exact absurd (List.cons.inj h).1.symm hc'
  · rw [htext, htext']

theorem written_comment_ne_element {e : Element} (not_void : e.name ∉ voidTags)
    (not_raw : e.name ∉ rawTextTags) (hname : PlainName e.name) (s : String)
    (below children : List Tree) (r r' : List Char) :
    written (.node (.comment s) below) ++ r ≠ written (.node (.element e) children) ++ r' := by
  obtain ⟨c, rest, hcons, -, hbang⟩ := startTag_eq_cons hname
  intro h
  rw [written_comment, written_element not_void not_raw, hcons] at h
  exact hbang (List.cons.inj (List.cons.inj h).2).1.symm

/-- The tree can be told from a text that begins with it, and so can what stands behind it. -/
def Told (t : Tree) : Prop :=
  ∀ t' r r', Legible t' → (isText t → Ends r) → (isText t' → Ends r') →
    written t ++ r = written t' ++ r' → t = t' ∧ r = r'

theorem told_text {s : String} (hs : s ≠ "") : Told (.node (.text s) []) := by
  have hstop : ∀ (s : String), ∀ c ∈ s.toList.flatMap escapeText, (c != '<') = true := by
    intro s c hc
    rw [bne_iff_ne]
    rintro rfl
    exact lt_notMem_escaped _ hc
  have hend : ∀ {r : List Char}, Ends r → ∀ c ∈ r.head?, (c != '<') = false := by
    intro r hr c hc
    simp [hr c hc]
  intro t' r r' ht' hr hr' h
  have htext := isText_eq (.text hs) ht' h
  cases ht' with
  | text _ =>
      rw [written_text, written_text] at h
      obtain ⟨heq, hrest⟩ := append_inj_of_stop (p := (· != '<')) (hstop _) (hstop _)
        (hend (hr rfl)) (hend (hr' rfl)) h
      rw [String.toList_inj.1 (safe_escapeText.flatMap_inj heq)]
      exact ⟨rfl, hrest⟩
  | comment _ => cases htext
  | element _ _ _ _ _ _ _ => cases htext

theorem told_comment {s : String} (hs : ¬ commentEnd <:+: s.toList) :
    Told (.node (.comment s) []) := by
  intro t' r r' ht' hr hr' h
  have htext := isText_eq (.comment hs) ht' h
  cases ht' with
  | text _ => cases htext
  | comment hs' =>
      rw [written_comment, written_comment] at h
      simp only [List.cons_append, List.append_assoc, List.cons.injEq, true_and] at h
      obtain ⟨heq, hrest⟩ := comment_append_inj hs hs' h
      rw [String.toList_inj.1 heq]
      exact ⟨rfl, hrest⟩
  | element _ not_void not_raw name _ _ _ =>
      exact absurd h (written_comment_ne_element not_void not_raw name _ _ _ _ _)

/-- Behind a text comes something else, or the end of the element. -/
theorem ends_behind {t : Tree} {ts : List Tree} {r : List Char} (hts : ∀ t ∈ ts, Legible t)
    (hapart : (t :: ts).IsChain fun t t' => ¬ (isText t ∧ isText t')) (hr : Closes r) :
    isText t → Ends (writtenAll ts ++ r) := by
  intro htext
  cases ts with
  | nil => exact hr.ends
  | cons t' ts =>
      have hother := (List.isChain_cons.1 hapart).1 t' rfl
      rcases (hts t' (by simp)).written_cases with ⟨htext', -⟩ | ⟨-, c, rest, heq, -⟩
      · exact absurd ⟨htext, htext'⟩ hother
      · rw [writtenAll_cons, heq]
        simp [Ends]

/-- No tree begins like an end tag. -/
theorem not_closes {t : Tree} (h : Legible t) (ts : List Tree) (r : List Char) :
    ¬ Closes (writtenAll (t :: ts) ++ r) := by
  rintro ⟨rest, hrest⟩
  rw [writtenAll_cons] at hrest
  rcases h.written_cases with ⟨-, c, more, heq, hc⟩ | ⟨-, c, more, heq, hc⟩ <;> rw [heq] at hrest
  · exact hc (List.cons.inj hrest).1
  · exact hc (List.cons.inj (List.cons.inj hrest).2).1

/-- **Trees in front of an end tag are told one after the other.** -/
theorem told_all {ts ts' : List Tree} (htold : ∀ t ∈ ts, Told t)
    (hts : ∀ t ∈ ts, Legible t) (hts' : ∀ t ∈ ts', Legible t)
    (hapart : ts.IsChain fun t t' => ¬ (isText t ∧ isText t'))
    (hapart' : ts'.IsChain fun t t' => ¬ (isText t ∧ isText t')) {r r' : List Char}
    (hr : Closes r) (hr' : Closes r') (h : writtenAll ts ++ r = writtenAll ts' ++ r') :
    ts = ts' ∧ r = r' := by
  induction ts generalizing ts' with
  | nil =>
      cases ts' with
      | nil => exact ⟨rfl, h⟩
      | cons t' ts' => exact absurd (h ▸ hr) (not_closes (hts' t' (by simp)) ts' r')
  | cons t ts ih =>
      cases ts' with
      | nil => exact absurd (h ▸ hr') (not_closes (hts t (by simp)) ts r)
      | cons t' ts' =>
          have hall := (List.forall_mem_cons.1 hts).2
          have hall' := (List.forall_mem_cons.1 hts').2
          rw [writtenAll_cons, writtenAll_cons, List.append_assoc, List.append_assoc] at h
          obtain ⟨rfl, hrest⟩ := htold t (by simp) t' _ _ (hts' t' (by simp))
            (ends_behind hall hapart hr) (ends_behind hall' hapart' hr') h
          obtain ⟨rfl, hrr'⟩ := ih (List.forall_mem_cons.1 htold).2 hall hall'
            (List.isChain_cons.1 hapart).2 (List.isChain_cons.1 hapart').2 hrest
          exact ⟨rfl, hrr'⟩

/-- **A tree is told,** part by part: by induction on it, its children are told one by one. -/
theorem Legible.told {t : Tree} (h : Legible t) : Told t := by
  induction h with
  | text ne_empty => exact told_text ne_empty
  | comment unmarked => exact told_comment unmarked
  | @element e children ns_eq not_void not_raw name attributes legible apart ih =>
      intro t' r r' ht' hr hr' h
      have htext := isText_eq
        (.element ns_eq not_void not_raw name attributes legible apart) ht' h
      cases ht' with
      | text _ => cases htext
      | comment _ =>
          exact absurd h.symm (written_comment_ne_element not_void not_raw name _ _ _ _ _)
      | @element e' children' ns_eq' not_void' not_raw' name' attributes' legible' apart' =>
          rw [written_element not_void not_raw, written_element not_void' not_raw'] at h
          simp only [List.append_assoc] at h
          obtain ⟨hname, hattributes, hrest⟩ :=
            startTag_append_inj name name' attributes attributes' h
          obtain ⟨rfl, hend⟩ := told_all ih legible legible' apart apart' (closes_endTag e r)
            (closes_endTag e' r') hrest
          have he : e = e' := by
            rw [Element.mk.injEq]
            exact ⟨ns_eq.trans ns_eq'.symm, hname, hattributes⟩
          exact ⟨by rw [he], endTag_append_inj hname hend⟩

/-- **The written HTML determines the tree,** that is names, attributes with their values, and what is
below, in order.  In a well-formed forest the tree of a node has all that is below it
(`Forest.tree_eq`). -/
theorem tree_of_written {f g : Forest} {n m : NodeId} (hn : Legible (f.tree n))
    (hm : Legible (g.tree m)) (h : writeNode f n = writeNode g m) : f.tree n = g.tree m := by
  have hnothing : Ends [] := by simp [Ends]
  refine (hn.told _ [] [] hm (fun _ => hnothing) (fun _ => hnothing) ?_).1
  rw [List.append_nil, List.append_nil]
  exact congrArg String.toList h

/-- One tree under two numberings, with text that looks like references and tags, a name that is
used twice, and a comment that nearly has the end mark in it. -/
theorem tree_of_written_references :
    let e : Element := ⟨.html, "p", [⟨"title", "&quot;\""⟩, ⟨"title", "\u00a0&nbsp;"⟩]⟩
    let f : Forest := ⟨#[⟨none, [1, 2], .element e⟩, ⟨some 0, [], .text "</p>&lt;\u00a0"⟩,
      ⟨some 0, [3], .element ⟨.html, "b", []⟩⟩, ⟨some 2, [], .comment "--"⟩]⟩
    let g : Forest := ⟨#[⟨some 3, [], .comment "--"⟩, ⟨none, [2, 3], .element e⟩,
      ⟨some 1, [], .text "</p>&lt;\u00a0"⟩, ⟨some 1, [0], .element ⟨.html, "b", []⟩⟩]⟩
    Legible (f.tree 0) ∧ Legible (g.tree 1) ∧ writeNode f 0 = writeNode g 1 ∧
      f.tree 0 = g.tree 1 := by
  intro e f g
  have htree : Legible (.node (.element e) [.node (.text "</p>&lt;\u00a0") [],
      .node (.element ⟨.html, "b", []⟩) [.node (.comment "--") []]]) := by
    refine .element rfl (by decide) (by decide) (by decide) (by decide) ?_ (by decide)
    refine List.forall_mem_cons.2 ⟨.text (by decide), List.forall_mem_singleton.2 ?_⟩
    refine .element rfl (by decide) (by decide) (by decide) (by decide) ?_ (by decide)
    exact List.forall_mem_singleton.2 (.comment (by decide))
  have hf : Legible (f.tree 0) := htree
  have hg : Legible (g.tree 1) := htree
  have hwritten : writeNode f 0 = writeNode g 1 := by decide +kernel
  exact ⟨hf, hg, hwritten, tree_of_written hf hg hwritten⟩

end StyleInliner.Html

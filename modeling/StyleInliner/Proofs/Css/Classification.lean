/-
What elements are matched with, for a stylesheet that was read.

The keys of a dictionary are read again in two places: to pick out the tags and the
classes that elements are matched with, and to list the classes.  Neither can fail,
and both give what a look at the rules gives, since each key is read back as the
selector it is the text of (`selectors_ofRules`).

A chain of steps never stands under the text of a single one (`eq_of_text_eq`), so what
is found there are the declarations of the rules for that one selector (`get?_of_mem`).
-/
import StyleInliner.Proofs.Css.Dictionary

namespace StyleInliner.Css

open StyleInliner.Inline

namespace Dictionary

/-- The classes with rules of their own, in the order in which the rules first name them. -/
def classesOfRules (rules : List Rule) : List String :=
  ((rules.flatMap Rule.selectors).filterMap Selector.className?).eraseDups

theorem mem_classesOfRules {rules : List Rule} {name : String} :
    name ∈ classesOfRules rules ↔
      ∃ rule ∈ rules, Selector.single ⟨.className, name⟩ ∈ rule.selectors := by
  rw [classesOfRules, List.mem_eraseDups, List.mem_filterMap]
  simp only [Selector.className?_eq_some_iff, exists_eq_right, List.mem_flatMap]

section Canonical

variable {rules : List Rule} (hrules : ∀ rule ∈ rules, ∀ s ∈ rule.selectors, s.Canonical)
include hrules

theorem classNames_ofRules : (ofRules rules).classNames = .ok (classesOfRules rules) := by
  -- no two selectors name the same class, so it does not matter when duplicates are left out
  have hone : ∀ s ∈ rules.flatMap Rule.selectors, ∀ t ∈ rules.flatMap Rule.selectors,
      ∀ name, s.className? = some name → t.className? = some name → s = t := by
    intro s _ t _ name hs ht
    rw [Selector.className?_eq_some_iff] at hs ht
    rw [hs, ht]
  rw [classNames, selectors_ofRules hrules, classesOfRules, Grouping.eraseDups_filterMap hone]
  rfl

/-- No other selector of the rules is written like one of them. -/
theorem eq_of_text_eq {selector : Selector} (hmem : ∃ rule ∈ rules, selector ∈ rule.selectors) :
    ∀ rule ∈ rules, ∀ s ∈ rule.selectors, s.text = selector.text → s = selector := by
  intro rule hrule s hs htext
  obtain ⟨other, hother, hselector⟩ := hmem
  exact text_injective (hrules rule hrule s hs) (hrules other hother selector hselector) htext

/-- The declarations for a selector of the rules are found under its text. -/
theorem get?_of_mem {selector : Selector} (hmem : ∃ rule ∈ rules, selector ∈ rule.selectors) :
    (ofRules rules).get? selector.text = some (blocksFor rules selector).flatten := by
  have hne : blocksFor rules selector ≠ [] := blocksFor_ne_nil_iff.2 hmem
  obtain ⟨rule, hrule, hselector⟩ := hmem
  rw [get?_ofRules hrules (hrules rule hrule selector hselector)]
  cases hblocks : blocksFor rules selector with
  | nil => exact absurd hblocks hne
  | cons block blocks => rfl

end Canonical

/-- **The selectors of a stylesheet that was read can be classified, and the classification is that
of its rules.**  Each tag and each class has an entry, which holds what the rules declare for that
single step and nothing that they declare for a chain. -/
theorem classification_of_parsed {css : String} {rules : List Rule}
    (h : parseRules css = .ok rules) :
    let d := ofRules rules
    parseDictionary css = .ok d ∧
      ∃ m, Matchable.ofDictionary d = .ok m ∧ m.tags.Nodup ∧ m.classes.Nodup ∧
        (∀ tag, tag ∈ m.tags ↔
          ∃ rule ∈ rules, Selector.single ⟨.tagName, tag⟩ ∈ rule.selectors) ∧
        (∀ name, name ∈ m.classes ↔
          ∃ rule ∈ rules, Selector.single ⟨.className, name⟩ ∈ rule.selectors) ∧
        (∃ names, d.classNames = .ok names ∧ names.Nodup ∧
          (∀ name, name ∈ names ↔ name ∈ m.classes) ∧
          names = ((rules.flatMap Rule.selectors).filterMap Selector.className?).eraseDups) ∧
        (∀ tag ∈ m.tags,
          d.get? tag = some (blocksFor rules (.single ⟨.tagName, tag⟩)).flatten ∧
          ∀ rule ∈ rules, ∀ s ∈ rule.selectors, s.text = tag → s = .single ⟨.tagName, tag⟩) ∧
        ∀ name ∈ m.classes,
          d.getClass? name = some (blocksFor rules (.single ⟨.className, name⟩)).flatten ∧
          ∀ rule ∈ rules, ∀ s ∈ rule.selectors,
            s.text = "." ++ name → s = .single ⟨.className, name⟩ := by
  intro d
  have hrules : ∀ rule ∈ rules, ∀ s ∈ rule.selectors, s.Canonical := fun rule hrule =>
    (readable_of_parseBlocks h rule hrule).canonical
  obtain ⟨m, hm, htags, htag, hclass⟩ := matchable_ofRules hrules
  have hclasses : m.classes.Nodup := by
    rw [Matchable.ofDictionary, selectors_ofRules hrules] at hm
    obtain rfl := Except.ok.inj hm
    exact nodup_eraseDups _
  simp only [blocksFor_ne_nil_iff] at htag hclass
  refine ⟨by rw [parseDictionary, h]; rfl, m, hm, htags, hclasses, htag, hclass,
    ⟨classesOfRules rules, classNames_ofRules hrules, nodup_eraseDups _, fun name => ?_, rfl⟩,
    fun tag hmem => ?_, fun name hmem => ?_⟩
  · rw [mem_classesOfRules, hclass]
  · have hselector := (htag tag).1 hmem
    exact ⟨get?_of_mem hrules hselector, eq_of_text_eq hrules hselector⟩
  · have hselector := (hclass name).1 hmem
    exact ⟨get?_of_mem hrules hselector, eq_of_text_eq hrules hselector⟩

/-- Chains that end in a class, or begin with a tag, do not count for either. -/
theorem classification_of_parsed_chains :
    let css := "a.b \x7bx:1\x7d .b, a \x7by:2\x7d .a .b \x7bz:3\x7d .c, .b \x7bw:4\x7d"
    ∃ rules m, parseRules css = .ok rules ∧ Matchable.ofDictionary (ofRules rules) = .ok m ∧
      (ofRules rules).classNames = .ok ["b", "c"] ∧ (∀ tag, tag ∈ m.tags ↔ tag = "a") ∧
      (ofRules rules).get? "a" = some [⟨"y", "2"⟩] ∧
      (ofRules rules).getClass? "b" = some [⟨"y", "2"⟩, ⟨"w", "4"⟩] := by
  intro css
  let rules : List Rule := [
    ⟨[.chain ⟨.tagName, "a"⟩ .combination (.single ⟨.className, "b"⟩)], [⟨"x", "1"⟩]⟩,
    ⟨[.single ⟨.className, "b"⟩, .single ⟨.tagName, "a"⟩], [⟨"y", "2"⟩]⟩,
    ⟨[.chain ⟨.className, "a"⟩ .descendant (.single ⟨.className, "b"⟩)], [⟨"z", "3"⟩]⟩,
    ⟨[.single ⟨.className, "c"⟩, .single ⟨.className, "b"⟩], [⟨"w", "4"⟩]⟩]
  have hread : parseRules css = .ok rules := by decide +kernel
  obtain ⟨-, m, hm, -, -, htag, hclass, ⟨names, hnames, -, -, rfl⟩, hget, hgetClass⟩ :=
    classification_of_parsed hread
  have htags : "a" ∈ m.tags := (htag "a").2 (by simp [rules])
  have hclasses : "b" ∈ m.classes := (hclass "b").2 (by simp [rules])
  refine ⟨rules, m, hread, hm, ?_, fun tag => ?_, ?_, ?_⟩
  · rw [hnames]
    decide +kernel
  · rw [htag]
    simp [rules]
  · rw [(hget "a" htags).1]
    decide +kernel
  · rw [(hgetClass "b" hclasses).1]
    decide +kernel

end Dictionary

end StyleInliner.Css

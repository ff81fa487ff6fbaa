/-
What is found under the names of a grouping.

Adding under one name shows up under that name only (`get?_add`).  A grouping that
was filled entry by entry therefore holds, under each name, the values of its
entries in their order, and nothing where there is no entry (`get?_foldl_add`); and
its names stand in the order in which they first came (`names_foldl_add`).

The values may as well be kept in a table, which has no order, with the names in a list
beside it (`Parts`).  One step keeps the two together, whether or not the name is a new
one (`Parts.Holds.add`).
-/
import Mathlib.Data.List.Induction
import Mathlib.Data.List.Nodup
import Mathlib.Tactic.Common
import Std.Data.HashMap
import StyleInliner.Grouping

namespace StyleInliner.Grouping

variable {α : Type}

@[simp] theorem get?_empty (key : String) : (empty : Grouping α).get? key = none := rfl

theorem find?_extendGroup (name : String) (added : List α) (groups : List (String × List α))
    (key : String) :
    ((extendGroup name added groups).find? (·.1 == key)).map Prod.snd =
      if name = key then
        some ((((groups.find? (·.1 == key)).map Prod.snd).getD []) ++ added)
      else (groups.find? (·.1 == key)).map Prod.snd := by
  induction groups with
  | nil => by_cases h : name = key <;> simp [extendGroup, h]
  | cons group groups ih =>
      obtain ⟨other, values⟩ := group
      rw [extendGroup]
      by_cases hname : other = name
      · subst hname
        by_cases hkey : other = key <;> simp [hkey]
      · rw [if_neg hname, List.find?_cons, List.find?_cons]
        by_cases hkey : other = key
        · subst hkey
          simp [Ne.symm hname]
        · have hbeq : (other == key) = false := by simpa using hkey
          simp only [hbeq]
          exact ih

theorem get?_add (g : Grouping α) (name : String) (values : List α) (key : String) :
    (g.add name values).get? key =
      if name = key then some ((g.get? key).getD [] ++ values) else g.get? key :=
  find?_extendGroup name values g.groups key

/-- Under the name of a group stand its values. -/
theorem get?_of_mem {g : Grouping α} {group : String × List α} (h : group ∈ g.groups) :
    g.get? group.1 = some group.2 := by
  have hsome : (g.groups.find? (·.1 == group.1)).isSome = true :=
    List.find?_isSome.2 ⟨group, h, by simp⟩
  obtain ⟨other, hother⟩ := Option.isSome_iff_exists.1 hsome
  have hname : other.1 = group.1 := by simpa using List.find?_some hother
  have heq := List.inj_on_of_nodup_map g.nodup_names (List.mem_of_find?_eq_some hother) h hname
  rw [get?, hother, heq, Option.map_some]

/-- What stands under a name is a group. -/
theorem mem_of_get? {g : Grouping α} {key : String} {values : List α}
    (h : g.get? key = some values) : (key, values) ∈ g.groups := by
  obtain ⟨⟨name, _⟩, hfound, rfl⟩ := Option.map_eq_some_iff.1 h
  obtain rfl : name = key := by simpa using List.find?_some hfound
  exact List.mem_of_find?_eq_some hfound

theorem mem_names_iff {g : Grouping α} {key : String} :
    key ∈ g.names ↔ (g.get? key).isSome = true := by
  rw [get?, Option.isSome_map, List.find?_isSome, names, List.mem_map]
  constructor
  · rintro ⟨group, hgroup, rfl⟩
    exact ⟨group, hgroup, by simp⟩
  · rintro ⟨group, hgroup, hkey⟩
    exact ⟨group, hgroup, by simpa using hkey⟩

/-- **Under a name stand the values of its entries, in their order.** -/
theorem get?_foldl_add (entries : List (String × List α)) (g : Grouping α) (key : String) :
    (entries.foldl (fun g entry => g.add entry.1 entry.2) g).get? key =
      match (entries.filter (·.1 = key)).map Prod.snd with
      | [] => g.get? key
      | found => some ((g.get? key).getD [] ++ found.flatten) := by
  induction entries generalizing g with
  | nil => rfl
  | cons entry entries ih =>
      obtain ⟨name, values⟩ := entry
      rw [List.foldl_cons, ih, get?_add]
      by_cases hkey : name = key
      · simp only [hkey, if_true, Option.getD_some, decide_true, List.filter_cons_of_pos,
          List.map_cons, List.flatten_cons]
        cases (entries.filter (·.1 = key)).map Prod.snd <;> simp
      · simp only [hkey, if_false, decide_false, Bool.false_eq_true, not_false_eq_true,
          List.filter_cons_of_neg]

theorem getD_get?_foldl_add (entries : List (String × List α)) (key : String) :
    ((entries.foldl (fun g entry => g.add entry.1 entry.2) empty).get? key).getD [] =
      ((entries.filter (·.1 = key)).map Prod.snd).flatten := by
  rw [get?_foldl_add, get?_empty]
  cases (entries.filter (·.1 = key)).map Prod.snd <;> rfl

/-! ### The order of the names -/

/-- One more item counts only if it has not come before. -/
theorem eraseDups_concat {β : Type} [BEq β] [LawfulBEq β] (l : List β) (b : β) :
    (l ++ [b]).eraseDups = if b ∈ l then l.eraseDups else l.eraseDups ++ [b] := by
  rw [List.eraseDups_append]
  by_cases h : b ∈ l
  · simp [h, List.removeAll]
  · simp [h, List.removeAll, List.eraseDups_cons]

/-- Leaving out what came before and picking something out of each item may change places, if no
two items give the same. -/
theorem eraseDups_filterMap {β γ : Type} [BEq β] [LawfulBEq β] [BEq γ] [LawfulBEq γ]
    {f : β → Option γ} {l : List β}
    (hf : ∀ a ∈ l, ∀ b ∈ l, ∀ c, f a = some c → f b = some c → a = b) :
    (l.filterMap f).eraseDups = l.eraseDups.filterMap f := by
  induction l using List.reverseRecOn with
  | nil => rfl
  | append_singleton l b ih =>
      have hrest := ih fun a ha b hb => hf a (by simp [ha]) b (by simp [hb])
      rw [List.filterMap_append, eraseDups_concat]
      cases hpick : f b with
      | none =>
          have hnone : [b].filterMap f = [] := by simp [hpick]
          rw [hnone, List.append_nil, hrest]
          split
          · rfl
          · rw [List.filterMap_append, hnone, List.append_nil]
      | some c =>
          have hsome : [b].filterMap f = [c] := by simp [hpick]
          have hmem : c ∈ l.filterMap f ↔ b ∈ l := by
            rw [List.mem_filterMap]
            constructor
            · intro ⟨a, ha, hpicked⟩
              rwa [← hf a (by simp [ha]) b (by simp) c hpicked hpick]
            · intro hb
              exact ⟨b, hb, hpick⟩
          rw [hsome, eraseDups_concat, hrest]
          by_cases hb : b ∈ l
          · rw [if_pos (hmem.2 hb), if_pos hb]
          · rw [if_neg fun hc => hb (hmem.1 hc), if_neg hb, List.filterMap_append, hsome]

theorem names_add (g : Grouping α) (name : String) (values : List α) :
    (g.add name values).names = if name ∈ g.names then g.names else g.names ++ [name] :=
  names_extendGroup name values g.groups

/-- **The names stand in the order in which they first came, each once.** -/
theorem names_foldl_add (entries : List (String × List α)) :
    (entries.foldl (fun g entry => g.add entry.1 entry.2) empty).names =
      (entries.map Prod.fst).eraseDups := by
  induction entries using List.reverseRecOn with
  | nil => rfl
  | append_singleton entries entry ih =>
      rw [List.foldl_append, List.foldl_cons, List.foldl_nil, names_add, ih, List.map_append,
        List.map_singleton, eraseDups_concat]
      simp only [List.mem_eraseDups]

theorem size_eq (g : Grouping α) : g.size = g.names.length := by
  rw [size, names, List.length_map]

theorem isEmpty_eq (g : Grouping α) : g.isEmpty = g.names.isEmpty := by
  rw [isEmpty, names, List.isEmpty_map]

/-! ### Groups -/

theorem ext_groups {g g' : Grouping α} (h : g.groups = g'.groups) : g = g' := by
  obtain ⟨groups, _⟩ := g
  obtain ⟨groups', _⟩ := g'
  obtain rfl : groups = groups' := h
  rfl

theorem extendGroup_of_notMem {name : String} {groups : List (String × List α)}
    (h : name ∉ groups.map Prod.fst) (added : List α) :
    extendGroup name added groups = groups ++ [(name, added)] := by
  induction groups with
  | nil => rfl
  | cons group groups ih =>
      rw [List.map_cons, List.mem_cons, not_or] at h
      rw [extendGroup, if_neg (Ne.symm h.1), ih h.2, List.cons_append]

/-- Entries under names of their own are the groups. -/
theorem groups_foldl_add_of_nodup {entries : List (String × List α)} {g : Grouping α}
    (h : ((g.groups ++ entries).map Prod.fst).Nodup) :
    (entries.foldl (fun g entry => g.add entry.1 entry.2) g).groups = g.groups ++ entries := by
  induction entries generalizing g with
  | nil => simp
  | cons entry entries ih =>
      have hnew : entry.1 ∉ g.groups.map Prod.fst := by
        rw [List.map_append, List.map_cons, List.nodup_append] at h
        intro hmem
        exact h.2.2 entry.1 hmem entry.1 (by simp) rfl
      have hadd : (g.add entry.1 entry.2).groups = g.groups ++ [entry] :=
        extendGroup_of_notMem hnew entry.2
      rw [List.foldl_cons, ih, hadd, List.append_assoc, List.singleton_append]
      rwa [hadd, List.append_assoc, List.singleton_append]

section Members

variable {P : String → Prop} {Q : α → Prop}

theorem forall_mem_extendGroup {name : String} {added : List α} {groups : List (String × List α)}
    (hname : P name) (hadded : ∀ v ∈ added, Q v)
    (h : ∀ group ∈ groups, P group.1 ∧ ∀ v ∈ group.2, Q v) :
    ∀ group ∈ extendGroup name added groups, P group.1 ∧ ∀ v ∈ group.2, Q v := by
  induction groups with
  | nil =>
      intro group hgroup
      obtain rfl := List.mem_singleton.1 hgroup
      exact ⟨hname, hadded⟩
  | cons group groups ih =>
      obtain ⟨⟨hother, hvalues⟩, hgroups⟩ := List.forall_mem_cons.1 h
      rw [extendGroup]
      split
      · refine List.forall_mem_cons.2 ⟨⟨hother, fun v hv => ?_⟩, hgroups⟩
        exact (List.mem_append.1 hv).elim (hvalues v) (hadded v)
      · exact List.forall_mem_cons.2 ⟨⟨hother, hvalues⟩, ih hgroups⟩

/-- Names and values of the groups are those of the entries. -/
theorem forall_mem_groups_foldl_add {entries : List (String × List α)} {g : Grouping α}
    (hentries : ∀ entry ∈ entries, P entry.1 ∧ ∀ v ∈ entry.2, Q v)
    (h : ∀ group ∈ g.groups, P group.1 ∧ ∀ v ∈ group.2, Q v) :
    ∀ group ∈ (entries.foldl (fun g entry => g.add entry.1 entry.2) g).groups,
      P group.1 ∧ ∀ v ∈ group.2, Q v := by
  induction entries generalizing g with
  | nil => exact h
  | cons entry entries ih =>
      obtain ⟨⟨hname, hvalues⟩, hrest⟩ := List.forall_mem_cons.1 hentries
      exact ih hrest (forall_mem_extendGroup hname hvalues h)

end Members

/-! ### A table and an order -/

/-- A grouping in two parts: the values by name, and the names in the order in which they came. -/
structure Parts (α : Type) where
  table : Std.HashMap String (List α)
  order : List String

namespace Parts

/-- The parts without a name. -/
def empty : Parts α :=
  ⟨∅, []⟩

/-- Adds values under a name, which comes last in the order if there is nothing under it. -/
def add (p : Parts α) (name : String) (values : List α) : Parts α :=
  match p.table[name]? with
  | some found => { p with table := p.table.insert name (found ++ values) }
  | none => ⟨p.table.insert name values, p.order ++ [name]⟩

/-- The table has what is under the names of a grouping, and the order has its names. -/
structure Holds (p : Parts α) (g : Grouping α) : Prop where
  table_eq : ∀ key, p.table[key]? = g.get? key
  order_eq : p.order = g.names

theorem holds_empty : (empty : Parts α).Holds Grouping.empty :=
  ⟨fun _ => Std.HashMap.getElem?_empty, rfl⟩

theorem Holds.add {p : Parts α} {g : Grouping α} (h : p.Holds g) (name : String)
    (values : List α) : (p.add name values).Holds (g.add name values) := by
  have hname := h.table_eq name
  have htable : ∀ key, (p.table.insert name ((g.get? name).getD [] ++ values))[key]? =
      (g.add name values).get? key := by
    intro key
    rw [Std.HashMap.getElem?_insert, get?_add, h.table_eq]
    by_cases hkey : name = key
    · subst hkey
      simp
    · simp [hkey]
  unfold Parts.add
  cases hfound : p.table[name]? with
  | some found =>
      rw [hfound] at hname
      rw [← hname] at htable
      have hmem : name ∈ g.names := mem_names_iff.2 (by rw [← hname]; rfl)
      refine ⟨htable, ?_⟩
      rw [names_add, if_pos hmem]
      exact h.order_eq
  | none =>
      rw [hfound] at hname
      rw [← hname] at htable
      have hnew : name ∉ g.names := by
        intro hmem
        rw [mem_names_iff, ← hname] at hmem
        cases hmem
      refine ⟨htable, ?_⟩
      rw [names_add, if_neg hnew, ← h.order_eq]

/-- The table and the order stay together, entry by entry. -/
theorem Holds.foldl_add {p : Parts α} {g : Grouping α} (h : p.Holds g)
    (entries : List (String × List α)) :
    (entries.foldl (fun p entry => p.add entry.1 entry.2) p).Holds
      (entries.foldl (fun g entry => g.add entry.1 entry.2) g) := by
  induction entries generalizing p g with
  | nil => exact h
  | cons entry entries ih => exact ih (h.add entry.1 entry.2)

end Parts

end StyleInliner.Grouping

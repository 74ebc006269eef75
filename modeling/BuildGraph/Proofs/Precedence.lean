import Mathlib.Data.List.Induction
import Mathlib.Logic.Relation

/-!
# Precedence

A list in which everything that an item needs stands before it. Orders of nodes, visits of targets
and inherited entries are all lists of this kind.
-/

namespace BuildGraph

open Relation

variable {α : Type} {needs : α → α → Prop}

/-- Whatever an item of the list needs stands before it. -/
def Preceded (needs : α → α → Prop) (list : List α) : Prop :=
  ∀ before x after, list = before ++ x :: after → ∀ y, needs x y → y ∈ before

theorem Preceded.nil : Preceded needs [] := by
  intro before x after h
  simp at h

theorem preceded_snoc {list : List α} {x : α} :
    Preceded needs (list ++ [x]) ↔ Preceded needs list ∧ ∀ y, needs x y → y ∈ list := by
  constructor
  · intro h
    refine ⟨fun before z after hl => h before z (after ++ [x]) (by simp [hl]), ?_⟩
    exact h list x [] rfl
  · rintro ⟨hlist, hx⟩ before z after hl
    rcases List.eq_nil_or_concat after with rfl | ⟨after, last, rfl⟩
    · obtain ⟨rfl, hz⟩ := List.append_inj' hl rfl
      obtain rfl : x = z := by simpa using hz
      exact hx
    · rw [List.concat_eq_append, ← List.cons_append, ← List.append_assoc] at hl
      exact hlist before z after (List.append_inj' hl rfl).1

theorem Preceded.of_append {list more : List α} (h : Preceded needs (list ++ more)) :
    Preceded needs list := by
  intro before x after hl
  exact h before x (after ++ more) (by simp [hl])

/-- Whatever items up to `x` need stands before `x`. -/
theorem Preceded.mem_of_needs {list rest : List α} {x y z : α}
    (h : Preceded needs (list ++ x :: rest)) (hz : z ∈ list ++ [x]) (hzy : needs z y) :
    y ∈ list := by
  have hupto : Preceded needs (list ++ [x]) := by
    rw [← List.singleton_append, ← List.append_assoc] at h
    exact h.of_append
  obtain ⟨hlist, hx⟩ := preceded_snoc.mp hupto
  rcases List.mem_append.mp hz with hz | hz
  · obtain ⟨before, after, rfl⟩ := List.append_of_mem hz
    exact List.mem_append_left _ (hlist before z after rfl y hzy)
  · obtain rfl := List.mem_singleton.mp hz
    exact hx y hzy

/-- What holds of an item as soon as it holds of whatever the item needs holds of all items. -/
theorem Preceded.induction {list : List α} (h : Preceded needs list) {P : α → Prop}
    (step : ∀ x ∈ list, (∀ y, needs x y → P y) → P x) : ∀ x ∈ list, P x := by
  induction list using List.reverseRecOn with
  | nil => simp
  | append_singleton list x ih =>
    -- what the last item needs stands before it, where `P` holds already
    obtain ⟨hlist, hx⟩ := preceded_snoc.mp h
    have hall := ih hlist fun y hy => step y (List.mem_append_left _ hy)
    intro y hy
    rcases List.mem_append.mp hy with hy | hy
    · exact hall y hy
    · obtain rfl := List.mem_singleton.mp hy
      exact step y (by simp) fun z hz => hall z (hx z hz)

/-- What an item needs through others stands before it too. -/
theorem Preceded.transGen {list : List α} (h : Preceded needs list) :
    Preceded (TransGen needs) list := by
  intro before x after hl y hxy
  induction hxy using TransGen.head_induction_on generalizing before after with
  | single hxy => exact h before _ after hl _ hxy
  | head hxz _ ih =>
    obtain ⟨first, rest, rfl⟩ := List.append_of_mem (h before _ after hl _ hxz)
    have hy := ih first (rest ++ _ :: after) (by rw [hl, List.append_assoc, List.cons_append])
    exact List.mem_append_left _ hy

/-- Items can be left out as long as nothing that is kept needs them. -/
theorem Preceded.filter {list : List α} (h : Preceded needs list) {keep : α → Bool}
    (hkeep : ∀ x ∈ list, keep x = true → ∀ y, needs x y → keep y = true) :
    Preceded needs (list.filter keep) := by
  induction list using List.reverseRecOn with
  | nil => exact .nil
  | append_singleton list x ih =>
    obtain ⟨hlist, hx⟩ := preceded_snoc.mp h
    have hrest := ih hlist fun z hz => hkeep z (List.mem_append_left _ hz)
    rw [List.filter_append]
    by_cases hk : keep x = true
    · rw [List.filter_cons_of_pos hk, List.filter_nil, preceded_snoc]
      exact ⟨hrest, fun y hy => List.mem_filter.mpr ⟨hx y hy, hkeep x (by simp) hk y hy⟩⟩
    · rw [List.filter_cons_of_neg hk, List.filter_nil, List.append_nil]
      exact hrest

/-- Items can be replaced by what stands for them. -/
theorem Preceded.map {β : Type} {needs' : β → β → Prop} {f : α → β} {list : List α}
    (h : Preceded needs list) (hf : ∀ x ∈ list, ∀ z, needs' (f x) z → ∃ y, needs x y ∧ f y = z) :
    Preceded needs' (list.map f) := by
  induction list using List.reverseRecOn with
  | nil => exact .nil
  | append_singleton list x ih =>
    obtain ⟨hlist, hx⟩ := preceded_snoc.mp h
    rw [List.map_append, List.map_singleton, preceded_snoc]
    refine ⟨ih hlist fun z hz => hf z (List.mem_append_left _ hz), fun z hz => ?_⟩
    obtain ⟨y, hy, rfl⟩ := hf x (by simp) z hz
    exact List.mem_map_of_mem (hx y hy)

/-- In a list without repetitions what an item needs has a lower position. -/
theorem Preceded.lt_of_needs {list : List α} (h : Preceded needs list) (hnd : list.Nodup)
    {i j : Nat} {x y : α} (hi : list[i]? = some x) (hj : list[j]? = some y) (hxy : needs x y) :
    j < i := by
  obtain ⟨hlt, hx⟩ := List.getElem?_eq_some_iff.mp hi
  have hsplit : list = list.take i ++ x :: list.drop (i + 1) := by
    rw [← hx, List.getElem_cons_drop, List.take_append_drop]
  obtain ⟨k, hk, hy⟩ := List.mem_take_iff_getElem.mp (h _ _ _ hsplit y hxy)
  obtain ⟨hjlt, -⟩ := List.getElem?_eq_some_iff.mp hj
  have hsame : list[j]? = list[k]? := by
    rw [hj, List.getElem?_eq_getElem (by omega), hy]
  have hjk : j = k := (List.getElem?_inj hjlt hnd).mp hsame
  omega

/-- In a list without repetitions nothing needs itself, directly or through others. -/
theorem Preceded.not_transGen_self {list : List α} (h : Preceded needs list) (hnd : list.Nodup)
    {x : α} (hx : x ∈ list) : ¬ TransGen needs x x := by
  intro hxx
  obtain ⟨before, after, rfl⟩ := List.append_of_mem hx
  have hmem : x ∈ before := h.transGen before x after rfl x hxx
  exact (List.nodup_append.mp hnd).2.2 x hmem x List.mem_cons_self rfl

end BuildGraph

/-!
# Sorted maps

A finite map is kept as the list of its entries in strictly ascending key order. Two maps with the
same entries are then the same value, the order in which a map is read or written is the order of
its list, and "the least key that …" is the first one found.

Main statements: lookup after `insert` (`get?_insert_self`, `get?_insert_of_ne`), lookup against the
list of entries (`get?_eq_some_iff`), and equality of maps from equality of lookups (`ext_get?`).
-/

namespace BuildGraph

/-- A finite map from `κ` to `β`, as its entries in strictly ascending key order. -/
structure SortedMap (κ : Type) (β : Type) [Ord κ] where
  /-- The entries, keys strictly ascending. -/
  entries : List (κ × β)
  ascending : entries.Pairwise (fun a b => compare a.1 b.1 = .lt)

namespace SortedMap

variable {κ β γ : Type} [Ord κ]

instance [DecidableEq κ] [DecidableEq β] : DecidableEq (SortedMap κ β) := fun a b =>
  decidable_of_iff (a.entries = b.entries)
    ⟨fun h => by cases a; cases b; cases h; rfl, fun h => h ▸ rfl⟩

/-- The map without entries. -/
def empty : SortedMap κ β := ⟨[], .nil⟩

instance : EmptyCollection (SortedMap κ β) := ⟨empty⟩

instance : Inhabited (SortedMap κ β) := ⟨empty⟩

/-! ## Reading -/

/-- The value of the first entry whose key compares equal to `k`. -/
def find (k : κ) : List (κ × β) → Option β
  | [] => none
  | (k', v) :: rest => if compare k k' = .eq then some v else find k rest

/-- The value stored at `k`. -/
def get? (m : SortedMap κ β) (k : κ) : Option β := find k m.entries

/-- Whether `k` has a value. -/
def contains (m : SortedMap κ β) (k : κ) : Bool := (m.get? k).isSome

theorem contains_eq_true {m : SortedMap κ β} {k : κ} :
    m.contains k = true ↔ ∃ v, m.get? k = some v :=
  Option.isSome_iff_exists

theorem contains_eq_false {m : SortedMap κ β} {k : κ} :
    m.contains k = false ↔ m.get? k = none := by
  simp [contains]

theorem contains_of_get? {m : SortedMap κ β} {k : κ} {v : β} (h : m.get? k = some v) :
    m.contains k = true :=
  contains_eq_true.mpr ⟨v, h⟩

/-- The keys, ascending. -/
def keys (m : SortedMap κ β) : List κ := m.entries.map Prod.fst

/-- The values, in the order of their keys. -/
def values (m : SortedMap κ β) : List β := m.entries.map Prod.snd

/-- The number of entries. -/
def size (m : SortedMap κ β) : Nat := m.entries.length

/-- Whether there is no entry. -/
def isEmpty (m : SortedMap κ β) : Bool := m.entries.isEmpty

/-! ## Writing -/

/-- One pass over ascending entries: put `(k, v)` in its place, replacing an entry with that key. -/
def place (k : κ) (v : β) : List (κ × β) → List (κ × β)
  | [] => [(k, v)]
  | (k', v') :: rest =>
    match compare k k' with
    | .lt => (k, v) :: (k', v') :: rest
    | .eq => (k, v) :: rest
    | .gt => (k', v') :: place k v rest

theorem key_of_mem_place {k : κ} {v : β} {e : κ × β} {l : List (κ × β)}
    (h : e ∈ place k v l) : e.1 = k ∨ e ∈ l := by
  induction l with
  | nil => simp only [place, List.mem_singleton] at h; exact .inl (h ▸ rfl)
  | cons hd tl ih =>
    obtain ⟨k', v'⟩ := hd
    simp only [place] at h
    split at h
    · rcases List.mem_cons.mp h with h | h
      · exact .inl (h ▸ rfl)
      · exact .inr h
    · rcases List.mem_cons.mp h with h | h
      · exact .inl (h ▸ rfl)
      · exact .inr (List.mem_cons_of_mem _ h)
    · rcases List.mem_cons.mp h with h | h
      · exact .inr (h ▸ List.mem_cons_self)
      · exact (ih h).imp id (List.mem_cons_of_mem _)

theorem place_ascending [Std.TransOrd κ] [Std.LawfulEqOrd κ] (k : κ) (v : β)
    {l : List (κ × β)} (h : l.Pairwise (fun a b => compare a.1 b.1 = .lt)) :
    (place k v l).Pairwise (fun a b => compare a.1 b.1 = .lt) := by
  induction l with
  | nil => exact List.pairwise_singleton _ _
  | cons hd tl ih =>
    obtain ⟨k', v'⟩ := hd
    obtain ⟨hhd, htl⟩ := List.pairwise_cons.mp h
    simp only [place]
    split
    next hlt =>
      refine List.pairwise_cons.mpr ⟨fun e he => ?_, h⟩
      rcases List.mem_cons.mp he with rfl | he
      · exact hlt
      · exact Std.TransCmp.lt_trans hlt (hhd e he)
    next heq =>
      have hk : k = k' := Std.LawfulEqCmp.eq_of_compare heq
      subst hk
      exact List.pairwise_cons.mpr ⟨hhd, htl⟩
    next hgt =>
      refine List.pairwise_cons.mpr ⟨fun e he => ?_, ih htl⟩
      rcases key_of_mem_place he with he | he
      · rw [he]
        exact Std.OrientedCmp.lt_of_gt hgt
      · exact hhd e he

/-- Store `v` at `k`; a value already there is replaced. -/
def insert [Std.TransOrd κ] [Std.LawfulEqOrd κ] (m : SortedMap κ β) (k : κ) (v : β) : SortedMap κ β :=
  ⟨place k v m.entries, place_ascending k v m.ascending⟩

/-- The map of a list of entries; of two entries with one key the later counts. -/
def ofList [Std.TransOrd κ] [Std.LawfulEqOrd κ] (l : List (κ × β)) : SortedMap κ β :=
  l.foldl (fun m e => m.insert e.1 e.2) empty

/-- Apply a function to every value; the keys stay. -/
def map (f : β → γ) (m : SortedMap κ β) : SortedMap κ γ :=
  ⟨m.entries.map (fun e => (e.1, f e.2)), List.Pairwise.map _ (fun _ _ h => h) m.ascending⟩

/-! ## Lookup after `insert` -/

theorem find_place_self [Std.LawfulEqOrd κ] (k : κ) (v : β) (l : List (κ × β)) : find k (place k v l) = some v := by
  induction l with
  | nil => simp [place, find, Std.ReflCmp.compare_self]
  | cons hd tl ih =>
    obtain ⟨k', v'⟩ := hd
    simp only [place]
    split
    next => simp [find, Std.ReflCmp.compare_self]
    next => simp [find, Std.ReflCmp.compare_self]
    next h => simp [find, h, ih]

theorem find_place_of_ne [Std.LawfulEqOrd κ] {k k' : κ} (hne : k' ≠ k) (v : β) (l : List (κ × β)) :
    find k' (place k v l) = find k' l := by
  have hcmp : compare k' k ≠ .eq := fun h => hne (Std.LawfulEqCmp.eq_of_compare h)
  induction l with
  | nil => simp [place, find, hcmp]
  | cons hd tl ih =>
    obtain ⟨k₁, v₁⟩ := hd
    simp only [place]
    split
    next => simp [find, hcmp]
    next h =>
      have hk : k = k₁ := Std.LawfulEqCmp.eq_of_compare h
      subst hk
      simp [find, hcmp]
    next => simp only [find, ih]

@[simp] theorem get?_empty (k : κ) : (empty : SortedMap κ β).get? k = none := rfl

section Insert

variable [Std.TransOrd κ] [Std.LawfulEqOrd κ]

theorem get?_insert_self (m : SortedMap κ β) (k : κ) (v : β) :
    (m.insert k v).get? k = some v :=
  find_place_self k v m.entries

theorem get?_insert_of_ne (m : SortedMap κ β) {k k' : κ} (h : k' ≠ k) (v : β) :
    (m.insert k v).get? k' = m.get? k' :=
  find_place_of_ne h v m.entries

theorem get?_insert [DecidableEq κ] (m : SortedMap κ β) (k k' : κ) (v : β) :
    (m.insert k v).get? k' = if k' = k then some v else m.get? k' := by
  split
  next h => exact h ▸ get?_insert_self m k v
  next h => exact get?_insert_of_ne m h v

end Insert

/-! ## Lookup after `map` -/

theorem find_map (f : β → γ) (k : κ) (l : List (κ × β)) :
    find k (l.map fun e => (e.1, f e.2)) = (find k l).map f := by
  induction l with
  | nil => rfl
  | cons hd tl ih =>
    obtain ⟨k', v'⟩ := hd
    simp only [List.map_cons, find]
    split
    next => rfl
    next => exact ih

theorem get?_map (f : β → γ) (m : SortedMap κ β) (k : κ) : (m.map f).get? k = (m.get? k).map f :=
  find_map f k m.entries

/-! ## Entries and lookups -/

/-- Nothing is found under a key below every key of the list. -/
theorem find_eq_none_of_lt {k : κ} {l : List (κ × β)}
    (h : ∀ e ∈ l, compare k e.1 = .lt) : find k l = none := by
  induction l with
  | nil => rfl
  | cons hd tl ih =>
    simp [find, h hd List.mem_cons_self, ih (fun e he => h e (List.mem_cons_of_mem _ he))]

/-- In ascending entries, what is found under a key is exactly what is listed with it. -/
theorem find_eq_some_iff [Std.LawfulEqOrd κ] {l : List (κ × β)}
    (h : l.Pairwise (fun a b => compare a.1 b.1 = .lt)) {k : κ} {v : β} :
    find k l = some v ↔ (k, v) ∈ l := by
  induction l with
  | nil => simp [find]
  | cons hd tl ih =>
    obtain ⟨k', v'⟩ := hd
    obtain ⟨hhd, htl⟩ := List.pairwise_cons.mp h
    simp only [find]
    split
    next heq =>
      have hk : k = k' := Std.LawfulEqCmp.eq_of_compare heq
      subst hk
      have hout : (k, v) ∉ tl := fun hmem => by
        have := hhd (k, v) hmem
        simp [Std.ReflCmp.compare_self] at this
      simp [hout, eq_comm]
    next hne =>
      have hk : k ≠ k' := fun e => hne (e ▸ Std.ReflCmp.compare_self)
      simp [ih htl, hk]

theorem get?_eq_some_iff [Std.LawfulEqOrd κ] {m : SortedMap κ β} {k : κ} {v : β} :
    m.get? k = some v ↔ (k, v) ∈ m.entries :=
  find_eq_some_iff m.ascending

theorem mem_keys [Std.LawfulEqOrd κ] {m : SortedMap κ β} {k : κ} :
    k ∈ m.keys ↔ m.contains k = true := by
  rw [contains_eq_true, keys, List.mem_map]
  constructor
  · rintro ⟨e, he, rfl⟩
    exact ⟨e.2, get?_eq_some_iff.mpr he⟩
  · rintro ⟨v, hv⟩
    exact ⟨(k, v), get?_eq_some_iff.mp hv, rfl⟩

theorem mem_keys_insert [Std.TransOrd κ] [Std.LawfulEqOrd κ] {m : SortedMap κ β} {k k' : κ}
    {v : β} : k' ∈ (m.insert k v).keys ↔ k' = k ∨ k' ∈ m.keys := by
  rw [mem_keys, mem_keys, contains, contains]
  by_cases h : k' = k
  · simp [h, get?_insert_self]
  · simp [h, get?_insert_of_ne]

theorem isEmpty_iff [Std.LawfulEqOrd κ] {m : SortedMap κ β} :
    m.isEmpty = true ↔ ∀ k, m.get? k = none := by
  rw [isEmpty, List.isEmpty_iff]
  constructor
  · intro h k
    rw [get?, h]
    rfl
  · intro h
    refine List.eq_nil_iff_forall_not_mem.mpr fun e he => ?_
    have hsome : m.get? e.1 = some e.2 := get?_eq_some_iff.mpr he
    rw [h] at hsome
    cases hsome

/-- No key is listed twice. -/
theorem nodup_keys [Std.LawfulEqOrd κ] (m : SortedMap κ β) : m.keys.Nodup := by
  refine List.Pairwise.map _ (fun a b hlt heq => ?_) m.ascending
  simp [heq, Std.ReflCmp.compare_self] at hlt

/-- A new key adds one entry. -/
theorem place_perm {k : κ} {v : β} {l : List (κ × β)} (h : find k l = none) :
    (place k v l).Perm ((k, v) :: l) := by
  induction l with
  | nil => exact .refl _
  | cons hd tl ih =>
    obtain ⟨k', v'⟩ := hd
    simp only [place, find] at h ⊢
    split
    next => exact .refl _
    next heq => simp [heq] at h
    next hgt =>
      simp only [hgt, reduceCtorEq, if_false] at h
      exact ((ih h).cons _).trans (.swap _ _ _)

/-- A list with different keys is the entries of its map, in some order. -/
theorem entries_ofList_perm [Std.TransOrd κ] [Std.LawfulEqOrd κ] {l : List (κ × β)}
    (h : (l.map Prod.fst).Nodup) : (ofList l).entries.Perm l := by
  have hfold : ∀ (l : List (κ × β)) (m : SortedMap κ β), (l.map Prod.fst).Nodup →
      (∀ e ∈ l, m.get? e.1 = none) →
      (l.foldl (fun m e => m.insert e.1 e.2) m).entries.Perm (m.entries ++ l) := by
    intro l
    induction l with
    | nil => simp
    | cons e l ih =>
      intro m hnd hnew
      obtain ⟨he, hnd⟩ := List.nodup_cons.mp hnd
      obtain ⟨hfresh, hnew⟩ := List.forall_mem_cons.mp hnew
      refine (ih (m.insert e.1 e.2) hnd fun e' he' => ?_).trans ?_
      · have hne : e'.1 ≠ e.1 := fun heq => he (heq ▸ List.mem_map_of_mem he')
        rw [get?_insert_of_ne m hne, hnew e' he']
      · exact ((place_perm hfresh).append_right l).trans List.perm_middle.symm
  exact hfold l empty h fun e _ => get?_empty e.1

/-- Two maps with the same lookups are the same map. -/
theorem ext_get? [Std.TransOrd κ] [Std.LawfulEqOrd κ] {a b : SortedMap κ β}
    (h : ∀ k, a.get? k = b.get? k) : a = b := by
  have key : ∀ {l₁ l₂ : List (κ × β)},
      l₁.Pairwise (fun a b => compare a.1 b.1 = .lt) →
      l₂.Pairwise (fun a b => compare a.1 b.1 = .lt) →
      (∀ k, find k l₁ = find k l₂) → l₁ = l₂ := by
    intro l₁
    induction l₁ with
    | nil =>
      intro l₂ _ _ hf
      cases l₂ with
      | nil => rfl
      | cons hd tl => simpa [find, Std.ReflCmp.compare_self] using hf hd.1
    | cons x xs ih =>
      intro l₂ h₁ h₂ hf
      cases l₂ with
      | nil => simpa [find, Std.ReflCmp.compare_self] using hf x.1
      | cons y ys =>
        obtain ⟨hx, hxs⟩ := List.pairwise_cons.mp h₁
        obtain ⟨hy, hys⟩ := List.pairwise_cons.mp h₂
        have hxy : x = y := by
          have hmem : x ∈ y :: ys := (find_eq_some_iff h₂).mp
            ((hf x.1) ▸ (find_eq_some_iff h₁).mpr List.mem_cons_self)
          have hmem' : y ∈ x :: xs := (find_eq_some_iff h₁).mp
            ((hf y.1) ▸ (find_eq_some_iff h₂).mpr List.mem_cons_self)
          rcases List.mem_cons.mp hmem with h | h
          · exact h
          · rcases List.mem_cons.mp hmem' with h' | h'
            · exact h'.symm
            · have hlt := Std.TransCmp.lt_trans (hx y h') (hy x h)
              simp [Std.ReflCmp.compare_self] at hlt
        subst hxy
        congr 1
        refine ih hxs hys fun k => ?_
        by_cases hk : compare k x.1 = .eq
        · have hkx : k = x.1 := Std.LawfulEqCmp.eq_of_compare hk
          rw [hkx, find_eq_none_of_lt hx, find_eq_none_of_lt hy]
        · simpa [find, hk] using hf k
  cases a with
  | mk l₁ h₁ =>
    cases b with
    | mk l₂ h₂ =>
      have : l₁ = l₂ := key h₁ h₂ h
      subst this
      rfl

/-- A map is the map of its entries. -/
theorem ofList_entries [Std.TransOrd κ] [Std.LawfulEqOrd κ] (m : SortedMap κ β) :
    ofList m.entries = m := by
  refine ext_get? fun k => Option.ext fun v => ?_
  rw [get?_eq_some_iff, get?_eq_some_iff, (entries_ofList_perm m.nodup_keys).mem_iff]

/-- Of two values stored at one key the later counts. -/
theorem insert_insert_self [Std.TransOrd κ] [Std.LawfulEqOrd κ] (m : SortedMap κ β) (k : κ)
    (v w : β) : (m.insert k v).insert k w = m.insert k w := by
  refine ext_get? fun k' => ?_
  by_cases h : k' = k
  · rw [h, get?_insert_self, get?_insert_self]
  · rw [get?_insert_of_ne _ h, get?_insert_of_ne _ h, get?_insert_of_ne _ h]

end SortedMap

end BuildGraph

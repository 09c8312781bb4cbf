import Mathlib.Data.List.Infix
import SourceAtlas.Proofs.Tree.Walk

/-! # Positions above and below each other

Where two nodes stand relative to each other is read off their addresses: a node is above another
when its address is a proper beginning of the other's. Positions are compared in a list of spots, so
that the same relation serves a tree, a row of trees and the whole walk. -/

namespace SourceAtlas

/-- In a list of spots, the one at `m` stands above the one at `k`. -/
def Over (l : List Spot) (m k : Nat) : Prop :=
  ∃ s t, l[m]? = some s ∧ l[k]? = some t ∧ s.address <+: t.address ∧ s.address ≠ t.address

instance (l : List Spot) (m k : Nat) : Decidable (Over l m k) :=
  decidable_of_iff
    (∃ s ∈ l[m]?, ∃ t ∈ l[k]?, s.address <+: t.address ∧ s.address ≠ t.address)
    (by simp only [Over, Option.mem_def, exists_and_left])

namespace Node

/-- Node number `j` is a proper ancestor of node number `i`. -/
def IsAbove (root : Node) (j i : Nat) : Prop := Over root.walk j i

instance (root : Node) (j i : Nat) : Decidable (root.IsAbove j i) :=
  inferInstanceAs (Decidable (Over root.walk j i))

def IsParent (root : Node) (p i : Nat) : Prop :=
  ∃ s t k, root.walk[p]? = some s ∧ root.walk[i]? = some t ∧ t.address = s.address ++ [k]

end Node

namespace Over

theorem cons_succ {l : List Spot} {s : Spot} {m k : Nat} :
    Over (s :: l) (m + 1) (k + 1) ↔ Over l m k := by
  simp only [Over, List.getElem?_cons_succ]

/-- Where every spot stands at or below an address, none stands above the spot at that address. -/
theorem not_first {l : List Spot} {s : Spot} (h : ∀ t ∈ l, s.address <+: t.address) (m : Nat) :
    ¬ Over (s :: l) m 0 := by
  rintro ⟨u, t, hu, ht, hp, hne⟩
  cases ht
  rcases List.mem_cons.mp (List.mem_of_getElem? hu) with rfl | hmem
  · exact hne rfl
  · exact hne (hp.eq_of_length_le (h u hmem).length_le)

/-- The first spot stands above all the others when these have longer addresses that begin alike. -/
theorem first {l : List Spot} {s : Spot}
    (h : ∀ t ∈ l, s.address <+: t.address ∧ s.address ≠ t.address) {k : Nat} (hk : k < l.length) :
    Over (s :: l) 0 (k + 1) := by
  refine ⟨s, l[k], rfl, ?_, h _ (List.getElem_mem hk)⟩
  rw [List.getElem?_cons_succ, List.getElem?_eq_getElem hk]

/-- In two lists none of whose spots stands above one of the other list, only spots of the same list
stand above each other. -/
theorem append_left {l r : List Spot} (h : ∀ s ∈ r, ∀ t ∈ l, ¬ s.address <+: t.address) {m k : Nat}
    (hk : k < l.length) : Over (l ++ r) m k ↔ Over l m k := by
  rw [Over, Over, List.getElem?_append_left hk]
  constructor
  · rintro ⟨s, t, hs, ht, hp, hne⟩
    rw [List.getElem?_append] at hs
    split at hs
    · exact ⟨s, t, hs, ht, hp, hne⟩
    · exact absurd hp (h s (List.mem_of_getElem? hs) t (List.mem_of_getElem? ht))
  · rintro ⟨s, t, hs, ht, hp, hne⟩
    obtain ⟨hm, _⟩ := List.getElem?_eq_some_iff.mp hs
    exact ⟨s, t, by rwa [List.getElem?_append_left hm], ht, hp, hne⟩

theorem append_right {l r : List Spot} (h : ∀ s ∈ l, ∀ t ∈ r, ¬ s.address <+: t.address)
    {m k : Nat} : Over (l ++ r) m (l.length + k) ↔ ∃ j, m = l.length + j ∧ Over r j k := by
  constructor
  · rintro ⟨s, t, hs, ht, hp, hne⟩
    rw [List.getElem?_append_right (Nat.le_add_right ..), Nat.add_sub_cancel_left] at ht
    rw [List.getElem?_append] at hs
    split at hs
    · exact absurd hp (h s (List.mem_of_getElem? hs) t (List.mem_of_getElem? ht))
    · exact ⟨m - l.length, by omega, s, t, hs, ht, hp, hne⟩
  · rintro ⟨j, rfl, s, t, hs, ht, hp, hne⟩
    refine ⟨s, t, ?_, ?_, hp, hne⟩
    · rwa [List.getElem?_append_right (Nat.le_add_right ..), Nat.add_sub_cancel_left]
    · rwa [List.getElem?_append_right (Nat.le_add_right ..), Nat.add_sub_cancel_left]

end Over

namespace Node

theorem spotsFrom_length (a : List Nat) (k : Nat) (ns : List Node) :
    (spotsFrom a k ns).length = nodeCountAll ns := by
  rw [← preorderAll_length, ← spotsFrom_nodes a k, List.length_map]

/-- The nodes below a node have longer addresses that begin with its own. -/
theorem address_below {a : List Nat} {k : Nat} {ns : List Node} {t : Spot}
    (h : t ∈ spotsFrom a k ns) : a <+: t.address ∧ a ≠ t.address := by
  obtain ⟨j, _, b, hj, _, _⟩ := address_of_mem_row h
  rw [hj]
  exact ⟨List.prefix_append .., by simp⟩

/-- A tree of a row and the trees after it stand beside each other. -/
theorem address_beside {a : List Nat} {k : Nat} {n : Node} {ns : List Node} {s t : Spot}
    (hs : s ∈ spotsAt (a ++ [k]) n) (ht : t ∈ spotsFrom a (k + 1) ns) :
    ¬ s.address <+: t.address ∧ ¬ t.address <+: s.address := by
  obtain ⟨b, hb, _⟩ := address_of_mem hs
  obtain ⟨j, _, b', hj, _, _⟩ := address_of_mem_row ht
  rw [hb, hj, List.append_assoc, List.prefix_append_right_inj, List.prefix_append_right_inj,
    List.singleton_append, List.cons_prefix_cons, List.cons_prefix_cons]
  omega

/-- The nodes above a node of a tree are its root and those within the same child. -/
theorem over_tree (a : List Nat) (e : Entry) (cs : List Node) {m k : Nat}
    (hk : k < nodeCountAll cs) :
    Over (spotsAt a (.mk e (some cs))) m (k + 1) ↔
      m = 0 ∨ ∃ j, m = j + 1 ∧ Over (spotsFrom a 0 cs) j k := by
  rw [spotsAt]
  cases m with
  | zero =>
    refine iff_of_true ?_ (.inl rfl)
    exact Over.first (fun t ht => address_below ht) (by rwa [spotsFrom_length])
  | succ m =>
    rw [Over.cons_succ]
    simp

theorem not_over_root (a : List Nat) (n : Node) (m : Nat) : ¬ Over (spotsAt a n) m 0 := by
  cases n with
  | mk e cs =>
    cases cs with
    | none =>
      rw [spotsAt]
      exact Over.not_first (by simp) m
    | some cs =>
      rw [spotsAt]
      exact Over.not_first (fun t ht => (address_below ht).1) m

theorem over_row_left (a : List Nat) (i : Nat) (n : Node) (ns : List Node) {m k : Nat}
    (hk : k < n.nodeCount) :
    Over (spotsFrom a i (n :: ns)) m k ↔ Over (spotsAt (a ++ [i]) n) m k := by
  rw [spotsFrom]
  exact Over.append_left (fun s hs t ht => (address_beside ht hs).2) (by rwa [spotsAt_length])

theorem over_row_right (a : List Nat) (i : Nat) (n : Node) (ns : List Node) {m k : Nat} :
    Over (spotsFrom a i (n :: ns)) m (n.nodeCount + k) ↔
      ∃ j, m = n.nodeCount + j ∧ Over (spotsFrom a (i + 1) ns) j k := by
  rw [spotsFrom, ← spotsAt_length (a ++ [i]) n]
  exact Over.append_right fun s hs t ht => (address_beside hs ht).1

/-! ## Ancestors in the walk -/

theorem walk_zero (root : Node) : root.walk[0]? = some ⟨[], root⟩ := by
  rw [walk_eq]
  cases root with
  | mk e cs =>
    cases cs with
    | none => rfl
    | some cs => rw [spotsAt]; rfl

/-- Two positions of the walk with one address are the same. -/
theorem walk_inj {root : Node} {i j : Nat} {s t : Spot} (hs : root.walk[i]? = some s)
    (ht : root.walk[j]? = some t) (h : s.address = t.address) : i = j := by
  have hi : (root.walk.map Spot.address)[i]? = some s.address := by
    rw [List.getElem?_map, hs]
    rfl
  have hj : (root.walk.map Spot.address)[j]? = some s.address := by
    rw [List.getElem?_map, ht, h]
    rfl
  obtain ⟨hlt, _⟩ := List.getElem?_eq_some_iff.mp hi
  exact (List.getElem?_inj hlt (walk_nodup root)).mp (hi.trans hj.symm)

theorem address_eq_nil {root : Node} {i : Nat} {s : Spot} (hs : root.walk[i]? = some s) :
    s.address = [] ↔ i = 0 := by
  constructor
  · intro h
    exact walk_inj hs (walk_zero root) h
  · rintro rfl
    rw [walk_zero] at hs
    cases hs
    rfl

theorem IsParent.unique {root : Node} {p q i : Nat} (hp : root.IsParent p i)
    (hq : root.IsParent q i) : p = q := by
  obtain ⟨s, t, k, hs, ht, ha⟩ := hp
  obtain ⟨s', t', k', hs', ht', ha'⟩ := hq
  rw [ht] at ht'
  cases ht'
  rw [ha] at ha'
  exact walk_inj hs hs' (List.append_inj_left' ha' rfl)

theorem IsAbove.lt {root : Node} {i j : Nat} (h : root.IsAbove j i) : j < root.nodeCount := by
  obtain ⟨s, _, hs, _⟩ := h
  rw [← walk_length]
  exact (List.getElem?_eq_some_iff.mp hs).1

theorem IsAbove.irrefl {root : Node} {i : Nat} : ¬ root.IsAbove i i := by
  rintro ⟨s, t, hs, ht, _, hne⟩
  cases hs.symm.trans ht
  exact hne rfl

theorem IsAbove.trans {root : Node} {i j k : Nat} (hj : root.IsAbove k j) (hi : root.IsAbove j i) :
    root.IsAbove k i := by
  obtain ⟨u, s, hu, hs, hp, hne⟩ := hj
  obtain ⟨s', t, hs', ht, hp', _⟩ := hi
  cases hs.symm.trans hs'
  refine ⟨u, t, hu, ht, hp.trans hp', ?_⟩
  intro he
  exact hne (hp.eq_of_length_le (he ▸ hp'.length_le))

theorem IsParent.isAbove {root : Node} {p i : Nat} (h : root.IsParent p i) : root.IsAbove p i := by
  obtain ⟨s, t, k, hs, ht, ha⟩ := h
  refine ⟨s, t, hs, ht, ?_, ?_⟩
  · rw [ha]
    exact List.prefix_append ..
  · simp [ha]

end Node
end SourceAtlas

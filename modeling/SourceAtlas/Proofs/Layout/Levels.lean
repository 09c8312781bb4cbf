import Mathlib.Data.List.Basic
import Mathlib.Data.List.Induction
import Mathlib.Data.List.Pairwise
import Mathlib.Logic.Function.Iterate
import SourceAtlas.Layout.Tidy

/-! # The levels of a forest

A forest is given by its roots. `Shape.level` lists the nodes so many levels below them, from left
to right; the contours of a forest are the first and the last nodes of its levels. `Leads` says of a
contour that a step takes it from each level to the next; two contours are joined by one step from
the end of the shorter one to the longer one. -/

namespace SourceAtlas.Layout

/-! ## Descents -/

section Descent

variable {β γ : Type} {f g : β → List β} {ℓ j : Nat} {xs : List β}

/-- What `ℓ` steps of `f` lead to from the members of a list, in order. -/
def generation (f : β → List β) : (ℓ : Nat) → List β → List β
  | 0, xs => xs
  | ℓ + 1, xs => (generation f ℓ xs).flatMap f

theorem generation_succ' (f : β → List β) (ℓ : Nat) (xs : List β) :
    generation f (ℓ + 1) xs = generation f ℓ (xs.flatMap f) := by
  induction ℓ with
  | zero => rfl
  | succ ℓ ih => rw [generation, ih, generation]

@[simp] theorem generation_nil (f : β → List β) (ℓ : Nat) : generation f ℓ [] = [] := by
  induction ℓ with
  | zero => rfl
  | succ ℓ ih => rw [generation, ih, List.flatMap_nil]

theorem generation_append (f : β → List β) (ℓ : Nat) (xs ys : List β) :
    generation f ℓ (xs ++ ys) = generation f ℓ xs ++ generation f ℓ ys := by
  induction ℓ with
  | zero => rfl
  | succ ℓ ih => rw [generation, ih, List.flatMap_append, generation, generation]

theorem generation_eq_nil (h : generation f ℓ xs = []) (hj : ℓ ≤ j) : generation f j xs = [] := by
  induction hj with
  | refl => exact h
  | step _ ih => rw [generation, ih, List.flatMap_nil]

theorem generation_congr (h : ∀ j < ℓ, ∀ x ∈ generation f j xs, g x = f x) :
    generation g ℓ xs = generation f ℓ xs := by
  induction ℓ with
  | zero => rfl
  | succ ℓ ih =>
    rw [generation, ih fun j hj => h j (Nat.lt_succ_of_lt hj), generation]
    exact List.flatMap_congr fun x hx => h ℓ (Nat.lt_succ_self ℓ) x hx

theorem generation_map {f : β → List β} {g : γ → List γ} (e : β → γ)
    (h : ∀ x, g (e x) = (f x).map e) (ℓ : Nat) (xs : List β) :
    generation g ℓ (xs.map e) = (generation f ℓ xs).map e := by
  induction ℓ with
  | zero => rfl
  | succ ℓ ih => rw [generation, ih, List.flatMap_map, generation, List.map_flatMap]; simp only [h]

def Leads (f : β → Option β) (ends : Nat → Option β) : Prop :=
  ∀ ⦃ℓ x⦄, ends ℓ = some x → f x = ends (ℓ + 1)

section Leads

variable {f g : β → Option β} {a b : Nat → Option β} {o : β}

theorem Leads.congr (h : Leads f b) (hg : ∀ {ℓ x}, b ℓ = some x → g x = f x) : Leads g b :=
  fun _ _ hx => (hg hx).trans (h hx)

theorem Leads.of_succ (h₀ : b 0 = some o) (h₁ : f o = b 1) (h : Leads f fun ℓ => b (ℓ + 1)) :
    Leads f b := by
  rintro (_ | ℓ) x hx
  · rwa [← Option.some.inj (h₀.symm.trans hx)]
  · exact h hx

/-- Where the ends `b` go down as far as the ends `a`, the `a` are not needed. -/
theorem Leads.join_longer (h : Leads f b) (hlong : ∀ {j}, b j = none → a j = none) :
    Leads f fun ℓ => (b ℓ).or (a ℓ) := by
  have heq : (fun ℓ => (b ℓ).or (a ℓ)) = b := by
    funext ℓ
    cases hb : b ℓ with
    | none => rw [hlong hb]; rfl
    | some x => rfl
  rw [heq]
  exact h

/-- Where the ends `b` stop at `o`, a step from `o` to the ends `a` goes on with these. -/
theorem Leads.join_shorter (hstop : ∀ {j}, ℓ < j ↔ b j = none) (ho : b ℓ = some o)
    (hnext : f o = a (ℓ + 1)) (ha : ∀ {j x}, ℓ < j → a j = some x → f x = a (j + 1))
    (hb : ∀ {j x}, j < ℓ → b j = some x → f x = b (j + 1)) : Leads f fun ℓ => (b ℓ).or (a ℓ) := by
  intro j x hx
  beta_reduce at hx ⊢
  cases hbj : b j with
  | none =>
    have hj : ℓ < j := hstop.mpr hbj
    rw [hbj, Option.none_or] at hx
    rw [ha hj hx, hstop.mp (Nat.lt_succ_of_lt hj), Option.none_or]
  | some y =>
    obtain rfl : y = x := by simpa [hbj] using hx
    have hj : ¬ ℓ < j := fun h => by simp [hstop.mp h] at hbj
    rcases Nat.lt_or_eq_of_le (Nat.le_of_not_lt hj) with hj | rfl
    · have hsome : (b (j + 1)).isSome :=
        Option.isSome_iff_ne_none.mpr fun h => Nat.not_lt_of_le hj (hstop.mpr h)
      rw [hb hj hbj, Option.or_of_isSome hsome]
    · obtain rfl : y = o := Option.some.inj (hbj.symm.trans ho)
      rw [hnext, hstop.mp (Nat.lt_succ_self j), Option.none_or]

/-- Ends that are relabelled at each level are led to by the relabelled steps. -/
theorem Leads.map {c : Nat → Option γ} {h : γ → Option γ} (e : β → γ) (hb : Leads f b)
    (hc : ∀ ℓ, c ℓ = (b ℓ).map e) (hh : ∀ {ℓ x}, b ℓ = some x → h (e x) = (f x).map e) :
    Leads h c := by
  intro ℓ y hy
  rw [hc] at hy
  obtain ⟨x, hx, rfl⟩ := Option.map_eq_some_iff.mp hy
  rw [hh hx, hb hx, hc]

end Leads

end Descent

/-! ## Levels of a tree -/

namespace Shape

/-- The links of a tree numbered in pre-order agree with each other. -/
structure Sound (s : Shape) : Prop where
  mem_children : ∀ {v p : Nat}, v ∈ s.children p ↔ v < s.count ∧ s.parent v = p
  children_sorted : ∀ p, (s.children p).Pairwise (· < ·)
  number_eq : ∀ {p a as bs}, s.children p = as ++ a :: bs → s.number a = as.length
  parent_root : s.parent 0 = s.count
  parent_lt : ∀ {v}, v < s.count → v ≠ 0 → s.parent v < v
  depth_root : s.depth 0 = 0
  depth_eq : ∀ {v}, v < s.count → v ≠ 0 → s.depth v = s.depth (s.parent v) + 1
  /-- The nodes numbered between a node and one of its children stand below the node. -/
  depth_lt : ∀ {v i}, v < s.count → v ≠ 0 → s.parent v < i → i ≤ v →
    s.depth (s.parent v) < s.depth i

/-- The nodes `ℓ` levels below the given roots, from left to right. -/
def level (s : Shape) (ℓ : Nat) (cs : List Nat) : List Nat := generation s.children ℓ cs

/-- A node of one of the subtrees at the given roots. -/
def Within (s : Shape) (cs : List Nat) (u : Nat) : Prop := ∃ ℓ, u ∈ s.level ℓ cs

section Level

variable {s : Shape} {ℓ j p u v c : Nat} {cs as bs : List Nat}

theorem level_append (s : Shape) (ℓ : Nat) (as bs : List Nat) :
    s.level ℓ (as ++ bs) = s.level ℓ as ++ s.level ℓ bs := generation_append ..

/-- The levels of a tree below its root are those of its children. -/
theorem level_tree (s : Shape) (ℓ v : Nat) : s.level (ℓ + 1) [v] = s.level ℓ (s.children v) := by
  rw [level, generation_succ', List.flatMap_singleton]; rfl

theorem mem_level_succ : u ∈ s.level (ℓ + 1) cs ↔ ∃ x ∈ s.level ℓ cs, u ∈ s.children x :=
  List.mem_flatMap

theorem level_eq_nil (h : s.level ℓ cs = []) (hj : ℓ ≤ j) : s.level j cs = [] :=
  generation_eq_nil h hj

theorem within_append : s.Within (as ++ bs) u ↔ s.Within as u ∨ s.Within bs u := by
  simp only [Within, level_append, List.mem_append, exists_or]

theorem within_of_mem (h : u ∈ cs) : s.Within cs u := ⟨0, h⟩

/-- A node of a tree is the root, or belongs to the subtree of a child. -/
theorem within_tree : s.Within [v] u ↔ u = v ∨ s.Within (s.children v) u := by
  constructor
  · rintro ⟨ℓ | ℓ, h⟩
    · exact .inl (List.mem_singleton.mp h)
    · exact .inr ⟨ℓ, level_tree s ℓ v ▸ h⟩
  · rintro (rfl | ⟨ℓ, h⟩)
    · exact within_of_mem (List.mem_singleton_self u)
    · exact ⟨ℓ + 1, (level_tree s ℓ v).symm ▸ h⟩

theorem level_subset (h : as ⊆ bs) : s.level ℓ as ⊆ s.level ℓ bs := by
  induction ℓ with
  | zero => exact h
  | succ ℓ ih =>
    intro u hu
    obtain ⟨x, hx, hux⟩ := mem_level_succ.mp hu
    exact mem_level_succ.mpr ⟨x, ih hx, hux⟩

theorem within_mono (h : as ⊆ bs) (hu : s.Within as u) : s.Within bs u :=
  hu.imp fun _ hu => level_subset h hu

end Level

namespace Sound

variable {s : Shape} {ℓ j p u v c d : Nat} {cs as bs : List Nat}

theorem child_lt_count (hs : s.Sound) (hc : c ∈ s.children p) : c < s.count :=
  (hs.mem_children.mp hc).1

theorem parent_child (hs : s.Sound) (hc : c ∈ s.children p) : s.parent c = p :=
  (hs.mem_children.mp hc).2

theorem parent_le (hs : s.Sound) (hc : c ∈ s.children p) : p ≤ s.count := by
  rw [← hs.parent_child hc]
  by_cases h : c = 0
  · exact Nat.le_of_eq (h ▸ hs.parent_root)
  · exact Nat.le_of_lt (Nat.lt_trans (hs.parent_lt (hs.child_lt_count hc) h) (hs.child_lt_count hc))

theorem child_ne_root (hs : s.Sound) (hc : c ∈ s.children p) (hp : p < s.count) : c ≠ 0 := by
  rintro rfl
  have := hs.parent_root.symm.trans (hs.parent_child hc)
  omega

theorem lt_child (hs : s.Sound) (hc : c ∈ s.children p) (hp : p < s.count) : p < c := by
  have := hs.parent_lt (hs.child_lt_count hc) (hs.child_ne_root hc hp)
  rwa [hs.parent_child hc] at this

theorem depth_child (hs : s.Sound) (hc : c ∈ s.children p) (hp : p < s.count) :
    s.depth c = s.depth p + 1 := by
  rw [hs.depth_eq (hs.child_lt_count hc) (hs.child_ne_root hc hp), hs.parent_child hc]

/-- Only the root stands below the extra node. -/
theorem eq_root (hs : s.Sound) (hc : c ∈ s.children p) (hp : ¬ p < s.count) : c = 0 := by
  by_contra h
  have h1 := hs.parent_lt (hs.child_lt_count hc) h
  have h2 := hs.child_lt_count hc
  rw [hs.parent_child hc] at h1
  omega

theorem depth_sibling (hs : s.Sound) (hc : c ∈ s.children p) (hd : d ∈ s.children p) :
    s.depth c = s.depth d := by
  by_cases hp : p < s.count
  · rw [hs.depth_child hc hp, hs.depth_child hd hp]
  · rw [hs.eq_root hc hp, hs.eq_root hd hp]

theorem children_top (hs : s.Sound) (h : 0 < s.count) : s.children s.count = [0] := by
  have hroot (c : Nat) (hc : c ∈ s.children s.count) : c = 0 := hs.eq_root hc (Nat.lt_irrefl _)
  have hmem : 0 ∈ s.children s.count := hs.mem_children.mpr ⟨h, hs.parent_root⟩
  have hsorted := hs.children_sorted s.count
  rcases hch : s.children s.count with _ | ⟨c, _ | ⟨d, cs⟩⟩
  · rw [hch] at hmem; cases hmem
  · rw [hroot c (by rw [hch]; simp)]
  · have hlt : c < d := List.rel_of_pairwise_cons (hch ▸ hsorted) (List.mem_cons_self ..)
    rw [hroot d (by rw [hch]; simp)] at hlt
    omega

theorem root_prefix (hs : s.Sound) (h : 0 < s.count) : [0] <+: s.children s.count :=
  (hs.children_top h).symm ▸ List.prefix_refl [0]

theorem children_nodup (hs : s.Sound) (p : Nat) : (s.children p).Nodup :=
  (hs.children_sorted p).imp Nat.ne_of_lt

theorem getElem?_number (hs : s.Sound) (hc : c ∈ s.children p) :
    (s.children p)[s.number c]? = some c := by
  obtain ⟨as, bs, h⟩ := List.append_of_mem hc
  rw [hs.number_eq h, h]
  simp

theorem number_next (hs : s.Sound) (hcs : cs ++ [v] <+: s.children p) : s.number v = cs.length := by
  obtain ⟨rest, hrest⟩ := hcs
  exact hs.number_eq (by rw [← hrest, List.append_assoc]; rfl)

theorem number_first (hs : s.Sound) (hcs : cs <+: s.children p) (hc : cs.head? = some c) :
    s.number c = 0 := by
  obtain ⟨rest, hrest⟩ := hcs
  obtain ⟨ds, rfl⟩ := List.head?_eq_some_iff.mp hc
  have hsplit : s.children p = [] ++ c :: (ds ++ rest) := hrest.symm
  exact hs.number_eq hsplit

theorem number_lt_length (hs : s.Sound) (hcs : cs <+: s.children p) (hc : c ∈ cs) :
    s.number c < cs.length := by
  obtain ⟨rest, hrest⟩ := hcs
  obtain ⟨as, bs, rfl⟩ := List.append_of_mem hc
  rw [hs.number_eq (by rw [← hrest, List.append_assoc]; rfl), List.length_append]
  simp

theorem number_sorted (hs : s.Sound) (hcs : cs <+: s.children p) :
    cs.Pairwise fun c d => s.number c < s.number d := by
  induction cs using List.reverseRecOn with
  | nil => exact .nil
  | append_singleton cs v ih =>
    have hfront : cs <+: s.children p := (List.prefix_append cs [v]).trans hcs
    refine List.pairwise_append.mpr ⟨ih hfront, List.pairwise_singleton .., fun c hc d hd => ?_⟩
    rw [List.mem_singleton.mp hd, hs.number_next hcs]
    exact hs.number_lt_length hfront hc

theorem number_injective (hs : s.Sound) (hc : c ∈ s.children p) (hd : d ∈ s.children p)
    (h : s.number c = s.number d) : c = d :=
  Option.some.inj ((hs.getElem?_number hc).symm.trans (h ▸ hs.getElem?_number hd))

theorem lt_count_of_mem_level (hs : s.Sound) (hcs : cs ⊆ s.children p) (hu : u ∈ s.level ℓ cs) :
    u < s.count := by
  cases ℓ with
  | zero => exact hs.child_lt_count (hcs hu)
  | succ ℓ =>
    obtain ⟨x, -, hx⟩ := mem_level_succ.mp hu
    exact hs.child_lt_count hx

theorem lt_count_of_mem_tree (hs : s.Sound) (h : 0 < s.count) (hu : u ∈ s.level ℓ [0]) :
    u < s.count :=
  hs.lt_count_of_mem_level (hs.root_prefix h).subset hu

/-- The nodes of a level have one depth. -/
theorem depth_of_mem_level (hs : s.Sound) (hcs : cs ⊆ s.children p) (hc : c ∈ s.children p)
    (hu : u ∈ s.level ℓ cs) : s.depth u = s.depth c + ℓ := by
  induction ℓ generalizing u with
  | zero => exact hs.depth_sibling (hcs hu) hc
  | succ ℓ ih =>
    obtain ⟨x, hx, hux⟩ := mem_level_succ.mp hu
    rw [hs.depth_child hux (hs.lt_count_of_mem_level hcs hx), ih hx, Nat.add_assoc]

theorem level_le (hs : s.Sound) (hcs : cs ⊆ s.children p) (hu : u ∈ s.level ℓ cs) : ℓ ≤ u := by
  induction ℓ generalizing u with
  | zero => exact Nat.zero_le u
  | succ ℓ ih =>
    obtain ⟨x, hx, hux⟩ := mem_level_succ.mp hu
    exact Nat.lt_of_le_of_lt (ih hx) (hs.lt_child hux (hs.lt_count_of_mem_level hcs hx))

theorem level_unique (hs : s.Sound) (hcs : cs ⊆ s.children p) (hu : u ∈ s.level ℓ cs)
    (hj : u ∈ s.level j cs) : ℓ = j := by
  cases hmem : cs with
  | nil => simp [hmem, level] at hu
  | cons c cs' =>
    have hc : c ∈ s.children p := hcs (hmem ▸ List.mem_cons_self ..)
    have h1 := hs.depth_of_mem_level hcs hc hu
    have h2 := hs.depth_of_mem_level hcs hc hj
    omega

theorem root_of_mem_level (hs : s.Sound) (hu : u ∈ s.level ℓ cs) : s.parent^[ℓ] u ∈ cs := by
  induction ℓ generalizing u with
  | zero => exact hu
  | succ ℓ ih =>
    obtain ⟨x, hx, hux⟩ := mem_level_succ.mp hu
    rw [Function.iterate_succ_apply, hs.parent_child hux]
    exact ih hx

/-- The subtrees of different siblings have no node in common. -/
theorem not_within_both (hs : s.Sound) (hcs : as ++ bs <+: s.children p) (ha : s.Within as u) :
    ¬ s.Within bs u := by
  rintro ⟨j, hb⟩
  obtain ⟨ℓ, ha⟩ := ha
  obtain ⟨hda, hdb⟩ := List.append_subset.mp hcs.subset
  have hroot := hdb (hs.root_of_mem_level hb)
  have hℓ : ℓ = j := by
    have h1 := hs.depth_of_mem_level hda hroot ha
    have h2 := hs.depth_of_mem_level hdb hroot hb
    omega
  have hnd : (as ++ bs).Nodup := (hs.children_nodup p).sublist hcs.sublist
  refine (List.nodup_append.mp hnd).2.2 _ (hs.root_of_mem_level ha) _ (hs.root_of_mem_level hb) ?_
  rw [hℓ]

/-- A node does not stand below its left siblings. -/
theorem ne_of_within_left (hs : s.Sound) (hcs : cs ++ [v] <+: s.children p) (hu : s.Within cs u) :
    u ≠ v := by
  rintro rfl
  exact hs.not_within_both hcs hu (within_of_mem (List.mem_singleton_self u))

/-- Levels list their nodes in numerical order: what stands between a node and its last child is
deeper than the node, so no other node of its level does. -/
theorem level_sorted (hs : s.Sound) (hcs : cs <+: s.children p) (ℓ : Nat) :
    (s.level ℓ cs).Pairwise (· < ·) := by
  induction ℓ with
  | zero => exact (hs.children_sorted p).sublist hcs.sublist
  | succ ℓ ih =>
    refine List.pairwise_flatMap.mpr ⟨fun x _ => hs.children_sorted x, ?_⟩
    refine ih.imp_of_mem fun {x y} hx hy hxy c hc d hd => ?_
    have hxn := hs.lt_count_of_mem_level hcs.subset hx
    have hyd := hs.lt_child hd (hs.lt_count_of_mem_level hcs.subset hy)
    by_contra hdc
    have hdeeper := hs.depth_lt (hs.child_lt_count hc) (hs.child_ne_root hc hxn)
      (by rwa [hs.parent_child hc]) (by omega : y ≤ c)
    rw [hs.parent_child hc] at hdeeper
    have hroot := hcs.subset (hs.root_of_mem_level hx)
    have h1 := hs.depth_of_mem_level hcs.subset hroot hx
    have h2 := hs.depth_of_mem_level hcs.subset hroot hy
    omega

/-- What holds along a level holds of any two nodes of it in numerical order. -/
theorem rel_of_level (hs : s.Sound) (hcs : cs <+: s.children p) {R : Nat → Nat → Prop}
    (h : (s.level ℓ cs).Pairwise R) (huv : u < v) (hu : u ∈ s.level ℓ cs) (hv : v ∈ s.level ℓ cs) :
    R u v := by
  have hrel : (s.level ℓ cs).Pairwise fun x y => x < y → R x y := by
    refine h.imp ?_
    intro x y hxy _
    exact hxy
  refine hrel.forall_of_forall_of_flip (fun x _ hx => absurd hx (Nat.lt_irrefl x)) ?_ hu hv huv
  exact (hs.level_sorted hcs ℓ).imp fun hxy hyx => absurd hxy (Nat.lt_asymm hyx)

/-- A node does not stand below itself. -/
theorem not_within_children (hs : s.Sound) (p : Nat) : ¬ s.Within (s.children p) p := by
  rintro ⟨ℓ, h⟩
  have hp : p < s.count := hs.lt_count_of_mem_level (fun _ => id) h
  have hroot := hs.root_of_mem_level h
  have h1 := hs.depth_of_mem_level (fun _ => id) hroot h
  have h2 := hs.depth_child hroot hp
  omega

theorem parent_within (hs : s.Sound) (hu : u ∈ s.level (ℓ + 1) cs) : s.parent u ∈ s.level ℓ cs := by
  obtain ⟨x, hx, hux⟩ := mem_level_succ.mp hu
  rwa [hs.parent_child hux]

end Sound

end Shape

end SourceAtlas.Layout

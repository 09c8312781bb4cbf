import Mathlib.Tactic.Linarith
import Mathlib.Tactic.NormNum
import SourceAtlas.Proofs.Diagram.Treemap
import SourceAtlas.Proofs.Geometry.Padding
import SourceAtlas.Proofs.Layout.Tiling

/-! # Cells inside each other

The tiles of siblings lie in the interior of their parent, which reaches half a gap beyond the space
that they may fill; a tile that is at least a gap wide and high gives half a gap back on every side.
The two halves cancel out, so that cells keep clear of the header of their parent and of each other,
and rounding takes nothing of the distances away. -/

namespace SourceAtlas.Treemap

/-! ## The tile of a node -/

section

variable {α : Type} [Scalar α]

/-- The tile of the node at an address below a node that has the given tile: the one that it gets
among its siblings, before it is inset. -/
def tileAt (depth : Nat) (tile : Rect α) (n : Node) : List Nat → Option (Rect α)
  | [] => some tile
  | k :: a =>
    (n.children[k]?).bind fun c =>
      ((siblingTiles (n.children.map Node.totalSize) (interior (inset depth tile)))[k]?).bind
        fun t => tileAt (depth + 1) t c a

/-- The tile of the node at a position of a tree that is laid out within the given bounds. -/
def tile? (root : Node) (bounds : Rect α) (i : Nat) : Option (Rect α) :=
  (root.walk[i]?).bind fun s => tileAt 0 bounds root s.address

theorem siblingTiles_ranked {sizes : List Nat} (region : Rect α) {j : Nat} (hj : j < sizes.length) :
    ∃ rank : Nat, (bySize sizes)[rank]? = some j ∧
      (siblingTiles sizes region)[j]? = (rankedTiles sizes region)[rank]? := by
  have hmem : j ∈ bySize sizes := (bySize_perm sizes).symm.subset (List.mem_range.mpr hj)
  obtain ⟨rank, hlt, hrank⟩ := List.getElem_of_mem hmem
  have hlt' : rank < (rankedTiles sizes region).length := by rwa [rankedTiles_length]
  refine ⟨rank, List.getElem?_eq_some_iff.mpr ⟨hlt, hrank⟩, ?_⟩
  have hzip : (j, (rankedTiles sizes region)[rank]) ∈
      (bySize sizes).zip (rankedTiles sizes region) := by
    refine List.mem_of_getElem? (i := rank) (List.getElem?_zip_eq_some.mpr ⟨?_, ?_⟩)
    · exact List.getElem?_eq_some_iff.mpr ⟨hlt, hrank⟩
    · exact List.getElem?_eq_getElem hlt'
  rw [siblingTiles_getElem? hzip, List.getElem?_eq_getElem hlt']

theorem siblingTiles_length (sizes : List Nat) (region : Rect α) :
    (siblingTiles sizes region).length = sizes.length := by
  simp [siblingTiles]

/-- A child is drawn in the tile that it has among its siblings. -/
theorem mem_plots {start : Nat} {ns : List Node} {region : Rect α} {x : (Nat × Node) × Rect α}
    (hx : x ∈ plots start ns region) : ∃ k : Nat, (Node.starts start ns)[k]? = some x.1 ∧
      (siblingTiles (ns.map Node.totalSize) region)[k]? = some x.2 := by
  obtain ⟨ranked, hstart, hnumbers, hplots⟩ := plots_ranked start ns region
  rw [hplots, List.mem_map] at hx
  obtain ⟨y, hy, rfl⟩ := hx
  refine ⟨y.1.2, hstart y.1 (List.of_mem_zip hy).1, ?_⟩
  refine siblingTiles_getElem? (x := (y.1.2, y.2)) ?_
  rw [hnumbers, List.zip_map_left]
  exact List.mem_map_of_mem hy

/-- The rectangle of a cell is the tile of its node, inset and rounded. -/
theorem cellsOf_rect {w : List Spot} {n : Node} {a : List Nat} {id : Nat}
    (h : Through w id (Node.spotsAt a n)) (tile : Rect α) {c : Cell α}
    (hc : c ∈ cellsOf id a.length tile n) : ∃ b m t, w[c.id]? = some ⟨a ++ b, m⟩ ∧
      tileAt a.length tile n b = some t ∧ c.rect = (inset (a ++ b).length t).round := by
  induction n using Node.byChildren generalizing a id tile with
  | step n ih =>
    rw [cellsOf_eq, List.mem_cons, ← List.flatMap_def, List.mem_flatMap] at hc
    rcases hc with rfl | ⟨x, hx, hc⟩
    · rw [Node.spotsAt_children] at h
      refine ⟨[], n, tile, ?_, rfl, ?_⟩
      · rw [List.append_nil]
        exact h.head
      · rw [List.append_nil]
        rfl
    · obtain ⟨k, hk, htile⟩ := mem_plots hx
      have hchild : n.children[k]? = some x.1.2 := by
        rw [← Node.starts_snd (id + 1) n.children, List.getElem?_map, hk]
        rfl
      have hwalk : Through w x.1.1 (Node.spotsAt (a ++ [k]) x.1.2) := by
        simpa using h.children.child hk
      have hblock : c ∈ cellsOf x.1.1 (a ++ [k]).length x.2 x.1.2 := by
        rwa [List.length_append]
      obtain ⟨b, m, t, hm, ht, hrect⟩ := ih x.1.2 (List.mem_of_getElem? hchild) hwalk x.2 hblock
      refine ⟨k :: b, m, t, ?_, ?_, ?_⟩
      · rwa [List.append_cons]
      · rw [tileAt, hchild, Option.bind_some, htile, Option.bind_some]
        rwa [List.length_append] at ht
      · rwa [List.append_cons]

theorem layout_rect {root : Node} {bounds : Rect α} {c : Cell α} (hc : c ∈ layout root bounds) :
    ∃ s t, root.walk[c.id]? = some s ∧ c.depth = s.address.length ∧
      tile? root bounds c.id = some t ∧ c.rect = (inset c.depth t).round := by
  have hw := Node.through_subtree (Node.walk_zero root)
  obtain ⟨s, hs, hdesc⟩ := cellsOf_describes hw bounds hc
  obtain ⟨b, m, t, hm, ht, hrect⟩ := cellsOf_rect hw bounds hc
  cases hs.symm.trans hm
  refine ⟨_, t, hm, hdesc.depth, ?_, ?_⟩
  · rw [tile?, hm]
    exact ht
  · rw [hdesc.depth, hrect]

/-- A child has its tile among the tiles in the interior of its parent. -/
theorem tileAt_child {n : Node} {a : List Nat} {k depth : Nat} {tile t' : Rect α}
    (ht' : tileAt depth tile n (a ++ [k]) = some t') :
    ∃ m t, n.at? a = some m ∧ tileAt depth tile n a = some t ∧
      (siblingTiles (m.children.map Node.totalSize)
        (interior (inset (depth + a.length) t)))[k]? = some t' := by
  induction a generalizing n depth tile with
  | nil =>
    rw [List.nil_append, tileAt] at ht'
    obtain ⟨c, _, ht'⟩ := Option.bind_eq_some_iff.mp ht'
    obtain ⟨u, hu, ht'⟩ := Option.bind_eq_some_iff.mp ht'
    cases ht'
    exact ⟨n, tile, rfl, rfl, hu⟩
  | cons j a ih =>
    rw [List.cons_append, tileAt] at ht'
    obtain ⟨c, hc, ht'⟩ := Option.bind_eq_some_iff.mp ht'
    obtain ⟨u, hu, ht'⟩ := Option.bind_eq_some_iff.mp ht'
    obtain ⟨m, t, hm, ht, hk⟩ := ih ht'
    refine ⟨m, t, Node.at?_cons_eq_some.mpr ⟨c, hc, hm⟩, ?_, ?_⟩
    · rw [tileAt, hc, Option.bind_some, hu, Option.bind_some, ht]
    · rwa [List.length_cons, Nat.add_comm a.length, ← Nat.add_assoc]

theorem layout_child {root : Node} {bounds : Rect α} {c : Cell α} {p : Nat}
    (hc : c ∈ layout root bounds) (h : root.IsParent p c.id) :
    ∃ s m u t k, root.walk[p]? = some s ∧ root.walk[c.id]? = some ⟨s.address ++ [k], m⟩ ∧
      tile? root bounds p = some u ∧ tile? root bounds c.id = some t ∧
      (siblingTiles (s.node.children.map Node.totalSize)
        (interior (inset s.address.length u)))[k]? = some t ∧
      c.rect = (inset (s.address.length + 1) t).round := by
  obtain ⟨s, ⟨a, m⟩, k, hs, hm, rfl⟩ := h
  obtain ⟨_, t, hm', hdepth, ht, hrect⟩ := layout_rect hc
  cases hm.symm.trans hm'
  rw [hdepth, List.length_append] at hrect
  have htile := ht
  rw [tile?, hm, Option.bind_some] at htile
  obtain ⟨n, u, hn, hu, hk⟩ := tileAt_child htile
  cases (Node.at?_of_mem_walk (List.mem_of_getElem? hs)).symm.trans hn
  rw [Nat.zero_add] at hk
  refine ⟨s, m, u, t, k, hs, hm, ?_, ht, hk, hrect⟩
  rw [tile?, hs, Option.bind_some, hu]

end

/-! ## Exact padding -/

section Exact

variable {region r t t' : Rect Rat} {sizes : List Nat} {depth j k : Nat}

theorem paddingTop_eq : (paddingTop : Rat) = 50 := by norm_num [paddingTop]

theorem paddingRight_eq : (paddingRight : Rat) = 7 := by norm_num [paddingRight]

theorem halfGap_eq : (halfGap : Rat) = 3 / 2 := by norm_num [halfGap]

theorem mem_rankedTiles (h : (siblingTiles sizes region)[k]? = some t) :
    t ∈ rankedTiles sizes region := by
  obtain ⟨hlt, _⟩ := List.getElem?_eq_some_iff.mp h
  rw [siblingTiles_length] at hlt
  obtain ⟨rank, _, hrank⟩ := siblingTiles_ranked region hlt
  exact List.mem_of_getElem? (hrank.symm.trans h)

theorem siblingTiles_inside (hup : region.Upright) (h : (siblingTiles sizes region)[k]? = some t) :
    t.Inside region :=
  (Layout.squarify_inside _ hup).1 t (mem_rankedTiles h)

/-- The tiles of two siblings do not overlap. -/
theorem siblingTiles_apart (hup : region.Upright) (hne : j ≠ k)
    (hj : (siblingTiles sizes region)[j]? = some t)
    (hk : (siblingTiles sizes region)[k]? = some t') :
    t.Apart t' := by
  have hlt {i : Nat} {u : Rect Rat} (hi : (siblingTiles sizes region)[i]? = some u) :
      i < sizes.length := by
    rw [← siblingTiles_length sizes region]
    exact (List.getElem?_eq_some_iff.mp hi).1
  obtain ⟨m, hm, htile⟩ := siblingTiles_ranked region (hlt hj)
  obtain ⟨n, hn, htile'⟩ := siblingTiles_ranked region (hlt hk)
  have hmn : m ≠ n := by
    intro he
    rw [he, hn] at hm
    exact hne (Option.some.inj hm).symm
  rw [hj, eq_comm] at htile
  rw [hk, eq_comm] at htile'
  obtain ⟨hml, rfl⟩ := List.getElem?_eq_some_iff.mp htile
  obtain ⟨hnl, rfl⟩ := List.getElem?_eq_some_iff.mp htile'
  have hapart : (rankedTiles sizes region).Pairwise Rect.Apart := (Layout.squarify_inside _ hup).2
  rw [List.pairwise_iff_getElem] at hapart
  rcases Nat.lt_or_gt_of_ne hmn with hlt | hlt
  · exact hapart m n hml hnl hlt
  · exact (hapart n m hnl hml hlt).symm

/-- A tile that has room for the gap gives half of it back on every side. -/
theorem inset_of_large (hdepth : depth ≠ 0) (hwidth : 3 ≤ t.width) (hheight : 3 ≤ t.height) :
    inset depth t = ⟨t.x0 + 3 / 2, t.y0 + 3 / 2, t.x1 - 3 / 2, t.y1 - 3 / 2⟩ := by
  unfold Rect.width at hwidth
  unfold Rect.height at hheight
  rw [inset, if_neg hdepth, halfGap_eq, Rect.pad_eq,
    Rect.meet_of_le (show t.x0 + 3 / 2 ≤ t.x1 - 3 / 2 by linarith),
    Rect.meet_of_le (show t.y0 + 3 / 2 ≤ t.y1 - 3 / 2 by linarith)]

theorem interior_upright (r : Rect Rat) : (interior r).Upright := Rect.pad_upright ..

/-- A tile with room for the gap keeps, once it is inset and rounded, clear of the header and the
right padding of the rounded rectangle around it. -/
theorem inside_rounded (hdepth : depth ≠ 0) (hwidth : 3 ≤ t.width) (hheight : 3 ≤ t.height)
    (h : t.Inside (interior r)) :
    r.round.x0 ≤ (inset depth t).round.x0 ∧ (inset depth t).round.x1 ≤ r.round.x1 - 7 ∧
      r.round.y0 + 50 ≤ (inset depth t).round.y0 ∧ (inset depth t).round.y1 ≤ r.round.y1 := by
  rw [interior, paddingTop_eq, paddingRight_eq, halfGap_eq] at h
  rw [Rect.pad_of_inside h (by linarith) (by linarith)] at h
  obtain ⟨_, hleft, hright, htop, hbottom⟩ := h
  simp only at hleft hright htop hbottom
  rw [inset_of_large hdepth hwidth hheight]
  refine ⟨Scalar.round_mono ?_, ?_, Scalar.round_add_ofNat_le ?_, Scalar.round_mono ?_⟩
  · linarith
  · rw [le_sub_iff_add_le]
    exact Scalar.round_add_ofNat_le (by linarith)
  · linarith
  · linarith

/-- The rectangles are at least a gap apart, along one of the directions. -/
def Spaced (r t : Rect Rat) : Prop :=
  r.x1 + 3 ≤ t.x0 ∨ t.x1 + 3 ≤ r.x0 ∨ r.y1 + 3 ≤ t.y0 ∨ t.y1 + 3 ≤ r.y0

theorem spaced_rounded (hdepth : depth ≠ 0) (hwidth : 3 ≤ t.width) (hheight : 3 ≤ t.height)
    (hwidth' : 3 ≤ t'.width) (hheight' : 3 ≤ t'.height) (h : t.Apart t') :
    Spaced (inset depth t).round (inset depth t').round := by
  have hgap {a b : Rat} (hab : a ≤ b) : Scalar.round (a - 3 / 2) + 3 ≤ Scalar.round (b + 3 / 2) :=
    Scalar.round_add_ofNat_le (by linarith)
  rw [inset_of_large hdepth hwidth hheight, inset_of_large hdepth hwidth' hheight']
  exact (h.beside (by linarith) (by linarith) (by linarith) (by linarith)).imp hgap
    (.imp hgap (.imp hgap hgap))

/-- A cell below the root has its edges in order. -/
theorem inset_upright (hdepth : depth ≠ 0) (t : Rect Rat) : (inset depth t).Upright := by
  rw [inset, if_neg hdepth]
  exact Rect.pad_upright ..

end Exact

/-- The node at a position has a tile with room for the gap in both directions. -/
def Large (root : Node) (bounds : Rect Rat) (i : Nat) : Prop :=
  ∃ t, tile? root bounds i = some t ∧ 3 ≤ t.width ∧ 3 ≤ t.height

/-- In a treemap over exact numbers a cell is the tile of its node, inset and rounded. The edges of
every cell below the root stand in order. A cell whose tile is at least 3 wide and 3 high lies
inside the cell of its parent, below the header and left of the right padding, and two siblings with
such tiles are at least 3 apart. -/
theorem layout_nested (root : Node) (bounds : Rect Rat) :
    let cells := layout root bounds
    (∀ c ∈ cells, ∃ t, tile? root bounds c.id = some t ∧ c.rect = (inset c.depth t).round) ∧
    (∀ c ∈ cells, c.id ≠ 0 → c.rect.x0 ≤ c.rect.x1 ∧ c.rect.y0 ≤ c.rect.y1) ∧
    (∀ p ∈ cells, ∀ c ∈ cells, root.IsParent p.id c.id → Large root bounds c.id →
      p.rect.x0 ≤ c.rect.x0 ∧ c.rect.x1 ≤ p.rect.x1 - 7 ∧
        p.rect.y0 + 50 ≤ c.rect.y0 ∧ c.rect.y1 ≤ p.rect.y1) ∧
    ∀ p, ∀ c ∈ cells, ∀ d ∈ cells, root.IsParent p c.id → root.IsParent p d.id → c.id ≠ d.id →
      Large root bounds c.id → Large root bounds d.id → Spaced c.rect d.rect := by
  intro cells
  refine ⟨?_, ?_, ?_, ?_⟩
  · intro c hc
    obtain ⟨_, t, _, _, ht, hrect⟩ := layout_rect hc
    exact ⟨t, ht, hrect⟩
  · intro c hc hid
    obtain ⟨s, t, hs, hdepth, _, hrect⟩ := layout_rect hc
    have hne : c.depth ≠ 0 := by
      rw [hdepth, Ne, List.length_eq_zero_iff, Node.address_eq_nil hs]
      exact hid
    rw [hrect]
    exact (inset_upright hne t).round
  · rintro p hp c hc hparent ⟨t, ht, hwidth, hheight⟩
    obtain ⟨s, _, u, _, k, hs, _, hu, ht', hk, hrect⟩ := layout_child hc hparent
    cases ht.symm.trans ht'
    obtain ⟨_, _, hs', hdepth, hu', hrect'⟩ := layout_rect hp
    cases hs.symm.trans hs'
    cases hu.symm.trans hu'
    rw [hrect, hrect', hdepth]
    exact inside_rounded (Nat.succ_ne_zero _) hwidth hheight
      (siblingTiles_inside (interior_upright _) hk)
  · rintro p c hc d hd hparent hparent' hne ⟨t, ht, hwidth, hheight⟩ ⟨t', ht', hwidth', hheight'⟩
    obtain ⟨s, _, u, _, j, hs, hwalk, hu, hv, hj, hrect⟩ := layout_child hc hparent
    obtain ⟨_, _, _, _, k, hs', hwalk', hu', hv', hk, hrect'⟩ := layout_child hd hparent'
    cases hs.symm.trans hs'
    cases hu.symm.trans hu'
    cases ht.symm.trans hv
    cases ht'.symm.trans hv'
    have hjk : j ≠ k := by
      rintro rfl
      exact hne (Node.walk_inj hwalk hwalk' rfl)
    rw [hrect, hrect']
    exact spaced_rounded (Nat.succ_ne_zero _) hwidth hheight hwidth' hheight'
      (siblingTiles_apart (interior_upright _) hjk hj hk)

/-- The cell of a file lies inside that of its directory, which keeps its distance from the file
beside it. -/
theorem layout_nested_sample :
    let file (name : String) (size : UInt64) :=
      Node.mk { name, kind := .file, size := some size } none
    let root := Node.directory "src" [file "b.c" 1, Node.directory "lib" [file "a.c" 3]]
    let cells := layout root (⟨0, 0, 200, 300⟩ : Rect Rat)
    ∃ b ∈ cells, ∃ lib ∈ cells, ∃ a ∈ cells, b.name = "b.c" ∧ lib.name = "lib" ∧ a.name = "a.c" ∧
      lib.rect.x0 ≤ a.rect.x0 ∧ a.rect.x1 ≤ lib.rect.x1 - 7 ∧
      lib.rect.y0 + 50 ≤ a.rect.y0 ∧ a.rect.y1 ≤ lib.rect.y1 ∧ Spaced b.rect lib.rect := by
  intro file root cells
  let bounds : Rect Rat := ⟨0, 0, 200, 300⟩
  have hfirst : root.walk[1]? = some ⟨[0], file "b.c" 1⟩ := by rw [Node.walk_eq]; rfl
  have hlib : root.walk[2]? = some ⟨[1], Node.directory "lib" [file "a.c" 3]⟩ := by
    rw [Node.walk_eq]; rfl
  have hlast : root.walk[3]? = some ⟨[1, 0], file "a.c" 3⟩ := by rw [Node.walk_eq]; rfl
  have hids : (cells.map Cell.id).Perm (List.range' 0 4) := cellsOf_ids 0 0 bounds root
  have hcell {i : Nat} {s : Spot} (hi : i < 4) (hs : root.walk[i]? = some s) :
      ∃ c ∈ cells, c.id = i ∧ c.name = s.node.name := by
    obtain ⟨c, hc, hid⟩ :=
      List.mem_map.mp (hids.symm.subset (List.mem_range'_1.mpr ⟨i.zero_le, hi⟩))
    obtain ⟨s', hs', hdesc⟩ :=
      cellsOf_describes (Node.through_subtree (Node.walk_zero root)) bounds hc
    rw [hid, hs] at hs'
    cases hs'
    exact ⟨c, hc, hid, hdesc.name⟩
  have hlarge {i : Nat} {s : Spot} (hs : root.walk[i]? = some s)
      (h : (tileAt 0 bounds root s.address).any (fun t => 3 ≤ t.width && 3 ≤ t.height) = true) :
      Large root bounds i := by
    obtain ⟨t, ht, hsize⟩ := (Option.any_eq_true _ _).mp h
    rw [Bool.and_eq_true, decide_eq_true_iff, decide_eq_true_iff] at hsize
    exact ⟨t, by rw [tile?, hs, Option.bind_some, ht], hsize⟩
  -- evaluation does not open the sort, so the order of the siblings comes first
  have htwo : bySize [1, 3] = [1, 0] := by
    simp [bySize, List.mergeSort, List.MergeSort.Internal.splitInTwo]
  have hone : bySize [3] = [0] := by simp [bySize]
  have hlarge1 := hlarge hfirst (by
    show ((siblingTiles [1, 3] (interior bounds))[0]?.bind some).any _ = true
    simp only [siblingTiles, htwo]
    decide +kernel)
  have hlarge2 := hlarge hlib (by
    show ((siblingTiles [1, 3] (interior bounds))[1]?.bind some).any _ = true
    simp only [siblingTiles, htwo]
    decide +kernel)
  have hlarge3 := hlarge hlast (by
    show ((siblingTiles [1, 3] (interior bounds))[1]?.bind fun t =>
      (siblingTiles [3] (interior (inset 1 t)))[0]?.bind some).any _ = true
    simp only [siblingTiles, htwo, hone]
    decide +kernel)
  obtain ⟨b, hb, hbid, hbname⟩ := hcell (by decide) hfirst
  obtain ⟨l, hl, hlid, hlname⟩ := hcell (by decide) hlib
  obtain ⟨a, ha, haid, haname⟩ := hcell (by decide) hlast
  obtain ⟨_, _, hnested, hspaced⟩ := layout_nested root bounds
  have hin := hnested l hl a ha (by rw [hlid, haid]; exact ⟨_, _, 0, hlib, hlast, rfl⟩)
    (by rwa [haid])
  have hapart := hspaced 0 b hb l hl
    (by rw [hbid]; exact ⟨_, _, 0, Node.walk_zero root, hfirst, rfl⟩)
    (by rw [hlid]; exact ⟨_, _, 1, Node.walk_zero root, hlib, rfl⟩)
    (by rw [hbid, hlid]; decide) (by rwa [hbid]) (by rwa [hlid])
  exact ⟨b, hb, l, hl, a, ha, hbname, hlname, haname, hin.1, hin.2.1, hin.2.2.1, hin.2.2.2, hapart⟩

end SourceAtlas.Treemap

import Mathlib.Data.List.Nodup
import Mathlib.Data.List.Perm.Basic
import Mathlib.Data.List.Sort
import SourceAtlas.Diagram.Treemap
import SourceAtlas.Proofs.Diagram.Positions
import SourceAtlas.Proofs.Layout.Squarify
import SourceAtlas.Proofs.Lists

/-! # The cells of a treemap

Siblings are drawn by size, but every cell keeps the position of its node in the tree. A tree's
cells are that of its root followed by one block for each child, and the blocks are those of
`starts` in the order of drawing. So the cells are the nodes of the tree rearranged, each subtree as
a whole. -/

namespace SourceAtlas.Treemap

/-! ## The order of drawing -/

/-- The trees of a row with the positions at which they start, in the order of drawing. -/
def drawn (id : Nat) (ns : List Node) : List (Nat × Node) :=
  (Node.starts id ns).mergeSort fun a b => b.2.totalSize ≤ a.2.totalSize

theorem drawn_perm (id : Nat) (ns : List Node) : (drawn id ns).Perm (Node.starts id ns) :=
  List.mergeSort_perm _ _

/-- Larger trees come first, and of two of the same size the one that stands first. -/
theorem drawn_pairwise (id : Nat) (ns : List Node) : (drawn id ns).Pairwise fun a b =>
    b.2.totalSize < a.2.totalSize ∨ b.2.totalSize = a.2.totalSize ∧ a.1 < b.1 := by
  have h := Lists.pairwise_mergeSort_stable (fun a b : Nat × Node => b.2.totalSize ≤ a.2.totalSize)
    (fun a b c hab hbc => by simp at hab hbc ⊢; omega) (fun a b => by simp; omega)
    (Node.starts_increasing id ns)
  refine h.imp fun {a b} hab => ?_
  simp only [decide_eq_true_eq] at hab
  rcases Nat.lt_or_ge b.2.totalSize a.2.totalSize with hlt | hge
  · exact .inl hlt
  · exact .inr ⟨Nat.le_antisymm hab.1 hge, hab.2 hge⟩

/-- The numbers of a row by size are those of its elements in the order of drawing. -/
theorem bySize_ranked {β : Type} (l : List β) (size : β → Nat) : ∃ ranked : List (β × Nat),
    ranked.Perm l.zipIdx ∧ bySize (l.map size) = ranked.map Prod.snd ∧
      (l.mergeSort fun a b => size b ≤ size a) = ranked.map Prod.fst := by
  refine ⟨l.zipIdx.mergeSort fun a b => size b.1 ≤ size a.1, List.mergeSort_perm _ _, ?_, ?_⟩
  · rw [bySize, List.zipIdx_map, ← List.map_mergeSort (r := fun a b => size b.1 ≤ size a.1)]
    · rw [List.map_map]
      rfl
    · intro a _ b _
      rfl
  · rw [List.map_mergeSort (s := fun a b => size b ≤ size a), List.zipIdx_map_fst]
    intro a _ b _
    rfl

theorem bySize_perm (sizes : List Nat) : (bySize sizes).Perm (List.range sizes.length) := by
  have h := (List.mergeSort_perm sizes.zipIdx fun a b => b.1 ≤ a.1).map Prod.snd
  rwa [List.zipIdx_map_snd, ← List.range_eq_range'] at h

/-! ## The blocks of the children -/

section

variable {α : Type} [Scalar α]

/-- The tiles of siblings, in the order of drawing. -/
def rankedTiles (sizes : List Nat) (region : Rect α) : List (Rect α) :=
  Layout.squarify ((bySize sizes).map fun i => Scalar.ofCount (sizes.getD i 0)) region

theorem rankedTiles_length (sizes : List Nat) (region : Rect α) :
    (rankedTiles sizes region).length = (bySize sizes).length := by
  rw [rankedTiles, Layout.squarify_length, List.length_map]

theorem siblingTiles_getElem? {sizes : List Nat} {region : Rect α} {x : Nat × Rect α}
    (hx : x ∈ (bySize sizes).zip (rankedTiles sizes region)) :
    (siblingTiles sizes region)[x.1]? = some x.2 := by
  have hnodup : (((bySize sizes).zip (rankedTiles sizes region)).map Prod.fst).Nodup := by
    rw [List.map_fst_zip (Nat.le_of_eq (rankedTiles_length sizes region).symm)]
    exact (bySize_perm sizes).nodup_iff.mpr List.nodup_range
  have hlt : x.1 < sizes.zipIdx.length := by
    rw [List.length_zipIdx]
    exact List.mem_range.mp ((bySize_perm sizes).subset (List.of_mem_zip hx).1)
  have htiles : siblingTiles sizes region = sizes.zipIdx.map fun y =>
    (((bySize sizes).zip (rankedTiles sizes region)).find? (·.1 == y.2)).elim region (·.2) := rfl
  rw [htiles, List.getElem?_map, List.getElem?_eq_getElem hlt, List.getElem_zipIdx, Option.map_some,
    Nat.zero_add, Lists.find?_of_nodup hnodup hx]
  rfl

/-- The trees of a row in the order of drawing, each with its tile. -/
def plots (id : Nat) (ns : List Node) (region : Rect α) : List ((Nat × Node) × Rect α) :=
  let row := drawn id ns
  row.zip (Layout.squarify (row.map fun x => Scalar.ofCount x.2.totalSize) region)

theorem plots_fst (id : Nat) (ns : List Node) (region : Rect α) :
    (plots id ns region).map Prod.fst = drawn id ns := by
  refine List.map_fst_zip (Nat.le_of_eq ?_)
  rw [Layout.squarify_length, List.length_map]

theorem mem_starts_of_plots {id : Nat} {ns : List Node} {region : Rect α}
    {x : (Nat × Node) × Rect α} (hx : x ∈ plots id ns region) : x.1 ∈ Node.starts id ns := by
  refine (drawn_perm id ns).subset ?_
  rw [← plots_fst id ns region]
  exact List.mem_map_of_mem hx

/-- The cells of a tree that starts at a position and has a tile of its own. -/
def block (depth : Nat) (x : (Nat × Node) × Rect α) : List (Cell α) :=
  cellsOf x.1.1 depth x.2 x.1.2

theorem cellBlocks_eq (id depth : Nat) (tiles : List (Rect α)) (ns : List Node) :
    cellBlocks id depth tiles ns = ((Node.starts id ns).zip tiles).map (block depth) := by
  induction ns generalizing id tiles with
  | nil => cases tiles <;> rfl
  | cons n ns ih =>
    cases tiles with
    | nil => rfl
    | cons tile tiles =>
      rw [cellBlocks, ih]
      rfl

theorem plots_ranked (start : Nat) (ns : List Node) (region : Rect α) :
    let sizes := ns.map Node.totalSize
    ∃ ranked : List ((Nat × Node) × Nat),
      (∀ x ∈ ranked, (Node.starts start ns)[x.2]? = some x.1) ∧
      bySize sizes = ranked.map Prod.snd ∧
      plots start ns region =
        (ranked.zip (rankedTiles sizes region)).map (Prod.map Prod.fst id) := by
  intro sizes
  have hsizes : (Node.starts start ns).map (fun x => x.2.totalSize) = sizes := by
    rw [← Function.comp_def Node.totalSize, ← List.map_map, Node.starts_snd]
  obtain ⟨ranked, hperm, hnumbers, hdrawn⟩ :=
    bySize_ranked (Node.starts start ns) fun x => x.2.totalSize
  rw [hsizes] at hnumbers
  have hstart : ∀ x ∈ ranked, (Node.starts start ns)[x.2]? = some x.1 := fun x hx =>
    List.mem_zipIdx_iff_getElem?.mp (hperm.subset hx)
  refine ⟨ranked, hstart, hnumbers, ?_⟩
  rw [← List.zip_map_left, plots, drawn, hdrawn, rankedTiles, hnumbers, List.map_map, List.map_map]
  congr 2
  refine List.map_congr_left fun x hx => ?_
  rw [Function.comp_apply, Function.comp_apply, ← hsizes, List.getD_eq_getElem?_getD,
    List.getElem?_map, hstart x hx]
  rfl

/-- Picking the blocks of the children by the order of their sizes draws them one after another. -/
theorem blocks_eq (start depth : Nat) (ns : List Node) (region : Rect α) :
    let sizes := ns.map Node.totalSize
    ((bySize sizes).flatMap fun i =>
        (cellBlocks start depth (siblingTiles sizes region) ns).getD i []) =
      ((plots start ns region).map (block depth)).flatten := by
  intro sizes
  obtain ⟨ranked, hstart, hnumbers, hplots⟩ := plots_ranked start ns region
  have hfst : (ranked.zip (rankedTiles sizes region)).map Prod.fst = ranked := by
    refine List.map_fst_zip (Nat.le_of_eq ?_)
    rw [rankedTiles_length, hnumbers, List.length_map]
  have horder : bySize sizes = (ranked.zip (rankedTiles sizes region)).map fun y => y.1.2 := by
    rw [hnumbers, ← Function.comp_def, ← List.map_map, hfst]
  rw [hplots, ← List.flatMap_def, List.flatMap_map, horder, List.flatMap_map]
  -- rank by rank, both sides draw the same tree in the same tile
  refine List.flatMap_congr fun y hy => ?_
  have htile : (siblingTiles sizes region)[y.1.2]? = some y.2 := by
    refine siblingTiles_getElem? (x := (y.1.2, y.2)) ?_
    rw [hnumbers, List.zip_map_left]
    exact List.mem_map_of_mem hy
  have hplot : ((Node.starts start ns).zip (siblingTiles sizes region))[y.1.2]? =
      some (y.1.1, y.2) :=
    List.getElem?_zip_eq_some.mpr ⟨hstart y.1 (List.of_mem_zip hy).1, htile⟩
  rw [cellBlocks_eq, List.getD_eq_getElem?_getD, List.getElem?_map, hplot]
  rfl

/-- The cells of a tree: that of its root, and then those of its children in the order of
drawing. -/
theorem cellsOf_eq (id depth : Nat) (tile : Rect α) (n : Node) :
    cellsOf id depth tile n = Cell.ofNode n id depth (inset depth tile) ::
      ((plots (id + 1) n.children (interior (inset depth tile))).map
        (block (depth + 1))).flatten := by
  obtain ⟨e, _ | cs⟩ := n
  · have hnil : drawn (id + 1) (Node.mk e none).children = [] := List.mergeSort_nil
    rw [cellsOf, plots, hnil]
    rfl
  · rw [cellsOf, blocks_eq]
    rfl

end

/-! ## Subtrees as blocks -/

/-- What a cell says of the spot of its node. -/
structure Cell.Describes (c : Cell α) (s : Spot) : Prop where
  name : c.name = s.node.name
  kind : c.kind = s.node.kind
  category : c.category = Category.ofNode s.node
  value : c.value = s.node.totalSize
  depth : c.depth = s.address.length
  hasChildren : c.hasChildren = !s.node.children.isEmpty

/-- The cells of the subtree at position `i`, that of its root first. -/
structure Fills (root : Node) (i : Nat) (cells : List (Cell α)) : Prop where
  head : cells.head?.map Cell.id = some i
  ids : ∀ k, k ∈ cells.map Cell.id ↔ k = i ∨ root.IsAbove i k

/-- The node at `j` is larger than the one at `k`, or of the same size and stands before it. At most
one list of positions is ordered in this way. -/
def Outranks (root : Node) (j k : Nat) : Prop :=
  ∃ s t, root.walk[j]? = some s ∧ root.walk[k]? = some t ∧
    (t.node.totalSize < s.node.totalSize ∨ t.node.totalSize = s.node.totalSize ∧ j < k)

instance (root : Node) : Std.Asymm (Outranks root) where
  asymm := by
    rintro j k ⟨s, t, hs, ht, hst⟩ ⟨t', s', ht', hs', hts⟩
    cases hs.symm.trans hs'
    cases ht.symm.trans ht'
    omega

variable [Scalar α]

theorem cellsOf_ids (id depth : Nat) (tile : Rect α) (n : Node) :
    ((cellsOf id depth tile n).map Cell.id).Perm (List.range' id n.nodeCount) := by
  induction n using Node.byChildren generalizing id depth tile with
  | step n ih =>
    let row := plots (id + 1) n.children (interior (inset depth tile))
    have hblocks : ((row.flatMap (block (depth + 1))).map Cell.id).Perm
        (row.flatMap fun x => List.range' x.1.1 x.1.2.nodeCount) := by
      rw [List.map_flatMap]
      exact List.Perm.flatMap_left _ fun x hx =>
        ih x.1.2 (Node.mem_of_starts (mem_starts_of_plots hx)) _ _ _
    have hdrawn : (row.flatMap fun x => List.range' x.1.1 x.1.2.nodeCount) =
        (drawn (id + 1) n.children).flatMap fun x => List.range' x.1 x.2.nodeCount := by
      rw [← plots_fst _ _ (interior (inset depth tile)), List.flatMap_map]
    rw [cellsOf_eq, List.map_cons, ← List.flatMap_def, Walk.nodeCount_eq, Nat.add_comm 1,
      List.range'_succ, Node.range'_starts]
    rw [hdrawn] at hblocks
    exact (hblocks.trans ((drawn_perm _ _).flatMap_right _)).cons id

/-- Where the walk goes through a tree, every cell describes the spot at its position. -/
theorem cellsOf_describes {w : List Spot} {n : Node} {a : List Nat} {id : Nat}
    (h : Through w id (Node.spotsAt a n)) (tile : Rect α) {c : Cell α}
    (hc : c ∈ cellsOf id a.length tile n) : ∃ s, w[c.id]? = some s ∧ c.Describes s := by
  induction n using Node.byChildren generalizing a id tile with
  | step n ih =>
    rw [cellsOf_eq, List.mem_cons, ← List.flatMap_def, List.mem_flatMap] at hc
    rcases hc with rfl | ⟨x, hx, hc⟩
    · rw [Node.spotsAt_children] at h
      exact ⟨⟨a, n⟩, h.head, rfl, rfl, rfl, rfl, rfl, rfl⟩
    · have hmem := mem_starts_of_plots hx
      obtain ⟨j, hj⟩ := List.getElem?_of_mem hmem
      refine ih x.1.2 (Node.mem_of_starts hmem) (h.children.child hj) x.2 ?_
      rwa [List.length_append]

theorem cellsOf_subtree {n : Node} {a : List Nat} {k : Nat} {s : Spot}
    (hs : (Node.spotsAt a n)[k]? = some s) (id : Nat) (tile : Rect α) :
    ∃ tile', cellsOf (id + k) s.address.length tile' s.node <:+: cellsOf id a.length tile n := by
  induction n using Node.byChildren generalizing a k id tile with
  | step n ih =>
    rw [Node.spotsAt_children] at hs
    cases k with
    | zero =>
      cases hs
      exact ⟨tile, List.infix_refl _⟩
    | succ k =>
      -- the subtree lies in the block of some child `c`, and that block among those of the children
      obtain ⟨j, p, c, r, hj, hk, hr⟩ := Node.spotsFrom_getElem? (id + 1) hs
      have hmem := List.mem_of_getElem? hj
      obtain ⟨x, hx, hxc⟩ : ∃ x ∈ plots (id + 1) n.children (interior (inset a.length tile)),
          x.1 = (p, c) := by
        rw [← List.mem_map, plots_fst]
        exact (drawn_perm _ _).symm.subset hmem
      have hblock : block (a.length + 1) x <:+: cellsOf id a.length tile n := by
        rw [cellsOf_eq]
        exact List.infix_cons (List.infix_of_mem_flatten (List.mem_map_of_mem hx))
      obtain ⟨tile', hsub⟩ := ih c (Node.mem_of_starts hmem) hr p x.2
      refine ⟨tile', ?_⟩
      rw [block, hxc] at hblock
      rw [List.length_append] at hsub
      rw [← Nat.add_assoc, Nat.add_right_comm, hk]
      exact hsub.trans hblock

theorem Fills.cellsOf {root : Node} {i : Nat} {s : Spot} (hs : root.walk[i]? = some s) (depth : Nat)
    (tile : Rect α) : Fills root i (cellsOf i depth tile s.node) := by
  constructor
  · rw [cellsOf_eq]
    rfl
  · intro k
    rw [(cellsOf_ids i depth tile s.node).mem_iff, Node.within_iff hs]

/-- The children of a node are drawn one block each, the larger first. -/
theorem plots_fill {root : Node} {i : Nat} {s : Spot} (hs : root.walk[i]? = some s) (depth : Nat)
    (region : Rect α) : ∃ order, (∀ j, j ∈ order ↔ root.IsParent i j) ∧
      order.Pairwise (Outranks root) ∧
      List.Forall₂ (Fills root) order
        ((plots (i + 1) s.node.children region).map (block depth)) := by
  have hwalk {x : Nat × Node} (hx : x ∈ Node.starts (i + 1) s.node.children) :
      ∃ a, root.walk[x.1]? = some ⟨a, x.2⟩ := by
    obtain ⟨j, hj⟩ := List.getElem?_of_mem hx
    exact ⟨_, Node.walk_child hs hj⟩
  refine ⟨(drawn (i + 1) s.node.children).map Prod.fst, ?_, ?_, ?_⟩
  · intro j
    rw [((drawn_perm _ _).map Prod.fst).mem_iff, Node.starts_fst, Node.isParent_iff hs]
  · rw [List.pairwise_map]
    refine (drawn_pairwise _ _).imp_of_mem fun {x y} hx hy hxy => ?_
    obtain ⟨a, ha⟩ := hwalk ((drawn_perm _ _).subset hx)
    obtain ⟨b, hb⟩ := hwalk ((drawn_perm _ _).subset hy)
    exact ⟨_, _, ha, hb, hxy⟩
  · rw [← plots_fst _ _ region, List.map_map, List.forall₂_map_left_iff, List.forall₂_map_right_iff,
      List.forall₂_same]
    intro x hx
    obtain ⟨a, ha⟩ := hwalk (mem_starts_of_plots hx)
    exact Fills.cellsOf ha depth x.2

/-- A treemap has one cell for each node, in an order of its own. A cell says what its node is and
how many nodes lie above it, and a click on it selects that node. The cells of every subtree stand
together, that of its root first, and the blocks of its children follow by size, equal ones in the
order of the tree. -/
theorem layout_cells (root : Node) (bounds : Rect α) :
    let cells := layout root bounds
    (cells.length = root.nodeCount ∧
      (cells.map Cell.id).Perm (List.range root.nodeCount)) ∧
    (∀ c ∈ cells, ∃ s, root.walk[c.id]? = some s ∧ c.name = s.node.name ∧ c.kind = s.node.kind ∧
      c.category = Category.ofNode s.node ∧ c.hasChildren = !s.node.children.isEmpty ∧
      c.value = s.node.totalSize ∧ c.depth = (root.ancestors s.address).length ∧
      select root c = some (.full s.node)) ∧
    ∀ i < root.nodeCount, ∃ (own : Cell α) (blocks : List (List (Cell α))) (order : List Nat),
      own :: blocks.flatten <:+: cells ∧ own.id = i ∧ Fills root i (own :: blocks.flatten) ∧
      (∀ j, j ∈ order ↔ root.IsParent i j) ∧ order.Pairwise (Outranks root) ∧
      List.Forall₂ (Fills root) order blocks := by
  intro cells
  have hids : (cells.map Cell.id).Perm (List.range root.nodeCount) := by
    rw [List.range_eq_range']
    exact cellsOf_ids 0 0 bounds root
  refine ⟨⟨?_, hids⟩, ?_, ?_⟩
  · simpa using hids.length_eq
  · intro c hc
    have hw := Node.through_subtree (Node.walk_zero root)
    obtain ⟨s, hs, hdesc⟩ := cellsOf_describes hw bounds hc
    refine ⟨s, hs, hdesc.name, hdesc.kind, hdesc.category, hdesc.hasChildren, hdesc.value, ?_, ?_⟩
    · rw [hdesc.depth, Node.ancestors_length (Node.at?_of_mem_walk (List.mem_of_getElem? hs))]
    · rw [select, Subject.at?_eq, hs]
      rfl
  · intro i hi
    obtain ⟨s, hs⟩ : ∃ s, root.walk[i]? = some s :=
      ⟨_, List.getElem?_eq_getElem (by rwa [Node.walk_length])⟩
    have hspot := hs
    rw [Node.walk_eq] at hspot
    obtain ⟨tile, hsub⟩ := cellsOf_subtree hspot 0 bounds
    have hfills := Fills.cellsOf hs s.address.length tile
    rw [Nat.zero_add, cellsOf_eq] at hsub
    rw [cellsOf_eq] at hfills
    obtain ⟨order, hparent, hrank, hblocks⟩ := plots_fill hs (s.address.length + 1)
      (interior (inset s.address.length tile))
    exact ⟨_, _, order, hsub, rfl, hfills, hparent, hrank, hblocks⟩

/-- The larger directory is drawn before the files around it, which have the same name and size; the
cell of the second file selects the second. -/
theorem layout_cells_sample :
    let file (name : String) (size : UInt64) :=
      Node.mk { name, kind := .file, size := some size } none
    let root := Node.directory "src"
      [file "b.c" 5, Node.directory "lib" [file "a.c" 9], file "b.c" 5]
    let cells := layout root (⟨0.0, 0.0, 100.0, 100.0⟩ : Rect Float)
    cells.length = 5 ∧
    (∃ c ∈ cells, c.id = 4 ∧ c.name = "b.c" ∧ c.value = 5 ∧ c.depth = 1 ∧
      select root c = some (.full (file "b.c" 5))) ∧
    ∃ own first second third, own :: (first ++ (second ++ third)) <:+: cells ∧ own.id = 0 ∧
      Fills root 2 first ∧ Fills root 1 second ∧ Fills root 4 third := by
  intro file root cells
  have hroot : root.walk[0]? = some ⟨[], root⟩ := Node.walk_zero root
  have hfirst : root.walk[1]? = some ⟨[0], file "b.c" 5⟩ := by rw [Node.walk_eq]; rfl
  have hlib : root.walk[2]? = some ⟨[1], Node.directory "lib" [file "a.c" 9]⟩ := by
    rw [Node.walk_eq]; rfl
  have hlast : root.walk[4]? = some ⟨[2], file "b.c" 5⟩ := by rw [Node.walk_eq]; rfl
  obtain ⟨⟨hlen, hids⟩, hcells, hsubtrees⟩ :=
    layout_cells root (⟨0.0, 0.0, 100.0, 100.0⟩ : Rect Float)
  refine ⟨hlen, ?_, ?_⟩
  · have hfour : 4 ∈ List.range root.nodeCount := by decide
    obtain ⟨c, hc, hid⟩ := List.mem_map.mp (hids.symm.subset hfour)
    obtain ⟨s, hs, hname, _, _, _, hvalue, hdepth, hselect⟩ := hcells c hc
    rw [hid, hlast] at hs
    cases hs
    exact ⟨c, hc, hid, hname, hvalue, hdepth, hselect⟩
  · obtain ⟨own, blocks, order, hsub, hid, _, hparent, hrank, hblocks⟩ := hsubtrees 0 (by decide)
    have horder : order = [2, 1, 4] := by
      refine hrank.eq_of_mem_iff ?_ fun j => ?_
      · have hlib_first : Outranks root 2 1 := ⟨_, _, hlib, hfirst, .inl (by decide)⟩
        have hlib_last : Outranks root 2 4 := ⟨_, _, hlib, hlast, .inl (by decide)⟩
        have hfirst_last : Outranks root 1 4 := ⟨_, _, hfirst, hlast, .inr (by decide)⟩
        simp [hlib_first, hlib_last, hfirst_last]
      · rw [hparent, Node.isParent_iff hroot]
        show j ∈ [1, 2, 4] ↔ j ∈ [2, 1, 4]
        exact (List.Perm.swap 2 1 [4]).mem_iff
    subst horder
    match blocks, hblocks with
    | [first, second, third], .cons hf (.cons hs (.cons ht .nil)) =>
      exact ⟨own, first, second, third, by simpa using hsub, hid, hf, hs, ht⟩

end SourceAtlas.Treemap

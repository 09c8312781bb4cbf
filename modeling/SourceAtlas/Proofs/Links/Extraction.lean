import Mathlib.Algebra.GroupWithZero.Nat
import Mathlib.Data.List.Forall2
import SourceAtlas.Atlas
import SourceAtlas.Proofs.Tree.Address

/-! # Links and the walk

The links of a view are collected from parent to child, each view in its own order. All four are
read off the pre-order walk: the hierarchy has one link for each node but the root, and the other
views have those that the files on the way give. -/

namespace SourceAtlas

namespace Node

/-! ## The hierarchy -/

/-- The link leads to the node at a spot from the node above it, one of those in `w`. -/
def LeadsTo (w : List Spot) (l : Link) (t : Spot) : Prop :=
  ∃ s ∈ w, ∃ j, t.address = s.address ++ [j] ∧ l = ⟨s.node.name, t.node.name⟩

mutual
/-- In a tree all nodes but the root are led to, in order. -/
theorem hierarchyLinks_spots {w : List Spot} : ∀ (n : Node) {a : List Nat},
    (∀ s ∈ spotsAt a n, s ∈ w) → List.Forall₂ (LeadsTo w) n.hierarchyLinks (spotsAt a n).tail
  | .mk e none, a, _ => .nil
  | .mk e (some cs), a, hw => by
    rw [spotsAt] at hw ⊢
    obtain ⟨hroot, hbelow⟩ := List.forall_mem_cons.mp hw
    exact hierarchyLinksBelow_spots hroot cs hbelow

theorem hierarchyLinksBelow_spots {w : List Spot} {a : List Nat} {p : Node} (hp : ⟨a, p⟩ ∈ w) :
    ∀ (ns : List Node) {k : Nat}, (∀ s ∈ spotsFrom a k ns, s ∈ w) →
      List.Forall₂ (LeadsTo w) (hierarchyLinksBelow p.name ns) (spotsFrom a k ns)
  | [], _, _ => .nil
  | n :: ns, k, hw => by
    rw [spotsFrom, List.forall_mem_append] at hw
    have hrest :=
      List.rel_append (hierarchyLinks_spots n hw.1) (hierarchyLinksBelow_spots hp ns hw.2)
    rw [hierarchyLinksBelow, spotsFrom, spotsAt_children, List.cons_append]
    rw [spotsAt_children] at hrest
    exact .cons ⟨⟨a, p⟩, hp, k, rfl, rfl⟩ hrest
end

theorem hierarchyLinks_walk (root : Node) :
    List.Forall₂ (LeadsTo root.walk) root.hierarchyLinks root.walk.tail := by
  rw [walk_eq]
  exact hierarchyLinks_spots root fun _ hs => hs

theorem hierarchyLinks_length (root : Node) : root.hierarchyLinks.length = root.nodeCount - 1 := by
  rw [root.hierarchyLinks_walk.length_eq, List.length_tail, walk_length]

/-- Link number `k` leads to node number `k + 1` from its parent. -/
theorem hierarchyLinks_getElem? {root : Node} {k : Nat} (hk : k + 1 < root.nodeCount) :
    ∃ p s t, root.IsParent p (k + 1) ∧ root.walk[p]? = some s ∧ root.walk[k + 1]? = some t ∧
      root.hierarchyLinks[k]? = some ⟨s.node.name, t.node.name⟩ := by
  have hlink : k < root.hierarchyLinks.length := by
    rw [hierarchyLinks_length]
    omega
  have hspot : k + 1 < root.walk.length := by rwa [walk_length]
  obtain ⟨s, hs, j, haddress, hl⟩ :=
    root.hierarchyLinks_walk.get hlink (by rw [List.length_tail]; omega)
  simp only [List.get_eq_getElem, List.getElem_tail] at haddress hl
  obtain ⟨p, hp⟩ := List.getElem?_of_mem hs
  have ht := List.getElem?_eq_getElem hspot
  refine ⟨p, s, root.walk[k + 1], ⟨s, _, j, hp, ht, haddress⟩, hp, ht, ?_⟩
  rw [List.getElem?_eq_getElem hlink, hl]

/-! ## The other views -/

mutual
theorem entryLinks_eq (view : View) :
    ∀ n : Node, n.entryLinks view = n.preorder.flatMap fun m => m.entry.links view
  | .mk e none => (List.flatMap_singleton ..).symm
  | .mk e (some cs) => by
    rw [entryLinks, preorder, List.flatMap_cons, entryLinksAll_eq view cs]
    rfl

theorem entryLinksAll_eq (view : View) :
    ∀ ns : List Node, entryLinksAll view ns = (preorderAll ns).flatMap fun m => m.entry.links view
  | [] => rfl
  | n :: ns => by
    rw [entryLinksAll, preorderAll, List.flatMap_append, entryLinks_eq view n,
      entryLinksAll_eq view ns]
end

def files (root : Node) : List Node := (root.walk.map Spot.node).filter isFile

/-- Directories give nothing, whatever lists they carry, and a file gives one link for each name in
its list. -/
theorem entryLinks_files (root : Node) {view : View} (list : Entry → List String)
    (link : String → String → Link)
    (hlinks : ∀ e : Entry, e.kind = .file → e.links view = (list e).map (link e.name)) :
    root.entryLinks view = root.files.flatMap (fun n => (list n.entry).map (link n.name)) ∧
      (root.entryLinks view).length = (root.files.map fun n => (list n.entry).length).sum := by
  have heq :
      root.entryLinks view = root.files.flatMap fun n => (list n.entry).map (link n.name) := by
    rw [entryLinks_eq, files, walk_eq, spotsAt_nodes]
    induction root.preorder with
    | nil => rfl
    | cons n ns ih =>
      rw [List.flatMap_cons, ih]
      by_cases hkind : n.entry.kind = .file
      · have hfile : n.isFile = true := decide_eq_true hkind
        rw [List.filter_cons_of_pos hfile, List.flatMap_cons, hlinks _ hkind]
        rfl
      · have hfile : ¬ n.isFile = true := mt of_decide_eq_true hkind
        have hnone : n.entry.links view = [] := if_neg hkind
        rw [List.filter_cons_of_neg hfile, hnone, List.nil_append]
  refine ⟨heq, ?_⟩
  rw [heq]
  simp only [List.length_flatMap, List.length_map]

/-! ## Views by name -/

/-- A text names a view or none, for a link set and for the bare links alike. -/
theorem linkSet_cases (root : Node) (text : String) :
    (∃ view, View.parse? text = some view ∧ root.linksNamed text = root.links view ∧
      root.linkSet text = .ok ⟨view, root.links view, Link.endpoints (root.links view)⟩) ∨
    (View.parse? text = none ∧ root.linksNamed text = [] ∧
      root.linkSet text = .error (.unknownView text)) := by
  unfold linksNamed linkSet linkSet?
  cases View.parse? text with
  | none => exact .inr ⟨rfl, rfl, rfl⟩
  | some view => exact .inl ⟨view, rfl, rfl, rfl⟩

/-- The links of every view are those of the walk: in the hierarchy, the links from parents to the
nodes after the root, one by one; in the other views, those of the files on the way. Asked for by a
text, the links are those of the view that it names, and where it names none there are none. -/
theorem links_of_walk (root : Node) :
    ((root.links .hierarchy).length = root.nodeCount - 1 ∧
      ∀ k, k + 1 < root.nodeCount → ∃ p s t, root.IsParent p (k + 1) ∧
        root.walk[p]? = some s ∧ root.walk[k + 1]? = some t ∧
        (root.links .hierarchy)[k]? = some ⟨s.node.name, t.node.name⟩) ∧
    (root.links .dependency =
        root.files.flatMap (fun n => n.entry.dependencies.map fun d => ⟨n.name, d⟩) ∧
      (root.links .dependency).length = (root.files.map (·.entry.dependencies.length)).sum) ∧
    (root.links .input = root.files.flatMap (fun n => n.entry.inputs.map fun i => ⟨i, n.name⟩) ∧
      (root.links .input).length = (root.files.map (·.entry.inputs.length)).sum) ∧
    (root.links .output = root.files.flatMap (fun n => n.entry.outputs.map fun o => ⟨n.name, o⟩) ∧
      (root.links .output).length = (root.files.map (·.entry.outputs.length)).sum) ∧
    ∀ text,
      (∀ set, root.linkSet text = .ok set →
        View.parse? text = some set.view ∧ set.links = root.links set.view ∧
          root.linksNamed text = set.links) ∧
      (∀ e, root.linkSet text = .error e →
        View.parse? text = none ∧ e = .unknownView text ∧ root.linksNamed text = []) := by
  refine ⟨⟨root.hierarchyLinks_length, fun k hk => hierarchyLinks_getElem? hk⟩, ?_, ?_, ?_, ?_⟩
  · exact root.entryLinks_files Entry.dependencies (fun own d => ⟨own, d⟩) fun _ hkind =>
      if_pos hkind
  · exact root.entryLinks_files Entry.inputs (fun own i => ⟨i, own⟩) fun _ hkind => if_pos hkind
  · exact root.entryLinks_files Entry.outputs (fun own o => ⟨own, o⟩) fun _ hkind => if_pos hkind
  · intro text
    rcases root.linkSet_cases text with ⟨view, hview, hnamed, hset⟩ | ⟨hview, hnamed, hset⟩
    · rw [hset, hview, hnamed]
      constructor
      · intro set h
        cases h
        exact ⟨rfl, rfl, rfl⟩
      · intro e h
        cases h
    · rw [hset, hview, hnamed]
      constructor
      · intro set h
        cases h
      · intro e h
        cases h
        exact ⟨rfl, rfl, rfl⟩

end Node

end SourceAtlas

import Mathlib.Data.List.Nodup
import SourceAtlas.Proofs.Atlas.Details
import SourceAtlas.Proofs.Diagram.Arena
import SourceAtlas.Proofs.Server.Codebase

/-! # Names and positions

A name stands for the first node that carries it, whichever way it is looked up: in the tree, in the
state of a collapsible tree, for a panel or at a site. The repeated names are found in one pass that
counts; when there are none, looking up names and looking up positions undo each other. -/

namespace SourceAtlas

namespace Node

/-! ## The first node with a name -/

theorem findById_preorder (root : Node) (i : Nat) : root.findById i = root.preorder[i]? := by
  rw [findById_eq, walk_eq, ← spotsAt_nodes [], List.getElem?_map]

theorem idOf_eq (root : Node) (name : String) :
    root.idOf name = root.names.findIdx? (· == name) := by
  rw [names, List.findIdx?_map]
  rfl

theorem idOf_eq_some {root : Node} {name : String} {i : Nat} : root.idOf name = some i ↔
    root.names[i]? = some name ∧ ∀ j < i, root.names[j]? ≠ some name := by
  rw [idOf_eq, List.findIdx?_eq_some_iff_getElem, List.getElem?_eq_some_iff]
  constructor
  · rintro ⟨hi, he, hlt⟩
    refine ⟨⟨hi, eq_of_beq he⟩, fun j hj hname => ?_⟩
    obtain ⟨_, hname⟩ := List.getElem?_eq_some_iff.mp hname
    exact hlt j hj (beq_iff_eq.mpr hname)
  · rintro ⟨⟨hi, he⟩, hlt⟩
    refine ⟨hi, beq_iff_eq.mpr he, fun j hj hname => hlt j hj ?_⟩
    exact List.getElem?_eq_some_iff.mpr ⟨hj.trans hi, eq_of_beq hname⟩

theorem idOf_eq_none {root : Node} {name : String} : root.idOf name = none ↔ name ∉ root.names := by
  rw [idOf_eq, List.findIdx?_eq_none_iff]
  simp only [beq_eq_false_iff_ne]
  exact ⟨fun h hm => h name hm rfl, fun h s hs he => h (he ▸ hs)⟩

/-- Looking a name up gives the node at its position. -/
theorem findByName_eq (root : Node) (name : String) :
    root.findByName name = (root.idOf name).bind root.findById := by
  rw [findByName, idOf, List.find?_eq_bind_findIdx?_getElem?]
  exact Option.bind_congr fun i _ => (root.findById_preorder i).symm

/-- The position of a name is that of a node which carries it. -/
theorem findById_of_idOf {root : Node} {name : String} {i : Nat} (h : root.idOf name = some i) :
    ∃ n, root.findById i = some n ∧ n.name = name := by
  have hname := (idOf_eq_some.mp h).1
  rw [names, List.getElem?_map, ← findById_preorder, Option.map_eq_some_iff] at hname
  exact hname

/-! ## Names that stand twice -/

/-- A position at which an item of a list stands for the second time, given what came before. -/
def IsSecond (seen names : List String) (i : Nat) (name : String) : Prop :=
  names[i]? = some name ∧ seen.count name + (names.take i).count name = 1

theorem IsSecond.cons {seen names : List String} {i : Nat} {name : String} (s : String)
    (h : IsSecond (s :: seen) names i name) : IsSecond seen (s :: names) (i + 1) name := by
  obtain ⟨hi, hc⟩ := h
  refine ⟨hi, ?_⟩
  rw [List.take_succ_cons, List.count_cons]
  rw [List.count_cons] at hc
  omega

theorem mem_repeated {names seen : List String} {name : String} : name ∈ repeated seen names ↔
    seen.count name ≤ 1 ∧ 2 ≤ seen.count name + names.count name := by
  induction names generalizing seen with
  | nil =>
    simp only [repeated, List.not_mem_nil, List.count_nil, false_iff]
    omega
  | cons s names ih =>
    rw [repeated, List.count_cons]
    by_cases hs : s = name
    · subst hs
      by_cases hone : seen.count s = 1
      · simp only [hone, if_true, List.mem_cons_self, beq_self_eq_true, true_iff]
        omega
      · rw [if_neg hone, ih, List.count_cons_self]
        simp only [beq_self_eq_true, if_true]
        omega
    · have hne : (s == name) = false := beq_eq_false_iff_ne.mpr hs
      have hcount : (s :: seen).count name = seen.count name := List.count_cons_of_ne hs
      split
      · rw [List.mem_cons, ih, hcount, hne]
        simp [Ne.symm hs]
      · rw [ih, hcount, hne]
        simp

theorem repeated_nodup (seen names : List String) : (repeated seen names).Nodup := by
  induction names generalizing seen with
  | nil => exact List.nodup_nil
  | cons s names ih =>
    rw [repeated]
    split
    · next hone =>
      refine List.nodup_cons.mpr ⟨fun hm => ?_, ih _⟩
      have hle := (mem_repeated.mp hm).1
      rw [List.count_cons_self] at hle
      omega
    · exact ih _

theorem exists_isSecond {seen names : List String} {name : String}
    (h : name ∈ repeated seen names) : ∃ i, IsSecond seen names i name := by
  induction names generalizing seen with
  | nil => cases h
  | cons s names ih =>
    rw [repeated] at h
    split at h
    · next hone =>
      rcases List.mem_cons.mp h with rfl | h
      · exact ⟨0, rfl, hone⟩
      · obtain ⟨i, hi⟩ := ih h
        exact ⟨i + 1, hi.cons s⟩
    · obtain ⟨i, hi⟩ := ih h
      exact ⟨i + 1, hi.cons s⟩

/-- The names come out in the order of their second occurrences. -/
theorem repeated_pairwise (seen names : List String) : (repeated seen names).Pairwise fun a b =>
    ∃ i j, i < j ∧ IsSecond seen names i a ∧ IsSecond seen names j b := by
  induction names generalizing seen with
  | nil => exact .nil
  | cons s names ih =>
    have hrest : (repeated (s :: seen) names).Pairwise fun a b =>
        ∃ i j, i < j ∧ IsSecond seen (s :: names) i a ∧ IsSecond seen (s :: names) j b := by
      refine (ih (s :: seen)).imp ?_
      rintro a b ⟨i, j, hlt, hi, hj⟩
      exact ⟨i + 1, j + 1, Nat.succ_lt_succ hlt, hi.cons s, hj.cons s⟩
    rw [repeated]
    split
    · next hone =>
      refine List.pairwise_cons.mpr ⟨fun b hb => ?_, hrest⟩
      obtain ⟨j, hj⟩ := exists_isSecond hb
      exact ⟨0, j + 1, Nat.succ_pos j, ⟨rfl, hone⟩, hj.cons s⟩
    · exact hrest

theorem mem_duplicateNames {root : Node} {name : String} :
    name ∈ root.duplicateNames ↔ 2 ≤ root.names.count name := by
  rw [duplicateNames, mem_repeated]
  simp

theorem checkUnique_iff_nodup (root : Node) : root.checkUnique = .ok () ↔ root.names.Nodup := by
  have hempty : root.duplicateNames.isEmpty ↔ root.names.Nodup := by
    rw [List.isEmpty_iff, List.eq_nil_iff_forall_not_mem, List.nodup_iff_count_le_one]
    refine forall_congr' fun name => ?_
    rw [mem_duplicateNames]
    omega
  rw [checkUnique, ← hempty]
  simp

/-- Names are told apart exactly when every node is found under its own name. -/
theorem names_nodup_iff (root : Node) : root.names.Nodup ↔
    ∀ i n, root.findById i = some n → root.idOf n.name = some i := by
  have hname {i : Nat} {n : Node} (h : root.findById i = some n) :
      root.names[i]? = some n.name := by
    rw [names, List.getElem?_map, ← findById_preorder, h]
    rfl
  constructor
  · intro hnd i n hn
    refine idOf_eq_some.mpr ⟨hname hn, fun j hj hsame => ?_⟩
    obtain ⟨hi, hi'⟩ := List.getElem?_eq_some_iff.mp (hname hn)
    obtain ⟨hj', hsame⟩ := List.getElem?_eq_some_iff.mp hsame
    exact hj.ne ((hnd.getElem_inj_iff).mp (hsame.trans hi'.symm))
  · intro h
    rw [List.nodup_iff_getElem?_ne_getElem?]
    intro i j hij hj hsame
    -- the later of two nodes with one name would be found at both positions
    obtain ⟨n, hn⟩ : ∃ n, root.findById j = some n := by
      rw [findById_preorder]
      exact ⟨_, List.getElem?_eq_getElem (by simpa [names] using hj)⟩
    have hfirst := (idOf_eq_some.mp (h j n hn)).2 i hij
    exact hfirst (hsame.trans (hname hn))

end Node

/-! ## The flattened tree -/

namespace TreeState

variable {α : Type} [Scalar α]

mutual
theorem itemsOf_names (parent : Option Nat) (depth id : Nat) : ∀ n : Node,
    (itemsOf parent depth id n : List (Item α)).map (·.name) = n.names
  | .mk _ none => rfl
  | .mk e (some cs) => congrArg (e.name :: ·) (itemsBelow_names id (depth + 1) (id + 1) cs)

theorem itemsBelow_names (parent depth id : Nat) : ∀ ns : List Node,
    (itemsBelow parent depth id ns : List (Item α)).map (·.name) =
      (Node.preorderAll ns).map Node.name
  | [] => rfl
  | n :: ns => by
    rw [itemsBelow, Node.preorderAll, List.map_append, List.map_append, itemsOf_names,
      itemsBelow_names]
    rfl
end

theorem ofTree_idOf (root : Node) (name : String) :
    (ofTree root : TreeState α).idOf name = root.idOf name := by
  rw [Node.idOf_eq, ← itemsOf_names (α := α) none 0 0 root, List.findIdx?_map]
  exact List.findIdx?_toArray _ _

end TreeState

/-! ## Panels and sites -/

theorem Subject.resolve_eq (root : Node) (name : String) :
    resolve root (Endpoint.ofName name) = ((root.idOf name).bind (at? root)).getD
      (.minimal (Endpoint.ofName name)) := by
  rw [resolve, show (Endpoint.ofName name).name = name from rfl, Node.findByName_eq]
  cases hi : root.idOf name with
  | none => rfl
  | some i =>
    obtain ⟨n, hn, _⟩ := Node.findById_of_idOf hi
    simp [at?, hn]

theorem Panel.named_eq (root : Node) (name : String) : named root name =
    ((root.idOf name).bind (at? root)).getD (ofEndpoint (Endpoint.ofName name)) := by
  rw [named, Subject.resolve_eq]
  cases hi : root.idOf name with
  | none => rfl
  | some i =>
    obtain ⟨n, hn, _⟩ := Node.findById_of_idOf hi
    simp [at?, Subject.at?, hn, build]

namespace Server

variable {site : Site} {q : Query}

theorem nodePanel_plain (hq : q.includeSource = false) (tree : Node) (id : Nat) :
    (nodePanel site q tree id).value = (Panel.at? tree id).getD Panel.empty := by
  rw [nodePanel, if_neg (by simp [hq]), Logged.value_bind, Logged.value_pure, Logged.value_pure,
    Panel.at?_eq]
  cases tree.findById id <;> rfl

theorem nodePanel_hydrated (hq : q.includeSource = true) (tree : Node) (id : Nat) :
    (nodePanel site q tree id).value =
      (((site.loader.hydrateOne tree id).value).map Panel.ofNode).getD Panel.empty := by
  rw [nodePanel, if_pos hq, Logged.value_bind, Logged.value_pure]
  cases (site.loader.hydrateOne tree id).value <;> rfl

/-- The panel asked for by a name is that of the position of the name. -/
theorem details_named {name : String} (hid : q.get? "id" = none)
    (hname : q.get? "name" = some name) :
    (details site q).value = .json ((((site.loader.load.value.idOf name).map fun id =>
      (nodePanel site q site.loader.load.value id).value).getD
        (Panel.ofEndpoint (Endpoint.ofName name))).toJson) := by
  rw [details, hid]
  simp only [Logged.value_bind, Logged.value_pure, detailPanel, hname]
  cases site.loader.load.value.idOf name <;> rfl

/-- Without the source this is the panel of the name, with the source that of the node read. -/
theorem named_panel (name : String) :
    ((site.loader.load.value.idOf name).map fun id =>
        (nodePanel site q site.loader.load.value id).value).getD
      (Panel.ofEndpoint (Endpoint.ofName name)) =
    if q.includeSource then
      ((site.loader.load.value.idOf name).bind fun id =>
        ((site.loader.hydrateOne site.loader.load.value id).value).map Panel.ofNode).getD
          (Panel.ofEndpoint (Endpoint.ofName name))
    else Panel.named site.loader.load.value name := by
  rw [Panel.named_eq]
  cases hi : site.loader.load.value.idOf name with
  | none => exact (ite_self _).symm
  | some i =>
    obtain ⟨n, hn, _⟩ := Node.findById_of_idOf hi
    cases hq : q.includeSource with
    | false => simp [nodePanel_plain hq, Panel.at?_eq, hn]
    | true =>
      have hlt := Node.findById_isSome.mp (Option.isSome_of_eq_some hn)
      obtain ⟨m, hm⟩ := Option.isSome_iff_exists.mp
        ((site.loader.hydrateOne_isSome site.loader.load.value i).mpr hlt)
      simp [nodePanel_hydrated hq, hm]

end Server

/-! ## Names and positions together -/

/-- A name is looked up as the least position that carries it: in the tree, in the state of the
collapsible tree, for a subject, for a panel and at a site, with the source or without. The repeated
names are listed once each, by their second occurrences, and there are none exactly when every
position is the one found for the name at it. -/
theorem Node.names_and_positions (α : Type) [Scalar α] (root : Node) :
    (∀ name,
      root.findByName name = (root.idOf name).bind root.findById ∧
      (TreeState.ofTree root : TreeState α).idOf name = root.idOf name ∧
      (∀ i, root.idOf name = some i ↔
        root.names[i]? = some name ∧ ∀ j < i, root.names[j]? ≠ some name) ∧
      (root.idOf name = none ↔ name ∉ root.names) ∧
      Subject.resolve root (Endpoint.ofName name) =
        ((root.idOf name).bind (Subject.at? root)).getD (.minimal (Endpoint.ofName name)) ∧
      Panel.named root name =
        ((root.idOf name).bind (Panel.at? root)).getD (Panel.ofEndpoint (Endpoint.ofName name)) ∧
      ∀ (site : Server.Site) query q, site.loader.load.value = root →
        Server.Query.parse? .details query = some q → q.get? "id" = none →
        q.get? "name" = some name →
          (Server.respond site ⟨"GET", "/api/details", query⟩).value = .json (Panel.toJson
            (if q.includeSource then
              ((root.idOf name).bind fun id =>
                ((site.loader.hydrateOne root id).value).map Panel.ofNode).getD
                  (Panel.ofEndpoint (Endpoint.ofName name))
            else Panel.named root name))) ∧
    (root.duplicateNames.Nodup ∧
      (∀ name, name ∈ root.duplicateNames ↔ 2 ≤ root.names.count name) ∧
      root.duplicateNames.Pairwise fun a b =>
        ∃ i j, i < j ∧ IsSecond [] root.names i a ∧ IsSecond [] root.names j b) ∧
    (root.checkUnique = .ok () ↔
      ∀ i < root.nodeCount, ∃ n, root.findById i = some n ∧ root.idOf n.name = some i) ∧
    ∀ name i, root.idOf name = some i → ∃ n, root.findById i = some n ∧ n.name = name := by
  refine ⟨fun name => ⟨root.findByName_eq name, TreeState.ofTree_idOf root name,
      fun i => idOf_eq_some, idOf_eq_none, Subject.resolve_eq root name,
      Panel.named_eq root name, ?_⟩,
    ⟨repeated_nodup _ _, fun name => mem_duplicateNames, repeated_pairwise _ _⟩, ?_,
    fun name i => findById_of_idOf⟩
  · rintro site query q rfl hparse hid hname
    rw [Server.respond_get site
      (show Server.Route.ofPath? "/api/details" = some .details by decide), ← Server.named_panel]
    unfold Server.Route.answer
    rw [hparse]
    exact Server.details_named hid hname
  · rw [checkUnique_iff_nodup, names_nodup_iff]
    constructor
    · intro h i hi
      obtain ⟨n, hn⟩ := Option.isSome_iff_exists.mp (findById_isSome.mpr hi)
      exact ⟨n, hn, h i n hn⟩
    · intro h i n hn
      obtain ⟨m, hm, hi⟩ := h i (findById_isSome.mp (Option.isSome_of_eq_some hn))
      rw [hn] at hm
      cases hm
      exact hi

/-- Two directories with files of the same names, in different orders. -/
def Node.sampleRepeated : Node :=
  .directory "src" [.directory "a" [.file "x.c", .file "y.h"],
    .directory "b" [.file "y.h", .file "x.c"]]

/-- A site with that tree, asked for a file whose name is repeated: it shows the first one. -/
theorem Node.names_and_positions_repeated :
    let site : Server.Site :=
      ⟨⟨fun _ => .ok sampleRepeated.compact, "m", "src"⟩, Dimensions.standard⟩
    sampleRepeated.idOf "y.h" = some 3 ∧
    sampleRepeated.duplicateNames = ["y.h", "x.c"] ∧ sampleRepeated.checkUnique ≠ .ok () ∧
    ∃ panel, Panel.at? sampleRepeated 3 = some panel ∧
      (Server.respond site ⟨"GET", "/api/details", "name=y.h&includeSource=no"⟩).value =
        .json panel.toJson := by
  intro site
  have hload : site.loader.load.value = sampleRepeated :=
    site.loader.load_of_parse rfl (Document.parse_plain (by decide) (by decide +kernel))
  have hpairs : Text.Percent.formPairs "name=y.h&includeSource=no" =
      [("name", "y.h"), ("includeSource", "no")] := by decide +kernel
  have hquery : Server.Query.parse? .details "name=y.h&includeSource=no" =
      some ⟨[("name", "y.h"), ("includeSource", "no")]⟩ := by
    rw [Server.Query.parse?, hpairs]
    exact if_pos (by decide)
  obtain ⟨hnames, _, hunique, hfound⟩ := names_and_positions Float sampleRepeated
  obtain ⟨_, _, hfirst, _, _, hpanel, hsite⟩ := hnames "y.h"
  have hid : sampleRepeated.idOf "y.h" = some 3 := (hfirst 3).mpr (by decide)
  refine ⟨hid, by decide, ?_, ?_⟩
  · intro hok
    obtain ⟨n, hn, hback⟩ := hunique.mp hok 5 (by decide)
    obtain ⟨hat, hearlier⟩ := ((hnames n.name).2.2.1 5).mp hback
    have hsame : sampleRepeated.names[3]? = sampleRepeated.names[5]? := by decide
    exact hearlier 3 (by decide) (hsame.trans hat)
  · obtain ⟨n, hn, _⟩ := hfound "y.h" 3 hid
    have hat : Panel.at? sampleRepeated 3 = some (Panel.ofNode n) := by
      rw [Panel.at?_eq, hn, Option.map_some]
    have hanswer := hsite site _ _ hload hquery (by decide) (by decide)
    rw [if_neg (by decide), hpanel, hid, Option.bind_some, hat] at hanswer
    exact ⟨_, hat, hanswer⟩

end SourceAtlas

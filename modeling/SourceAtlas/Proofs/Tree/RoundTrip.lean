import SourceAtlas.Proofs.Json.Spelling
import SourceAtlas.Proofs.Tree.Reading
import SourceAtlas.Proofs.Tree.WellFormed

/-! # A written tree reads back

The members written for a node describe it, the numbers written are integers of 64 bits as long as
those carried along are, and normalizing changes nothing in a well-formed tree. So every well-formed
tree, written in either layout, reads back as itself. -/

namespace SourceAtlas

open Json (Members)

/-- The numbers that are carried along with the nodes are integers of 64 bits. -/
def Node.IsIntegral (root : Node) : Prop := ∀ n ∈ root.preorder,
  (Json.obj n.entry.extra).IsIntegral ∧
    ∀ c, n.entry.content = some c → (Json.obj c.extra).IsIntegral

/-- Nothing is carried along with the nodes, and every directory lists its children. -/
def Node.IsPlain (root : Node) : Prop := ∀ n ∈ root.preorder,
  n.entry.extra.isEmpty ∧ n.entry.content.isNone ∧ (n.kind = .directory → n.listed.isSome)

instance (root : Node) : Decidable root.IsPlain :=
  inferInstanceAs (Decidable (∀ n ∈ root.preorder, _))

namespace Node.IsPlain

variable {root : Node}

theorem wellFormed (h : root.IsPlain) : root.WellFormed := by
  refine ⟨fun n hn => (h n hn).2.2, fun n hn => ?_⟩
  obtain ⟨hextra, hcontent, _⟩ := h n hn
  rw [List.isEmpty_iff] at hextra
  rw [Option.isNone_iff_eq_none] at hcontent
  refine ⟨by simp [hextra], ?_, by simp [hcontent]⟩
  rw [hextra]
  exact Document.isCanonical_empty

theorem isIntegral (h : root.IsPlain) : root.IsIntegral := by
  intro n hn
  obtain ⟨hextra, hcontent, _⟩ := h n hn
  rw [List.isEmpty_iff] at hextra
  rw [Option.isNone_iff_eq_none] at hcontent
  simp [hextra, hcontent, Json.IsIntegral, Json.Each, Json.EachMember]

end Node.IsPlain

namespace Document

/-! ## What is written describes the node -/

theorem mem_optionalMember {key : String} {value : Option Json} {m : String × Json} :
    m ∈ optionalMember key value ↔ ∃ v, value = some v ∧ m = (key, v) := by
  cases value <;> simp [optionalMember]

theorem mem_listMember {key : String} {items : List String} {m : String × Json} :
    m ∈ listMember key items ↔ items ≠ [] ∧ m = (key, .arr (items.map .str)) := by
  cases items <;> simp [listMember]

theorem optionalMember_keys (key : String) (value : Option Json) :
    ((optionalMember key value).map Prod.fst).Sublist [key] := by
  cases value <;> simp [optionalMember]

theorem listMember_keys (key : String) (items : List String) :
    ((listMember key items).map Prod.fst).Sublist [key] := by
  cases items <;> simp [listMember]

theorem texts_written (items : List String) : texts (.arr (items.map .str)) = .ok items := by
  rw [texts]
  induction items with
  | nil => rfl
  | cons s items ih =>
    rw [List.map_cons, List.mapM_cons, ih]
    rfl

theorem kind_written (k : Kind) : kind (.str k.name) = .ok k := by
  cases k <;> rfl

theorem optionalSize_written (n : UInt64) :
    optionalSize (.num (.int n.toNat)) = .ok (some n) := by
  have hn : n.toNat < UInt64.size := n.toNat_lt_size
  rw [optionalSize, if_pos ⟨by omega, by simpa using hn⟩]
  simp

theorem optionalContent_written {c : Content} (h : c.WellFormed) :
    optionalContent (ofContent c) = .ok (some c) := by
  obtain ⟨source, extra⟩ := c
  obtain ⟨ho, hc⟩ := Json.isCanonical_obj.mp h.ordered
  have hx : carry [] extra = extra := carry_eq ho hc
  have hread (seen : Bool) : contentMembers seen { source := source } extra =
      .ok { source, extra } := by
    rw [contentMembers_carry seen h.unknown, hx]
  cases source with
  | none => exact congrArg (Except.map some) (hread false)
  | some s => exact congrArg (Except.map some) (hread true)

/-- The members that have a meaning, as they are written. -/
def knownMembers (e : Entry) (children : Option (List Json)) : Members :=
  [("name", .str e.name), ("type", .str e.kind.name)]
    ++ optionalMember "size" (e.size.map fun n => .num (.int n.toNat))
    ++ optionalMember "path" (e.path.map .str)
    ++ optionalMember "children" (children.map .arr)
    ++ listMember "dependencies" e.dependencies
    ++ listMember "inputs" e.inputs
    ++ listMember "outputs" e.outputs
    ++ optionalMember "readme" (e.readme.map .str)
    ++ optionalMember "content" (e.content.map ofContent)

theorem ofEntry_eq (e : Entry) (children : Option (List Json)) :
    ofEntry e children = .obj (knownMembers e children ++ e.extra) := rfl

theorem knownMembers_keys (e : Entry) (children : Option (List Json)) :
    ((knownMembers e children).map Prod.fst).Sublist knownKeys := by
  have hkeys : knownKeys = ["name", "type"] ++ ["size"] ++ ["path"] ++ ["children"] ++
      ["dependencies"] ++ ["inputs"] ++ ["outputs"] ++ ["readme"] ++ ["content"] := rfl
  rw [hkeys]
  simp only [knownMembers, List.map_append]
  refine List.Sublist.append ?_ (optionalMember_keys "content" _)
  refine List.Sublist.append ?_ (optionalMember_keys "readme" _)
  refine List.Sublist.append ?_ (listMember_keys "outputs" _)
  refine List.Sublist.append ?_ (listMember_keys "inputs" _)
  refine List.Sublist.append ?_ (listMember_keys "dependencies" _)
  refine List.Sublist.append ?_ (optionalMember_keys "children" _)
  refine List.Sublist.append ?_ (optionalMember_keys "path" _)
  refine List.Sublist.append ?_ (optionalMember_keys "size" _)
  exact List.Sublist.refl ["name", "type"]

section Written
variable {e : Entry} {cs : Option (List Node)} {children : Option (List Json)}

/-- Every known member that is written reads back. -/
theorem knownMembers_fit (hc : ∀ c, e.content = some c → c.WellFormed)
    (hsome : ∀ vs, children = some vs → childList (.arr vs) = .ok cs) {m : String × Json}
    (hm : m ∈ knownMembers e children) : Fits e cs m := by
  simp only [knownMembers, List.mem_append, List.mem_cons, List.not_mem_nil, or_false,
    mem_optionalMember, mem_listMember, Option.map_eq_some_iff] at hm
  rcases hm with (((((((((rfl | rfl) | ⟨_, ⟨n, hn, rfl⟩, rfl⟩) | ⟨_, ⟨s, hs, rfl⟩, rfl⟩) |
    ⟨_, ⟨vs, hvs, rfl⟩, rfl⟩) | ⟨_, rfl⟩) | ⟨_, rfl⟩) | ⟨_, rfl⟩) | ⟨_, ⟨s, hs, rfl⟩, rfl⟩) |
    ⟨_, ⟨c, hc', rfl⟩, rfl⟩)
  · rfl
  · exact kind_written e.kind
  · exact (optionalSize_written n).trans (congrArg _ hn.symm)
  · exact congrArg Except.ok hs.symm
  · exact hsome vs hvs
  · exact texts_written e.dependencies
  · exact texts_written e.inputs
  · exact texts_written e.outputs
  · exact congrArg Except.ok hs.symm
  · exact (optionalContent_written (hc c hc')).trans (congrArg _ hc'.symm)

/-- A known member that is not written is one that the node has nothing for. -/
theorem knownMembers_lack (hnone : children = none → cs = none) {key : String}
    (hk : key ∈ knownKeys) (h : key ∉ (knownMembers e children).map Prod.fst) :
    Lacks e cs key := by
  have habsent (v : Json) : (key, v) ∉ knownMembers e children :=
    fun hm => h (List.mem_map_of_mem hm)
  simp only [knownMembers, List.mem_append, List.mem_cons, List.not_mem_nil, or_false,
    mem_optionalMember, mem_listMember, not_or] at habsent
  simp only [knownKeys, List.mem_cons, List.not_mem_nil, or_false] at hk
  rcases hk with rfl | rfl | rfl | rfl | rfl | rfl | rfl | rfl | rfl | rfl
  all_goals simp_all [Lacks, Option.eq_none_iff_forall_ne_some]

/-- What is written for a node describes it. -/
theorem describes_written (he : e.WellFormed) (hnone : children = none → cs = none)
    (hsome : ∀ vs, children = some vs → childList (.arr vs) = .ok cs) :
    Describes e cs (knownMembers e children ++ e.extra) := by
  obtain ⟨hu, hx, hc⟩ := he
  obtain ⟨hord, hcan⟩ := Json.isCanonical_obj.mp hx
  have hsub := knownMembers_keys e children
  have hknown : ∀ m ∈ knownMembers e children, m.1 ∈ knownKeys :=
    fun m hm => hsub.subset (List.mem_map_of_mem hm)
  refine ⟨?_, ?_, ?_, ?_⟩
  · rw [List.map_append, List.nodup_append]
    refine ⟨hsub.nodup (by decide), hord.nodup, ?_⟩
    intro k hk k' hk' hkk
    obtain ⟨m, hm, rfl⟩ := List.mem_map.mp hk'
    exact hu m hm (hkk ▸ hsub.subset hk)
  · intro m hm
    rcases List.mem_append.mp hm with hm | hm
    · exact knownMembers_fit hc hsome hm
    · exact fits_unknown (hu m hm)
  · intro key hkey habs
    rw [List.map_append, List.mem_append, not_or] at habs
    exact knownMembers_lack hnone hkey habs.1
  · rw [List.filter_append, List.filter_eq_nil_iff.mpr (by simpa using hknown), List.nil_append,
      List.filter_eq_self.mpr (by simpa using hu)]
    exact carry_eq hord hcan

end Written

mutual
theorem node_ofNode : ∀ {n : Node}, (∀ m ∈ n.preorder, m.entry.WellFormed) →
    node (ofNode n) = .ok n
  | .mk e none, h => by
    rw [ofNode, ofEntry_eq]
    exact node_describes (describes_written (h _ List.mem_cons_self) (fun _ => rfl) (by simp))
  | .mk e (some cs), h => by
    have hcs : nodes (ofNodes cs) = .ok cs :=
      nodes_ofNodes fun m hm => h m (List.mem_cons_of_mem _ hm)
    rw [ofNode, ofEntry_eq]
    refine node_describes (describes_written (h _ List.mem_cons_self) (by simp) ?_)
    rintro vs ⟨⟩
    rw [childList, hcs]

theorem nodes_ofNodes : ∀ {ns : List Node}, (∀ m ∈ Node.preorderAll ns, m.entry.WellFormed) →
    nodes (ofNodes ns) = .ok ns
  | [], _ => by rw [ofNodes, nodes]
  | n :: ns, h => by
    rw [Node.preorderAll] at h
    rw [ofNodes, nodes, node_ofNode fun m hm => h m (List.mem_append_left _ hm)]
    simp only [nodes_ofNodes fun m hm => h m (List.mem_append_right _ hm)]
end

/-! ## What is written holds integers only -/

theorem isIntegral_obj {ms : Members} :
    (Json.obj ms).IsIntegral ↔ ∀ m ∈ ms, m.2.IsIntegral := by
  simp [Json.IsIntegral, Json.Each, Json.eachMember_iff]

theorem isIntegral_arr {vs : List Json} :
    (Json.arr vs).IsIntegral ↔ ∀ v ∈ vs, v.IsIntegral := by
  simp [Json.IsIntegral, Json.Each, Json.eachItem_iff]

theorem isIntegral_str (s : String) : (Json.str s).IsIntegral := by
  simp [Json.IsIntegral, Json.Each]

theorem isIntegral_size (n : UInt64) : (Json.num (.int n.toNat)).IsIntegral := by
  have hn : n.toNat < 2 ^ 64 := n.toNat_lt
  intro m hm
  cases hm
  exact ⟨by omega, by omega⟩

theorem ofContent_isIntegral {c : Content} (h : (Json.obj c.extra).IsIntegral) :
    (ofContent c).IsIntegral := by
  refine isIntegral_obj.mpr fun m hm => ?_
  rcases List.mem_append.mp hm with hm | hm
  · obtain ⟨v, hv, rfl⟩ := mem_optionalMember.mp hm
    obtain ⟨s, _, rfl⟩ := Option.map_eq_some_iff.mp hv
    exact isIntegral_str s
  · exact isIntegral_obj.mp h m hm

theorem ofEntry_isIntegral {e : Entry} {children : Option (List Json)}
    (hx : (Json.obj e.extra).IsIntegral)
    (hc : ∀ c, e.content = some c → (Json.obj c.extra).IsIntegral)
    (hcs : ∀ vs, children = some vs → ∀ v ∈ vs, v.IsIntegral) :
    (ofEntry e children).IsIntegral := by
  have hlist (items : List String) : (Json.arr (items.map .str)).IsIntegral := by
    refine isIntegral_arr.mpr fun v hv => ?_
    obtain ⟨s, _, rfl⟩ := List.mem_map.mp hv
    exact isIntegral_str s
  rw [ofEntry_eq]
  refine isIntegral_obj.mpr fun m hm => ?_
  rcases List.mem_append.mp hm with hm | hm
  · simp only [knownMembers, List.mem_append, List.mem_cons, List.not_mem_nil, or_false,
      mem_optionalMember, mem_listMember, Option.map_eq_some_iff] at hm
    rcases hm with (((((((((rfl | rfl) | ⟨_, ⟨n, _, rfl⟩, rfl⟩) | ⟨_, ⟨s, _, rfl⟩, rfl⟩) |
      ⟨_, ⟨vs, hvs, rfl⟩, rfl⟩) | ⟨_, rfl⟩) | ⟨_, rfl⟩) | ⟨_, rfl⟩) | ⟨_, ⟨s, _, rfl⟩, rfl⟩) |
      ⟨_, ⟨c, hc', rfl⟩, rfl⟩)
    · exact isIntegral_str _
    · exact isIntegral_str _
    · exact isIntegral_size n
    · exact isIntegral_str s
    · exact isIntegral_arr.mpr (hcs vs hvs)
    · exact hlist _
    · exact hlist _
    · exact hlist _
    · exact isIntegral_str s
    · exact ofContent_isIntegral (hc c hc')
  · exact isIntegral_obj.mp hx m hm

mutual
theorem ofNode_isIntegral : ∀ {n : Node}, n.IsIntegral → (ofNode n).IsIntegral
  | .mk e none, h => by
    obtain ⟨hx, hc⟩ := h _ List.mem_cons_self
    exact ofEntry_isIntegral hx hc (by simp)
  | .mk e (some cs), h => by
    obtain ⟨hx, hc⟩ := h _ List.mem_cons_self
    refine ofEntry_isIntegral hx hc ?_
    rintro vs ⟨⟩
    exact ofNodes_isIntegral fun m hm => h m (List.mem_cons_of_mem _ hm)

theorem ofNodes_isIntegral : ∀ {ns : List Node}, (∀ n ∈ Node.preorderAll ns,
    (Json.obj n.entry.extra).IsIntegral ∧
      ∀ c, n.entry.content = some c → (Json.obj c.extra).IsIntegral) →
    ∀ v ∈ ofNodes ns, v.IsIntegral
  | [], _, v, hv => by cases hv
  | n :: ns, h, v, hv => by
    rw [Node.preorderAll] at h
    rcases List.mem_cons.mp hv with rfl | hv
    · exact ofNode_isIntegral fun m hm => h m (List.mem_append_left _ hm)
    · exact ofNodes_isIntegral (fun m hm => h m (List.mem_append_right _ hm)) v hv
end

/-! ## There and back -/

theorem parse_ofNode {t : Node} (ht : t.WellFormed) {text : String}
    (h : Json.parse? text = some (ofNode t)) : parse text = .ok t := by
  rw [parse, h]
  simp only [node_ofNode ht.entry, Except.map, Node.normalize_eq_self ht.listed]

/-- A plain tree reads back from its compact text. -/
theorem parse_plain {t : Node} (h : t.IsPlain) (hd : (ofNode t).depth ≤ Json.maxDepth) :
    parse t.compact = .ok t :=
  parse_ofNode h.wellFormed (Json.parse?_compact (ofNode_isIntegral h.isIntegral) hd)

/-- Reading gives well-formed trees only, and every well-formed tree reads back as itself from its
compact text and from its indented text, as long as the numbers carried along are integers of 64
bits and the brackets nest no deeper than the reader follows them. -/
theorem parse_written :
    (∀ text t, parse text = .ok t → t.WellFormed) ∧
    ∀ t : Node, t.WellFormed → t.IsIntegral → (ofNode t).depth ≤ Json.maxDepth →
      parse t.compact = .ok t ∧ parse t.pretty = .ok t := by
  refine ⟨fun text t => parse_wellFormed, ?_⟩
  intro t ht hi hd
  have hv := ofNode_isIntegral hi
  exact ⟨parse_ofNode ht (Json.parse?_compact hv hd), parse_ofNode ht (Json.parse?_pretty hv hd)⟩

/-- A directory with two files, with escapes, numbers at both ends of their range and what is
carried along nested. -/
def sampleTree : Node :=
  .mk { name := "r\"\x01", kind := .directory,
        extra := [("at", .num (.int (-9223372036854775808)))] }
    (some [.mk { name := "a.c", kind := .file, size := some 18446744073709551615, path := some "",
                 dependencies := ["b.h", "c\n.h"], inputs := ["x"], readme := some "é\\",
                 content := some { source := some "\t/", extra := [("functions", .arr [.null])] },
                 extra := [("m", .obj [("p", .arr []), ("q", .num (.int 18446744073709551615))]),
                   ("z", .bool true)] } (some []),
           .mk { name := "b.h", kind := .file, content := some {} } none])

theorem parse_written_sample : sampleTree.WellFormed ∧ sampleTree.IsIntegral ∧
    (ofNode sampleTree).depth ≤ Json.maxDepth ∧ parse sampleTree.compact = .ok sampleTree ∧
    parse sampleTree.pretty = .ok sampleTree := by
  have hi : sampleTree.IsIntegral := by
    simp [sampleTree, Node.IsIntegral, Node.preorder, Node.preorderAll, Node.entry,
      Json.IsIntegral, Json.Each, Json.EachMember, Json.EachItem, Json.Number.IsWord]
  have hl : ∀ n ∈ sampleTree.preorder, n.kind = .directory → n.listed.isSome := by
    simp [sampleTree, Node.preorder, Node.preorderAll, Node.kind, Node.entry, Node.listed]
  have he : ∀ n ∈ sampleTree.preorder, n.entry.WellFormed := by
    have flat (k : String) (v : Json) (hv : v.IsCanonical) : (Json.obj [(k, v)]).IsCanonical :=
      isCanonical_insert isCanonical_empty k hv
    have inner : (Json.obj [("p", .arr []), ("q", .num (.int 18446744073709551615))]).IsCanonical :=
      Json.isCanonical_obj.mpr ⟨by decide, by simp [Json.IsCanonical, Json.Each, Json.EachItem]⟩
    intro n hn
    simp only [sampleTree, Node.preorder, Node.preorderAll, List.append_nil, List.cons_append,
      List.nil_append, List.mem_cons, List.not_mem_nil, or_false] at hn
    rcases hn with rfl | rfl | rfl
    · exact ⟨by decide, flat "at" _ (by simp [Json.IsCanonical, Json.Each]), by simp [Node.entry]⟩
    · refine ⟨by decide, Json.isCanonical_obj.mpr ⟨by decide, ?_⟩, ?_⟩
      · have hz : (Json.bool true).IsCanonical := by simp [Json.IsCanonical, Json.Each]
        simp [Node.entry, inner, hz]
      · rintro c ⟨⟩
        exact ⟨by decide, flat "functions" _ (by simp [Json.IsCanonical, Json.Each, Json.EachItem])⟩
    · refine ⟨by decide, isCanonical_empty, ?_⟩
      rintro c ⟨⟩
      exact ⟨by decide, isCanonical_empty⟩
  have hd : (ofNode sampleTree).depth ≤ Json.maxDepth := by decide +kernel
  obtain ⟨hc, hp⟩ := parse_written.2 sampleTree ⟨hl, he⟩ hi hd
  exact ⟨parse_written.1 _ _ hc, hi, hd, hc, hp⟩

end Document

end SourceAtlas

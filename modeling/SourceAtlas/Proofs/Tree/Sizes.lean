import Mathlib.Algebra.GroupWithZero.Nat
import SourceAtlas.Proofs.Loader.Hydration
import SourceAtlas.Proofs.Tree.Members
import SourceAtlas.Proofs.Tree.RoundTrip

/-! # Child lists and sizes

In the trees that are read every directory lists its children, and a file lists some exactly where
its document gives it a list. The size of a tree counts the files that have only directories above
them. So where no file lists children, it is the sum over all files, and in general it leaves out
those that lie below a file. -/

namespace SourceAtlas

namespace Node

theorem preorder_children (n : Node) : n.preorder = n :: n.children.flatMap preorder := by
  have hall (ns : List Node) : preorderAll ns = ns.flatMap preorder := by
    induction ns with
    | nil => rfl
    | cons n ns ih => rw [preorderAll, ih, List.flatMap_cons]
  cases n with
  | mk e cs =>
    cases cs with
    | none => rfl
    | some cs =>
      rw [preorder, hall]
      rfl

theorem mem_preorder {n m : Node} : m ∈ n.preorder ↔ m = n ∨ ∃ c ∈ n.children, m ∈ c.preorder := by
  rw [preorder_children, List.mem_cons, List.mem_flatMap]

/-! ## Files that list children -/

def HasListingFile (n : Node) : Prop := ∃ m ∈ n.preorder, m.isFile ∧ m.listed.isSome

theorem hasListingFile_iff {n : Node} :
    n.HasListingFile ↔ (n.isFile ∧ n.listed.isSome) ∨ ∃ c ∈ n.children, c.HasListingFile := by
  constructor
  · intro ⟨m, hm, hlists⟩
    obtain rfl | ⟨c, hc, hm⟩ := mem_preorder.mp hm
    · exact .inl hlists
    · exact .inr ⟨c, hc, m, hm, hlists⟩
  · intro h
    obtain hlists | ⟨c, hc, m, hm, hlists⟩ := h
    · exact ⟨n, mem_preorder.mpr (.inl rfl), hlists⟩
    · exact ⟨m, mem_preorder.mpr (.inr ⟨c, hc, hm⟩), hlists⟩

theorem hasListingFile_of_mem {t n : Node} (hn : n ∈ t.preorder) (h : n.HasListingFile) :
    t.HasListingFile := by
  induction t using byChildren with
  | step t ih =>
    obtain rfl | ⟨c, hc, hn⟩ := mem_preorder.mp hn
    · exact h
    · exact hasListingFile_iff.mpr (.inr ⟨c, hc, ih c hc hn⟩)

theorem children_of_unlisted {n : Node} (h : ¬ n.listed.isSome) : n.children = [] := by
  rw [Option.not_isSome_iff_eq_none] at h
  rw [children, h]
  rfl

theorem normalize_isFile (n : Node) : n.normalize.isFile = n.isFile := by
  cases n with
  | mk e cs => cases cs <;> rfl

theorem normalize_children (n : Node) : n.normalize.children = n.children.map normalize := by
  have hall (ns : List Node) : normalizeAll ns = ns.map normalize := by
    induction ns with
    | nil => rfl
    | cons n ns ih => rw [normalizeAll, ih, List.map_cons]
  cases n with
  | mk e cs =>
    cases cs with
    | none =>
      rw [normalize]
      split <;> rfl
    | some cs =>
      rw [normalize, hall]
      rfl

/-- Normalizing neither gives a file a child list nor takes one from it. -/
theorem normalize_listed {n : Node} (h : n.isFile = true) :
    n.normalize.listed.isSome = n.listed.isSome := by
  cases n with
  | mk e cs =>
    cases cs with
    | none =>
      have hkind : e.kind = .file := of_decide_eq_true h
      rw [normalize, hkind]
      rfl
    | some cs => rfl

theorem normalize_hasListingFile (n : Node) : n.normalize.HasListingFile ↔ n.HasListingFile := by
  induction n using byChildren with
  | step n ih =>
    rw [hasListingFile_iff, hasListingFile_iff, normalize_isFile, normalize_children]
    have hroot : (n.isFile = true ∧ n.normalize.listed.isSome) ↔
        (n.isFile = true ∧ n.listed.isSome) :=
      and_congr_right fun h => by rw [normalize_listed h]
    have hbelow : (∃ c ∈ n.children.map normalize, c.HasListingFile) ↔
        ∃ c ∈ n.children, c.HasListingFile := by
      simp only [List.mem_map, exists_exists_and_eq_and]
      exact exists_congr fun c => and_congr_right fun hc => ih c hc
    rw [hroot, hbelow]

/-! ## Sizes -/

/-- The bytes that a node gives for itself; none count as 0. -/
def size (n : Node) : Nat := (n.entry.size.map UInt64.toNat).getD 0

def fileSizes (n : Node) : List Nat := (n.preorder.filter isFile).map size

/-- The bytes of the files of a tree that have only directories above them, in pre-order. -/
def openSizes (n : Node) : List Nat :=
  (n.walk.filter fun s => s.node.isFile && n.openTo s.address).map (·.node.size)

theorem totalSize_file {n : Node} (h : n.isFile = true) : n.totalSize = n.size := by
  cases n with
  | mk e cs =>
    have hkind : e.kind = .file := of_decide_eq_true h
    cases cs with
    | none => rw [totalSize, if_pos hkind]; rfl
    | some cs => rw [totalSize, if_pos hkind]; rfl

theorem totalSize_directory {n : Node} (h : n.isFile = false) :
    n.totalSize = (n.children.map totalSize).sum := by
  have hall (ns : List Node) : totalSizeAll ns = (ns.map totalSize).sum := by
    induction ns with
    | nil => rfl
    | cons n ns ih => rw [totalSizeAll, ih, List.map_cons, List.sum_cons]
  cases n with
  | mk e cs =>
    have hkind : e.kind ≠ .file := of_decide_eq_false h
    cases cs with
    | none => rw [totalSize, if_neg hkind]; rfl
    | some cs => rw [totalSize, if_neg hkind, hall]; rfl

/-- Below a child the same files count as in the tree of the child, unless the root is a file. -/
theorem openTo_under {n : Node} {x : Node × Nat} (hx : x ∈ n.children.zipIdx) (s : Spot) :
    n.openTo (s.under x.2).address = (!n.isFile && x.1.openTo s.address) := by
  rw [isFile_eq, Bool.not_not]
  exact openTo_cons (List.mem_zipIdx_iff_getElem?.mp hx) s.address

theorem openSizes_file {n : Node} (h : n.isFile = true) : n.openSizes = [n.size] := by
  have hbelow : (n.children.zipIdx.flatMap fun x => x.1.walk.map (Spot.under x.2)).filter
      (fun s => s.node.isFile && n.openTo s.address) = [] := by
    rw [List.filter_eq_nil_iff]
    intro s hs
    obtain ⟨x, hx, hs⟩ := List.mem_flatMap.mp hs
    obtain ⟨s, _, rfl⟩ := List.mem_map.mp hs
    simp [openTo_under hx, h]
  rw [openSizes, walk_children, List.filter_cons_of_pos (by simp [h, openTo, ancestors_nil]),
    hbelow]
  rfl

theorem openSizes_directory {n : Node} (h : n.isFile = false) :
    n.openSizes = n.children.flatMap openSizes := by
  have hchild (x : Node × Nat) (hx : x ∈ n.children.zipIdx) :
      ((x.1.walk.map (Spot.under x.2)).filter fun s => s.node.isFile && n.openTo s.address).map
        (·.node.size) = x.1.openSizes := by
    rw [openSizes, List.filter_map, List.map_map]
    simp only [Function.comp_def, openTo_under hx, h, Bool.not_false, Bool.true_and]
    rfl
  rw [openSizes, walk_children, List.filter_cons_of_neg (by simp [h]), List.filter_flatMap,
    List.map_flatMap, List.flatMap_congr hchild]
  conv_rhs => rw [← List.zipIdx_map_fst 0 n.children, List.flatMap_map]

/-- The size of a tree counts the files that have only directories above them. -/
theorem totalSize_eq (n : Node) : n.totalSize = n.openSizes.sum := by
  induction n using byChildren with
  | step n ih =>
    cases h : n.isFile with
    | true => rw [totalSize_file h, openSizes_file h, List.sum_singleton]
    | false =>
      rw [totalSize_directory h, openSizes_directory h, List.flatMap_def, List.sum_flatten,
        List.map_map]
      exact congrArg List.sum (List.map_congr_left ih)

theorem fileSizes_eq (n : Node) :
    n.fileSizes = (if n.isFile then [n.size] else []) ++ n.children.flatMap fileSizes := by
  rw [fileSizes, preorder_children, List.filter_cons, List.filter_flatMap]
  have hbelow : (n.children.flatMap fun c => c.preorder.filter isFile).map size =
      n.children.flatMap fileSizes := List.map_flatMap ..
  rw [← hbelow]
  cases n.isFile <;> rfl

/-- Where no file lists children, all files count. -/
theorem openSizes_eq_fileSizes {n : Node} (h : ¬ n.HasListingFile) : n.openSizes = n.fileSizes := by
  induction n using byChildren with
  | step n ih =>
    rw [hasListingFile_iff, not_or, not_exists] at h
    obtain ⟨hroot, hbelow⟩ := h
    cases hfile : n.isFile with
    | true =>
      have hchildren : n.children = [] := children_of_unlisted fun hlisted => hroot ⟨hfile, hlisted⟩
      rw [openSizes_file hfile, fileSizes_eq, hchildren, hfile]
      rfl
    | false =>
      rw [openSizes_directory hfile, fileSizes_eq, hfile]
      exact List.flatMap_congr fun c hc => ih c hc fun hc' => hbelow c ⟨hc, hc'⟩

/-- Child lists stand with directories only, once every directory has one, exactly where no file
lists children. -/
theorem listed_iff_directory {n : Node}
    (h : ∀ m ∈ n.preorder, m.kind = .directory → m.listed.isSome) :
    (∀ m ∈ n.preorder, m.listed.isSome ↔ m.isDirectory) ↔ ¬ n.HasListingFile := by
  constructor
  · intro hall ⟨m, hm, hfile, hlisted⟩
    have hdirectory := (hall m hm).mp hlisted
    simp [isFile_eq, hdirectory] at hfile
  · intro hnone m hm
    refine ⟨?_, fun hdirectory => h m hm (of_decide_eq_true hdirectory)⟩
    intro hlisted
    by_contra hdirectory
    exact hnone ⟨m, hm, by simp [isFile_eq, hdirectory], hlisted⟩

end Node

namespace Document

/-! ## Documents -/

/-- Somewhere in a value that describes a node, a file is given a list of children. -/
inductive GivesFileList : Json → Prop
  | here {ms : Json.Members} {v : Json} {items : List Json} :
    ("type", v) ∈ ms → kind v = .ok .file →
      ("children", .arr items) ∈ ms → GivesFileList (.obj ms)
  | child {ms : Json.Members} {items : List Json} {v : Json} : ("children", .arr items) ∈ ms →
      v ∈ items → GivesFileList v → GivesFileList (.obj ms)

theorem node_hasListingFile {v : Json} {n : Node} (h : node v = .ok n) :
    n.HasListingFile ↔ GivesFileList v := by
  induction n using Node.byChildren generalizing v with
  | step n ih =>
    obtain ⟨ms, rfl, hms⟩ := node_fromMembers h
    rw [Node.hasListingFile_iff]
    constructor
    · intro hlists
      obtain ⟨hfile, hlisted⟩ | ⟨c, hc, hlists⟩ := hlists
      · obtain ⟨items, hitems⟩ := hms.exists_items hlisted
        obtain ⟨v, hv⟩ := hms.kind
        have hkind : n.kind = .file := of_decide_eq_true hfile
        exact .here hv (hkind ▸ hms.kind_eq v hv) hitems
      · have hlisted : n.listed.isSome := by
          by_contra hunlisted
          simp [Node.children_of_unlisted hunlisted] at hc
        obtain ⟨items, hitems⟩ := hms.exists_items hlisted
        obtain ⟨v, hv, hread⟩ := (nodes_items (hms.children hitems).2).2 c hc
        exact .child hitems hv ((ih c hc hread).mp hlists)
    · intro hgives
      cases hgives with
      | here hv hkind hitems =>
        have hfile : n.kind = .file := Except.ok.inj ((hms.kind_eq _ hv).symm.trans hkind)
        exact .inl ⟨decide_eq_true hfile, (hms.children hitems).1⟩
      | child hitems hv hgives =>
        obtain ⟨c, hc, hread⟩ := (nodes_items (hms.children hitems).2).1 _ hv
        exact .inr ⟨c, hc, (ih c hc hread).mpr hgives⟩

theorem parse_eq_ok {text : String} {t : Node} (h : parse text = .ok t) :
    ∃ v n, Json.parse? text = some v ∧ node v = .ok n ∧ t = n.normalize := by
  unfold parse at h
  split at h
  · cases h
  · next v hv =>
    cases hn : node v with
    | error e =>
      rw [hn] at h
      cases h
    | ok n =>
      rw [hn] at h
      cases h
      exact ⟨v, n, hv, hn, rfl⟩

/-- Every directory of a tree that is read lists its children, and every size counts the files that
have only directories above them. Child lists stand with directories only exactly where the document
gives no file a list; then files have no children, and every size is the sum over all files. -/
theorem parse_sizes (text : String) (t : Node) (h : parse text = .ok t) :
    (∀ n ∈ t.preorder, (n.isDirectory → n.listed.isSome) ∧ n.totalSize = n.openSizes.sum) ∧
    ∃ v, Json.parse? text = some v ∧
      ((∀ n ∈ t.preorder, n.listed.isSome ↔ n.isDirectory) ↔ ¬ GivesFileList v) ∧
      (¬ GivesFileList v → ∀ n ∈ t.preorder,
        (n.isFile → n.children = []) ∧ n.totalSize = n.fileSizes.sum) := by
  have hlisted := (parse_wellFormed h).listed
  obtain ⟨v, m, hv, hm, ht⟩ := parse_eq_ok h
  have hlists : t.HasListingFile ↔ GivesFileList v := by
    rw [ht, Node.normalize_hasListingFile]
    exact node_hasListingFile hm
  refine ⟨?_, v, hv, ?_, ?_⟩
  · exact fun n hn => ⟨fun hd => hlisted n hn (of_decide_eq_true hd), n.totalSize_eq⟩
  · rw [Node.listed_iff_directory hlisted, hlists]
  · intro hnone n hn
    rw [← hlists] at hnone
    refine ⟨fun hfile => Node.children_of_unlisted fun hl => hnone ⟨n, hn, hfile, hl⟩, ?_⟩
    rw [n.totalSize_eq, Node.openSizes_eq_fileSizes (mt (Node.hasListingFile_of_mem hn) hnone)]

/-- A directory with a file that lists another one. -/
def listingText : String :=
  "\x7b\"name\":\"r\",\"type\":\"directory\",\"children\":[" ++
    "\x7b\"name\":\"a.c\",\"type\":\"file\",\"size\":1,\"children\":[" ++
    "\x7b\"name\":\"b.c\",\"type\":\"file\",\"size\":2\x7d]\x7d]\x7d"

/-- The file with the one that it lists. -/
def listingFile : Node :=
  .mk { name := "a.c", kind := .file, size := some 1 }
    (some [.mk { name := "b.c", kind := .file, size := some 2 } none])

def listingTree : Node := .directory "r" [listingFile]

theorem parse_listingText : parse listingText = .ok listingTree := by
  have htext : listingTree.compact = listingText := by cbv
  rw [← htext]
  exact parse_plain (by decide) (by decide +kernel)

def filesTree : Node :=
  .directory "r" [.mk { name := "a.c", kind := .file, size := some 1 } none,
    .mk { name := "b.c", kind := .file, size := some 2 } none]

/-- The document with a list on a file, and one in which only the directory has a list. -/
theorem parse_sizes_listing :
    (parse listingText = .ok listingTree ∧
      (∀ n ∈ listingTree.preorder, (n.isDirectory → n.listed.isSome) ∧
        n.totalSize = n.openSizes.sum) ∧
      ∃ v, Json.parse? listingText = some v ∧
        ((∀ n ∈ listingTree.preorder, n.listed.isSome ↔ n.isDirectory) ↔ ¬ GivesFileList v) ∧
        (¬ GivesFileList v → ∀ n ∈ listingTree.preorder,
          (n.isFile → n.children = []) ∧ n.totalSize = n.fileSizes.sum)) ∧
    parse filesTree.compact = .ok filesTree ∧
    ∃ v, Json.parse? filesTree.compact = some v ∧ ¬ GivesFileList v ∧
      ∀ n ∈ filesTree.preorder, (n.isFile → n.children = []) ∧ n.totalSize = n.fileSizes.sum := by
  have hfiles : parse filesTree.compact = .ok filesTree :=
    parse_plain (by decide) (by decide +kernel)
  have honly : ∀ n ∈ filesTree.preorder, n.listed.isSome ↔ n.isDirectory := by decide
  obtain ⟨_, v, hv, hlists, hsums⟩ := parse_sizes filesTree.compact filesTree hfiles
  have hnone : ¬ GivesFileList v := hlists.mp honly
  exact ⟨⟨parse_listingText, parse_sizes listingText listingTree parse_listingText⟩,
    hfiles, v, hv, hnone, hsums hnone⟩

/-- A file of a tree that was read lists a child, and the bytes of that child do not count. -/
theorem listingFile_counts_alone : parse listingText = .ok listingTree ∧
    listingFile ∈ listingTree.preorder ∧ listingFile.isFile ∧ listingFile.listed.isSome ∧
    listingFile.children ≠ [] ∧ listingTree.totalSize = 1 ∧ listingTree.fileSizes.sum = 3 := by
  refine ⟨parse_listingText, ?_, rfl, rfl, ?_, rfl, rfl⟩
  · have hroot : listingFile ∈ listingFile.preorder := Node.mem_preorder.mpr (.inl rfl)
    exact Node.mem_preorder.mpr (.inr ⟨listingFile, List.mem_cons_self, hroot⟩)
  · simp [listingFile, Node.children, Node.listed]

end Document

end SourceAtlas

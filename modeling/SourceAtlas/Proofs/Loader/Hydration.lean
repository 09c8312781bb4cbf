import SourceAtlas.Proofs.Loader.Reads
import SourceAtlas.Proofs.Tree.Address

/-! # Attaching sources

Attaching the sources of a tree goes down along the addresses: what stands at an address afterwards
is what attaching gives for the node that stood there, with the names met on the way, as long as no
file lies above it. So nothing is lost, moved or relabelled; only the sources of files that have
nothing but directories above them are set, and each depends on one path alone. -/

namespace SourceAtlas

/-- The entry without its source. Content that says nothing counts as absent. -/
def Entry.unsourced (e : Entry) : Entry :=
  { e with content := some { e.content.getD {} with source := none } }

namespace Logged

variable {α β : Type}

@[simp] theorem value_pure (a : α) : (pure a : Logged α).value = a := rfl

@[simp] theorem value_bind (x : Logged α) (f : α → Logged β) :
    (x >>= f).value = (f x.value).value := rfl

end Logged

namespace Node

theorem isFile_eq (n : Node) : n.isFile = !n.isDirectory := by
  rw [isFile, isDirectory]
  cases n.kind <;> rfl

/-- Whether only directories lie above the node at an address. -/
def openTo (n : Node) (a : List Nat) : Bool := (n.ancestors a).all isDirectory

/-- The names on the way down to an address, that of the node itself only if it counts as a step. -/
def wayTo (n : Node) (steps : Bool) (a : List Nat) : List String :=
  (if steps then n.ancestors a else (n.ancestors a).tail).map name

theorem openTo_cons {n c : Node} {k : Nat} (h : n.children[k]? = some c) (a : List Nat) :
    n.openTo (k :: a) = (n.isDirectory && c.openTo a) := by
  rw [openTo, ancestors_cons h, List.all_cons, openTo]

/-- The way to a node below a child goes on from the way to the child. -/
theorem wayTo_cons {n c : Node} {k : Nat} (h : n.children[k]? = some c) (trail : List String)
    (steps : Bool) (a : List Nat) :
    trail ++ n.wayTo steps (k :: a) =
      (if steps then trail ++ [n.name] else trail) ++ c.wayTo true a := by
  rw [wayTo, wayTo, ancestors_cons h]
  cases steps <;> simp

/-- The path of a node below the root: the one that it gives itself, or the names from below the
root down to it. -/
def pathOf (root : Node) (s : Spot) : String :=
  s.node.entry.path.getD
    ("/".intercalate ((root.ancestors s.address).tail.map name ++ [s.node.name]))

end Node

namespace Loader

open Logged

variable (l : Loader)

/-- The text stored under a path below the root of the sources; none where the path is refused or
there is no such file. -/
def stored? (path : String) : Option String :=
  if Path.IsInside path then (l.read (Path.join l.sourceRoot path)).toOption else none

/-- The paths that are read for the source under a path: one, unless it is refused. -/
def readsFor (path : String) : List String :=
  if Path.IsInside path then [Path.join l.sourceRoot path] else []

theorem readSource_eq (path : String) : l.readSource path =
    if Path.IsInside path then l.readText (Path.join l.sourceRoot path)
    else pure (.error (.outside path)) := by
  rw [readSource]
  by_cases h : Path.IsInside path
  · rw [if_pos h, (Path.leaves_eq_false path).mpr h]
    rfl
  · rw [if_neg h, if_pos (Bool.of_not_eq_false (mt (Path.leaves_eq_false path).mp h))]

theorem source_value (e : Entry) (trail : List String) :
    (l.source e trail).value = (l.stored? (sourcePath e trail)).getD unreadableSource := by
  rw [source, value_bind, readSource_eq, stored?]
  by_cases h : Path.IsInside (sourcePath e trail)
  · rw [if_pos h, if_pos h, readText]
    cases l.read (Path.join l.sourceRoot (sourcePath e trail)) <;> rfl
  · rw [if_neg h, if_neg h]
    rfl

theorem source_reads (e : Entry) (trail : List String) :
    (l.source e trail).reads = l.readsFor (sourcePath e trail) := by
  have hsource : (l.source e trail).reads = (l.readSource (sourcePath e trail)).reads := by
    rw [source, reads_bind]
    cases (l.readSource (sourcePath e trail)).value <;> simp
  rw [hsource, readSource_eq, readsFor]
  split <;> rfl

/-! ## One node -/

theorem hydrateAt_file {n : Node} (h : n.isFile = true) (trail : List String) (steps : Bool) :
    l.hydrateAt trail steps n =
      (do return .mk (n.entry.withSource (← l.source n.entry trail)) n.listed) := by
  cases n with
  | mk e cs =>
    have hk : e.kind = .file := of_decide_eq_true h
    cases cs with
    | none => rw [hydrateAt, if_pos hk]; rfl
    | some cs => rw [hydrateAt, if_pos hk]; rfl

theorem hydrateAll_value (trail : List String) (ns : List Node) :
    (l.hydrateAll trail ns).value = ns.map fun c => (l.hydrateAt trail true c).value := by
  induction ns with
  | nil => rfl
  | cons n ns ih => simp only [hydrateAll, value_bind, value_pure, ih, List.map_cons]

theorem hydrateAll_reads (trail : List String) (ns : List Node) :
    (l.hydrateAll trail ns).reads = ns.flatMap fun c => (l.hydrateAt trail true c).reads := by
  induction ns with
  | nil => rfl
  | cons n ns ih =>
    simp only [hydrateAll, reads_bind, reads_pure, List.append_nil, ih, List.flatMap_cons]

theorem hydrateAt_directory_value {n : Node} (h : n.isDirectory = true) (trail : List String)
    (steps : Bool) : (l.hydrateAt trail steps n).value =
      .mk n.entry (n.listed.map fun cs => cs.map fun c =>
        (l.hydrateAt (if steps then trail ++ [n.name] else trail) true c).value) := by
  cases n with
  | mk e cs =>
    have hk : e.kind ≠ .file := by
      rw [show e.kind = .directory from of_decide_eq_true h]
      simp
    cases cs with
    | none => rw [hydrateAt, if_neg hk]; rfl
    | some cs =>
      rw [hydrateAt, if_neg hk, value_bind, value_pure, hydrateAll_value]
      rfl

theorem hydrateAt_directory_reads {n : Node} (h : n.isDirectory = true) (trail : List String)
    (steps : Bool) : (l.hydrateAt trail steps n).reads =
      n.children.flatMap fun c =>
        (l.hydrateAt (if steps then trail ++ [n.name] else trail) true c).reads := by
  cases n with
  | mk e cs =>
    have hk : e.kind ≠ .file := by
      rw [show e.kind = .directory from of_decide_eq_true h]
      simp
    cases cs with
    | none => rw [hydrateAt, if_neg hk]; rfl
    | some cs =>
      rw [hydrateAt, if_neg hk, reads_bind, reads_pure, List.append_nil, hydrateAll_reads]
      rfl

theorem hydrateAt_children (n : Node) (trail : List String) (steps : Bool) :
    (l.hydrateAt trail steps n).value.children =
      if n.isDirectory then n.children.map fun c =>
        (l.hydrateAt (if steps then trail ++ [n.name] else trail) true c).value
      else n.children := by
  split
  · next h =>
    rw [hydrateAt_directory_value l h]
    cases n with
    | mk e cs => cases cs <;> rfl
  · next h =>
    rw [hydrateAt_file l (by simpa [Node.isFile_eq] using h)]
    rfl

theorem hydrateAt_entry (n : Node) (trail : List String) (steps : Bool) :
    (l.hydrateAt trail steps n).value.entry =
      if n.isFile then n.entry.withSource
        ((l.stored? (sourcePath n.entry trail)).getD unreadableSource)
      else n.entry := by
  split
  · next h =>
    rw [hydrateAt_file l h, value_bind, value_pure, source_value]
    rfl
  · next h =>
    have hdir : n.isDirectory = true := by simpa [Node.isFile_eq] using h
    rw [hydrateAt_directory_value l hdir]
    rfl

theorem hydrateAt_listed_length (n : Node) (trail : List String) (steps : Bool) :
    (l.hydrateAt trail steps n).value.listed.map List.length = n.listed.map List.length := by
  by_cases h : n.isFile = true
  · rw [hydrateAt_file l h]
    rfl
  · have hdir : n.isDirectory = true := by simpa [Node.isFile_eq] using h
    rw [hydrateAt_directory_value l hdir]
    cases n with
    | mk e cs => cases cs <;> simp [Node.listed]

/-! ## Along an address -/

/-- What stands at an address afterwards. -/
theorem hydrateAt_at? (n : Node) (trail : List String) (steps : Bool) (a : List Nat) :
    (l.hydrateAt trail steps n).value.at? a = (n.at? a).map fun m =>
      if n.openTo a then (l.hydrateAt (trail ++ n.wayTo steps a) (steps || !a.isEmpty) m).value
      else m := by
  induction a generalizing n trail steps with
  | nil => simp [Node.at?, Node.openTo, Node.wayTo, Node.ancestors_nil]
  | cons k a ih =>
    rw [Node.at?, Node.at?, hydrateAt_children]
    cases hc : n.children[k]? with
    | none => split <;> simp [hc]
    | some c =>
      rw [Node.openTo_cons hc, Node.wayTo_cons hc]
      split
      · next hdir => simp [hc, ih, hdir]
      · next hdir =>
        -- below a file nothing changes
        simp [hc, hdir]

theorem hydrateAt_addresses (n : Node) (trail : List String) (steps : Bool) :
    (l.hydrateAt trail steps n).value.walk.map Spot.address = n.walk.map Spot.address := by
  induction n using Node.byChildren generalizing trail steps with
  | step n ih =>
    have hunder (c : Node) (k : Nat) : (c.walk.map (Spot.under k)).map Spot.address =
        (c.walk.map Spot.address).map (k :: ·) := by
      rw [List.map_map, List.map_map]
      rfl
    rw [Node.walk_children, Node.walk_children n, List.map_cons, List.map_cons, List.map_flatMap,
      List.map_flatMap, hydrateAt_children]
    congr 1
    split
    · rw [List.zipIdx_map, List.flatMap_map]
      refine List.flatMap_congr fun x hx => ?_
      have hmem : x.1 ∈ n.children := List.fst_mem_of_mem_zipIdx hx
      show List.map _ (List.map _ (l.hydrateAt _ true x.1).value.walk) = _
      rw [hunder, hunder, ih x.1 hmem]
      rfl
    · rfl

/-! ## The whole tree -/

/-- The node at a position afterwards stands where it stood before. -/
theorem hydrate_spot {root : Node} {i : Nat} {s : Spot} (hs : root.walk[i]? = some s) :
    (l.hydrate root).value.walk[i]? = some ⟨s.address,
      if root.openTo s.address then
        (l.hydrateAt (root.wayTo false s.address) (!s.address.isEmpty) s.node).value
      else s.node⟩ := by
  have haddr := congrArg (·[i]?) (l.hydrateAt_addresses root [] false)
  simp only [List.getElem?_map, hs, Option.map_some] at haddr
  obtain ⟨t, ht, ha⟩ := Option.map_eq_some_iff.mp haddr
  have hat := Node.at?_of_mem_walk (List.mem_of_getElem? ht)
  rw [ha, hydrateAt_at?, Node.at?_of_mem_walk (List.mem_of_getElem? hs), Option.map_some,
    Option.some.injEq] at hat
  rw [hydrate, ht]
  cases t
  simp_all

theorem hydrate_spot_entry {root : Node} {i : Nat} {s : Spot} (hs : root.walk[i]? = some s) :
    ∃ m, (l.hydrate root).value.walk[i]? = some ⟨s.address, m⟩ ∧
      m.listed.map List.length = s.node.listed.map List.length ∧
      m.entry = if s.node.isFile && root.openTo s.address then
        s.node.entry.withSource ((l.stored? (root.pathOf s)).getD unreadableSource)
      else s.node.entry := by
  refine ⟨_, l.hydrate_spot hs, ?_⟩
  cases root.openTo s.address with
  | false => simp
  | true =>
    simp only [if_true, Bool.and_true]
    exact ⟨hydrateAt_listed_length .., hydrateAt_entry ..⟩

/-- The node is a file with only directories above it, and its source is looked for under `path`. -/
def Resolves (root : Node) (s : Spot) (path : String) : Prop :=
  s.node.isFile ∧ (∀ n ∈ root.ancestors s.address, n.isDirectory) ∧
    Path.IsInside (root.pathOf s) ∧ Path.join l.sourceRoot (root.pathOf s) = path

theorem stored?_reading {touched : String → Prop} {rd : String → Except String String}
    (hrd : ∀ path, ¬ touched path → rd path = l.read path) {path : String}
    (h : Path.IsInside path → ¬ touched (Path.join l.sourceRoot path)) :
    (l.reading rd).stored? path = l.stored? path := by
  rw [stored?, stored?]
  split
  · next hin => exact congrArg Except.toOption (hrd _ (h hin))
  · rfl

/-- Attaching the sources of a tree gives a tree of the same shape. Each node keeps all that its
entry says but the source, a directory keeps that too, and so does everything below a file. A file
with only directories above it gets the text stored under its path below the root of the sources, or
the fixed text when that path is refused or there is no such file. Exchanging a file, with whatever
paths lead to it, leaves all nodes as they were that are not looked for there. -/
theorem hydrate_walk (l : Loader) (root : Node) :
    (l.hydrate root).value.walk.map Spot.address = root.walk.map Spot.address ∧
    (∀ (i : Nat) (s : Spot), root.walk[i]? = some s →
      ∃ m : Node, (l.hydrate root).value.walk[i]? = some ⟨s.address, m⟩ ∧
      m.listed.map List.length = s.node.listed.map List.length ∧
      m.entry.unsourced = s.node.entry.unsourced ∧
      (s.node.isDirectory → m.entry = s.node.entry) ∧
      (s.node.isFile → (∀ n ∈ root.ancestors s.address, n.isDirectory) →
        m.source = some ((l.stored? (root.pathOf s)).getD "Error reading file")) ∧
      ((∃ n ∈ root.ancestors s.address, n.isFile) → m.entry = s.node.entry)) ∧
    ∀ (touched : String → Prop) rd, (∀ path, ¬ touched path → rd path = l.read path) →
      ∀ (i : Nat) (s : Spot), root.walk[i]? = some s →
        (∀ path, l.Resolves root s path → ¬ touched path) →
        ∃ m m' : Node, (l.hydrate root).value.walk[i]? = some ⟨s.address, m⟩ ∧
          ((l.reading rd).hydrate root).value.walk[i]? = some ⟨s.address, m'⟩ ∧
          m'.entry = m.entry := by
  have hopen (a : List Nat) : root.openTo a = true ↔ ∀ n ∈ root.ancestors a, n.isDirectory = true :=
    List.all_eq_true
  refine ⟨l.hydrateAt_addresses root [] false, ?_, ?_⟩
  · intro i s hs
    obtain ⟨m, hm, hlisted, hentry⟩ := l.hydrate_spot_entry hs
    refine ⟨m, hm, hlisted, ?_, ?_, ?_, ?_⟩
    · rw [hentry]
      split <;> rfl
    · intro hdir
      rw [hentry, Node.isFile_eq, hdir]
      rfl
    · intro hfile habove
      rw [hfile, (hopen _).mpr habove] at hentry
      rw [Node.source, hentry]
      rfl
    · rintro ⟨n, hn, hfile⟩
      have hclosed : root.openTo s.address = false := by
        refine Bool.eq_false_iff.mpr fun h => ?_
        have hdir := (hopen _).mp h n hn
        rw [Node.isFile_eq, hdir] at hfile
        cases hfile
      rw [hentry, hclosed, Bool.and_false]
      rfl
  · intro touched rd hrd i s hs hnot
    obtain ⟨m, hm, _, hentry⟩ := l.hydrate_spot_entry hs
    obtain ⟨m', hm', _, hentry'⟩ := (l.reading rd).hydrate_spot_entry hs
    refine ⟨m, m', hm, hm', ?_⟩
    rw [hentry, hentry']
    split
    · next h =>
      -- the source is attached in both runs, and looked for elsewhere
      obtain ⟨hfile, habove⟩ := Bool.and_eq_true_iff.mp h
      rw [l.stored?_reading hrd fun hin => hnot _ ⟨hfile, (hopen _).mp habove, hin, rfl⟩]
    · rfl

/-- A file in a directory, and one whose path leads out of the root. -/
def sampleTree : Node :=
  .directory "r" [.directory "lib" [.file "a.c"],
    .mk { name := "b.c", kind := .file, path := some "../b.c" } none]

def sampleLoader : Loader :=
  { read := fun path => if path = "src/lib/a.c" then .ok "int a;" else .error "missing"
    structurePath := "m"
    sourceRoot := "src" }

theorem hydrate_walk_sample :
    (∃ m : Node, (sampleLoader.hydrate sampleTree).value.walk[2]? = some ⟨[0, 0], m⟩ ∧
      m.source = some "int a;") ∧
    (∃ m : Node, (sampleLoader.hydrate sampleTree).value.walk[3]? = some ⟨[1], m⟩ ∧
      m.source = some "Error reading file") ∧
    ∃ m m' : Node, (sampleLoader.hydrate sampleTree).value.walk[2]? = some ⟨[0, 0], m⟩ ∧
      ((sampleLoader.reading fun path => if path = "src/b.c" then .ok "int b;" else
        sampleLoader.read path).hydrate sampleTree).value.walk[2]? = some ⟨[0, 0], m'⟩ ∧
      m'.entry = m.entry := by
  obtain ⟨_, hnode, hother⟩ := hydrate_walk sampleLoader sampleTree
  have ha : sampleTree.walk[2]? = some ⟨[0, 0], .file "a.c"⟩ := by
    rw [Node.walk_eq]
    rfl
  have hb : sampleTree.walk[3]? =
      some ⟨[1], .mk { name := "b.c", kind := .file, path := some "../b.c" } none⟩ := by
    rw [Node.walk_eq]
    rfl
  refine ⟨?_, ?_, ?_⟩
  · obtain ⟨m, hm, _, _, _, hsource, _⟩ := hnode 2 _ ha
    exact ⟨m, hm, (hsource rfl (by decide)).trans (by decide +kernel)⟩
  · obtain ⟨m, hm, _, _, _, hsource, _⟩ := hnode 3 _ hb
    exact ⟨m, hm, (hsource rfl (by decide)).trans (by decide +kernel)⟩
  · refine hother (· = "src/b.c") _ (fun path hne => if_neg hne) 2 _ ha ?_
    rintro _ ⟨_, _, _, rfl⟩
    decide +kernel

/-! ## What is read -/

/-- The paths that attaching the sources of a tree reads for one of its nodes. -/
def readsAt (root : Node) (s : Spot) : List String :=
  if s.node.isFile && root.openTo s.address then l.readsFor (root.pathOf s) else []

theorem hydrateAt_reads (n : Node) (trail : List String) (steps : Bool) :
    (l.hydrateAt trail steps n).reads = n.walk.flatMap fun s =>
      if s.node.isFile && n.openTo s.address then
        l.readsFor (sourcePath s.node.entry (trail ++ n.wayTo steps s.address))
      else [] := by
  induction n using Node.byChildren generalizing trail steps with
  | step n ih =>
    have hchild : ∀ x ∈ n.children.zipIdx, ((x.1.walk.map (Spot.under x.2)).flatMap fun s =>
        if s.node.isFile && n.openTo s.address then
          l.readsFor (sourcePath s.node.entry (trail ++ n.wayTo steps s.address))
        else []) = if n.isDirectory then
          (l.hydrateAt (if steps then trail ++ [n.name] else trail) true x.1).reads else [] := by
      intro x hx
      have hc : n.children[x.2]? = some x.1 := List.mem_zipIdx_iff_getElem?.mp hx
      simp only [List.flatMap_map, Spot.under, Node.openTo_cons hc, Node.wayTo_cons hc]
      cases n.isDirectory with
      | true =>
        rw [ih x.1 (List.mem_of_getElem? hc)]
        simp
      | false => simp
    rw [Node.walk_children, List.flatMap_cons, List.flatMap_assoc, List.flatMap_congr hchild]
    by_cases hfile : n.isFile = true
    · have hdir : n.isDirectory = false := by simpa [Node.isFile_eq] using hfile
      rw [hydrateAt_file l hfile, reads_bind, source_reads]
      simp [hfile, hdir, Node.openTo, Node.wayTo, Node.ancestors_nil]
    · have hdir : n.isDirectory = true := by simpa [Node.isFile_eq] using hfile
      have hfst : n.children = n.children.zipIdx.map Prod.fst := by simp
      rw [hydrateAt_directory_reads l hdir, hdir]
      conv_lhs => rw [hfst, List.flatMap_map]
      simp [hfile]

theorem hydrate_reads (root : Node) :
    (l.hydrate root).reads = root.walk.flatMap (l.readsAt root) :=
  l.hydrateAt_reads root [] false

end Loader

end SourceAtlas

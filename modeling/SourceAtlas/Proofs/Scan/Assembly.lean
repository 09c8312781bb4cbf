import Mathlib.Data.List.Nodup
import Mathlib.Data.String.Basic
import SourceAtlas.Scan.Describe
import SourceAtlas.Proofs.Text.ByteOrder
import SourceAtlas.Proofs.Loader.Forgetting

/-! # Assembling a tree from files

Files whose paths do not begin one another find their places whatever the order in which they come:
putting one down keeps the rows in order and adds that file alone. Such a tree is determined by its
files, so that the order cannot be seen in it. -/

namespace SourceAtlas.Scan

open scoped List

/-! ## Tidy trees -/

/-- A tree in which only files are leaves and the names of siblings go up. -/
inductive Tidy : Node → Prop
  | file {n : Node} (isFile : n.isFile = true) (leaf : n.children = []) : Tidy n
  | directory {name : String} {ns : List Node} (filled : ns ≠ [])
      (sorted : ns.Pairwise fun a b => a.name < b.name) (each : ∀ n ∈ ns, Tidy n) :
      Tidy (.directory name ns)

structure TidyRow (ns : List Node) : Prop where
  sorted : ns.Pairwise fun a b => a.name < b.name
  each : ∀ n ∈ ns, Tidy n

/-- The files of a tree, each with the names from the root down to the directory that holds it. -/
def filed (n : Node) : List (List String × Node) := n.trails.filter (·.2.isFile)

def filedAll (ns : List Node) : List (List String × Node) := ns.flatMap filed

/-- The names on the way down to a file, its own name the last. -/
def way (x : List String × Node) : List String := x.1 ++ [x.2.name]

/-- Two paths of which neither leads through the other. -/
def Apart (p q : List String) : Prop := ¬ p <+: q ∧ ¬ q <+: p

theorem Apart.symm {p q : List String} (h : Apart p q) : Apart q p := ⟨h.2, h.1⟩

theorem Apart.tail {d : String} {p q : List String} (h : Apart (d :: p) (d :: q)) : Apart p q := by
  simpa [Apart, List.cons_prefix_cons] using h

theorem filed_file {n : Node} (hfile : n.isFile = true) (hleaf : n.children = []) :
    filed n = [([], n)] := by
  rw [filed, Node.trails_children, hleaf]
  simp [hfile]

theorem filed_directory (d : String) (ns : List Node) :
    filed (.directory d ns) = (filedAll ns).map fun x => (d :: x.1, x.2) := by
  rw [filed, Node.trails_children, List.filter_cons_of_neg Bool.false_ne_true, List.filter_flatMap,
    filedAll, List.map_flatMap]
  exact List.flatMap_congr fun c _ => by rw [filed, List.filter_map]; rfl

theorem filedAll_append (ns ms : List Node) : filedAll (ns ++ ms) = filedAll ns ++ filedAll ms :=
  List.flatMap_append

theorem filedAll_cons (n : Node) (ns : List Node) : filedAll (n :: ns) = filed n ++ filedAll ns :=
  List.flatMap_cons

/-- The way to a file of a tree begins with the name of the tree. -/
theorem way_of_mem {n : Node} (hn : Tidy n) {x : List String × Node} (h : x ∈ filed n) :
    ∃ rest, way x = n.name :: rest := by
  cases hn with
  | file hfile hleaf =>
    rw [filed_file hfile hleaf, List.mem_singleton] at h
    subst h
    exact ⟨[], rfl⟩
  | @directory d ns _ _ _ =>
    rw [filed_directory] at h
    obtain ⟨y, _, rfl⟩ := List.mem_map.mp h
    exact ⟨way y, rfl⟩

/-- A tidy tree has a file. -/
theorem Tidy.filed_ne_nil {n : Node} (h : Tidy n) : filed n ≠ [] := by
  induction h with
  | file hfile hleaf => simp [filed_file hfile hleaf]
  | @directory d ns filled _ _ ih =>
    obtain ⟨n, hn⟩ := List.exists_mem_of_ne_nil ns filled
    rw [filed_directory, Ne, List.map_eq_nil_iff, filedAll, List.flatMap_eq_nil_iff]
    exact fun hnil => ih n hn (hnil n hn)

namespace TidyRow

variable {ns ms : List Node}

theorem nil : TidyRow [] := ⟨.nil, nofun⟩

theorem sublist (h : TidyRow ns) (hs : ms.Sublist ns) : TidyRow ms :=
  ⟨h.sorted.sublist hs, fun n hn => h.each n (hs.subset hn)⟩

theorem names_nodup (h : TidyRow ns) : (ns.map Node.name).Nodup :=
  List.pairwise_map.mpr (h.sorted.imp fun hlt => ne_of_lt hlt)

/-- Siblings are told apart by their names. -/
theorem unique (h : TidyRow ns) {n m : Node} (hn : n ∈ ns) (hm : m ∈ ns) (hname : n.name = m.name) :
    n = m :=
  List.inj_on_of_nodup_map h.names_nodup hn hm hname

/-- A tidy tree may be put between those with smaller and those with greater names. -/
theorem insert {pre post : List Node} (h : TidyRow (pre ++ post)) {n : Node} (hn : Tidy n)
    (hpre : ∀ m ∈ pre, m.name < n.name) (hpost : ∀ m ∈ post, n.name < m.name) :
    TidyRow (pre ++ n :: post) := by
  obtain ⟨hleft, hright, hacross⟩ := List.pairwise_append.mp h.sorted
  refine ⟨List.pairwise_append.mpr ⟨hleft, List.pairwise_cons.mpr ⟨hpost, hright⟩, ?_⟩, ?_⟩
  · intro a ha b hb
    rcases List.mem_cons.mp hb with rfl | hb
    · exact hpre a ha
    · exact hacross a ha b hb
  · intro m hm
    rcases List.mem_append.mp hm with hm | hm
    · exact h.each m (List.mem_append_left _ hm)
    · rcases List.mem_cons.mp hm with rfl | hm
      · exact hn
      · exact h.each m (List.mem_append_right _ hm)

/-- A file of a row, without a directory above it, stands in the row itself. -/
theorem mem_filedAll_nil (h : TidyRow ns) {f : Node} :
    ([], f) ∈ filedAll ns ↔ f ∈ ns ∧ f.isFile = true := by
  rw [filedAll, List.mem_flatMap]
  constructor
  · rintro ⟨n, hn, hf⟩
    cases h.each n hn with
    | file hfile hleaf =>
      rw [filed_file hfile hleaf, List.mem_singleton] at hf
      cases hf
      exact ⟨hn, hfile⟩
    | directory _ _ _ =>
      rw [filed_directory] at hf
      obtain ⟨y, _, he⟩ := List.mem_map.mp hf
      cases he
  · rintro ⟨hf, hfile⟩
    refine ⟨f, hf, ?_⟩
    cases h.each f hf with
    | file _ hleaf => simp [filed_file hfile hleaf]
    | directory _ _ _ => cases hfile

/-- A file of a row that is found below a name is one of the directory of that name. -/
theorem mem_filedAll_cons (h : TidyRow ns) {d : String} {t : List String} {f : Node} :
    (d :: t, f) ∈ filedAll ns ↔ ∃ cs, .directory d cs ∈ ns ∧ (t, f) ∈ filedAll cs := by
  rw [filedAll, List.mem_flatMap]
  constructor
  · rintro ⟨n, hn, hf⟩
    cases h.each n hn with
    | file hfile hleaf =>
      rw [filed_file hfile hleaf, List.mem_singleton] at hf
      cases hf
    | @directory _ cs _ _ _ =>
      rw [filed_directory] at hf
      obtain ⟨y, hy, he⟩ := List.mem_map.mp hf
      cases he
      exact ⟨cs, hn, hy⟩
  · rintro ⟨cs, hcs, hf⟩
    exact ⟨_, hcs, by rw [filed_directory]; exact List.mem_map.mpr ⟨_, hf, rfl⟩⟩

/-- A directory of a tidy row holds a tidy row itself, which is not empty. -/
theorem below (h : TidyRow ns) {d : String} {cs : List Node} (hd : .directory d cs ∈ ns) :
    TidyRow cs ∧ ∃ x, x ∈ filedAll cs := by
  have htidy := h.each _ hd
  have hne := htidy.filed_ne_nil
  rw [filed_directory, Ne, List.map_eq_nil_iff] at hne
  refine ⟨?_, List.exists_mem_of_ne_nil _ hne⟩
  generalize hn : Node.directory d cs = n at htidy
  cases htidy with
  | file hfile _ => subst hn; cases hfile
  | directory _ sorted each => cases hn; exact ⟨sorted, each⟩

end TidyRow

/-- What stands in one of two tidy rows with the same files stands in the other one. -/
theorem mem_of_filed {ns ms : List Node} (hns : TidyRow ns) (hms : TidyRow ms)
    (hsame : ∀ x, x ∈ filedAll ns ↔ x ∈ filedAll ms)
    (ih : ∀ c ∈ ns, ∀ cs, TidyRow c.children → TidyRow cs →
      (∀ x, x ∈ filedAll c.children ↔ x ∈ filedAll cs) → c.children = cs)
    {n : Node} (hn : n ∈ ns) : n ∈ ms := by
  cases hns.each n hn with
  | file hfile _ =>
    exact (hms.mem_filedAll_nil.mp ((hsame _).mp (hns.mem_filedAll_nil.mpr ⟨hn, hfile⟩))).1
  | @directory d cs _ _ _ =>
    obtain ⟨hcs, ⟨t, f⟩, hx⟩ := hns.below hn
    obtain ⟨ds, hds, _⟩ :=
      hms.mem_filedAll_cons.mp ((hsame _).mp (hns.mem_filedAll_cons.mpr ⟨cs, hn, hx⟩))
    -- the directories of that name have the same files below
    have hfiles : ∀ x, x ∈ filedAll cs ↔ x ∈ filedAll ds := by
      rintro ⟨t, f⟩
      constructor
      · intro h
        obtain ⟨ds', hds', h⟩ :=
          hms.mem_filedAll_cons.mp ((hsame _).mp (hns.mem_filedAll_cons.mpr ⟨cs, hn, h⟩))
        cases hms.unique hds hds' rfl
        exact h
      · intro h
        obtain ⟨cs', hcs', h⟩ :=
          hns.mem_filedAll_cons.mp ((hsame _).mpr (hms.mem_filedAll_cons.mpr ⟨ds, hds, h⟩))
        cases hns.unique hn hcs' rfl
        exact h
    rwa [show cs = ds from ih _ hn ds hcs (hms.below hds).1 hfiles]

theorem TidyRow.ext {ns ms : List Node} (hns : TidyRow ns) (hms : TidyRow ms)
    (hsame : ∀ x, x ∈ filedAll ns ↔ x ∈ filedAll ms) : ns = ms := by
  suffices h : ∀ n : Node, ∀ ms, TidyRow n.children → TidyRow ms →
      (∀ x, x ∈ filedAll n.children ↔ x ∈ filedAll ms) → n.children = ms from
    h (.directory "" ns) ms hns hms hsame
  intro n
  induction n using Node.byChildren with
  | step n ih =>
    intro ms hns hms hsame
    have hsub : ∀ m ∈ n.children, m ∈ ms := fun m => mem_of_filed hns hms hsame ih
    have hsup : ∀ m ∈ ms, m ∈ n.children := by
      intro m hm
      -- a file below `m` is found below a node of the same name
      obtain ⟨x, hx⟩ := List.exists_mem_of_ne_nil _ (hms.each m hm).filed_ne_nil
      have hmem : x ∈ filedAll n.children := (hsame x).mpr (List.mem_flatMap.mpr ⟨m, hm, hx⟩)
      obtain ⟨c, hc, hxc⟩ := List.mem_flatMap.mp hmem
      obtain ⟨_, hm'⟩ := way_of_mem (hms.each m hm) hx
      obtain ⟨_, hc'⟩ := way_of_mem (hns.each c hc) hxc
      have hname : m.name = c.name := List.head_eq_of_cons_eq (hm'.symm.trans hc')
      rwa [hms.unique hm (hsub c hc) hname]
    have hperm : n.children.Perm ms := (List.perm_ext_iff_of_nodup
      (hns.names_nodup.of_map _) (hms.names_nodup.of_map _)).mpr
      fun m => ⟨hsub m, hsup m⟩
    exact hperm.eq_of_pairwise (fun a b _ _ hab hba =>
      absurd hba (lt_asymm hab)) hns.sorted hms.sorted

/-! ## Putting one file down -/

/-- In a row with names going up a file is put behind the names that are not greater. -/
theorem putFile_split (f : Node) {ns : List Node} (hns : ns.Pairwise fun a b => a.name < b.name) :
    ∃ pre post, ns = pre ++ post ∧ putFile f ns = pre ++ f :: post ∧
      (∀ n ∈ pre, ¬ f.name < n.name) ∧ ∀ n ∈ post, f.name < n.name := by
  induction ns with
  | nil => exact ⟨[], [], rfl, rfl, nofun, nofun⟩
  | cons n ns ih =>
    obtain ⟨hn, hrest⟩ := List.pairwise_cons.mp hns
    rw [putFile]
    split
    · next hlt =>
      refine ⟨[], n :: ns, rfl, rfl, nofun, fun m hm => ?_⟩
      rcases List.mem_cons.mp hm with rfl | hm
      · exact hlt
      · exact lt_trans hlt (hn m hm)
    · next hlt =>
      obtain ⟨pre, post, rfl, hput, hpre, hpost⟩ := ih hrest
      refine ⟨n :: pre, post, rfl, by rw [hput]; rfl, ?_, hpost⟩
      exact List.forall_mem_cons.mpr ⟨hlt, hpre⟩

/-- In a tidy row without a file of the given name a directory of that name is changed where it is,
or made from nothing where it belongs. -/
theorem putDirectory_split {d : String} (change : List Node → List Node) {ns : List Node}
    (hns : TidyRow ns) (hfree : ∀ n ∈ ns, n.name = d → n.isFile = false) :
    ∃ pre cs post, putDirectory d change ns = pre ++ .directory d (change cs) :: post ∧
      (∀ n ∈ pre, n.name < d) ∧ (∀ n ∈ post, d < n.name) ∧
      (ns = pre ++ post ∧ cs = [] ∨ ns = pre ++ .directory d cs :: post) := by
  induction ns with
  | nil => exact ⟨[], [], [], rfl, nofun, nofun, .inl ⟨rfl, rfl⟩⟩
  | cons n ns ih =>
    obtain ⟨hn, hrest⟩ := List.pairwise_cons.mp hns.sorted
    rw [putDirectory]
    split
    · next h =>
      obtain ⟨rfl, hdir⟩ := h
      cases hns.each n List.mem_cons_self with
      | file hfile _ =>
        rw [hfree n List.mem_cons_self rfl] at hfile
        cases hfile
      | @directory _ cs _ _ _ => exact ⟨[], cs, ns, rfl, nofun, hn, .inr rfl⟩
    · next h =>
      split
      · next hlt =>
        obtain ⟨pre, cs, post, hput, hpre, hpost, hold⟩ :=
          ih (hns.sublist (List.sublist_cons_self n ns)) fun m hm =>
            hfree m (List.mem_cons_of_mem _ hm)
        refine ⟨n :: pre, cs, post, by rw [hput]; rfl, List.forall_mem_cons.mpr ⟨hlt, hpre⟩,
          hpost, ?_⟩
        rcases hold with ⟨rfl, rfl⟩ | rfl
        · exact .inl ⟨rfl, rfl⟩
        · exact .inr rfl
      · next hlt =>
        have hne : n.name ≠ d := by
          intro hname
          have hdir := hfree n List.mem_cons_self hname
          rw [Node.isFile_eq, Bool.not_eq_false'] at hdir
          exact h ⟨hname, of_decide_eq_true hdir⟩
        have hgt : d < n.name := lt_of_le_of_ne (not_lt.mp hlt) hne.symm
        refine ⟨[], [], n :: ns, rfl, nofun, ?_, .inl ⟨rfl, rfl⟩⟩
        exact List.forall_mem_cons.mpr ⟨hgt, fun m hm => lt_trans hgt (hn m hm)⟩

/-- A row is tidy without one of its directories, too, whose files are the others. -/
theorem TidyRow.apart {d : String} {ns pre cs post : List Node} (hns : TidyRow ns)
    (h : ns = pre ++ post ∧ cs = [] ∨ ns = pre ++ .directory d cs :: post) :
    TidyRow (pre ++ post) ∧ TidyRow cs ∧
      (filedAll ns).Perm ((filedAll cs).map (fun x => (d :: x.1, x.2)) ++
        filedAll (pre ++ post)) := by
  rcases h with ⟨rfl, rfl⟩ | rfl
  · exact ⟨hns, .nil, .refl _⟩
  · refine ⟨hns.sublist ((List.Sublist.refl pre).append (List.sublist_cons_self _ _)),
      (hns.below (List.mem_append_right _ List.mem_cons_self)).1, ?_⟩
    rw [filedAll_append, filedAll_append, filedAll_cons, filed_directory]
    exact List.perm_append_comm_assoc _ _ _

/-- Putting down a file whose way leads through no other file, nor theirs through it, keeps a row
tidy and adds that file alone. -/
theorem place_tidy {f : Node} (hfile : f.isFile = true) (hleaf : f.children = []) (ds : List String)
    {ns : List Node} (hns : TidyRow ns) (hapart : ∀ x ∈ filedAll ns, Apart (way (ds, f)) (way x)) :
    TidyRow (place ds f ns) ∧ (filedAll (place ds f ns)).Perm ((ds, f) :: filedAll ns) := by
  induction ds generalizing ns with
  | nil =>
    have hname : ∀ n ∈ ns, n.name ≠ f.name := by
      rintro n hn he
      obtain ⟨x, hx⟩ := List.exists_mem_of_ne_nil _ (hns.each n hn).filed_ne_nil
      obtain ⟨rest, hway⟩ := way_of_mem (hns.each n hn) hx
      refine (hapart x (List.mem_flatMap.mpr ⟨n, hn, hx⟩)).1 ⟨rest, ?_⟩
      rw [hway, he]
      rfl
    obtain ⟨pre, post, rfl, hput, hpre, hpost⟩ := putFile_split f hns.sorted
    rw [place, hput]
    refine ⟨hns.insert (.file hfile hleaf) (fun n hn => ?_) hpost, ?_⟩
    · exact lt_of_le_of_ne (not_lt.mp (hpre n hn)) (hname n (List.mem_append_left _ hn))
    · rw [filedAll_append, filedAll_append, filedAll_cons, filed_file hfile hleaf]
      exact List.perm_middle
  | cons d ds ih =>
    have hfree : ∀ n ∈ ns, n.name = d → n.isFile = false := by
      rintro n hn rfl
      refine Bool.eq_false_iff.mpr fun hnfile => ?_
      have hx : ([], n) ∈ filedAll ns := hns.mem_filedAll_nil.mpr ⟨hn, hnfile⟩
      exact (hapart _ hx).2 ⟨ds ++ [f.name], rfl⟩
    obtain ⟨pre, cs, post, hput, hpre, hpost, hold⟩ := putDirectory_split (place ds f) hns hfree
    obtain ⟨hrest, hcs, hfiles⟩ := hns.apart hold
    obtain ⟨htidy, hperm⟩ := ih hcs fun x hx => by
      have hmem : (d :: x.1, x.2) ∈ filedAll ns :=
        hfiles.mem_iff.mpr (List.mem_append_left _ (List.mem_map.mpr ⟨x, hx, rfl⟩))
      exact (hapart _ hmem).tail
    have hfilled : place ds f cs ≠ [] := by
      intro hnil
      rw [hnil] at hperm
      exact List.cons_ne_nil _ _ hperm.symm.eq_nil
    rw [place, hput]
    refine ⟨hrest.insert (.directory hfilled htidy.sorted htidy.each) hpre hpost, ?_⟩
    calc filedAll (pre ++ .directory d (place ds f cs) :: post)
      _ = filedAll pre ++ ((filedAll (place ds f cs)).map (fun x => (d :: x.1, x.2)) ++
          filedAll post) := by rw [filedAll_append, filedAll_cons, filed_directory]
      _ ~ (filedAll (place ds f cs)).map (fun x => (d :: x.1, x.2)) ++ filedAll (pre ++ post) := by
        rw [filedAll_append]
        exact List.perm_append_comm_assoc _ _ _
      _ ~ ((ds, f) :: filedAll cs).map (fun x => (d :: x.1, x.2)) ++ filedAll (pre ++ post) :=
        (hperm.map _).append_right _
      _ ~ (d :: ds, f) :: filedAll ns := hfiles.symm.cons _

/-! ## Putting down many -/

/-- The row that arises when files that lie apart are put down one after another. -/
theorem foldl_place {files : List (List String × Node)}
    (hleaf : ∀ x ∈ files, x.2.isFile = true ∧ x.2.children = [])
    (hfiles : files.Pairwise fun x y => Apart (way x) (way y)) {ns : List Node} (hns : TidyRow ns)
    (hapart : ∀ x ∈ files, ∀ y ∈ filedAll ns, Apart (way x) (way y)) :
    TidyRow (files.foldl (fun ns x => place x.1 x.2 ns) ns) ∧
      filedAll (files.foldl (fun ns x => place x.1 x.2 ns) ns) ~ files ++ filedAll ns := by
  induction files generalizing ns with
  | nil => exact ⟨hns, .refl _⟩
  | cons x files ih =>
    obtain ⟨hx, hrest⟩ := List.pairwise_cons.mp hfiles
    obtain ⟨hfile, hchildren⟩ := hleaf x List.mem_cons_self
    obtain ⟨htidy, hperm⟩ :=
      place_tidy hfile hchildren x.1 hns (hapart x List.mem_cons_self)
    obtain ⟨hrow, hall⟩ := ih (fun y hy => hleaf y (List.mem_cons_of_mem _ hy)) hrest htidy
      fun y hy z hz => by
        rcases List.mem_cons.mp (hperm.mem_iff.mp hz) with rfl | hz
        · exact (hx y hy).symm
        · exact hapart y (List.mem_cons_of_mem _ hy) z hz
    exact ⟨hrow, (hall.trans (hperm.append_left files)).trans List.perm_middle⟩

/-- The row below the root of an assembled tree. -/
theorem assemble_row (name : String) {files : List (List String × Node)}
    (hleaf : ∀ x ∈ files, x.2.isFile = true ∧ x.2.children = [])
    (hfiles : files.Pairwise fun x y => Apart (way x) (way y)) :
    ∃ ns, assemble name files = .directory name ns ∧ TidyRow ns ∧ filedAll ns ~ files := by
  obtain ⟨hrow, hperm⟩ := foldl_place hleaf hfiles .nil nofun
  refine ⟨_, rfl, hrow, ?_⟩
  simpa [filedAll] using hperm

/-- The order in which the files come cannot be seen in the tree. -/
theorem assemble_perm (name : String) {files files' : List (List String × Node)}
    (hleaf : ∀ x ∈ files, x.2.isFile = true ∧ x.2.children = [])
    (hfiles : files.Pairwise fun x y => Apart (way x) (way y)) (hperm : files ~ files') :
    assemble name files' = assemble name files := by
  obtain ⟨ns, hns, htidy, hall⟩ := assemble_row name hleaf hfiles
  obtain ⟨ns', hns', htidy', hall'⟩ := assemble_row name
    (fun x hx => hleaf x (hperm.mem_iff.mpr hx)) (hperm.pairwise hfiles fun h => h.symm)
  have hsame : ns' = ns := htidy'.ext htidy fun x => by
    rw [hall'.mem_iff, hall.mem_iff, hperm.mem_iff]
  rw [hns, hns', hsame]

/-! ## What stands where -/

/-- The positions of the files of a tree tell the names above them, the root's left out. -/
theorem filter_locate (name : String) (ns : List Node) :
    ((List.range (Node.directory name ns).nodeCount).filterMap
      (Node.directory name ns).locate).filter (·.2.isFile) = filedAll ns := by
  rw [Node.filterMap_locate, List.filter_map, Function.comp_def, ← filed, filed_directory,
    List.map_map]
  exact List.map_id _

theorem Tidy.of_mem_trails {m n : Node} (h : Tidy m) {names : List String}
    (hn : (names, n) ∈ m.trails) : Tidy n := by
  induction h generalizing names with
  | file hfile hleaf =>
    rw [Node.trails_children, hleaf] at hn
    cases List.mem_singleton.mp hn
    exact .file hfile hleaf
  | @directory d ns filled sorted each ih =>
    rw [Node.trails_children] at hn
    rcases List.mem_cons.mp hn with he | hn
    · cases he
      exact .directory filled sorted each
    · obtain ⟨c, hc, hn⟩ := List.mem_flatMap.mp hn
      obtain ⟨x, hx, he⟩ := List.mem_map.mp hn
      cases he
      exact ih c hc hx

/-- Every node below a tidy row is tidy. -/
theorem TidyRow.of_locate {name : String} {ns : List Node} (h : TidyRow ns) {id : Nat}
    {trail : List String} {n : Node}
    (hn : (Node.directory name ns).locate id = some (trail, n)) (hid : id ≠ 0) : Tidy n := by
  rw [Node.locate_eq_trails, Option.map_eq_some_iff] at hn
  obtain ⟨x, hx, he⟩ := hn
  cases he
  obtain ⟨i, rfl⟩ := Nat.exists_eq_succ_of_ne_zero hid
  rw [Node.trails_children, List.getElem?_cons_succ] at hx
  obtain ⟨c, hc, hm⟩ := List.mem_flatMap.mp (List.mem_of_getElem? hx)
  obtain ⟨y, hy, rfl⟩ := List.mem_map.mp hm
  exact (h.each c hc).of_mem_trails hy

theorem Tidy.filled {n : Node} (h : Tidy n) (hdir : n.isDirectory = true) :
    n.children ≠ [] ∧ n.children.Pairwise fun a b => a.name < b.name := by
  cases h with
  | file hfile _ => rw [Node.isFile_eq, hdir] at hfile; cases hfile
  | directory filled sorted _ => exact ⟨filled, sorted⟩

/-! ## Described files -/

structure Describes (path : List String) (n : Node) : Prop where
  isFile : n.isFile = true
  leaf : n.children = []
  name : path.dropLast ++ [n.name] = path
  place : n.entry.path = some ("/".intercalate path)

/-- Whether an item is a file, readable or not. -/
def isPlain : Item → Bool
  | .file _ _ | .locked _ _ _ => true
  | _ => false

theorem node_describes (root : String) {path : List String} {item : Item} (hpath : path ≠ [])
    (hitem : isPlain item = true) : Describes path (node root path item).value := by
  have hlast : path.dropLast ++ [path.getLast?.getD ""] = path := by
    rw [List.getLast?_eq_some_getLast hpath]
    exact List.dropLast_append_getLast hpath
  cases item with
  | file bytes modified => exact ⟨rfl, rfl, hlast, rfl⟩
  | locked reason size modified => exact ⟨rfl, rfl, hlast, rfl⟩
  | directory entries => cases hitem
  | link target => cases hitem

/-- The files of a scan as they are put into the tree. -/
def described (root : String) (files : List (List String × Item)) : List (List String × Node) :=
  files.map fun x => (x.1.dropLast, (node root x.1 x.2).value)

theorem mapM_loop_value {α β : Type} (f : α → Logged β) (xs : List α) (done : List β) :
    (List.mapM.loop f xs done).value = done.reverse ++ xs.map fun x => (f x).value := by
  induction xs generalizing done with
  | nil => exact (List.append_nil _).symm
  | cons x xs ih => rw [List.mapM.loop, Logged.value_bind, ih]; simp

/-- A scan puts the files that it takes in into the tree. -/
theorem tree_value (root : String) (survey : Survey) : (tree root survey).value =
    assemble (rootName root survey.path) (described root (files survey)) := by
  rw [tree, Logged.value_bind, List.mapM, mapM_loop_value]
  rfl

/-- A tree that holds the given files. Positions tell of each file, once, the names of the
directories above it, and its path is made of them; there are directories only for the sake of
files, and siblings are in the order of the octets of their names. -/
structure Holds (tree : Node) (files : List (List String × Node)) : Prop where
  once : ((List.range tree.nodeCount).filterMap tree.locate).filter (·.2.isFile) ~ files
  leaf : ∀ id trail n, tree.locate id = some (trail, n) → n.isFile = true → n.children = []
  path : ∀ id trail n, tree.locate id = some (trail, n) → n.isFile = true →
    n.entry.path = some ("/".intercalate (trail ++ [n.name]))
  filled : ∀ id trail n, tree.locate id = some (trail, n) → n.isDirectory = true → id ≠ 0 →
    n.children ≠ []
  sorted : ∀ id trail n, tree.locate id = some (trail, n) → n.isDirectory = true →
    n.children.Pairwise fun a b => Text.Utf8.encode a.name < Text.Utf8.encode b.name

theorem assemble_holds (name : String) {files : List (List String × Node)}
    (hdescribes : ∀ x ∈ files, Describes (way x) x.2)
    (hfiles : files.Pairwise fun x y => Apart (way x) (way y)) :
    Holds (assemble name files) files := by
  obtain ⟨ns, hns, hrow, hall⟩ := assemble_row name
    (fun x hx => ⟨(hdescribes x hx).isFile, (hdescribes x hx).leaf⟩) hfiles
  rw [hns]
  have honce := filter_locate name ns
  have hmem {id : Nat} {trail : List String} {n : Node}
      (h : (Node.directory name ns).locate id = some (trail, n)) (hfile : n.isFile = true) :
      (trail, n) ∈ files := by
    refine hall.mem_iff.mp (honce ▸ List.mem_filter.mpr ⟨List.mem_filterMap.mpr ⟨id, ?_, h⟩, hfile⟩)
    rw [List.mem_range, ← (Node.locate_walk _ id).1, h]
    rfl
  refine ⟨honce ▸ hall, ?_, ?_, ?_, ?_⟩
  · intro id trail n h hfile
    exact (hdescribes _ (hmem h hfile)).leaf
  · intro id trail n h hfile
    exact (hdescribes _ (hmem h hfile)).place
  · intro id trail n h hdir hid
    exact ((hrow.of_locate h hid).filled hdir).1
  · intro id trail n h hdir
    have hsorted : n.children.Pairwise fun a b => a.name < b.name := by
      by_cases hid : id = 0
      · subst hid
        cases h
        exact hrow.sorted
      · exact ((hrow.of_locate h hid).filled hdir).2
    exact hsorted.imp Text.Utf8.encode_lt

/-- The paths of the files of a tree that holds them repeat their places. -/
theorem Holds.pathsAgree {tree : Node} {files : List (List String × Node)} (h : Holds tree files) :
    tree.PathsAgree [] false := by
  intro names m hm hfile
  obtain ⟨id, hid⟩ := List.mem_iff_getElem?.mp hm
  have hlocate : tree.locate id = some (names.tail, m) := by rw [Node.locate_eq_trails, hid]; rfl
  exact h.path id _ m hlocate hfile

theorem described_apart {root : String} {files : List (List String × Item)}
    (hnodup : (files.map Prod.fst).Nodup)
    (hfree : ∀ x ∈ files, ∀ y ∈ files, x.1 <+: y.1 → x.1 = y.1)
    (hway : ∀ x ∈ files, way (x.1.dropLast, (node root x.1 x.2).value) = x.1) :
    (described root files).Pairwise fun x y => Apart (way x) (way y) := by
  have hdiffer : files.Pairwise fun x y => x.1 ≠ y.1 := List.pairwise_map.mp hnodup
  refine List.pairwise_map.mpr (hdiffer.imp_of_mem fun {x y} hx hy hne => ?_)
  rw [hway x hx, hway y hy]
  exact ⟨fun h => hne (hfree x hx y hy h), fun h => hne (hfree y hy x hx h).symm⟩

/-- Files whose paths differ, none leading through another one, are put into a tree that holds each
of them once, in directories named by the paths and without any other file. The tree does not depend
on their order, and what is read when sources are attached not on the paths, which only repeat the
places. -/
theorem assemble_described (name root : String) {files : List (List String × Item)}
    (hnodup : (files.map Prod.fst).Nodup) (hne : ∀ x ∈ files, x.1 ≠ [])
    (hfree : ∀ x ∈ files, ∀ y ∈ files, x.1 <+: y.1 → x.1 = y.1)
    (hplain : ∀ x ∈ files, isPlain x.2 = true) :
    Holds (assemble name (described root files)) (described root files) ∧
    (∀ files', files ~ files' →
      assemble name (described root files') = assemble name (described root files)) ∧
    ∀ (l : Loader) (drop : Entry → Bool),
      l.SameSources ((assemble name (described root files)).forget drop)
        (assemble name (described root files)) := by
  have hnode : ∀ x ∈ files, Describes x.1 (node root x.1 x.2).value :=
    fun x hx => node_describes root (hne x hx) (hplain x hx)
  have hway : ∀ x ∈ files, way (x.1.dropLast, (node root x.1 x.2).value) = x.1 :=
    fun x hx => (hnode x hx).name
  have hdescribes : ∀ y ∈ described root files, Describes (way y) y.2 := by
    intro y hy
    obtain ⟨x, hx, rfl⟩ := List.mem_map.mp hy
    rw [hway x hx]
    exact hnode x hx
  have hapart := described_apart hnodup hfree hway
  have hholds := assemble_holds name hdescribes hapart
  refine ⟨hholds, fun files' hperm => ?_, fun l drop => Loader.sameSources_forget hholds.pathsAgree⟩
  exact assemble_perm name (fun y hy => ⟨(hdescribes y hy).isFile, (hdescribes y hy).leaf⟩) hapart
    (hperm.map _)

/-- Three files, one of them locked. -/
def sampleFiles : List (List String × Item) :=
  [(["lib", "a.c"], .file "int a;".toUTF8 ⟨0, 0⟩), (["main.c"], .locked .denied 7 ⟨0, 0⟩),
    (["lib", "core", "b.c"], .file ByteArray.empty ⟨0, 0⟩)]

theorem assemble_described_sample :
    Holds (assemble "r" (described "d" sampleFiles)) (described "d" sampleFiles) ∧
    (assemble "r" (described "d" sampleFiles)).names =
      ["r", "lib", "a.c", "core", "b.c", "main.c"] ∧
    assemble "r" (described "d" sampleFiles.reverse) = assemble "r" (described "d" sampleFiles) ∧
    (Loader.sampleLoader.hydrate
        ((assemble "r" (described "d" sampleFiles)).forget fun _ => true)).reads =
      ["src/lib/a.c", "src/lib/core/b.c", "src/main.c"] := by
  have hnodup : (sampleFiles.map Prod.fst).Nodup := by decide
  obtain ⟨hholds, horder, hsources⟩ :=
    assemble_described "r" "d" hnodup (by decide) (by decide) (by decide)
  refine ⟨hholds, by decide +kernel, horder _ sampleFiles.reverse_perm.symm, ?_⟩
  rw [Logged.reads, (hsources Loader.sampleLoader fun _ => true).all.1]
  decide +kernel

end SourceAtlas.Scan

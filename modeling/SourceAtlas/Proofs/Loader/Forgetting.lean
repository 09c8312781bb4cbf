import SourceAtlas.Proofs.Tree.Trails
import SourceAtlas.Proofs.Loader.Hydration

/-! # Paths that only repeat the place

A file may give its path or leave it to its place in the tree. Where every path that is given says
the same as the place, any of them may be dropped: the same files are read, with the same warnings,
and the same sources are attached. -/

namespace SourceAtlas

/-- The entry without its path, if that is to be dropped. -/
def Entry.forget (drop : Entry → Bool) (e : Entry) : Entry :=
  if drop e then { e with path := none } else e

namespace Entry

variable (drop : Entry → Bool) (e : Entry)

@[simp] theorem forget_name : (e.forget drop).name = e.name := by
  unfold forget
  split <;> rfl

@[simp] theorem forget_kind : (e.forget drop).kind = e.kind := by
  unfold forget
  split <;> rfl

/-- Attaching a source to an entry and dropping its path do not get in each other's way. -/
theorem withSource_forget (text : String) :
    ((e.forget drop).withSource text).forget (fun _ => true) =
      (e.withSource text).forget fun _ => true := by
  unfold forget
  split <;> rfl

theorem forget_forget : (e.forget drop).forget (fun _ => true) = e.forget fun _ => true := by
  unfold forget
  split <;> rfl

end Entry

namespace Node

mutual
def forget (drop : Entry → Bool) : Node → Node
  | .mk e none => .mk (e.forget drop) none
  | .mk e (some cs) => .mk (e.forget drop) (some (forgetAll drop cs))

def forgetAll (drop : Entry → Bool) : List Node → List Node
  | [] => []
  | n :: ns => forget drop n :: forgetAll drop ns
end

mutual
theorem forget_forget (drop : Entry → Bool) : ∀ n : Node,
    (n.forget drop).forget (fun _ => true) = n.forget fun _ => true
  | .mk e none => by rw [forget, forget, forget, Entry.forget_forget]
  | .mk e (some cs) => by
    rw [forget, forget, forget, Entry.forget_forget, forgetAll_forgetAll drop cs]

theorem forgetAll_forgetAll (drop : Entry → Bool) : ∀ ns : List Node,
    forgetAll (fun _ => true) (forgetAll drop ns) = forgetAll (fun _ => true) ns
  | [] => rfl
  | n :: ns => by
    rw [forgetAll, forgetAll, forgetAll, forget_forget drop n, forgetAll_forgetAll drop ns]
end

theorem entry_forget (drop : Entry → Bool) (n : Node) :
    (n.forget drop).entry = n.entry.forget drop := by
  obtain ⟨e, _ | cs⟩ := n <;> rfl

@[simp] theorem forget_name (drop : Entry → Bool) (n : Node) : (n.forget drop).name = n.name := by
  rw [name, entry_forget, Entry.forget_name, name]

@[simp] theorem forget_kind (drop : Entry → Bool) (n : Node) : (n.forget drop).kind = n.kind := by
  rw [kind, entry_forget, Entry.forget_kind, kind]

theorem forgetAll_eq (drop : Entry → Bool) (ns : List Node) :
    forgetAll drop ns = ns.map (forget drop) := by
  induction ns with
  | nil => rfl
  | cons n ns ih => rw [forgetAll, ih, List.map_cons]

theorem children_forget (drop : Entry → Bool) (n : Node) :
    (n.forget drop).children = n.children.map (forget drop) := by
  obtain ⟨e, _ | cs⟩ := n
  · rfl
  · exact forgetAll_eq drop cs

/-- Dropping paths moves no node. -/
theorem trails_forget (drop : Entry → Bool) (n : Node) :
    (n.forget drop).trails = n.trails.map fun x => (x.1, x.2.forget drop) := by
  induction n using byChildren with
  | step n ih =>
    rw [trails_children, trails_children n, children_forget, List.flatMap_map, List.map_cons,
      List.map_flatMap]
    refine congrArg _ (List.flatMap_congr fun c hc => ?_)
    rw [ih c hc, List.map_map, List.map_map, forget_name]
    rfl

theorem locate_forget (drop : Entry → Bool) (root : Node) (id : Nat) :
    (root.forget drop).locate id = (root.locate id).map fun x => (x.1, x.2.forget drop) := by
  rw [locate_eq_trails, locate_eq_trails, trails_forget, List.getElem?_map, Option.map_map,
    Option.map_map]
  rfl

/-- Every file of a tree that stands below a trail gives a path, and it is the one of its place. The
root of the tree itself is a step of the paths only if it counts as one. -/
def PathsAgree (trail : List String) (steps : Bool) (n : Node) : Prop :=
  ∀ names m, (names, m) ∈ n.trails → m.isFile = true →
    m.entry.path =
      some ("/".intercalate (trail ++ (if steps then names else names.tail) ++ [m.name]))

theorem PathsAgree.self {trail : List String} {steps : Bool} {n : Node}
    (h : PathsAgree trail steps n) (hfile : n.isFile = true) :
    n.entry.path = some ("/".intercalate (trail ++ [n.name])) := by
  have hself : ([], n) ∈ n.trails := by
    rw [trails_children]
    exact List.mem_cons_self
  simpa using h [] n hself hfile

theorem PathsAgree.child {trail : List String} {steps : Bool} {n c : Node}
    (h : PathsAgree trail steps n) (hc : c ∈ n.children) :
    PathsAgree (if steps then trail ++ [n.name] else trail) true c := by
  intro names m hm hfile
  rw [h _ m (mem_trails_child hc hm) hfile]
  cases steps <;> simp

end Node

namespace Loader

open Logged

variable (l : Loader) (drop : Entry → Bool)

theorem source_forget {e : Entry} {trail : List String}
    (h : e.path = some ("/".intercalate (trail ++ [e.name]))) :
    l.source (e.forget drop) trail = l.source e trail := by
  have hpath : sourcePath (e.forget drop) trail = sourcePath e trail := by
    unfold Entry.forget
    split
    · rw [sourcePath, sourcePath, h]
      rfl
    · rfl
  rw [source, source, hpath, Entry.forget_name]

/-- Two runs that log the same and give trees that differ in their paths alone. -/
def Alike (x y : Logged Node) : Prop :=
  x.events = y.events ∧ x.value.forget (fun _ => true) = y.value.forget fun _ => true

variable {l drop}

theorem hydrateAt_forget_file {n : Node} {trail : List String} (steps : Bool)
    (hfile : n.isFile = true) (h : n.entry.path = some ("/".intercalate (trail ++ [n.name]))) :
    Alike (l.hydrateAt trail steps (n.forget drop)) (l.hydrateAt trail steps n) := by
  have hforget : (n.forget drop).isFile = true := by rwa [Node.isFile, Node.forget_kind]
  rw [hydrateAt_file l hfile, hydrateAt_file l hforget, Node.entry_forget, l.source_forget drop h]
  refine ⟨rfl, ?_⟩
  rw [value_bind, value_bind, value_pure, value_pure]
  obtain ⟨e, _ | cs⟩ := n
  · exact congrArg (Node.mk · none) (e.withSource_forget drop _)
  · exact congrArg₂ Node.mk (e.withSource_forget drop _)
      (congrArg some (Node.forgetAll_forgetAll drop cs))

mutual
theorem hydrateAt_forget : ∀ (n : Node) {trail : List String} {steps : Bool},
    n.PathsAgree trail steps →
      Alike (l.hydrateAt trail steps (n.forget drop)) (l.hydrateAt trail steps n)
  | .mk e none, trail, steps, h => by
    by_cases hk : e.kind = .file
    · have hfile : (Node.mk e none).isFile = true := decide_eq_true hk
      exact hydrateAt_forget_file steps hfile (h.self hfile)
    · rw [Node.forget, hydrateAt, hydrateAt, Entry.forget_kind, if_neg hk, if_neg hk]
      exact ⟨rfl, Node.forget_forget drop (.mk e none)⟩
  | .mk e (some cs), trail, steps, h => by
    by_cases hk : e.kind = .file
    · have hfile : (Node.mk e (some cs)).isFile = true := decide_eq_true hk
      exact hydrateAt_forget_file steps hfile (h.self hfile)
    · obtain ⟨hevents, hvalue⟩ := hydrateAll_forget cs fun c hc => h.child hc
      rw [Node.forget, hydrateAt, hydrateAt, Entry.forget_kind, Entry.forget_name, if_neg hk,
        if_neg hk]
      refine ⟨congrArg (· ++ []) hevents, ?_⟩
      rw [value_bind, value_bind, value_pure, value_pure, Node.forget, Node.forget,
        Entry.forget_forget]
      exact congrArg _ (congrArg some hvalue)

theorem hydrateAll_forget : ∀ (ns : List Node) {trail : List String},
    (∀ n ∈ ns, n.PathsAgree trail true) →
      (l.hydrateAll trail (Node.forgetAll drop ns)).events = (l.hydrateAll trail ns).events ∧
      Node.forgetAll (fun _ => true) (l.hydrateAll trail (Node.forgetAll drop ns)).value =
        Node.forgetAll (fun _ => true) (l.hydrateAll trail ns).value
  | [], _, _ => ⟨rfl, rfl⟩
  | n :: ns, trail, h => by
    obtain ⟨hevents, hvalue⟩ := hydrateAt_forget n (h n List.mem_cons_self)
    obtain ⟨hrest, hvalues⟩ := hydrateAll_forget ns fun m hm => h m (List.mem_cons_of_mem _ hm)
    rw [Node.forgetAll, hydrateAll, hydrateAll]
    refine ⟨congrArg₂ (fun x y => x ++ (y ++ [])) hevents hrest, ?_⟩
    simp only [value_bind, value_pure, Node.forgetAll]
    rw [hvalue, hvalues]
end

/-- Attaching sources, to a whole tree or to one selected node, logs the same for two trees and
gives results that differ in their paths alone. -/
structure SameSources (l : Loader) (t u : Node) : Prop where
  all : Alike (l.hydrate t) (l.hydrate u)
  one : ∀ id, (l.hydrateOne t id).events = (l.hydrateOne u id).events ∧
    (l.hydrateOne t id).value.map (Node.forget fun _ => true) =
      (l.hydrateOne u id).value.map (Node.forget fun _ => true)

/-- Paths that repeat the places may be dropped without a change to the sources. -/
theorem sameSources_forget {root : Node} (h : root.PathsAgree [] false) :
    l.SameSources (root.forget drop) root := by
  refine ⟨hydrateAt_forget root h, fun id => ?_⟩
  rw [hydrateOne, hydrateOne, Node.locate_forget]
  cases hl : root.locate id with
  | none => exact ⟨rfl, rfl⟩
  | some x =>
    obtain ⟨trail, n⟩ := x
    obtain ⟨names, hmem, rfl⟩ := Node.mem_trails_of_locate hl
    have hsame : (n.forget drop).isDirectory = n.isDirectory := by
      rw [Node.isDirectory, Node.forget_kind, Node.isDirectory]
    simp only [Option.map_some, hsame]
    cases hdir : n.isDirectory with
    | true => exact ⟨rfl, congrArg some (Node.forget_forget drop n)⟩
    | false =>
      have hfile : n.isFile = true := by rw [Node.isFile_eq, hdir]; rfl
      obtain ⟨hevents, hvalue⟩ : Alike (l.hydrateAt names.tail (id != 0) (n.forget drop))
          (l.hydrateAt names.tail (id != 0) n) :=
        hydrateAt_forget_file _ hfile (h names n hmem hfile)
      exact ⟨congrArg (· ++ []) hevents, congrArg some hvalue⟩

end Loader

end SourceAtlas

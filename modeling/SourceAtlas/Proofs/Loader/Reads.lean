import SourceAtlas.Loader.Basic

/-! # What a loader reads

A loader reads the document and, below the root of the sources, paths that stay inside. Whether a
path stays inside is decided on its steps; said on the text, it is neither empty nor absolute and no
piece between slashes is a step upward. Nothing is assumed of the names and paths in the
document. -/

namespace SourceAtlas

namespace Path

/-- A path that stays inside the directory from which it is seen. -/
def IsInside (path : String) : Prop :=
  path ≠ "" ∧ path.toList.head? ≠ some '/' ∧ ".." ∉ segments path

instance (path : String) : Decidable (IsInside path) := inferInstanceAs (Decidable (_ ∧ _ ∧ _))

theorem ofSegment?_eq_parent {s : String} : Component.ofSegment? s = some .parent ↔ s = ".." := by
  rw [Component.ofSegment?]
  constructor
  · intro h
    split at h
    · cases h
    · split at h
      · assumption
      · cases h
  · rintro rfl
    rfl

theorem ofSegment?_ne_root (s : String) : Component.ofSegment? s ≠ some .root := by
  rw [Component.ofSegment?]
  split
  · simp
  · split <;> simp

theorem root_mem_components {path : String} :
    Component.root ∈ components path ↔ path.toList.head? = some '/' := by
  have hsegments : Component.root ∉ (segments path).filterMap Component.ofSegment? := by
    intro h
    obtain ⟨s, _, hs⟩ := List.mem_filterMap.mp h
    exact ofSegment?_ne_root s hs
  rw [components, List.mem_append, or_iff_left hsegments, start, isAbsolute]
  constructor
  · intro h
    split at h
    · next ha => simpa using ha
    · split at h <;> simp at h
  · intro h
    simp [h]

theorem parent_mem_components {path : String} :
    Component.parent ∈ components path ↔ ".." ∈ segments path := by
  have hstart : Component.parent ∉ start path := by
    rw [start]
    split
    · simp
    · split <;> simp
  rw [components, List.mem_append, or_iff_right hstart, List.mem_filterMap]
  constructor
  · rintro ⟨s, hs, h⟩
    rwa [ofSegment?_eq_parent.mp h] at hs
  · intro h
    exact ⟨"..", h, ofSegment?_eq_parent.mpr rfl⟩

/-- Read step by step or as a text, the same paths stay inside. -/
theorem leaves_eq_false (path : String) : leaves path = false ↔ IsInside path := by
  have hany : ((components path).any fun c => c == .parent || c == .root) = false ↔
      Component.parent ∉ components path ∧ Component.root ∉ components path := by
    rw [List.any_eq_false]
    constructor
    · intro h
      exact ⟨fun hp => by simpa using h _ hp, fun hr => by simpa using h _ hr⟩
    · rintro ⟨hp, hr⟩ c hc hor
      rcases Bool.or_eq_true_iff.mp hor with h | h
      · exact hp (eq_of_beq h ▸ hc)
      · exact hr (eq_of_beq h ▸ hc)
  rw [leaves, Bool.or_eq_false_iff, hany, parent_mem_components, root_mem_components, IsInside]
  simp [and_comm]

end Path

namespace Logged

variable {α β : Type}

@[simp] theorem reads_pure (a : α) : (pure a : Logged α).reads = [] := rfl

@[simp] theorem reads_warn (message : String) : (warn message).reads = [] := rfl

@[simp] theorem reads_bind (x : Logged α) (f : α → Logged β) :
    (x >>= f).reads = x.reads ++ (f x.value).reads :=
  List.filterMap_append ..

/-- A task run with the files `rd` gives `x` and run with the files `rd'` gives `y`. The first run
reads only paths with the property, and the second is the same when these files are. -/
structure Confined (P : String → Prop) (rd rd' : String → Except String String) (x y : Logged α) :
    Prop where
  reads : ∀ path ∈ x.reads, P path
  same : (∀ path ∈ x.reads, rd' path = rd path) → y = x

namespace Confined

variable {P : String → Prop} {rd rd' : String → Except String String}

theorem pure (a : α) : Confined P rd rd' (Pure.pure a : Logged α) (Pure.pure a) where
  reads := by simp
  same _ := rfl

theorem warn (message : String) : Confined P rd rd' (warn message) (warn message) where
  reads := by simp
  same _ := rfl

theorem bind {x y : Logged α} {f g : α → Logged β} (hx : Confined P rd rd' x y)
    (hf : ∀ a, Confined P rd rd' (f a) (g a)) : Confined P rd rd' (x >>= f) (y >>= g) := by
  constructor
  · intro path h
    rw [reads_bind, List.mem_append] at h
    rcases h with h | h
    · exact hx.reads path h
    · exact (hf x.value).reads path h
  · intro h
    simp only [reads_bind, List.mem_append] at h
    have hy : y = x := hx.same fun path hp => h path (.inl hp)
    have hg : g x.value = f x.value := (hf x.value).same fun path hp => h path (.inr hp)
    -- the first part hands the same value on, so the second part reads the same files
    rw [hy]
    show (⟨(g x.value).value, x.events ++ (g x.value).events⟩ : Logged β) = _
    rw [hg]
    rfl

end Confined

end Logged

namespace Loader

open Logged

def reading (l : Loader) (rd : String → Except String String) : Loader := { l with read := rd }

def Permits (l : Loader) (path : String) : Prop :=
  path = l.structurePath ∨ ∃ r, Path.IsInside r ∧ path = Path.join l.sourceRoot r

variable (l : Loader) (rd : String → Except String String)

theorem readText_confined {path : String} (h : l.Permits path) :
    Confined l.Permits l.read rd (l.readText path) ((l.reading rd).readText path) := by
  have hreads : (l.readText path).reads = [path] := rfl
  constructor
  · rw [hreads]
    intro p hp
    rwa [List.mem_singleton.mp hp]
  · intro hsame
    have hpath : rd path = l.read path :=
      hsame path (by rw [hreads]; exact List.mem_singleton_self _)
    simp only [readText, reading, hpath]

/-- Whether a source is read depends on its path alone. -/
theorem readSource_confined (r : String) :
    Confined l.Permits l.read rd (l.readSource r) ((l.reading rd).readSource r) := by
  rw [readSource, readSource]
  cases h : Path.leaves r with
  | true => exact .pure _
  | false => exact l.readText_confined rd (.inr ⟨r, (Path.leaves_eq_false r).mp h, rfl⟩)

theorem load_confined : Confined l.Permits l.read rd l.load (l.reading rd).load := by
  have hdocument : Confined l.Permits l.read rd l.tryLoad (l.reading rd).tryLoad := by
    refine .bind (l.readText_confined rd (.inl rfl)) fun text => ?_
    cases text with
    | ok text => exact .pure _
    | error e => exact .pure _
  refine .bind hdocument fun tree => ?_
  cases tree with
  | error e => exact .bind (.warn _) fun _ => .pure _
  | ok tree =>
    simp only
    cases tree.checkUnique with
    | ok _ => exact .pure _
    | error e => exact .bind (.warn _) fun _ => .pure _

theorem source_confined (e : Entry) (trail : List String) :
    Confined l.Permits l.read rd (l.source e trail) ((l.reading rd).source e trail) := by
  refine .bind (l.readSource_confined rd _) fun text => ?_
  cases text with
  | ok text => exact .pure _
  | error e => exact .bind (.warn _) fun _ => .pure _

mutual
/-- Whatever the names and paths of a tree are, attaching its sources stays confined. -/
theorem hydrateAt_confined : ∀ (n : Node) (trail : List String) (steps : Bool),
    Confined l.Permits l.read rd (l.hydrateAt trail steps n)
      ((l.reading rd).hydrateAt trail steps n)
  | .mk e none, trail, steps => by
    rw [hydrateAt, hydrateAt]
    split
    · exact .bind (l.source_confined rd e trail) fun _ => .pure _
    · exact .pure _
  | .mk e (some cs), trail, steps => by
    rw [hydrateAt, hydrateAt]
    split
    · exact .bind (l.source_confined rd e trail) fun _ => .pure _
    · exact .bind (hydrateAll_confined cs _) fun _ => .pure _

theorem hydrateAll_confined : ∀ (ns : List Node) (trail : List String),
    Confined l.Permits l.read rd (l.hydrateAll trail ns) ((l.reading rd).hydrateAll trail ns)
  | [], trail => .pure []
  | n :: ns, trail => by
    rw [hydrateAll, hydrateAll]
    refine .bind (hydrateAt_confined n trail true) fun n => ?_
    exact .bind (hydrateAll_confined ns trail) fun ns => .pure _
end

theorem hydrateOne_confined (root : Node) (id : Nat) :
    Confined l.Permits l.read rd (l.hydrateOne root id) ((l.reading rd).hydrateOne root id) := by
  rw [hydrateOne, hydrateOne]
  cases root.locate id with
  | none => exact .pure none
  | some found =>
    simp only
    split
    · exact .pure _
    · exact .bind (l.hydrateAt_confined rd _ _ _) fun _ => .pure _

end Loader

end SourceAtlas

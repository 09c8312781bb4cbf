import Mathlib.Data.List.Induction
import SourceAtlas.Proofs.Links.Endpoints

/-! # The order of endpoints

Endpoints stand in the order in which their names first occur. So further links only append to them,
and a link adds nothing when its two names have occurred in links before it. -/

namespace SourceAtlas

/-! ## Names that a list does not hold yet -/

section Names

variable {known xs : List String}

theorem addNames_append (known xs ys : List String) :
    addNames known (xs ++ ys) = addNames (addNames known xs) ys := by
  induction xs generalizing known with
  | nil => rfl
  | cons x xs ih => rw [List.cons_append, addNames, addNames, ih]

theorem addNames_snoc (known xs : List String) (x : String) : addNames known (xs ++ [x]) =
    if x ∈ addNames known xs then addNames known xs else addNames known xs ++ [x] := by
  rw [addNames_append, addNames, addNames]
  simp only [List.contains_iff_mem]

theorem prefix_addNames (known xs : List String) : known <+: addNames known xs := by
  induction xs using List.reverseRecOn with
  | nil => exact List.prefix_rfl
  | append_singleton xs x ih =>
    rw [addNames_snoc]
    split
    · exact ih
    · exact ih.trans (List.prefix_append ..)

theorem addNames_of_subset (h : xs ⊆ known) : addNames known xs = known := by
  induction xs with
  | nil => rfl
  | cons x xs ih =>
    obtain ⟨hx, hxs⟩ := List.cons_subset.mp h
    rw [addNames, if_pos (List.contains_iff_mem.mpr hx), ih hxs]

/-- Added to nothing, a list loses the repetitions of its names. -/
theorem addNames_nil (xs : List String) : addNames [] xs = xs.eraseDups := by
  induction xs using List.reverseRecOn with
  | nil => rfl
  | append_singleton xs x ih =>
    have hknown : x ∈ addNames [] xs ↔ x ∈ xs := by simp [mem_addNames]
    rw [addNames_snoc, List.eraseDups_append, ih]
    rw [ih] at hknown
    by_cases hx : x ∈ xs
    · simp [hknown, hx, List.removeAll]
    · simp [hknown, hx, List.removeAll, List.eraseDups_cons]

/-- The names stand in the order of their first occurrences. -/
theorem addNames_nil_ordered (xs : List String) :
    (addNames [] xs).Pairwise fun a b => xs.idxOf a < xs.idxOf b := by
  have hmem {x : String} {xs : List String} : x ∈ addNames [] xs ↔ x ∈ xs := by simp [mem_addNames]
  induction xs using List.reverseRecOn with
  | nil => exact .nil
  | append_singleton xs x ih =>
    have hbefore :
        (addNames [] xs).Pairwise fun a b => (xs ++ [x]).idxOf a < (xs ++ [x]).idxOf b := by
      refine ih.imp_of_mem fun {a b} ha hb hab => ?_
      rwa [List.idxOf_append_of_mem (hmem.mp ha), List.idxOf_append_of_mem (hmem.mp hb)]
    rw [addNames_snoc]
    split
    · exact hbefore
    · next hx =>
      refine List.pairwise_append.mpr ⟨hbefore, List.pairwise_singleton .., fun a ha b hb => ?_⟩
      have ha := hmem.mp ha
      rw [List.mem_singleton.mp hb, List.idxOf_append_of_mem ha,
        List.idxOf_append_of_notMem (mt hmem.mpr hx)]
      exact Nat.lt_of_lt_of_le (List.idxOf_lt_length_of_mem ha) (Nat.le_add_right ..)

end Names

namespace Link

def ends (links : List Link) : List String := links.flatMap fun l => [l.source, l.target]

/-- Both ends of the link are ends of earlier links. -/
def isSettled (l : Link) (earlier : List Link) : Bool :=
  earlier.any (·.touches l.source) && earlier.any (·.touches l.target)

def unsettled (links : List Link) : List Link :=
  (links.zipIdx.filter fun (l, i) => !l.isSettled (links.take i)).map Prod.fst

variable {links : List Link}

theorem names_append (links more : List Link) :
    names (links ++ more) = addNames (names links) (ends more) := by
  rw [names, List.flatMap_append, addNames_append]
  rfl

theorem mem_names {name : String} : name ∈ names links ↔ ∃ l ∈ links, l.touches name = true := by
  rw [← endpoints_names, mem_endpoints]
  simp [touches]

theorem isSettled_iff {l : Link} :
    l.isSettled links = true ↔ l.source ∈ names links ∧ l.target ∈ names links := by
  simp [isSettled, mem_names]

theorem unsettled_snoc (links : List Link) (l : Link) :
    unsettled (links ++ [l]) = unsettled links ++ if l.isSettled links then [] else [l] := by
  -- what stands before a link of the front is the same in the longer list
  have hfront : (links.zipIdx.filter fun (l', i) => !l'.isSettled ((links ++ [l]).take i)) =
      links.zipIdx.filter fun (l', i) => !l'.isSettled (links.take i) := by
    refine List.filter_congr fun ⟨l', i⟩ hmem => ?_
    have hi : i < links.length := by simpa using (List.mem_zipIdx hmem).2.1
    dsimp only
    rw [List.take_append_of_le_length (Nat.le_of_lt hi)]
  rw [unsettled, List.zipIdx_append, List.filter_append, List.map_append, hfront, ← unsettled]
  cases hl : l.isSettled links <;> simp [hl]

theorem names_unsettled (links : List Link) : names (unsettled links) = names links := by
  induction links using List.reverseRecOn with
  | nil => rfl
  | append_singleton links l ih =>
    rw [unsettled_snoc, names_append, names_append, ih]
    split
    · next hl =>
      have hends : ends [l] ⊆ names links := by simp [ends, isSettled_iff.mp hl]
      rw [addNames_of_subset hends]
      rfl
    · rfl

/-- The endpoints of links have the names at the ends of the links, source before target, without
the repetitions behind a first occurrence: no name stands there twice, each name that a link touches
does, and they are ordered by their first occurrences. With more links behind them the endpoints
only become more, and without the links whose ends have both occurred before they stay the same. -/
theorem endpoints_first_seen (links : List Link) :
    let ids := (endpoints links).map (·.name)
    let all := ends links
    ids = all.eraseDups ∧ ids.Nodup ∧
    (∀ name, name ∈ ids ↔ ∃ l ∈ links, l.touches name = true) ∧
    ids.Pairwise (fun a b => all.idxOf a < all.idxOf b) ∧
    (∀ more, endpoints links <+: endpoints (links ++ more)) ∧
    endpoints (unsettled links) = endpoints links := by
  intro ids all
  have hids : ids = names links := endpoints_names links
  refine ⟨?_, endpoints_nodup links, ?_, ?_, ?_, ?_⟩
  · rw [hids]
    exact addNames_nil all
  · intro name
    rw [hids, mem_names]
  · rw [hids]
    exact addNames_nil_ordered all
  · intro more
    rw [endpoints, endpoints, names_append]
    exact (prefix_addNames ..).map _
  · rw [endpoints, names_unsettled, endpoints]

/-- A link from a name to itself, one back and forth, and one to a new name. -/
example :
    let links : List Link := [⟨"a", "a"⟩, ⟨"b", "a"⟩, ⟨"a", "b"⟩, ⟨"b", "c"⟩]
    (endpoints links).map (·.name) = ["a", "b", "c"] ∧
      unsettled links = [⟨"a", "a"⟩, ⟨"b", "a"⟩, ⟨"b", "c"⟩] := by
  decide

end Link

end SourceAtlas

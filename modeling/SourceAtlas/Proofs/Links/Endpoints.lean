import Mathlib.Data.List.Basic
import SourceAtlas.Links.Basic

/-! # The endpoints of links

Every end of a link is listed, and no name twice. -/

namespace SourceAtlas

theorem mem_addNames {name : String} {known names : List String} :
    name ∈ addNames known names ↔ name ∈ known ∨ name ∈ names := by
  induction names generalizing known with
  | nil => simp [addNames]
  | cons s names ih =>
    rw [addNames, ih, List.mem_cons]
    by_cases hs : known.contains s
    · rw [if_pos hs]
      have hmem : s ∈ known := by simpa using hs
      constructor
      · rintro (h | h)
        · exact .inl h
        · exact .inr (.inr h)
      · rintro (h | rfl | h)
        · exact .inl h
        · exact .inl hmem
        · exact .inr h
    · rw [if_neg hs, List.mem_append, List.mem_singleton, or_assoc]

theorem addNames_nodup {known : List String} (h : known.Nodup) (names : List String) :
    (addNames known names).Nodup := by
  induction names generalizing known with
  | nil => exact h
  | cons s names ih =>
    rw [addNames]
    by_cases hs : known.contains s
    · rw [if_pos hs]
      exact ih h
    · rw [if_neg hs]
      have hmem : s ∉ known := by simpa using hs
      exact ih (List.nodup_append.mpr ⟨h, List.pairwise_singleton _ s, by
        rintro a ha b hb rfl
        exact hmem (List.mem_singleton.mp hb ▸ ha)⟩)

namespace Link

variable {links : List Link}

theorem endpoints_names (links : List Link) : (endpoints links).map (·.name) = names links := by
  rw [endpoints, List.map_map]
  exact List.map_id _

theorem endpoints_nodup (links : List Link) : ((endpoints links).map (·.name)).Nodup := by
  rw [endpoints_names]
  exact addNames_nodup List.nodup_nil _

theorem mem_endpoints {name : String} :
    name ∈ (endpoints links).map (·.name) ↔ ∃ l ∈ links, l.source = name ∨ l.target = name := by
  rw [endpoints_names, names, mem_addNames]
  simp [eq_comm]

end Link

end SourceAtlas

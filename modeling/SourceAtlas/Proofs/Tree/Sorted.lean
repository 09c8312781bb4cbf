import SourceAtlas.Proofs.Tree.RoundTrip

/-! # Documents with ordered keys

A document may be written with the keys of every object in order. What is known of a node then
stands among what is only carried along, and its source text among the rest of its content. Members
describe the same node whatever their order, so the tree is read back all the same. -/

namespace SourceAtlas.Document

open Json (Members)

/-! ## Members in another order -/

variable {e : Entry} {cs : Option (List Node)}

/-- Members that are in canonical form are carried along in order. -/
theorem carry_eq_ordered {ms : Members} (hm : ∀ m ∈ ms, m.2.IsCanonical) :
    carry [] ms = Members.ordered ms :=
  List.foldl_ext _ _ _ fun acc m hmem => by rw [Json.canonical_eq_self (hm m hmem)]

/-- What is carried along does not depend on the order in which it comes. -/
theorem carry_filter_ordered {ms : Members} (hn : (ms.map Prod.fst).Nodup)
    (hm : ∀ m ∈ ms, m.2.IsCanonical) (p : String × Json → Bool) :
    carry [] ((Members.ordered ms).filter p) = carry [] (ms.filter p) := by
  have hp : ((Members.ordered ms).filter p).Perm (ms.filter p) := (Members.ordered_perm hn).filter p
  have hms : ∀ m ∈ ms.filter p, m.2.IsCanonical := fun m hmem => hm m (List.mem_of_mem_filter hmem)
  have hnd : ((ms.filter p).map Prod.fst).Nodup := (List.filter_sublist.map Prod.fst).nodup hn
  rw [carry_eq_ordered hms, carry_eq_ordered fun m hmem => hms m (hp.mem_iff.mp hmem),
    Members.ordered_congr hp.symm hnd]

/-- Members that describe a node do so in order, too. -/
theorem Describes.ordered {ms : Members} (h : Describes e cs ms)
    (hm : ∀ m ∈ ms, m.2.IsCanonical) : Describes e cs (Members.ordered ms) := by
  have hp : (Members.ordered ms).Perm ms := Members.ordered_perm h.nodup
  refine ⟨(hp.map Prod.fst).nodup_iff.mpr h.nodup, ?_, ?_, ?_⟩
  · intro m hmem
    exact h.fits m (hp.mem_iff.mp hmem)
  · intro key hkey habsent
    exact h.lacks key hkey fun hk => habsent ((hp.map Prod.fst).mem_iff.mpr hk)
  · rw [carry_filter_ordered h.nodup hm, h.extra]

/-! ## Values in canonical form -/

theorem texts_canonical {v : Json} {items : List String} (h : texts v = .ok items) :
    v.canonical = v := by
  unfold texts at h
  split at h
  · next vs =>
    refine Json.canonical_eq_self (Json.isCanonical_arr.mpr fun w hw => ?_)
    -- reading stops at an item that is no text
    induction vs generalizing items with
    | nil => cases hw
    | cons v vs ih =>
      rw [List.mapM_cons] at h
      obtain ⟨s, hs, h⟩ := bind_eq_ok h
      obtain ⟨rest, hrest, _⟩ := bind_eq_ok h
      rcases List.mem_cons.mp hw with rfl | hw
      · unfold text at hs
        split at hs
        · simp [Json.IsCanonical, Json.Each]
        · cases hs
      · exact ih hrest hw
  · cases h

theorem kind_canonical {v : Json} {k : Kind} (h : kind v = .ok k) : v.canonical = v := by
  unfold kind at h
  split at h
  · rfl
  · cases h
  · next key w rest =>
    obtain ⟨_, _, h⟩ := bind_eq_ok h
    split at h
    · rfl
    · cases h
    · cases h
  · cases h

theorem text_canonical {v : Json} {s : String} (h : text v = .ok s) : v.canonical = v := by
  unfold text at h
  split at h
  · rfl
  · cases h

theorem optionalText_canonical {v : Json} {s : Option String} (h : optionalText v = .ok s) :
    v.canonical = v := by
  unfold optionalText at h
  split at h
  · rfl
  · cases ht : text v with
    | ok s => exact text_canonical ht
    | error f => rw [ht] at h; cases h

theorem optionalSize_canonical {v : Json} {n : Option UInt64} (h : optionalSize v = .ok n) :
    v.canonical = v := by
  unfold optionalSize at h
  split at h
  · rfl
  · rfl
  · cases h

/-- Apart from child lists and content blocks, what a member holds is in canonical form already. -/
theorem Fits.canonical {m : String × Json} (h : Fits e cs m)
    (hchildren : m.1 = "children" → childList m.2.canonical = .ok cs)
    (hcontent : m.1 = "content" → optionalContent m.2.canonical = .ok e.content) :
    Fits e cs (m.1, m.2.canonical) := by
  obtain ⟨k, v⟩ := m
  by_cases hk : k ∈ knownKeys
  · simp only [knownKeys, List.mem_cons, List.not_mem_nil, or_false] at hk
    rcases hk with rfl | rfl | rfl | rfl | rfl | rfl | rfl | rfl | rfl | rfl
    · rwa [show v.canonical = v from text_canonical h]
    · rwa [show v.canonical = v from kind_canonical h]
    · rwa [show v.canonical = v from optionalSize_canonical h]
    · rwa [show v.canonical = v from optionalText_canonical h]
    · exact hchildren rfl
    · rwa [show v.canonical = v from texts_canonical h]
    · rwa [show v.canonical = v from texts_canonical h]
    · rwa [show v.canonical = v from texts_canonical h]
    · rwa [show v.canonical = v from optionalText_canonical h]
    · exact hcontent rfl
  · exact fits_unknown hk

/-! ## Content blocks -/

/-- The source text may stand anywhere among the members. -/
theorem contentMembers_eq {ms : Members} (hn : (ms.map Prod.fst).Nodup) {source : String}
    (hs : ("source", .str source) ∈ ms) (acc : Content) :
    contentMembers false acc ms =
      .ok ⟨some source, carry acc.extra (ms.filter fun m => m.1 ≠ "source")⟩ := by
  induction ms generalizing acc with
  | nil => cases hs
  | cons m ms ih =>
    obtain ⟨k, v⟩ := m
    obtain ⟨hk, hn⟩ := List.nodup_cons.mp hn
    rw [contentMembers]
    by_cases hkey : k = "source"
    · subst hkey
      have hv : v = .str source := by
        rcases List.mem_cons.mp hs with h | h
        · cases h
          rfl
        · exact absurd (List.mem_map_of_mem h) hk
      have hrest : ∀ m ∈ ms, m.1 ≠ "source" :=
        fun m hm he => hk (List.mem_map.mpr ⟨m, hm, he⟩)
      subst hv
      rw [if_pos rfl, List.filter_cons_of_neg (by simp),
        List.filter_eq_self.mpr (by simpa using hrest)]
      exact contentMembers_carry true hrest _
    · have hmem : ("source", .str source) ∈ ms := by
        rcases List.mem_cons.mp hs with h | h
        · cases h
          exact absurd rfl hkey
        · exact h
      rw [if_neg hkey, ih hn hmem, List.filter_cons_of_pos (by simpa using hkey)]
      rfl

theorem optionalContent_sorted {c : Content} (h : c.WellFormed) :
    optionalContent (ofContent c).canonical = .ok (some c) := by
  obtain ⟨source, extra⟩ := c
  obtain ⟨ho, hc⟩ := Json.isCanonical_obj.mp h.ordered
  have hx : Json.canonicalMembers extra = extra := Json.canonicalMembers_eq_self hc
  have hcarry : carry [] extra = extra := carry_eq ho hc
  cases source with
  | none =>
    have hobj : (ofContent ⟨none, extra⟩).canonical = .obj extra := by
      show Json.obj (Members.ordered (Json.canonicalMembers extra)) = _
      rw [hx, Members.ordered_eq ho]
    rw [hobj, optionalContent, contentMembers_carry false h.unknown, hcarry]
    rfl
  | some source =>
    have hobj : (ofContent ⟨some source, extra⟩).canonical =
        .obj (Members.ordered (("source", .str source) :: extra)) := by
      show Json.obj (Members.ordered (("source", .str source) :: Json.canonicalMembers extra)) = _
      rw [hx]
    have hn : ((("source", Json.str source) :: extra).map Prod.fst).Nodup :=
      List.nodup_cons.mpr ⟨fun hm => by
        obtain ⟨m, hm, he⟩ := List.mem_map.mp hm
        exact h.unknown m hm he, ho.nodup⟩
    have hp := Members.ordered_perm hn
    have hcan : ∀ m ∈ ("source", Json.str source) :: extra, m.2.IsCanonical := by
      intro m hm
      rcases List.mem_cons.mp hm with rfl | hm
      · simp [Json.IsCanonical, Json.Each]
      · exact hc m hm
    rw [hobj, optionalContent, contentMembers_eq ((hp.map Prod.fst).nodup_iff.mpr hn)
      (hp.mem_iff.mpr List.mem_cons_self)]
    show Except.ok (some (Content.mk (some source) (carry [] _))) = _
    rw [carry_filter_ordered hn hcan, List.filter_cons_of_neg (by simp),
      List.filter_eq_self.mpr (by simpa using h.unknown), hcarry]

/-! ## Trees -/

/-- The ordered members of a node describe it. -/
theorem describes_sorted {children : Option (List Json)} (he : e.WellFormed)
    (hnone : children = none → cs = none)
    (hsome : ∀ vs, children = some vs → childList (.arr vs) = .ok cs)
    (hsorted : ∀ vs, children = some vs → childList (.arr (Json.canonicalItems vs)) = .ok cs) :
    Describes e cs
      (Members.ordered (Json.canonicalMembers (knownMembers e children ++ e.extra))) := by
  have hd := describes_written he hnone hsome
  have hcan := Json.canonicalMembers_isCanonical (knownMembers e children ++ e.extra)
  refine Describes.ordered ⟨?_, ?_, ?_, ?_⟩ hcan
  · rw [Json.canonicalMembers_keys]
    exact hd.nodup
  · intro m hm
    rw [Json.canonicalMembers_eq_map, List.mem_map] at hm
    obtain ⟨m, hm, rfl⟩ := hm
    have hkey : ∀ key ∈ knownKeys, m.1 = key → m ∈ knownMembers e children := by
      rintro key hkey rfl
      rcases List.mem_append.mp hm with hm | hm
      · exact hm
      · exact absurd hkey (he.unknown m hm)
    refine (hd.fits m hm).canonical ?_ ?_
    · intro hc
      have hmem := hkey "children" (by decide) hc
      obtain ⟨k, v⟩ := m
      subst hc
      simp [knownMembers, mem_optionalMember, mem_listMember] at hmem
      obtain ⟨vs, hvs, rfl⟩ := hmem
      exact hsorted vs hvs
    · intro hc
      have hmem := hkey "content" (by decide) hc
      obtain ⟨k, v⟩ := m
      subst hc
      simp [knownMembers, mem_optionalMember, mem_listMember] at hmem
      obtain ⟨c, hc, rfl⟩ := hmem
      rw [hc]
      exact optionalContent_sorted (he.content c hc)
  · rw [Json.canonicalMembers_keys]
    exact hd.lacks
  · refine Eq.trans ?_ hd.extra
    rw [Json.canonicalMembers_eq_map, List.filter_map, carry, List.foldl_map]
    refine List.foldl_ext _ _ _ fun acc m _ => ?_
    rw [Json.canonical_eq_self (Json.canonical_isCanonical m.2)]

mutual
theorem node_sorted : ∀ {n : Node}, (∀ m ∈ n.preorder, m.entry.WellFormed) →
    node (ofNode n).canonical = .ok n
  | .mk e none, h => by
    rw [ofNode, ofEntry_eq, Json.canonical]
    exact node_describes
      (describes_sorted (h _ List.mem_cons_self) (fun _ => rfl) (by simp) (by simp))
  | .mk e (some cs), h => by
    have hcs : ∀ m ∈ Node.preorderAll cs, m.entry.WellFormed :=
      fun m hm => h m (List.mem_cons_of_mem _ hm)
    rw [ofNode, ofEntry_eq, Json.canonical]
    refine node_describes (describes_sorted (h _ List.mem_cons_self) (by simp) ?_ ?_)
    · rintro vs ⟨⟩
      rw [childList, nodes_ofNodes hcs]
    · rintro vs ⟨⟩
      rw [childList, nodes_sorted hcs]

theorem nodes_sorted : ∀ {ns : List Node}, (∀ m ∈ Node.preorderAll ns, m.entry.WellFormed) →
    nodes (Json.canonicalItems (ofNodes ns)) = .ok ns
  | [], _ => by rw [ofNodes, Json.canonicalItems, nodes]
  | n :: ns, h => by
    rw [Node.preorderAll] at h
    rw [ofNodes, Json.canonicalItems, nodes,
      node_sorted fun m hm => h m (List.mem_append_left _ hm)]
    simp only [nodes_sorted fun m hm => h m (List.mem_append_right _ hm)]
end

mutual
theorem canonical_isIntegral : ∀ {v : Json}, v.IsIntegral → v.canonical.IsIntegral
  | .null, h | .bool _, h | .num _, h | .str _, h => h
  | .arr items, h => isIntegral_arr.mpr (canonicalItems_isIntegral (isIntegral_arr.mp h))
  | .obj members, h => isIntegral_obj.mpr fun m hm => by
      rcases Members.mem_foldl_insert hm with hm | hm
      · exact canonicalMembers_isIntegral (isIntegral_obj.mp h) m hm
      · cases hm

theorem canonicalItems_isIntegral : ∀ {vs : List Json}, (∀ v ∈ vs, v.IsIntegral) →
    ∀ v ∈ Json.canonicalItems vs, v.IsIntegral
  | [], _, v, hv => by cases hv
  | w :: vs, h, v, hv => by
    rcases List.mem_cons.mp hv with rfl | hv
    · exact canonical_isIntegral (h w List.mem_cons_self)
    · exact canonicalItems_isIntegral (fun x hx => h x (List.mem_cons_of_mem w hx)) v hv

theorem canonicalMembers_isIntegral : ∀ {ms : Members}, (∀ m ∈ ms, m.2.IsIntegral) →
    ∀ m ∈ Json.canonicalMembers ms, m.2.IsIntegral
  | [], _, m, hm => by cases hm
  | (k, v) :: ms, h, m, hm => by
    rcases List.mem_cons.mp hm with rfl | hm
    · exact canonical_isIntegral (h (k, v) List.mem_cons_self)
    · exact canonicalMembers_isIntegral (fun x hx => h x (List.mem_cons_of_mem _ hx)) m hm
end

/-- A well-formed tree reads back from its compact text with the keys in order. -/
theorem parse_compactSorted {t : Node} (ht : t.WellFormed) (hi : t.IsIntegral)
    (hd : (ofNode t).canonical.depth ≤ Json.maxDepth) : parse t.compactSorted = .ok t := by
  rw [parse, Node.compactSorted,
    Json.parse?_compact (canonical_isIntegral (ofNode_isIntegral hi)) hd]
  simp only [node_sorted ht.entry, Except.map, Node.normalize_eq_self ht.listed]

end SourceAtlas.Document

import SourceAtlas.Proofs.Tree.WellFormed

/-! # What the members of a node were

A node that was read tells what stood in its document: since a known key stands only once, the kind
of the node is what the member for it gives, and its child list what the member for that gives,
wherever the two stand among the others. One member is followed first, then all of them. -/

namespace SourceAtlas.Document

open Json (Members)

/-! ## One member -/

/-- What taking in a member does to a draft, as far as the kind and the child list go. -/
structure Draft.Takes (d : Draft) (m : String × Json) (d' : Draft) : Prop where
  new : m.1 ∉ d.seen
  seen : ∀ key ∈ knownKeys, key = m.1 ∨ key ∈ d.seen → key ∈ d'.seen
  kind : if m.1 = "type" then (Document.kind m.2).map some = .ok d'.kind else d'.kind = d.kind
  children : if m.1 = "children" then childList m.2 = .ok d'.children else d'.children = d.children

/-- A member other than the child list leaves what was seen and the child list as they are. -/
theorem Draft.take_eq_ok {d d' : Draft} {key : String} {value : Json} (hkey : key ≠ "children")
    (h : d.take key value = .ok d') : d'.seen = d.seen ∧ d'.children = d.children ∧
      if key = "type" then (Document.kind value).map some = .ok d'.kind else d'.kind = d.kind := by
  unfold Draft.take at h
  split at h
  case h_2 =>
    obtain ⟨k, hk, h⟩ := bind_eq_ok h
    cases h
    rw [hk]
    exact ⟨rfl, rfl, rfl⟩
  case h_10 _ htype _ _ _ _ _ _ _ =>
    cases h
    rw [if_neg htype]
    exact ⟨rfl, rfl, rfl⟩
  all_goals
    obtain ⟨_, _, h⟩ := bind_eq_ok h
    cases h
    exact ⟨rfl, rfl, rfl⟩

/-- Reading goes on with the draft that the first member gives. -/
theorem membersFrom_cons {d : Draft} {m : String × Json} {ms : Members} {n : Node}
    (h : membersFrom d (m :: ms) = .ok n) : ∃ d', d.Takes m d' ∧ membersFrom d' ms = .ok n := by
  obtain ⟨key, value⟩ := m
  rw [membersFrom] at h
  split at h
  · cases h
  · next hnew =>
    have hnew : key ∉ d.seen := by simpa using hnew
    -- the key is noted before the member is taken in
    obtain ⟨s, hs, hseen⟩ : ∃ s, (if knownKeys.contains key then { d with seen := key :: d.seen }
        else d) = { d with seen := s } ∧ ∀ k ∈ knownKeys, k = key ∨ k ∈ d.seen → k ∈ s := by
      by_cases hknown : knownKeys.contains key
      · exact ⟨key :: d.seen, if_pos hknown, fun k _ hk => List.mem_cons.mpr hk⟩
      · refine ⟨d.seen, if_neg hknown, ?_⟩
        intro k hk hor
        obtain rfl | hmem := hor
        · exact absurd (List.contains_iff_mem.mpr hk) hknown
        · exact hmem
    simp only [hs] at h
    split at h
    · next hkey =>
      split at h
      · next children hlist =>
        have htype : key ≠ "type" := by
          rw [hkey]
          decide
        refine ⟨_, ⟨hnew, hseen, ?_, ?_⟩, h⟩
        · rw [if_neg htype]
        · rw [if_pos hkey]
          exact hlist
      · cases h
    · next hkey =>
      split at h
      · next d' htake =>
        obtain ⟨hs', hchildren, hkind⟩ := Draft.take_eq_ok hkey htake
        refine ⟨d', ⟨hnew, ?_, hkind, ?_⟩, h⟩
        · rw [hs']
          exact hseen
        · rw [if_neg hkey]
          exact hchildren
      · cases h

/-! ## All members -/

/-- The draft that the members of a list make of one, taken in one after another. -/
inductive Draft.Reads : Draft → Members → Draft → Prop
  | done (d : Draft) : Reads d [] d
  | member {d d' d'' : Draft} {m : String × Json} {ms : Members} :
      d.Takes m d' → Reads d' ms d'' → Reads d (m :: ms) d''

theorem membersFrom_reads {d : Draft} {ms : Members} {n : Node} (h : membersFrom d ms = .ok n) :
    ∃ d', d.Reads ms d' ∧ d'.finish = .ok n := by
  induction ms generalizing d with
  | nil =>
    rw [membersFrom] at h
    exact ⟨d, .done d, h⟩
  | cons m ms ih =>
    obtain ⟨d', htakes, h⟩ := membersFrom_cons h
    obtain ⟨d'', hreads, hfinish⟩ := ih h
    exact ⟨d'', .member htakes hreads, hfinish⟩

namespace Draft.Reads

variable {d d' : Draft} {ms : Members}

/-- A known key that was seen does not come again. -/
theorem unseen (h : d.Reads ms d') {key : String} (hknown : key ∈ knownKeys)
    (hseen : key ∈ d.seen) :
    ∀ v, (key, v) ∉ ms := by
  induction h with
  | done d => simp
  | @member d d' d'' m ms htakes _ ih =>
    intro v hv
    obtain rfl | hv := List.mem_cons.mp hv
    · exact htakes.new hseen
    · exact ih (htakes.seen key hknown (.inr hseen)) v hv

/-- A field that only the member with a known key sets holds what that member gives, or what it held
before where there is no such member. -/
theorem field {β : Type} (f : Draft → β) (key : String) (read : Json → Except Fault β)
    (hknown : key ∈ knownKeys) (hstep : ∀ {d m d'}, Draft.Takes d m d' →
      if m.1 = key then read m.2 = .ok (f d') else f d' = f d) (h : d.Reads ms d') :
    (∀ v, (key, v) ∈ ms → read v = .ok (f d')) ∧ ((∀ v, (key, v) ∉ ms) → f d' = f d) := by
  induction h with
  | done d => simp
  | @member d d' d'' m ms htakes hreads ih =>
    obtain ⟨hread, hsame⟩ := ih
    have hm := hstep htakes
    by_cases hkey : m.1 = key
    · -- the member sets the field, and no other does
      have hnone := hreads.unseen hknown (htakes.seen key hknown (.inl hkey.symm))
      rw [if_pos hkey, ← hsame hnone] at hm
      refine ⟨?_, fun h => absurd (by simp [← hkey]) (h m.2)⟩
      intro v hv
      obtain rfl | hv := List.mem_cons.mp hv
      · exact hm
      · exact absurd hv (hnone v)
    · rw [if_neg hkey] at hm
      refine ⟨?_, fun h => (hsame fun v hv => h v (List.mem_cons_of_mem m hv)).trans hm⟩
      intro v hv
      obtain rfl | hv := List.mem_cons.mp hv
      · exact absurd rfl hkey
      · exact hread v hv

end Draft.Reads

/-! ## The node -/

theorem Draft.finish_eq_ok {d : Draft} {n : Node} (h : d.finish = .ok n) :
    d.kind = some n.kind ∧ d.children = n.listed := by
  unfold Draft.finish at h
  split at h
  · next hkind =>
    cases h
    exact ⟨hkind, rfl⟩
  · cases h

/-- The kind of a node that was read is the one that its document gives, and so is its child
list. -/
structure FromMembers (ms : Members) (n : Node) : Prop where
  kind : ∃ v, ("type", v) ∈ ms
  kind_eq : ∀ v, ("type", v) ∈ ms → Document.kind v = .ok n.kind
  listed_eq : ∀ v, ("children", v) ∈ ms → childList v = .ok n.listed
  unlisted : (∀ v, ("children", v) ∉ ms) → n.listed = none

theorem node_fromMembers {v : Json} {n : Node} (h : node v = .ok n) :
    ∃ ms, v = .obj ms ∧ FromMembers ms n := by
  unfold node at h
  split at h
  · next ms =>
    obtain ⟨d, hreads, hfinish⟩ := membersFrom_reads h
    obtain ⟨hkind, hlisted⟩ := Draft.finish_eq_ok hfinish
    obtain ⟨htype, hdefault⟩ := hreads.field Draft.kind "type"
      (fun v => (Document.kind v).map some) (by decide) Draft.Takes.kind
    obtain ⟨hlist, hunlisted⟩ := hreads.field Draft.children "children" childList
      (by decide) Draft.Takes.children
    refine ⟨ms, rfl, ?_, ?_, ?_, ?_⟩
    · by_contra hnone
      have := hdefault fun v hv => hnone ⟨v, hv⟩
      rw [hkind] at this
      cases this
    · intro v hv
      have hread := htype v hv
      rw [hkind] at hread
      cases hk : Document.kind v with
      | error e => simp [hk, Except.map] at hread
      | ok k => simpa [hk, Except.map] using hread
    · intro v hv
      rw [← hlisted]
      exact hlist v hv
    · intro hnone
      rw [← hlisted]
      exact hunlisted hnone
  · cases h

/-- Every item of a list is read as one of the nodes, and every node from one of the items. -/
theorem nodes_items {items : List Json} {ns : List Node} (h : nodes items = .ok ns) :
    (∀ v ∈ items, ∃ n ∈ ns, node v = .ok n) ∧ ∀ n ∈ ns, ∃ v ∈ items, node v = .ok n := by
  induction items generalizing ns with
  | nil =>
    rw [nodes] at h
    cases h
    simp
  | cons v items ih =>
    rw [nodes] at h
    split at h
    · cases h
    · next n hn =>
      split at h
      · cases h
      · next rest hrest =>
        cases h
        obtain ⟨hitems, hnodes⟩ := ih hrest
        constructor
        · intro w hw
          obtain rfl | hw := List.mem_cons.mp hw
          · exact ⟨n, List.mem_cons_self, hn⟩
          · obtain ⟨m, hm, hread⟩ := hitems w hw
            exact ⟨m, List.mem_cons_of_mem n hm, hread⟩
        · intro m hm
          obtain rfl | hm := List.mem_cons.mp hm
          · exact ⟨v, List.mem_cons_self, hn⟩
          · obtain ⟨w, hw, hread⟩ := hnodes m hm
            exact ⟨w, List.mem_cons_of_mem v hw, hread⟩

/-- A child list is left out or read from the items of a list. -/
theorem childList_cases {v : Json} {children : Option (List Node)}
    (h : childList v = .ok children) :
    (v = .null ∧ children = none) ∨
      ∃ items ns, v = .arr items ∧ children = some ns ∧ nodes items = .ok ns := by
  unfold childList at h
  split at h
  · cases h
    exact .inl ⟨rfl, rfl⟩
  · next items =>
    split at h
    · next ns hnodes =>
      cases h
      exact .inr ⟨items, ns, rfl, rfl, hnodes⟩
    · cases h
  · cases h

namespace FromMembers

variable {ms : Members} {n : Node}

/-- The items of a child list are read as the children. -/
theorem children (h : FromMembers ms n) {items : List Json}
    (hitems : ("children", .arr items) ∈ ms) :
    n.listed.isSome ∧ nodes items = .ok n.children := by
  obtain ⟨hnull, _⟩ | ⟨items, ns, hv, hns, hnodes⟩ := childList_cases (h.listed_eq _ hitems)
  · cases hnull
  · cases hv
    rw [Node.children, hns]
    exact ⟨rfl, hnodes⟩

/-- Children that a node lists stand in its document. -/
theorem exists_items (h : FromMembers ms n) (hlisted : n.listed.isSome) :
    ∃ items, ("children", .arr items) ∈ ms := by
  by_cases hex : ∃ v, ("children", v) ∈ ms
  · obtain ⟨v, hv⟩ := hex
    obtain ⟨_, hnone⟩ | ⟨items, _, rfl, _⟩ := childList_cases (h.listed_eq v hv)
    · simp [hnone] at hlisted
    · exact ⟨items, hv⟩
  · simp [h.unlisted fun v hv => hex ⟨v, hv⟩] at hlisted

end FromMembers

end SourceAtlas.Document
